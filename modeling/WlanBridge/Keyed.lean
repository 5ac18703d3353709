import Mathlib.Algebra.BigOperators.Group.List.Basic
import Mathlib.Algebra.Group.Pi.Basic
import Mathlib.Data.List.Nodup

/-! Insertion-ordered keyed lists: the application order of an intrusive hash table
whose elements carry their own key. Lookup returns the first element with the key. And
ledgers: what a history of charges leaves on an account, in whatever order they came. -/
namespace WlanBridge.Keyed

variable {α κ : Type} [DecidableEq κ] (key : α → κ)

def find (l : List α) (k : κ) : Option α := l.find? (fun a => key a == k)

def add (l : List α) (a : α) : List α := l ++ [a]

/-- Update in place through the pointer that a lookup returned. -/
def adjust (l : List α) (k : κ) (f : α → α) : List α :=
  match l with
  | [] => []
  | a :: rest => if key a == k then f a :: rest else a :: adjust rest k f

variable {key} {l : List α} {a : α} {k : κ}

theorem find_key (found : find key l k = some a) : key a = k := by
  have same := List.find?_some found
  simpa using same

theorem find_mem (found : find key l k = some a) : a ∈ l := List.mem_of_find?_eq_some found

theorem find_eq_none : find key l k = none ↔ k ∉ l.map key := by
  simp [find]

theorem find_isSome : (find key l k).isSome ↔ k ∈ l.map key := by
  rw [← Option.ne_none_iff_isSome, ne_eq, find_eq_none, not_not]

theorem find_of_mem (distinct : (l.map key).Nodup) (member : a ∈ l) : find key l (key a) = some a := by
  have present : (find key l (key a)).isSome := find_isSome.mpr (List.mem_map_of_mem member)
  obtain ⟨b, found⟩ := Option.isSome_iff_exists.mp present
  rw [found, List.inj_on_of_nodup_map distinct (find_mem found) member (find_key found)]

theorem find_add (l : List α) (a : α) (k : κ) :
    find key (add l a) k = (find key l k).or (if k = key a then some a else none) := by
  by_cases same : k = key a
  · simp [find, add, List.find?_append, same]
  · have apart : ¬key a = k := fun h => same h.symm
    simp [find, add, List.find?_append, same, apart]

theorem add_nodup (distinct : (l.map key).Nodup) (absent : find key l (key a) = none) :
    ((add l a).map key).Nodup := by
  simp only [add, List.map_append, List.map_cons, List.map_nil]
  rw [← List.concat_eq_append]
  exact distinct.concat (find_eq_none.mp absent)

theorem filter_key (distinct : (l.map key).Nodup) (k : κ) :
    (l.filter fun a => key a = k) = (find key l k).toList := by
  induction l with
  | nil => rfl
  | cons a rest ih =>
    obtain ⟨fresh, later⟩ := List.nodup_cons.mp distinct
    by_cases here : key a = k
    · have none_ : find key rest k = none := find_eq_none.mpr (here ▸ fresh)
      have tail := ih later
      rw [none_, Option.toList_none] at tail
      simp [find, here, tail]
    · have tail := ih later
      simp only [find] at tail ⊢
      simp [here, tail]

theorem find_map (l : List α) (f : α → α) (keeps : ∀ a, key (f a) = key a) (k : κ) :
    find key (l.map f) k = (find key l k).map f := by
  simp only [find, List.find?_map, Function.comp_def, keeps]

theorem adjust_keys (l : List α) (k : κ) (f : α → α) (keeps : ∀ a, key (f a) = key a) :
    (adjust key l k f).map key = l.map key := by
  induction l with
  | nil => rfl
  | cons a rest ih =>
    rw [adjust]
    split
    · rw [List.map_cons, List.map_cons, keeps]
    · rw [List.map_cons, List.map_cons, ih]

theorem find_adjust (l : List α) (k : κ) (f : α → α) (keeps : ∀ a, key (f a) = key a) (other : κ) :
    find key (adjust key l k f) other = if other = k then (find key l k).map f else find key l other := by
  induction l with
  | nil => simp [find, adjust]
  | cons a rest ih =>
    by_cases here : key a = k
    · by_cases same : other = k
      · simp [find, adjust, here, same, keeps]
      · have apart : ¬k = other := fun h => same h.symm
        simp [find, adjust, here, same, keeps, apart]
    · rw [adjust, if_neg (by simpa using here)]
      by_cases mine : key a = other
      · have apart : ¬other = k := fun h => here (mine.trans h)
        simp [find, mine, apart]
      · simp only [find] at ih ⊢
        simp only [List.find?_cons, beq_eq_false_iff_ne.mpr mine, beq_eq_false_iff_ne.mpr here, ih]

end WlanBridge.Keyed

namespace WlanBridge.Ledger

variable {κ M ι : Type} [DecidableEq κ] [AddCommMonoid M]

def total (charges : List (κ × M)) : κ → M := fun k =>
  (charges.map fun c => if c.1 = k then c.2 else 0).sum

@[simp] theorem total_nil : total ([] : List (κ × M)) = 0 := rfl

theorem total_cons (c : κ × M) (rest : List (κ × M)) (k : κ) :
    total (c :: rest) k = (if c.1 = k then c.2 else 0) + total rest k := by
  simp [total]

theorem total_append (earlier later : List (κ × M)) :
    total (earlier ++ later) = total earlier + total later := by
  funext k
  simp [total]

theorem total_perm {charges charges' : List (κ × M)} (perm : charges.Perm charges') :
    total charges = total charges' := by
  funext k
  exact (perm.map _).sum_eq

theorem total_map (key : ι → κ) (amount : ι → M) (items : List ι) (k : κ) :
    total (items.map fun i => (key i, amount i)) k =
      ((items.filter fun i => key i = k).map amount).sum := by
  induction items with
  | nil => rfl
  | cons i rest ih =>
    rw [List.map_cons, total_cons, ih]
    by_cases here : key i = k
    · simp [here]
    · simp [here]

end WlanBridge.Ledger
