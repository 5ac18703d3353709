import WlanBridge.UthashInvariant
import WlanBridge.Utlist
import Mathlib.Data.List.Perm.Subperm

/-! Stores in memory as lists of what their elements hold: a hash whose elements carry
their key, and a ring. Lookups, additions, changes in place and traversals of the one are
those of the other. -/
namespace WlanBridge

theorem length_le_of_lt {xs : List Nat} (distinct : xs.Nodup) (bound : ∀ x ∈ xs, x < next) : xs.length ≤ next := by
  have inside : xs ⊆ List.range next := fun x member => List.mem_range.mpr (bound x member)
  simpa using (List.subperm_of_subset distinct inside).length_le

section Hashes
variable {κ ε : Type} {hash : κ → U32} {key : ε → κ}

/-- The elements of the hash, in application order, hold these entries under distinct keys;
pointers from `next` on are not in use. -/
structure Represents (hash : κ → U32) (key : ε → κ) (t : UTHash κ) (cell : Nat → ε) (next : Nat)
    (entries : List ε) : Prop where
  elements : ∃ xs, t.Holds hash xs ∧ (∀ x ∈ xs, x < next) ∧ (∀ x ∈ xs, key (cell x) = t.key x) ∧ xs.map cell = entries
  keys : (entries.map key).Nodup

theorem represents_empty [Inhabited κ] (cell : Nat → ε) (next : Nat) :
    Represents hash key (.empty : UTHash κ) cell next [] :=
  ⟨⟨[], UTHash.empty_holds hash, by simp, by simp, rfl⟩, List.nodup_nil⟩

theorem Represents.later {t : UTHash κ} (stored : Represents hash key t cell next entries) (more : next ≤ next') :
    Represents hash key t cell next' entries := by
  obtain ⟨⟨xs, holds, bound, own, cells⟩, keys⟩ := stored
  exact ⟨⟨xs, holds, fun x member => Nat.lt_of_lt_of_le (bound x member) more, own, cells⟩, keys⟩

variable [DecidableEq κ]

theorem map_update {cell : Nat → ε} {xs : List Nat} (keys : ((xs.map cell).map key).Nodup) (member : x ∈ xs)
    (f : ε → ε) :
    xs.map (Function.update cell x (f (cell x))) = Keyed.adjust key (xs.map cell) (key (cell x)) f := by
  induction xs with
  | nil => exact absurd member List.not_mem_nil
  | cons y rest ih =>
    rw [List.map_cons, List.map_cons] at keys
    obtain ⟨fresh, later⟩ := List.nodup_cons.mp keys
    have elsewhere {z : Nat} (inRest : z ∈ rest) : key (cell z) ∈ (rest.map cell).map key :=
      List.mem_map_of_mem (List.mem_map_of_mem inRest)
    by_cases here : y = x
    · subst here
      have apart : ∀ z ∈ rest, z ≠ y := fun z inRest same => fresh (same ▸ elsewhere inRest)
      have others : rest.map (Function.update cell y (f (cell y))) = rest.map cell :=
        List.map_congr_left fun z inRest => Function.update_of_ne (apart z inRest) _ _
      simp [Keyed.adjust, others]
    · have inRest : x ∈ rest := (List.mem_cons.mp member).resolve_left fun same => here same.symm
      have apart : key (cell y) ≠ key (cell x) := fun same => fresh (same ▸ elsewhere inRest)
      simp [Keyed.adjust, here, apart, ih later inRest]

theorem Represents.find {t : UTHash κ} (stored : Represents hash key t cell next entries) (k : κ) (enough : next ≤ fuel) :
    (hashFind hash fuel t k = some none ∧ Keyed.find key entries k = none) ∨
    ∃ x, hashFind hash fuel t k = some (some x) ∧ Keyed.find key entries k = some (cell x) ∧
      ∀ f : ε → ε, (∀ e, key (f e) = key e) →
        Represents hash key t (Function.update cell x (f (cell x))) next (Keyed.adjust key entries k f) := by
  obtain ⟨⟨xs, holds, bound, own, rfl⟩, keys⟩ := stored
  have short := length_le_of_lt holds.distinct bound
  obtain ⟨out, searched, result⟩ := hashFind_spec holds k (Nat.le_trans short enough)
  cases out with
  | none =>
    refine Or.inl ⟨searched, Keyed.find_eq_none.mpr ?_⟩
    simp only [List.mem_map]
    rintro ⟨_, ⟨x, member, rfl⟩, same⟩
    exact (result x).2 rfl member ((own x member).symm.trans same)
  | some x =>
    obtain ⟨member, same⟩ := (result x).1 rfl
    have k_eq : k = key (cell x) := (same.symm.trans (own x member).symm)
    refine Or.inr ⟨x, searched, ?_, fun f keeps => ⟨⟨xs, holds, bound, fun y inTable => ?_, ?_⟩, ?_⟩⟩
    · rw [k_eq]
      exact Keyed.find_of_mem keys (List.mem_map_of_mem member)
    · by_cases here : y = x
      · rw [here, Function.update_self, keeps, own x member]
      · rw [Function.update_of_ne here, own y inTable]
    · rw [k_eq]
      exact map_update keys member f
    · rw [Keyed.adjust_keys _ _ _ keeps]
      exact keys

theorem Represents.add {t : UTHash κ} (stored : Represents hash key t cell next entries) (e : ε)
    (absent : Keyed.find key entries (key e) = none) (enough : next < fuel) :
    ∃ t', hashAdd hash fuel t next (key e) = some t' ∧
      Represents hash key t' (Function.update cell next e) (next + 1) (Keyed.add entries e) := by
  obtain ⟨⟨xs, holds, bound, own, rfl⟩, keys⟩ := stored
  have short := length_le_of_lt holds.distinct bound
  have apart : ∀ x ∈ xs, x ≠ next := fun x member => Nat.ne_of_lt (bound x member)
  obtain ⟨t', added, holds', key'⟩ := hashAdd_holds holds (fun member => apart next member rfl) (key e)
    (Nat.lt_of_le_of_lt short enough)
  have others : xs.map (Function.update cell next e) = xs.map cell :=
    List.map_congr_left fun x member => Function.update_of_ne (apart x member) _ _
  refine ⟨t', added, ⟨xs ++ [next], holds', ?_, ?_, ?_⟩, Keyed.add_nodup keys absent⟩
  · intro x member
    rcases List.mem_append.mp member with old | new
    · exact Nat.lt_succ_of_lt (bound x old)
    · rw [List.mem_singleton.mp new]
      exact Nat.lt_succ_self next
  · intro x member
    rw [key']
    rcases List.mem_append.mp member with old | new
    · rw [Function.update_of_ne (apart x old), Function.update_of_ne (apart x old), own x old]
    · rw [List.mem_singleton.mp new, Function.update_self, Function.update_self]
  · simp [others, Keyed.add]

end Hashes

section Rings
variable {ε σ : Type}

/-- The elements of the ring hold these entries; pointers from `next` on are not in use. -/
def Listed (l : Cdl) (cell : Nat → ε) (next : Nat) (entries : List ε) : Prop :=
  ∃ ys, l.Holds ys ∧ (∀ y ∈ ys, y < next) ∧ ys.map cell = entries

theorem listed_empty (cell : Nat → ε) (next : Nat) : Listed .empty cell next [] := ⟨[], empty_holds, by simp, rfl⟩

theorem Listed.later {cell : Nat → ε} (listed : Listed l cell next entries) (more : next ≤ next') :
    Listed l cell next' entries := by
  obtain ⟨ys, holds, bound, cells⟩ := listed
  exact ⟨ys, holds, fun y member => Nat.lt_of_lt_of_le (bound y member) more, cells⟩

theorem Listed.frame {cell : Nat → ε} (listed : Listed l cell next entries) (e : ε) :
    Listed l (Function.update cell next e) next entries := by
  obtain ⟨ys, holds, bound, rfl⟩ := listed
  refine ⟨ys, holds, bound, List.map_congr_left fun y member => Function.update_of_ne ?_ _ _⟩
  exact Nat.ne_of_lt (bound y member)

theorem Listed.prepend {cell : Nat → ε} (listed : Listed l cell next entries) :
    ∃ l', cdlPrepend l next = some l' ∧ Listed l' cell (next + 1) (cell next :: entries) := by
  obtain ⟨ys, holds, bound, rfl⟩ := listed
  obtain ⟨l', pushed, holds'⟩ := cdlPrepend_holds holds fun member => Nat.lt_irrefl next (bound next member)
  refine ⟨l', pushed, next :: ys, holds', ?_, rfl⟩
  intro y member
  rcases List.mem_cons.mp member with rfl | old
  · exact Nat.lt_succ_self y
  · exact Nat.lt_succ_of_lt (bound y old)

theorem Listed.foreach {l : Cdl} {cell : Nat → ε} (listed : Listed l cell next entries) {list : σ → Cdl}
    {body : Nat → σ → Option (Bool × σ)} (inv : List ε → σ → Prop) (post : σ → Prop)
    (same : ∀ done s, inv done s → list s = l)
    (step : ∀ done el rest s, entries = done ++ cell el :: rest → inv done s →
      ∃ go s', body el s = some (go, s') ∧ (go = true ∧ inv (done ++ [cell el]) s' ∨ go = false ∧ post s'))
    (finish : ∀ s, inv entries s → post s) {s : σ} (start : inv [] s) (enough : next ≤ fuel) :
    ∃ s', cdlForeachSafe list body fuel s = some s' ∧ post s' := by
  obtain ⟨ys, holds, bound, rfl⟩ := listed
  refine cdlForeachSafe_spec (fun done s => inv (done.map cell) s) post (fun done s reached => ?_) ?_ finish start
    (Nat.le_trans (length_le_of_lt holds.distinct bound) enough)
  · rw [same _ s reached]
    exact holds
  · rintro done el rest s rfl reached
    obtain ⟨go, s', ran, result⟩ := step (done.map cell) el (rest.map cell) s (by simp) reached
    exact ⟨go, s', ran, by simpa using result⟩

end Rings

end WlanBridge
