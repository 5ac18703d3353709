import Mathlib.Data.Finset.Card
import Mathlib.Data.Set.Insert
import Mathlib.Logic.Function.Basic

/-! Tables learned from a history of key-value sightings. A key keeps the value of
its first sighting; a history is a list in arrival order. An ideal switch sends each frame
to the ports that the table of first sightings, its own included, directs it to. -/
namespace WlanBridge.Learning

abbrev Table (κ ν : Type) := κ → Option ν

variable {κ ν : Type}

def empty : Table κ ν := fun _ => none

@[simp] theorem empty_apply (k : κ) : (empty : Table κ ν) k = none := rfl

section History
variable [DecidableEq κ]

def learn (t : Table κ ν) (k : κ) (v : ν) : Table κ ν :=
  Function.update t k (some ((t k).getD v))

def learnAll (t : Table κ ν) (history : List (κ × ν)) : Table κ ν :=
  history.foldl (fun t a => learn t a.1 a.2) t

def firstSeen (history : List (κ × ν)) : Table κ ν := fun k => history.lookup k

def lastSeen (history : List (κ × ν)) : Table κ ν := firstSeen history.reverse

theorem learn_self (t : Table κ ν) (k : κ) (v : ν) : learn t k v k = some ((t k).getD v) := by
  simp [learn]

theorem learn_other (t : Table κ ν) (v : ν) (h : other ≠ k) : learn t k v other = t other := by
  simp [learn, h]

theorem learn_apply (t : Table κ ν) (k : κ) (v : ν) (other : κ) :
    learn t k v other = (t other).or (if other = k then some v else none) := by
  by_cases same : other = k
  · subst other
    rw [learn_self]
    cases t k <;> simp
  · rw [learn_other t v same]
    simp [same]

theorem learn_known (t : Table κ ν) (v : ν) (known : t k = some w) : learn t k v = t := by
  funext other
  rw [learn_apply]
  by_cases same : other = k
  · subst other; simp [known]
  · simp [same]

theorem firstSeen_cons (k : κ) (v : ν) (rest : List (κ × ν)) (other : κ) :
    firstSeen ((k, v) :: rest) other = (if other = k then some v else none).or (firstSeen rest other) := by
  by_cases same : other = k
  · subst other; simp [firstSeen]
  · have apart : (other == k) = false := by simpa using same
    simp [firstSeen, List.lookup_cons, apart, same]

theorem firstSeen_append (earlier later : List (κ × ν)) (k : κ) :
    firstSeen (earlier ++ later) k = (firstSeen earlier k).or (firstSeen later k) :=
  List.lookup_append

theorem learnAll_apply (t : Table κ ν) (history : List (κ × ν)) (k : κ) :
    learnAll t history k = (t k).or (firstSeen history k) := by
  induction history generalizing t with
  | nil => simp [learnAll, firstSeen]
  | cons a rest ih =>
    have step : learnAll t (a :: rest) = learnAll (learn t a.1 a.2) rest := rfl
    rw [step, ih, learn_apply, firstSeen_cons, Option.or_assoc]

theorem learnAll_empty (history : List (κ × ν)) : learnAll empty history = firstSeen history := by
  funext k
  simp [learnAll_apply]

theorem firstSeen_eq_none : firstSeen (history : List (κ × ν)) k = none ↔ k ∉ history.map Prod.fst := by
  induction history with
  | nil => simp [firstSeen]
  | cons a rest ih =>
    rw [firstSeen_cons]
    by_cases same : k = a.1
    · simp [same]
    · simpa [same] using ih

theorem firstSeen_eq_head (history : List (κ × ν)) (k : κ) :
    firstSeen history k = ((history.filter fun a => a.1 = k).head?).map Prod.snd := by
  induction history with
  | nil => rfl
  | cons a rest ih =>
    rw [firstSeen_cons, List.filter_cons]
    by_cases same : a.1 = k
    · simp [same]
    · have apart : ¬k = a.1 := fun h => same h.symm
      simp [same, apart, ih]

/-- How the sightings of different keys are interleaved does not matter. -/
theorem firstSeen_congr {history history' : List (κ × ν)}
    (same : ∀ k, (history.filter fun a => a.1 = k) = history'.filter fun a => a.1 = k) :
    firstSeen history = firstSeen history' := by
  funext k
  rw [firstSeen_eq_head, firstSeen_eq_head, same]

theorem firstSeen_isSome : (firstSeen (history : List (κ × ν)) k).isSome ↔ k ∈ history.map Prod.fst := by
  rw [← Option.ne_none_iff_isSome, ne_eq, firstSeen_eq_none, not_not]

theorem firstSeen_mem (seen : firstSeen (history : List (κ × ν)) k = some v) : (k, v) ∈ history := by
  rw [firstSeen_eq_head, Option.map_eq_some_iff] at seen
  obtain ⟨a, first, rfl⟩ := seen
  obtain ⟨member, key⟩ := List.mem_filter.mp (List.mem_of_head? first)
  exact of_decide_eq_true key ▸ member

section Keys
variable [DecidableEq ν]

/-- The keys whose first sighting had the value. -/
def keysOf (history : List (κ × ν)) (v : ν) : Finset κ :=
  (history.map Prod.fst).toFinset.filter fun k => firstSeen history k = some v

theorem mem_keysOf : k ∈ keysOf (history : List (κ × ν)) v ↔ firstSeen history k = some v := by
  rw [keysOf, Finset.mem_filter, List.mem_toFinset, ← firstSeen_isSome]
  constructor
  · exact And.right
  · intro seen
    exact ⟨by rw [seen]; rfl, seen⟩

theorem keysOf_subset (earlier later : List (κ × ν)) (v : ν) : keysOf earlier v ⊆ keysOf (earlier ++ later) v := by
  intro k member
  rw [mem_keysOf] at member ⊢
  rw [firstSeen_append, member, Option.some_or]

theorem keysOf_constant (one : ∀ a ∈ (history : List (κ × ν)), a.2 = v) :
    keysOf history v = (history.map Prod.fst).toFinset := by
  ext k
  rw [mem_keysOf, List.mem_toFinset, ← firstSeen_isSome]
  constructor
  · intro seen
    rw [seen]
    rfl
  · intro seen
    obtain ⟨w, first⟩ := Option.isSome_iff_exists.mp seen
    rw [first, ← one _ (firstSeen_mem first)]

end Keys

end History

def range (t : Table κ ν) : Set ν := {v | ∃ k, t k = some v}

/-- Group-addressed items and items for unknown keys go everywhere. -/
def Floods (group : κ → Prop) (t : Table κ ν) (dst : κ) : Prop := group dst ∨ t dst = none

/-- The values an item is directed to, never back to its origin. -/
def targets (group : κ → Prop) (t : Table κ ν) (dst : κ) (origin : ν) : Set ν :=
  {v | v ≠ origin ∧ (Floods group t dst ∧ v ∈ range t ∨ ¬Floods group t dst ∧ t dst = some v)}

theorem targets_flood (floods : Floods group (t : Table κ ν) dst) :
    targets group t dst origin = range t \ {origin} := by
  ext v
  simp only [targets, floods, true_and, not_true_eq_false, false_and, or_false, Set.mem_ofPred_eq,
    Set.mem_sdiff, Set.mem_singleton_iff]
  exact and_comm

theorem targets_known (alone : ¬group dst) (held : (t : Table κ ν) dst = some v) (apart : v ≠ origin) :
    targets group t dst origin = {v} := by
  ext w
  simp only [targets, Floods, alone, held, false_or, reduceCtorEq, false_and, not_false_eq_true,
    true_and, Option.some.injEq, Set.mem_ofPred_eq, Set.mem_singleton_iff]
  constructor
  · rintro ⟨_, rfl⟩; rfl
  · rintro rfl; exact ⟨apart, rfl⟩

theorem targets_home (alone : ¬group dst) (held : (t : Table κ ν) dst = some origin) :
    targets group t dst origin = ∅ := by
  ext w
  simp only [targets, Floods, alone, held, false_or, reduceCtorEq, false_and, not_false_eq_true,
    true_and, Option.some.injEq, Set.mem_ofPred_eq, Set.mem_empty_iff_false, iff_false]
  rintro ⟨apart, rfl⟩
  exact apart rfl

end WlanBridge.Learning

namespace WlanBridge.Switch

variable {ι κ φ : Type} [DecidableEq κ] (group : κ → Prop) (src dst : φ → κ)

def table (history : List (ι × φ)) : Learning.Table κ ι :=
  Learning.firstSeen (history.map fun a => (src a.2, a.1))

open Classical in
/-- What a port gets of a frame that comes behind `before`. -/
noncomputable def copies (before : List (ι × φ)) (a : ι × φ) (port : ι) : List φ :=
  if port ∈ Learning.targets group (table src (before ++ [a])) (dst a.2) a.1 then [a.2] else []

/-- What a port gets of some frames that come behind `before`, in order. -/
noncomputable def delivered (before : List (ι × φ)) : List (ι × φ) → ι → List φ
  | [], _ => []
  | a :: rest, port => copies group src dst before a port ++ delivered (before ++ [a]) rest port

theorem delivered_append (before earlier later : List (ι × φ)) (port : ι) :
    delivered group src dst before (earlier ++ later) port =
      delivered group src dst before earlier port ++ delivered group src dst (before ++ earlier) later port := by
  induction earlier generalizing before with
  | nil => simp [delivered]
  | cons a rest ih =>
    rw [List.cons_append, delivered, delivered, ih, List.append_assoc, List.append_assoc]
    rfl

theorem table_concat (before : List (ι × φ)) (a : ι × φ) :
    table src (before ++ [a]) = Learning.learn (table src before) (src a.2) a.1 := by
  funext k
  rw [table, List.map_append, Learning.firstSeen_append, Learning.learn_apply]
  simp only [List.map_cons, List.map_nil, Learning.firstSeen_cons, table]
  congr 1
  simp [Learning.firstSeen]

end WlanBridge.Switch
