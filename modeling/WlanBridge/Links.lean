import Mathlib.Data.List.Nodup
import Mathlib.Logic.Function.Basic

/-! Intrusive doubly linked lists: two link fields in every element, null-terminated or
closed to a ring, and the loops that follow the links. A pointer is an element of any
type with decidable equality; the heap of links is a map from pointers. -/
namespace WlanBridge.Links

structure Link (α : Type) where
  prev : Option α
  next : Option α
  deriving DecidableEq, Repr

abbrev Heap (α : Type) := α → Link α

variable {α σ : Type}

/-- The elements of the list are linked in its order, between a predecessor and a successor. -/
def Chain (h : Heap α) : Option α → List α → Option α → Prop
  | _, [], _ => True
  | before, a :: rest, after =>
    (h a).prev = before ∧ (h a).next = rest.head?.or after ∧ Chain h (some a) rest after

/-- The last element is linked to the first one. -/
def Ring (h : Heap α) (l : List α) : Prop := Chain h l.getLast? l l.head?

theorem Chain.frame {h h' : Heap α} (linked : Chain h before l after) (same : ∀ a ∈ l, h' a = h a) :
    Chain h' before l after := by
  induction l generalizing before with
  | nil => trivial
  | cons a rest ih =>
    obtain ⟨back, forth, later⟩ := linked
    have here : h' a = h a := same a List.mem_cons_self
    exact ⟨by rw [here, back], by rw [here, forth], ih later fun x member => same x (List.mem_cons_of_mem _ member)⟩

theorem chain_append (h : Heap α) (before : Option α) (l r : List α) (after : Option α) :
    Chain h before (l ++ r) after ↔
      Chain h before l (r.head?.or after) ∧ Chain h (l.getLast?.or before) r after := by
  induction l generalizing before with
  | nil => simp [Chain]
  | cons a rest ih =>
    have last : (a :: rest).getLast?.or before = rest.getLast?.or (some a) := by
      rw [List.getLast?_cons]
      cases rest.getLast? <;> rfl
    rw [List.cons_append, Chain, Chain, ih, last]
    cases rest <;> simp [and_assoc]

theorem last_split {l : List α} (distinct : l.Nodup) (some_last : l.getLast? = some last) :
    ∃ init, l = init ++ [last] ∧ last ∉ init := by
  have split := List.dropLast_append_getLast? _ some_last
  refine ⟨l.dropLast, split.symm, fun member => ?_⟩
  rw [← split, List.nodup_append] at distinct
  exact distinct.2.2 last member last List.mem_cons_self rfl

/-- A loop over pointers within `fuel` turns: a turn works on the element it is given and
says where the loop goes on. There is no result when a turn has none. -/
def walk (turn : α → σ → Option (Option α × σ)) : Nat → Option α → σ → Option σ
  | _, none, s => some s
  | 0, some _, _ => none
  | fuel + 1, some el, s => (turn el s).bind fun (el, s) => walk turn fuel el s

theorem walk_invariant {turn : α → σ → Option (Option α × σ)} (inv : σ → Prop)
    (keeps : ∀ el s next t, inv s → turn el s = some (next, t) → inv t) {s t : σ} (start : inv s) {fuel : Nat}
    {el : Option α} (left : walk turn fuel el s = some t) : inv t := by
  induction fuel generalizing el s with
  | zero =>
    cases el with
    | none => exact Option.some.inj left ▸ start
    | some el => cases left
  | succ fuel ih =>
    cases el with
    | none => exact Option.some.inj left ▸ start
    | some el =>
      obtain ⟨⟨next, m⟩, turned, rest⟩ := Option.bind_eq_some_iff.mp left
      exact ih (keeps el s next m start turned) rest

/-- A loop that goes through a list in order, unless a turn ends it early, is left within
as many turns as the list is long. -/
theorem walk_spec {turn : α → σ → Option (Option α × σ)} {l : List α} (inv : List α → σ → Prop) (post : σ → Prop)
    (step : ∀ done a rest s, l = done ++ a :: rest → inv done s →
      ∃ el s', turn a s = some (el, s') ∧ (el = rest.head? ∧ inv (done ++ [a]) s' ∨ el = none ∧ post s'))
    (finish : ∀ s, inv l s → post s) {s : σ} (start : inv [] s) {fuel : Nat} (enough : l.length ≤ fuel) :
    ∃ s', walk turn fuel l.head? s = some s' ∧ post s' := by
  suffices claim : ∀ rest done s fuel, l = done ++ rest → inv done s → rest.length ≤ fuel →
      ∃ s', walk turn fuel rest.head? s = some s' ∧ post s' from claim l [] s fuel rfl start enough
  intro rest
  induction rest with
  | nil =>
    intro done s fuel split holds _
    rw [List.append_nil] at split
    exact ⟨s, by simp [walk], finish s (split ▸ holds)⟩
  | cons a rest ih =>
    intro done s fuel split holds bound
    obtain ⟨fuel, rfl⟩ : ∃ n, fuel = n + 1 := ⟨fuel - 1, by simp at bound; omega⟩
    obtain ⟨el, s', turned, ⟨rfl, kept⟩ | ⟨rfl, result⟩⟩ := step done a rest s split holds
    · obtain ⟨last, left, result⟩ := ih (done ++ [a]) s' fuel (by simp [split]) kept (by simpa using bound)
      exact ⟨last, by simp [walk, turned, left], result⟩
    · exact ⟨s', by simp [walk, turned], result⟩

section Stores
variable [DecidableEq α]

def setPrev (h : Heap α) (a : α) (p : Option α) : Heap α := Function.update h a { h a with prev := p }

def setNext (h : Heap α) (a : α) (p : Option α) : Heap α := Function.update h a { h a with next := p }

@[simp] theorem setPrev_same (h : Heap α) (a : α) (p : Option α) : setPrev h a p a = ⟨p, (h a).next⟩ := by
  simp [setPrev]

@[simp] theorem setNext_same (h : Heap α) (a : α) (p : Option α) : setNext h a p a = ⟨(h a).prev, p⟩ := by
  simp [setNext]

@[simp] theorem setPrev_other (h : Heap α) (p : Option α) (apart : x ≠ a) : setPrev h a p x = h x := by
  simp [setPrev, apart]

@[simp] theorem setNext_other (h : Heap α) (p : Option α) (apart : x ≠ a) : setNext h a p x = h x := by
  simp [setNext, apart]

theorem Chain.setPrev_head {h : Heap α} (linked : Chain h before (a :: rest) after) (fresh : a ∉ rest)
    (before' : Option α) : Chain (setPrev h a before') before' (a :: rest) after := by
  obtain ⟨_, forth, later⟩ := linked
  refine ⟨by simp, by simpa using forth, later.frame fun x member => ?_⟩
  exact setPrev_other h before' fun same => fresh (same ▸ member)

theorem Chain.setNext_last {h : Heap α} (linked : Chain h before (init ++ [a]) after) (fresh : a ∉ init)
    (after' : Option α) : Chain (setNext h a after') before (init ++ [a]) after' := by
  obtain ⟨early, back, _, _⟩ := (chain_append h before init [a] after).mp linked
  refine (chain_append _ before init [a] after').mpr ⟨?_, ?_⟩
  · exact early.frame fun x member => setNext_other h after' fun same => fresh (same ▸ member)
  · exact ⟨by simpa using back, by simp, trivial⟩

/-- Push an element in front of a list with this head. -/
def push (h : Heap α) (head : Option α) (a : α) : Heap α :=
  let h := setPrev (setNext h a head) a none
  match head with
  | some b => setPrev h b (some a)
  | none => h

theorem push_other (h : Heap α) (l : List α) (notNew : x ≠ a) (notHead : x ∉ l) : push h l.head? a x = h x := by
  cases l with
  | nil => simp [push, notNew]
  | cons b rest => simp [push, notNew, List.ne_of_not_mem_cons notHead]

theorem push_chain {h : Heap α} (linked : Chain h none l none) (distinct : l.Nodup) (fresh : a ∉ l) :
    Chain (push h l.head? a) none (a :: l) none := by
  have untouched : Chain (setPrev (setNext h a l.head?) a none) none l none := by
    refine linked.frame fun x member => ?_
    have apart : x ≠ a := fun same => fresh (same ▸ member)
    rw [setPrev_other _ _ apart, setNext_other _ _ apart]
  cases l with
  | nil => simp [push, Chain]
  | cons b rest =>
    have apart : a ≠ b := List.ne_of_not_mem_cons fresh
    refine ⟨?_, ?_, ?_⟩
    · simp [push, apart]
    · simp [push, apart]
    · exact untouched.setPrev_head (List.nodup_cons.mp distinct).1 (some a)

theorem chain_concat {h : Heap α} (linked : Chain h none l none) (distinct : l.Nodup) (fresh : a ∉ l)
    (some_last : l.getLast? = some last) (own : Heap α) (same : ∀ x ∈ l, own x = h x)
    (back : (own a).prev = some last) (forth : (own a).next = none) :
    Chain (setNext own last (some a)) none (l ++ [a]) none := by
  obtain ⟨init, rfl, unlinked⟩ := last_split distinct some_last
  have notLast : a ≠ last := fun same => fresh (by simp [same])
  refine (chain_append _ none (init ++ [last]) [a] none).mpr ⟨?_, ?_⟩
  · exact (linked.frame same).setNext_last unlinked (some a)
  · exact ⟨by simp [notLast, back], by simp [notLast, forth], trivial⟩

/-- Stores at a new element, then at the first and at the last one, close the ring around it. -/
theorem ring_cons {h : Heap α} (ring : Ring h l) (distinct : l.Nodup) (fresh : a ∉ l)
    (some_head : l.head? = some first) (some_last : l.getLast? = some last) (own : Heap α)
    (same : ∀ x ∈ l, own x = h x) (back : (own a).prev = some last) (forth : (own a).next = some first) :
    Ring (setNext (setPrev own first (some a)) last (some a)) (a :: l) := by
  have notFirst : a ≠ first := fun same => fresh (same ▸ List.mem_of_head? some_head)
  have notLast : a ≠ last := fun same => fresh (same ▸ List.mem_of_getLast? some_last)
  have opened : Chain own (some last) l (some first) := by
    have linked : Chain h l.getLast? l l.head? := ring
    rw [some_last, some_head] at linked
    exact linked.frame same
  have started : Chain (setPrev own first (some a)) (some a) l (some first) := by
    obtain ⟨rest, rfl⟩ : ∃ rest, l = first :: rest := List.head?_eq_some_iff.mp some_head
    exact opened.setPrev_head (List.nodup_cons.mp distinct).1 _
  have closed : Chain (setNext (setPrev own first (some a)) last (some a)) (some a) l (some a) := by
    obtain ⟨init, rfl, unlinked⟩ := last_split distinct some_last
    exact started.setNext_last unlinked _
  have ends : (a :: l).getLast? = some last := by rw [List.getLast?_cons, some_last]; rfl
  rw [Ring, ends]
  exact ⟨by simp [notFirst, notLast, back], by simp [notFirst, notLast, forth, some_head], closed⟩

end Stores

end WlanBridge.Links
