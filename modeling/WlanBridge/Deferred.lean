import Mathlib.Data.List.Flatten
import Mathlib.Data.List.Nodup

/-! Emission of a batch whose late items are held back until every other item has
been emitted. Holding back permutes the outputs; it keeps the order of every part
of the output that no late item precedes within. -/
namespace WlanBridge.Deferred

variable {ι α : Type} (late : ι → Bool) (out : ι → List α)

def inOrder (items : List ι) : List α := items.flatMap out

def deferred (items : List ι) : List α :=
  (items.filter (fun x => !late x)).flatMap out ++ (items.filter late).flatMap out

@[simp] theorem inOrder_append (items more : List ι) :
    inOrder out (items ++ more) = inOrder out items ++ inOrder out more := by
  simp [inOrder]

theorem mem_inOrder {items : List ι} {a : α} :
    a ∈ inOrder out items ↔ ∃ x ∈ items, a ∈ out x := by
  simp [inOrder]

theorem deferred_perm (items : List ι) : (deferred late out items).Perm (inOrder out items) := by
  have split := (List.filter_append_perm late items).flatMap_right out
  rw [List.flatMap_append] at split
  exact List.perm_append_comm.trans split

theorem mem_deferred {items : List ι} {a : α} :
    a ∈ deferred late out items ↔ ∃ x ∈ items, a ∈ out x := by
  rw [(deferred_perm late out items).mem_iff, mem_inOrder]

theorem deferred_map (g : α → β) (items : List ι) :
    (deferred late out items).map g = deferred late (fun x => (out x).map g) items := by
  simp [deferred, List.map_flatMap]

/-- A selection of the output keeps its order when, of any two items that both
contribute to it, a late one never precedes one that is not late. -/
theorem deferred_filter (select : α → Bool) (items : List ι)
    (settled : items.Pairwise (fun x y => late x = true → late y = false →
      (out x).filter select = [] ∨ (out y).filter select = [])) :
    (deferred late out items).filter select = (inOrder out items).filter select := by
  induction items with
  | nil => rfl
  | cons x rest ih =>
    obtain ⟨first, others⟩ := List.pairwise_cons.mp settled
    have tail := ih others
    simp only [deferred, inOrder, List.filter_append, List.flatMap_cons] at tail ⊢
    cases lateness : late x with
    | false => simp [lateness, tail]
    | true =>
      simp only [List.filter_cons, lateness, Bool.not_true, Bool.false_eq_true, if_false, if_true,
        List.flatMap_cons, List.filter_append, ← tail]
      by_cases silent : (out x).filter select = []
      · simp [silent]
      · -- every item that overtakes `x` contributes nothing to the selection
        have none : ((rest.filter (fun y => !late y)).flatMap out).filter select = [] := by
          rw [List.filter_flatMap, List.flatMap_eq_nil_iff]
          intro y member
          obtain ⟨inRest, early⟩ := List.mem_filter.mp member
          exact (first y inRest lateness (by simpa using early)).resolve_left silent
        simp [none]

def Before (l : List α) (a b : α) : Prop := [a, b].Sublist l

theorem before_of_lt {l : List α} {i j : Nat} (lt : i < j) (left : l[i]? = some a) (right : l[j]? = some b) :
    Before l a b := by
  have first : a ∈ l.take j := List.mem_of_getElem? (by rw [List.getElem?_take_of_lt lt, left])
  have second : b ∈ l.drop j := by
    apply List.mem_of_getElem? (i := 0)
    rw [List.getElem?_drop, Nat.add_zero, right]
  have split := (List.singleton_sublist.mpr first).append (List.singleton_sublist.mpr second)
  rwa [List.take_append_drop] at split

variable {late out}

theorem Before.flatMap {items : List ι} (order : Before items x y) (left : a ∈ out x)
    (right : b ∈ out y) : Before (items.flatMap out) a b := by
  have pair : ([x, y].flatMap out).Sublist (items.flatMap out) := List.Sublist.flatMap order out
  refine List.Sublist.trans ?_ pair
  have single := (List.singleton_sublist.mpr left).append (List.singleton_sublist.mpr right)
  simpa using single

theorem inOrder_before {items : List ι} (order : Before items x y) (left : a ∈ out x)
    (right : b ∈ out y) : Before (inOrder out items) a b :=
  order.flatMap left right

private theorem before_filter {items : List ι} (keep : ι → Bool) (order : Before items x y)
    (first : keep x = true) (second : keep y = true) : Before (items.filter keep) x y := by
  have kept := List.Sublist.filter keep order
  simpa [Before, first, second] using kept

theorem deferred_before {items : List ι} (order : Before items x y) (left : a ∈ out x)
    (right : b ∈ out y) (allowed : ¬(late x = true ∧ late y = false)) :
    Before (deferred late out items) a b := by
  have memx : x ∈ items := order.subset (by simp)
  have memy : y ∈ items := order.subset (by simp)
  cases lx : late x with
  | true =>
    have ly : late y = true := by
      cases ly : late y with
      | true => rfl
      | false => exact absurd ⟨lx, ly⟩ allowed
    exact ((before_filter late order lx ly).flatMap left right).trans (List.sublist_append_right _ _)
  | false =>
    cases ly : late y with
    | false =>
      have kept := before_filter (fun z => !late z) order (by simp [lx]) (by simp [ly])
      exact (kept.flatMap left right).trans (List.sublist_append_left _ _)
    | true =>
      have first : a ∈ (items.filter (fun z => !late z)).flatMap out :=
        List.mem_flatMap.mpr ⟨x, List.mem_filter.mpr ⟨memx, by simp [lx]⟩, left⟩
      have second : b ∈ (items.filter late).flatMap out :=
        List.mem_flatMap.mpr ⟨y, List.mem_filter.mpr ⟨memy, ly⟩, right⟩
      exact (List.singleton_sublist.mpr first).append (List.singleton_sublist.mpr second)

theorem deferred_overtakes {items : List ι} (distinct : (deferred late out items).Nodup)
    (memx : x ∈ items) (memy : y ∈ items) (left : a ∈ out x) (right : b ∈ out y)
    (lx : late x = true) (ly : late y = false) : ¬Before (deferred late out items) a b := by
  have early : b ∈ (items.filter (fun z => !late z)).flatMap out :=
    List.mem_flatMap.mpr ⟨y, List.mem_filter.mpr ⟨memy, by simp [ly]⟩, right⟩
  have held : a ∈ (items.filter late).flatMap out :=
    List.mem_flatMap.mpr ⟨x, List.mem_filter.mpr ⟨memx, lx⟩, left⟩
  have apart := (List.nodup_append.mp distinct).2.2
  intro order
  obtain ⟨front, back, whole, inFront, inBack⟩ := List.sublist_append_iff.mp order
  match front, whole with
  | [], whole =>
    subst whole
    exact apart b early b (inBack.subset (by simp)) rfl
  | c :: _, whole =>
    obtain ⟨rfl, _⟩ := List.cons.inj whole
    exact apart a (inFront.subset (by simp)) a held rfl

end WlanBridge.Deferred
