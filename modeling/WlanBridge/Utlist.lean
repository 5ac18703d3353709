import WlanBridge.Links

/-! The two macros of `utlist.h` that the bridge uses on its circular list: the push at
the front and the traversal that allows for changes. An element is its pointer. -/
namespace WlanBridge

open Links

/-- The links of all elements, with the variable that the macros are given as the head. -/
structure Cdl where
  links : Heap Nat
  head : Option Nat

def Cdl.empty : Cdl := ⟨fun _ => ⟨none, none⟩, none⟩

/-- There is no result when a null link is dereferenced. -/
def cdlPrepend (l : Cdl) (add : Nat) : Option Cdl :=
  match l.head with
  | some head =>
    let links := setPrev l.links add (l.links head).prev
    let links := setNext links add (some head)
    let links := setPrev links head (some add)
    (links add).prev.map fun last => ⟨setNext links last (some add), some add⟩
  | none =>
    let links := setPrev l.links add (some add)
    some ⟨setNext links add (some add), some add⟩

/-- `CDL_FOREACH_SAFE` with a body that says whether the loop goes on or is left by a
`break`; the last element and each successor are noted before the body runs. -/
def cdlForeachSafe {σ : Type} (list : σ → Cdl) (body : Nat → σ → Option (Bool × σ)) (fuel : Nat) (s : σ) : Option σ :=
  let tmp1 := (list s).head.bind fun head => ((list s).links head).prev
  walk (fun el s =>
    let tmp2 := ((list s).links el).next
    (body el s).map fun (go, s) => (if go then if some el = tmp1 then none else tmp2 else none, s))
    fuel (list s).head s

/-- The list consists of these elements, first to last. -/
structure Cdl.Holds (l : Cdl) (xs : List Nat) : Prop where
  head : l.head = xs.head?
  distinct : xs.Nodup
  ring : Ring l.links xs

theorem empty_holds : Cdl.empty.Holds [] := ⟨rfl, List.nodup_nil, trivial⟩

theorem cdlPrepend_holds {l : Cdl} (holds : l.Holds xs) (fresh : add ∉ xs) :
    ∃ l', cdlPrepend l add = some l' ∧ l'.Holds (add :: xs) := by
  have distinct : (add :: xs).Nodup := List.nodup_cons.mpr ⟨fresh, holds.distinct⟩
  cases xs with
  | nil =>
    refine ⟨_, by rw [cdlPrepend, holds.head]; rfl, rfl, distinct, ?_⟩
    exact ⟨by simp, by simp, trivial⟩
  | cons head rest =>
    have apart : add ≠ head := List.ne_of_not_mem_cons fresh
    obtain ⟨last, ends⟩ : ∃ last, (head :: rest).getLast? = some last := ⟨_, List.getLast?_cons⟩
    have back : (l.links head).prev = some last := holds.ring.1.trans ends
    let own := setNext (setPrev l.links add (l.links head).prev) add (some head)
    have same : ∀ x ∈ head :: rest, own x = l.links x := by
      intro x member
      have other : x ≠ add := fun same => fresh (same ▸ member)
      simp [own, other]
    have closed := ring_cons holds.ring holds.distinct fresh rfl ends own same (by simp [own, back]) (by simp [own])
    refine ⟨⟨setNext (setPrev own head (some add)) last (some add), some add⟩, ?_, rfl, distinct, closed⟩
    simp [cdlPrepend, holds.head, back, apart, own]

/-- In a ring the successor is the next element of the list, and the mark of the last
element stops the loop before it starts again. -/
theorem Cdl.Holds.successor {l : Cdl} (holds : l.Holds (done ++ a :: rest)) :
    (if some a = (done ++ a :: rest).getLast? then none else (l.links a).next) = rest.head? := by
  have linked := ((chain_append _ _ done (a :: rest) _).mp holds.ring).2
  cases rest with
  | nil => simp
  | cons b rest =>
    have distinct := (List.nodup_append.mp holds.distinct).2.1
    have notLast : ¬some a = (done ++ a :: b :: rest).getLast? := by
      intro same
      obtain ⟨init, split, unlinked⟩ := last_split distinct (show (a :: b :: rest).getLast? = some a by simpa using same.symm)
      cases init with
      | nil => simp at split
      | cons c init => exact unlinked (by simp [(List.cons.inj split).1])
    rw [if_neg notLast, linked.2.1]
    rfl

/-- A traversal whose body leaves the list alone goes through it in order until a `break`. -/
theorem cdlForeachSafe_spec {σ : Type} {list : σ → Cdl} {body : Nat → σ → Option (Bool × σ)} {xs : List Nat}
    (inv : List Nat → σ → Prop) (post : σ → Prop) (holds : ∀ done s, inv done s → (list s).Holds xs)
    (step : ∀ done a rest s, xs = done ++ a :: rest → inv done s →
      ∃ go s', body a s = some (go, s') ∧ (go = true ∧ inv (done ++ [a]) s' ∨ go = false ∧ post s'))
    (finish : ∀ s, inv xs s → post s) {s : σ} (start : inv [] s) {fuel : Nat} (enough : xs.length ≤ fuel) :
    ∃ s', cdlForeachSafe list body fuel s = some s' ∧ post s' := by
  have first := holds [] s start
  have last : ((list s).head.bind fun head => ((list s).links head).prev) = xs.getLast? := by
    rw [first.head]
    cases xs with
    | nil => rfl
    | cons a rest => exact first.ring.1
  rw [cdlForeachSafe, last, first.head]
  refine walk_spec inv post ?_ finish start enough
  intro done a rest s split reached
  obtain ⟨go, s', ran, ⟨rfl, kept⟩ | ⟨rfl, result⟩⟩ := step done a rest s split reached
  · have next := (split ▸ holds done s reached).successor
    rw [← split] at next
    exact ⟨rest.head?, s', by rw [ran, ← next]; rfl, Or.inl ⟨rfl, kept⟩⟩
  · exact ⟨none, s', by rw [ran]; rfl, Or.inr ⟨rfl, result⟩⟩

end WlanBridge
