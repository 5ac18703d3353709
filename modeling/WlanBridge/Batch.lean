import Mathlib.Data.List.TakeWhile

/-! Sending a batch through a call that stops at the first rejected item, once, or
once more with those of the remaining items that are worth it. -/
namespace WlanBridge.Batch

variable {α : Type} (accepted worth : α → Bool)

/-- What a call that stops at the first rejected item sends. -/
def stopped (items : List α) : List α := items.takeWhile accepted

def resent (items : List α) : List α := stopped accepted ((items.dropWhile accepted).filter worth)

theorem take_stopped (items : List α) : items.take (stopped accepted items).length = stopped accepted items :=
  (List.prefix_iff_eq_take.mp (List.takeWhile_prefix accepted)).symm

theorem drop_stopped (items : List α) :
    items.drop (stopped accepted items).length = items.dropWhile accepted := by
  calc items.drop (stopped accepted items).length
      = (stopped accepted items ++ items.dropWhile accepted).drop (stopped accepted items).length := by
        rw [stopped, List.takeWhile_append_dropWhile]
    _ = items.dropWhile accepted := List.drop_left

variable {accepted worth}

theorem mem_stopped {items : List α} {a : α} : a ∈ stopped accepted items ↔
    ∃ before after, items = before ++ a :: after ∧ accepted a = true ∧ ∀ x ∈ before, accepted x = true := by
  rw [stopped]
  constructor
  · intro member
    obtain ⟨before, after, split⟩ := List.append_of_mem member
    refine ⟨before, after ++ items.dropWhile accepted, ?_, List.mem_takeWhile_imp member,
      fun x inside => List.mem_takeWhile_imp (l := items) ?_⟩
    · rw [← List.cons_append, ← List.append_assoc, ← split, List.takeWhile_append_dropWhile]
    · rw [split]
      exact List.mem_append_left _ inside
  · rintro ⟨before, after, rfl, self, all⟩
    rw [List.takeWhile_append_of_pos all, List.takeWhile_cons_of_pos self]
    simp

theorem mem_stopped_filter {items : List α} {a : α} : a ∈ stopped accepted (items.filter worth) ↔
    ∃ before after, items = before ++ a :: after ∧ accepted a = true ∧ worth a = true ∧
      ∀ x ∈ before, accepted x = false → worth x = false := by
  have skip : stopped accepted (items.filter worth) =
      (stopped (fun x => !worth x || accepted x) items).filter worth := List.takeWhile_filter
  rw [skip, List.mem_filter, mem_stopped]
  constructor
  · rintro ⟨⟨before, after, split, self, all⟩, some_⟩
    refine ⟨before, after, split, by simpa [some_] using self, some_, fun x inside rejected => ?_⟩
    simpa [rejected] using all x inside
  · rintro ⟨before, after, split, self, some_, all⟩
    refine ⟨⟨before, after, split, by simp [self], fun x inside => ?_⟩, some_⟩
    cases taken : accepted x with
    | true => simp
    | false => simp [all x inside taken]

/-- An item gets through when no rejected one stands before it, or by the second call
when the rejected ones before it are not tried again. -/
theorem mem_resent {items : List α} {a : α} : a ∈ stopped accepted items ∨ a ∈ resent accepted worth items ↔
    ∃ before after, items = before ++ a :: after ∧ accepted a = true ∧
      ((∀ x ∈ before, accepted x = true) ∨
        (worth a = true ∧ ∀ x ∈ before, accepted x = false → worth x = false)) := by
  rw [mem_stopped, resent, mem_stopped_filter]
  constructor
  · rintro (⟨before, after, split, self, all⟩ | ⟨before, after, split, self, some_, all⟩)
    · exact ⟨before, after, split, self, Or.inl all⟩
    · refine ⟨items.takeWhile accepted ++ before, after, ?_, self, Or.inr ⟨some_, fun x inside rejected => ?_⟩⟩
      · rw [List.append_assoc, ← split, List.takeWhile_append_dropWhile]
      · rcases List.mem_append.mp inside with sent | left
        · exact absurd ((List.mem_takeWhile_imp sent).symm.trans rejected) (by decide)
        · exact all x left rejected
  · rintro ⟨before, after, rfl, self, all | ⟨some_, all⟩⟩
    · exact Or.inl ⟨before, after, rfl, self, all⟩
    · by_cases clear : ∀ x ∈ before, accepted x = true
      · exact Or.inl ⟨before, after, rfl, self, clear⟩
      · refine Or.inr ⟨before.dropWhile accepted, after, ?_, self, some_, fun x inside =>
          all x ((List.dropWhile_suffix accepted).subset inside)⟩
        have left : before.dropWhile accepted ≠ [] := fun none => clear (List.dropWhile_eq_nil_iff.mp none)
        rw [List.dropWhile_append]
        simp [left]

end WlanBridge.Batch
