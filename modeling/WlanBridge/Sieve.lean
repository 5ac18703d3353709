import Mathlib.Data.List.Basic

/-! Filters with a state, in a row. Each item goes through the row until a filter drops
it; that is the same as each filter going over all that the one before it has kept. -/
namespace WlanBridge.Sieve

section Rows
variable {σ α : Type} (step : σ → α → Bool × σ)

/-- What one filter keeps, with its state behind that. -/
def sift (s : σ) : List α → List α × σ
  | [] => ([], s)
  | a :: rest =>
    let (kept, s) := step s a
    let (out, s) := sift s rest
    (if kept then a :: out else out, s)

/-- One item through a row of filters; those behind one that drops it do not see it. -/
def pass : List σ → α → Bool × List σ
  | [], _ => (true, [])
  | s :: row, a =>
    match step s a with
    | (true, s) =>
      let (kept, row) := pass row a
      (kept, s :: row)
    | (false, s) => (false, s :: row)

/-- The filters one after the other, each over the whole list. -/
def cascade : List σ → List α → List α × List σ
  | [], items => (items, [])
  | s :: row, items =>
    let own := sift step s items
    let others := cascade row own.1
    (others.1, own.2 :: others.2)

theorem sift_append (s : σ) (items more : List α) :
    sift step s (items ++ more) =
      ((sift step s items).1 ++ (sift step (sift step s items).2 more).1, (sift step (sift step s items).2 more).2) := by
  induction items generalizing s with
  | nil => rfl
  | cons a rest ih =>
    simp only [List.cons_append, sift, ih]
    split <;> rfl

theorem sift_stateless (s : σ) (keep : α → Bool) (same : ∀ a, step s a = (keep a, s)) (items : List α) :
    sift step s items = (items.filter keep, s) := by
  induction items with
  | nil => rfl
  | cons a rest ih => simp [sift, same, ih, List.filter_cons]

theorem sift_nil_row (items : List α) : sift (pass step) [] items = (items, []) := by
  induction items with
  | nil => rfl
  | cons a rest ih => simp [sift, pass, ih]

theorem sift_pass_cons (s : σ) (row : List σ) (items : List α) :
    sift (pass step) (s :: row) items =
      ((sift (pass step) row (sift step s items).1).1,
        (sift step s items).2 :: (sift (pass step) row (sift step s items).1).2) := by
  induction items generalizing s row with
  | nil => rfl
  | cons a rest ih =>
    cases own : step s a with
    | mk kept s' =>
      cases kept with
      | true => simp [sift, pass, own, ih]
      | false => simp [sift, pass, own, ih]

/-- Item by item through a row is filter by filter over the list. -/
theorem sift_pass (row : List σ) (items : List α) : sift (pass step) row items = cascade step row items := by
  induction row generalizing items with
  | nil => exact sift_nil_row step items
  | cons s row ih => rw [sift_pass_cons, ih, cascade]

end Rows

section Gates
variable {α : Type} (opens closes : α → Bool)

def gate (opened : Bool) (a : α) : Bool × Bool :=
  let opened := opened || opens a
  (opened, opened && !closes a)

/-- The gate is open for the last of some items: one of them has opened it, and none since
then has closed it. -/
def Opened (items : List α) : Prop :=
  ∃ early a late, items = early ++ a :: late ∧ opens a = true ∧ ∀ b ∈ (a :: late).dropLast, closes b = false

open Classical in
/-- The items that meet a condition on themselves and what came before them. -/
noncomputable def keepWhere (keep : List α → Prop) (before : List α) : List α → List α
  | [] => []
  | a :: rest => (if keep (before ++ [a]) then [a] else []) ++ keepWhere keep (before ++ [a]) rest

/-- The gate is open behind some items if it was for the last one, which did not close it. -/
def OpenBehind (items : List α) : Prop :=
  ∃ early a late, items = early ++ a :: late ∧ opens a = true ∧ ∀ b ∈ a :: late, closes b = false

theorem opened_concat (before : List α) (a : α) :
    Opened opens closes (before ++ [a]) ↔ OpenBehind opens closes before ∨ opens a = true := by
  constructor
  · rintro ⟨early, b, late, split, opened, still⟩
    rcases List.eq_nil_or_concat' late with rfl | ⟨between, c, rfl⟩
    · obtain ⟨rfl, same⟩ := List.append_inj' split rfl
      obtain rfl := List.singleton_inj.mp same
      exact Or.inr opened
    · rw [← List.cons_append, ← List.append_assoc] at split
      obtain ⟨rfl, _⟩ := List.append_inj' split rfl
      rw [← List.cons_append, List.dropLast_concat] at still
      exact Or.inl ⟨early, b, between, rfl, opened, still⟩
  · rintro (⟨early, b, late, rfl, opened, still⟩ | opened)
    · refine ⟨early, b, late ++ [a], by simp, opened, ?_⟩
      rwa [← List.cons_append, List.dropLast_concat]
    · exact ⟨before, a, [], rfl, opened, by simp⟩

theorem openBehind_concat (before : List α) (a : α) :
    OpenBehind opens closes (before ++ [a]) ↔ Opened opens closes (before ++ [a]) ∧ closes a = false := by
  constructor
  · rintro ⟨early, b, late, split, opened, still⟩
    refine ⟨⟨early, b, late, split, opened, fun c member => still c (List.dropLast_subset _ member)⟩, ?_⟩
    apply still
    have last := congrArg List.getLast? split
    rw [List.getLast?_concat, List.getLast?_append_cons] at last
    exact List.mem_of_getLast? last.symm
  · rintro ⟨⟨early, b, late, split, opened, still⟩, shut⟩
    refine ⟨early, b, late, split, opened, fun c member => ?_⟩
    have last := congrArg List.getLast? split
    rw [List.getLast?_concat, List.getLast?_append_cons, List.getLast?_eq_some_getLast (by simp)] at last
    rw [← List.dropLast_append_getLast (List.cons_ne_nil b late), List.mem_append, List.mem_singleton] at member
    rcases member with within | rfl
    · exact still c within
    · rw [← Option.some.inj last]
      exact shut

theorem sift_gate (before items : List α) (opened : Bool)
    (behind : opened = true ↔ OpenBehind opens closes before) :
    (sift (gate opens closes) opened items).1 = keepWhere (Opened opens closes) before items := by
  induction items generalizing before opened with
  | nil => rfl
  | cons a rest ih =>
    have here : (opened || opens a) = true ↔ Opened opens closes (before ++ [a]) := by
      rw [opened_concat, Bool.or_eq_true, behind]
    have next : ((opened || opens a) && !closes a) = true ↔ OpenBehind opens closes (before ++ [a]) := by
      rw [openBehind_concat, Bool.and_eq_true, here]
      simp
    simp only [sift, gate, keepWhere, ih _ _ next]
    by_cases open_ : Opened opens closes (before ++ [a])
    · simp [here.mpr open_, open_]
    · have shut : (opened || opens a) = false := by
        cases eq : opened || opens a with
        | true => exact absurd (here.mp eq) open_
        | false => rfl
      simp [shut, open_]

end Gates

end WlanBridge.Sieve
