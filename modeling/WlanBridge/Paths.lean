import Mathlib.Data.List.Induction

/-! Runs of a labelled transition relation, and the step since which something holds. -/
namespace WlanBridge.Paths

variable {σ ε : Type}

/-- The labels of a run, in their order. -/
inductive Path (advance : σ → ε → σ → Prop) (start : σ) : List ε → σ → Prop where
  | nil : Path advance start [] start
  | snoc : Path advance start events s → advance s e t → Path advance start (events ++ [e]) t

variable {advance : σ → ε → σ → Prop} {start s t : σ}

theorem Path.of_nil (path : Path advance start [] t) : t = start := by
  generalize none_ : [] = all at path
  cases path with
  | nil => rfl
  | snoc => simp at none_

theorem Path.last (path : Path advance start (events ++ [e]) t) :
    ∃ s, Path advance start events s ∧ advance s e t := by
  generalize whole : events ++ [e] = all at path
  cases path with
  | nil => simp at whole
  | snoc earlier step =>
    obtain ⟨rfl, same⟩ := List.append_inj' whole rfl
    obtain rfl := List.singleton_inj.mp same
    exact ⟨_, earlier, step⟩

theorem Path.split (path : Path advance start (before ++ after) t) :
    ∃ s, Path advance start before s ∧ Path advance s after t := by
  induction after using List.reverseRecOn generalizing t with
  | nil => exact ⟨t, by simpa using path, .nil⟩
  | append_singleton after e ih =>
    rw [← List.append_assoc] at path
    obtain ⟨u, earlier, step⟩ := path.last
    obtain ⟨s, first, second⟩ := ih earlier
    exact ⟨s, first, .snoc second step⟩

theorem Path.first (path : Path advance start (e :: after) t) :
    ∃ s, advance start e s ∧ Path advance s after t := by
  have parts : Path advance start ([e] ++ after) t := path
  obtain ⟨s, one, rest⟩ := parts.split
  have single : Path advance start ([] ++ [e]) s := one
  obtain ⟨u, none_, step⟩ := single.last
  obtain rfl := none_.of_nil
  exact ⟨s, step, rest⟩

theorem Path.invariant (path : Path advance start events t) (holds : σ → Prop)
    (preserved : ∀ s e t, holds s → advance s e t → holds t) (initial : holds start) : holds t := by
  induction path with
  | nil => exact initial
  | snoc _ step ih => exact preserved _ _ _ ih step

theorem forall_split_concat {holds : List ε → ε → Prop} (events : List ε) (x : ε) :
    (∀ before e after, events ++ [x] = before ++ e :: after → holds before e) ↔
      (∀ before e after, events = before ++ e :: after → holds before e) ∧ holds events x := by
  constructor
  · intro each
    refine ⟨fun before e after split => each before e (after ++ [x]) ?_, each events x [] rfl⟩
    rw [split, List.append_assoc, List.cons_append]
  · rintro ⟨earlier, last⟩ before e after split
    rcases List.eq_nil_or_concat after with rfl | ⟨after, y, rfl⟩
    · obtain ⟨rfl, same⟩ := List.append_inj' split rfl
      obtain rfl := List.singleton_inj.mp same
      exact last
    · rw [List.concat_eq_append, ← List.cons_append, ← List.append_assoc] at split
      exact earlier before e after (List.append_inj' split rfl).1

/-- What holds at the end and not at the start has come with one step, and has held since. -/
theorem Path.since (path : Path advance start events t) (holds : σ → Prop) (not : ¬holds start) (now : holds t) :
    ∃ before e after s s', events = before ++ e :: after ∧ Path advance start before s ∧ ¬holds s ∧ advance s e s' ∧
      holds s' ∧ Path (fun a e b => holds a ∧ advance a e b) s' after t := by
  induction path with
  | nil => exact absurd now not
  | @snoc events s e t earlier step ih =>
    by_cases held : holds s
    · obtain ⟨before, d, after, a, b, rfl, path, without, set_, with_, since⟩ := ih held
      exact ⟨before, d, after ++ [e], a, b, by simp, path, without, set_, with_, .snoc since ⟨held, step⟩⟩
    · exact ⟨events, e, [], s, t, rfl, earlier, held, step, now, .nil⟩

end WlanBridge.Paths
