import Mathlib.Data.List.DropRight
import Mathlib.Data.List.Induction

/-! Runs and histories of any system: steps that may be disabled and conditions on them that
are exact for a property of every state on the way, loops that only a `break` leaves, and
histories with marks. -/
namespace WlanBridge.Interleaving

variable {σ ε : Type}

/-- The state behind some events, each of which must be enabled. -/
def run (step : σ → ε → Option σ) (s : σ) (events : List ε) : Option σ := events.foldlM step s

theorem run_concat (step : σ → ε → Option σ) (s : σ) (events : List ε) (e : ε) :
    run step s (events ++ [e]) = (run step s events).bind fun t => step t e := by
  rw [run, List.foldlM_append]
  congr 1
  funext t
  simp

/-- What every enabled step keeps that meets a condition, holds behind a run of such steps. -/
theorem run_careful {step : σ → ε → Option σ} (inv : σ → Prop) (careful : σ → ε → Prop)
    (keeps : ∀ s e t, inv s → careful s e → step s e = some t → inv t) (start : inv s) (events : List ε)
    (each : ∀ before e after, events = before ++ e :: after → ∀ m, run step s before = some m → careful m e)
    (reached : run step s events = some t) : inv t := by
  induction events using List.reverseRecOn generalizing t with
  | nil => exact Option.some.inj reached ▸ start
  | append_singleton before e ih =>
    rw [run_concat] at reached
    obtain ⟨m, earlier, stepped⟩ := Option.bind_eq_some_iff.mp reached
    refine keeps m e t (ih (fun first e' after split => ?_) earlier) (each before e [] rfl m earlier) stepped
    exact each first e' (after ++ [e]) (by rw [split, List.append_assoc, List.cons_append])

theorem run_invariant {step : σ → ε → Option σ} (inv : σ → Prop)
    (keeps : ∀ s e t, inv s → step s e = some t → inv t) (start : inv s) (events : List ε)
    (reached : run step s events = some t) : inv t :=
  run_careful inv (fun _ _ => True) (fun s e t holds _ stepped => keeps s e t holds stepped) start events
    (fun _ _ _ _ _ _ => trivial) reached

/-- Whether the states and events of a run meet a condition, as far as the run goes. -/
def checks (step : σ → ε → Option σ) (check : σ → ε → Bool) : σ → List ε → Bool
  | _, [] => true
  | s, e :: events => check s e && (step s e).all fun t => checks step check t events

theorem checks_spec {step : σ → ε → Option σ} {check : σ → ε → Bool} (checked : checks step check s events = true) :
    ∀ before e after, events = before ++ e :: after → ∀ t, run step s before = some t → check t e = true := by
  induction events generalizing s with
  | nil => exact fun before e after split => absurd split (by simp)
  | cons first events ih =>
    intro before e after split t reached
    obtain ⟨here, later⟩ := Bool.and_eq_true_iff.mp checked
    rcases before with _ | ⟨e', before⟩
    · obtain ⟨rfl, -⟩ := List.cons.inj split
      exact Option.some.inj reached ▸ here
    · obtain ⟨rfl, rest⟩ := List.cons.inj split
      rw [run, List.foldlM_cons] at reached
      obtain ⟨m, stepped, onward⟩ := Option.bind_eq_some_iff.mp reached
      rw [stepped, Option.all_some] at later
      exact ih later before e after rest t onward

/-- A condition on the events is exact for a property of every point of a history if the
property, strengthened to an invariant, survives the events that meet the condition and
fails right behind the others. -/
theorem forall_prefix_iff (inv : List ε → Prop) {good : List ε → Prop} {careful : List ε → ε → Prop}
    (init : inv []) (keeps : ∀ before e, inv before → careful before e → inv (before ++ [e]))
    (enough : ∀ before, inv before → good before)
    (needed : ∀ before e, good (before ++ [e]) → careful before e) (events : List ε) :
    (∀ before, before <+: events → good before) ↔
      ∀ before e after, events = before ++ e :: after → careful before e := by
  constructor
  · intro each before e after split
    exact needed before e (each _ ⟨after, by rw [split, List.append_assoc, List.singleton_append]⟩)
  · intro each before isPrefix
    have holds : inv before := by
      induction before using List.reverseRecOn with
      | nil => exact init
      | append_singleton before e ih =>
        obtain ⟨after, split⟩ := isPrefix
        rw [List.append_assoc, List.singleton_append] at split
        exact keeps before e (ih ⟨e :: after, split⟩) (each before e after split.symm)
    exact enough before holds

end WlanBridge.Interleaving

namespace WlanBridge.Loop

variable {σ : Type} (turn : σ → Bool × σ)

/-- The state behind the loop, if it is left within `fuel` turns. -/
def run : Nat → σ → Option σ
  | 0, _ => none
  | fuel + 1, s =>
    match turn s with
    | (true, s) => run fuel s
    | (false, s) => some s

/-- With an invariant and a measure that every further turn lowers, the loop is left
within as many turns as the measure allows, in a state that the last turn leads to. -/
theorem run_spec (inv post : σ → Prop) (measure : σ → Nat)
    (goes : ∀ s s', inv s → turn s = (true, s') → inv s' ∧ measure s' < measure s)
    (stops : ∀ s s', inv s → turn s = (false, s') → post s') :
    ∀ fuel s, inv s → measure s < fuel → ∃ s', run turn fuel s = some s' ∧ post s' := by
  intro fuel
  induction fuel with
  | zero => exact fun s _ enough => absurd enough (Nat.not_lt_zero _)
  | succ fuel ih =>
    intro s holds enough
    cases next : turn s with
    | mk go s' =>
      cases go with
      | true =>
        obtain ⟨kept, less⟩ := goes s s' holds next
        obtain ⟨last, left, result⟩ := ih s' kept (by omega)
        exact ⟨last, by rw [run, next]; exact left, result⟩
      | false => exact ⟨s', by rw [run, next], stops s s' holds next⟩

end WlanBridge.Loop

namespace WlanBridge.Since

variable {α : Type} (mark : α → Bool)

/-- The events after the last mark, or all of them. -/
def since (history : List α) : List α := history.rtakeWhile fun e => !mark e

def upTo (history : List α) : List α := history.rdropWhile fun e => !mark e

theorem upTo_append_since (history : List α) : upTo mark history ++ since mark history = history := by
  rw [upTo, since, List.rdropWhile, List.rtakeWhile, ← List.reverse_append, List.takeWhile_append_dropWhile,
    List.reverse_reverse]

variable {mark}

theorem since_mark (history : List α) (marked : mark e = true) : since mark (history ++ [e]) = [] := by
  simp [since, marked]

theorem since_other (history : List α) (plain : mark e = false) :
    since mark (history ++ [e]) = since mark history ++ [e] := by
  simp [since, plain]

theorem upTo_mark (history : List α) (marked : mark e = true) : upTo mark (history ++ [e]) = history ++ [e] := by
  simp [upTo, marked]

theorem upTo_other (history : List α) (plain : mark e = false) :
    upTo mark (history ++ [e]) = upTo mark history := by
  simp [upTo, plain]

end WlanBridge.Since
