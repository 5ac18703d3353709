import WlanBridge.Login

/-! What is sent to the client while a password is typed: bells and nothing else, unless a
character is put in front of others. -/
namespace WlanBridge

open Memory Terminal

/-- A character is put in front of others. -/
def Console.InFront (s : Console) : ConsoleEvent → Prop
  | .byte c => s.line.cursor < s.line.l ∧ ∃ d ∈ (s.decoder.feed c).2, keyOf d = .char ∨ keyOf d = .question
  | _ => False

theorem rubout_hidden (e : Line) : (e.rubout false).sent = e.sent := by
  unfold Line.rubout
  split <;> rfl

theorem rubout_iterate_hidden (e : Line) (n : Nat) : ((Line.rubout false)^[n] e).sent = e.sent := by
  induction n with
  | zero => rfl
  | succ n ih => rw [Function.iterate_succ_apply', rubout_hidden, ih]

theorem EditKey.act_hidden (key : EditKey) (prompt : Text) (e : Line) :
    ∃ out, (key.act false prompt e).sent = e.sent ++ out ∧ ∀ c ∈ out, c = BEL := by
  have silent (sent : Text) (same : sent = e.sent) : ∃ out, sent = e.sent ++ out ∧ ∀ c ∈ out, c = BEL :=
    ⟨[], by rw [same, List.append_nil], by simp⟩
  cases key with
  | bell => exact ⟨[BEL], rfl, by simp⟩
  | ruboutWord =>
    refine silent _ ?_
    dsimp only [EditKey.act]
    unfold Line.ruboutWord
    split
    · rfl
    · exact rubout_iterate_hidden e _
  | ruboutChar =>
    dsimp only [EditKey.act]
    unfold Line.ruboutChar
    split
    · exact ⟨[BEL], rfl, by simp⟩
    · exact silent _ (rubout_hidden e)
  | redraw => exact silent _ rfl
  | clear => exact silent _ rfl
  | kill =>
    refine silent _ ?_
    dsimp only [EditKey.act, Line.kill]
    split <;> rfl
  | left =>
    refine silent _ ?_
    dsimp only [EditKey.act, Line.left]
    split <;> rfl
  | right =>
    refine silent _ ?_
    dsimp only [EditKey.act, Line.right]
    split <;> rfl
  | home =>
    refine silent _ ?_
    dsimp only [EditKey.act, Line.home]
    split <;> rfl
  | toEnd =>
    refine silent _ ?_
    dsimp only [EditKey.act, Line.toEnd]
    split <;> rfl

section Hidden
variable {setting : Setting} {s t : Console} {turn : Console.Turn}

/-- In front of others a character shows itself, and all that is behind it. -/
theorem insert_sent (e : Line) (c : Char) :
    ∃ out, (e.insert c).sent = e.sent ++ out ∧ ((∀ d ∈ out, d = BEL) ↔ ¬e.cursor < e.l) := by
  have leak (cmd : Mem) (l : Nat) (same : e.cursor < l ↔ e.cursor < e.l) :
      (∀ d ∈ slice cmd e.cursor (l - e.cursor) ++ List.replicate (l - e.cursor) BS, d = BEL) ↔ ¬e.cursor < e.l := by
    constructor
    · intro bells inside
      have back := bells BS (List.mem_append_right _ (List.mem_replicate.mpr ⟨by omega, rfl⟩))
      exact absurd back (by decide)
    · intro outside
      have none_ : l - e.cursor = 0 := by omega
      simp [none_, slice]
  unfold Line.insert
  split
  · rename_i last
    exact ⟨[], by simp, by simp [last]⟩
  · rename_i other
    refine ⟨_, rfl, ?_⟩
    by_cases last : e.l = CLI_MAX_LINE_LENGTH - 1
    · simp only [if_pos last]
      exact leak _ _ Iff.rfl
    · simp only [if_neg last]
      exact leak _ _ (by omega)

theorem typed_hidden (hidden : s.echoes = false) (typed : s.typed c = (t, turn)) :
    t.showprompt = s.showprompt ∧ turn = .again ∧
      ∃ out, t.line.sent = s.line.sent ++ out ∧ ((∀ d ∈ out, d = BEL) ↔ ¬s.line.cursor < s.line.l) := by
  unfold Console.typed at typed
  split at typed
  · rename_i full
    obtain ⟨rfl, rfl⟩ := Prod.mk.inj typed
    simp only [Line.full, Bool.and_eq_true, beq_iff_eq, decide_eq_true_eq] at full
    exact ⟨rfl, rfl, [BEL], rfl, by simp [full.1]⟩
  · have still : Console.echoes { s with line := s.line.insert c } = false := hidden
    simp only [still, Bool.false_eq_true, if_false] at typed
    obtain ⟨rfl, rfl⟩ := Prod.mk.inj typed
    exact ⟨rfl, rfl, insert_sent s.line c⟩

/-- A key that is no submission shows nothing, but for a character in front of others. -/
theorem key_hidden (hidden : s.echoes = false) (exec : s.shell.cli.mode = MODE_EXEC)
    (keyed : s.key setting c = (t, turn)) :
    t.showprompt = s.showprompt ∧ turn ≠ .leave ∧ (turn = .again →
      ∃ out, t.line.sent = s.line.sent ++ out ∧
        ((∀ d ∈ out, d = BEL) ↔ ¬(s.line.cursor < s.line.l ∧ (keyOf c = .char ∨ keyOf c = .question)))) := by
  have waits : s.ready = false := by
    rw [Bool.eq_false_iff]
    intro ready
    rw [echoes_of_ready ready] at hidden
    cases hidden
  unfold Console.key at keyed
  cases kind : keyOf c with
  | edit key =>
    simp only [kind, hidden] at keyed
    obtain ⟨rfl, rfl⟩ := Prod.mk.inj keyed
    obtain ⟨out, sent, bells⟩ := key.act_hidden (showPrompt s.shell) s.line
    exact ⟨rfl, by simp, fun _ => ⟨out, sent, by simpa using bells⟩⟩
  | enter =>
    simp only [kind] at keyed
    obtain ⟨rfl, rfl⟩ := Prod.mk.inj keyed
    exact ⟨rfl, by simp, by simp⟩
  | eot =>
    simp only [kind, hidden, Bool.not_false, if_true] at keyed
    obtain ⟨rfl, rfl⟩ := Prod.mk.inj keyed
    exact ⟨rfl, by simp, by simp⟩
  | endMode =>
    simp only [kind, Console.endMode, exec, ne_eq, not_true_eq_false, if_false] at keyed
    obtain ⟨rfl, rfl⟩ := Prod.mk.inj keyed
    exact ⟨rfl, by simp, by simp⟩
  | tab =>
    simp only [kind, waits, Bool.false_eq_true, false_and, if_false] at keyed
    obtain ⟨rfl, rfl⟩ := Prod.mk.inj keyed
    exact ⟨rfl, by simp, by simp⟩
  | question =>
    simp only [kind, waits, Bool.not_false, if_true] at keyed
    split at keyed
    · obtain ⟨same, rfl, out, sent, bells⟩ := typed_hidden hidden keyed
      exact ⟨same, by simp, fun _ => ⟨out, sent, by simpa using bells⟩⟩
    · rename_i last
      obtain ⟨rfl, rfl⟩ := Prod.mk.inj keyed
      exact ⟨rfl, by simp, fun _ => ⟨[], by simp, by simp [not_not.mp last]⟩⟩
  | history =>
    simp only [kind, waits, Bool.false_eq_true, if_false] at keyed
    obtain ⟨rfl, rfl⟩ := Prod.mk.inj keyed
    exact ⟨rfl, by simp, by simp⟩
  | char =>
    simp only [kind] at keyed
    obtain ⟨same, rfl, out, sent, bells⟩ := typed_hidden hidden keyed
    exact ⟨same, by simp, fun _ => ⟨out, sent, by simpa using bells⟩⟩

theorem submit_hidden (hidden : s.echoes = false) (submits : s.submit setting = some t) :
    ∃ submission, t.submitted = s.submitted ++ [submission] := by
  unfold Console.submit at submits
  dsimp only at submits
  cases state : s.shell.state with
  | login => simp [Console.echoes, state] at hidden
  | password =>
    simp only [state] at submits
    obtain rfl := Option.some.inj submits
    unfold Console.submitPassword
    dsimp only
    split <;> exact ⟨_, rfl⟩
  | enablePassword =>
    simp only [state] at submits
    obtain rfl := Option.some.inj submits
    unfold Console.submitEnable
    dsimp only
    split <;> exact ⟨_, rfl⟩
  | normal => simp [Console.echoes, state] at hidden
  | enable => simp [Console.echoes, state] at hidden

/-- While a password is typed. -/
structure Console.Hides (s : Console) : Prop where
  hidden : s.echoes = false
  quiet : s.showprompt = false
  exec : s.shell.cli.mode = MODE_EXEC

theorem decoded_hides (hides : s.Hides) (decoded : s.decoded setting c = some t) (waits : t.submitted = s.submitted) :
    t.Hides ∧ ∃ out, t.line.sent = s.line.sent ++ out ∧
      ((∀ d ∈ out, d = BEL) ↔ ¬(s.line.cursor < s.line.l ∧ (keyOf c = .char ∨ keyOf c = .question))) := by
  obtain ⟨hidden, quiet, exec⟩ := hides
  obtain ⟨shell, -, submitted, -⟩ := key_around setting s c
  rcases keyed : s.key setting c with ⟨t', turn⟩
  obtain ⟨shown, stays, sent⟩ := key_hidden hidden exec keyed
  rw [keyed] at shell submitted
  have hidden' : t'.echoes = false := by
    rcases shell with same | disabled
    · rw [Console.echoes, same]
      exact hidden
    · rw [Console.echoes, disabled]
      exact hidden
  obtain ⟨rfl, rfl⟩ | ⟨leaves, -⟩ | ⟨-, u, submits, next⟩ := decoded_cases decoded keyed
  · have still : t'.prompted = t' := by rw [Console.prompted, shown, quiet, if_neg Bool.false_ne_true]
    rw [still]
    refine ⟨⟨hidden', shown.trans quiet, ?_⟩, sent rfl⟩
    rcases shell with same | disabled
    · rw [same]
      exact exec
    · rw [disabled]
      exact cliSetConfigmode_mode _ _
  · exact absurd leaves stays
  · obtain ⟨submission, more⟩ := submit_hidden hidden' submits
    have new : t.submitted = s.submitted ++ [submission] := by
      obtain ⟨-, rfl⟩ | ⟨-, rfl⟩ := next
      · exact more.trans (congrArg (· ++ _) submitted)
      · exact ((prompted_same u.fresh).submitted).trans (more.trans (congrArg (· ++ _) submitted))
    rw [waits] at new
    simp at new

theorem step_hides (hides : s.Hides) (stepped : s.step setting e = some t) (open_ : t.ended = false)
    (waits : t.submitted = s.submitted) :
    t.Hides ∧ ∃ out, t.line.sent = s.line.sent ++ out ∧ ((∀ d ∈ out, d = BEL) ↔ ¬s.InFront e) := by
  rcases console_step_cases stepped with
    ⟨c, decoder, rfl, fed, rfl⟩ | ⟨c, decoder, d, rfl, -, fed, decoded⟩ | ⟨_, rfl⟩ | ⟨_, rfl, rfl⟩
  · exact ⟨⟨hides.hidden, hides.quiet, hides.exec⟩, [], by simp, by simp [Console.InFront, fed]⟩
  · have typing : Console.Hides { s with decoder := decoder } := ⟨hides.hidden, hides.quiet, hides.exec⟩
    simpa [Console.InFront, fed] using decoded_hides typing decoded waits
  · cases open_
  · exact ⟨⟨hides.hidden, hides.quiet, hides.exec⟩, [], by simp, by simp [Console.InFront]⟩

theorem submit_prefix (submits : s.submit setting = some t) : s.submitted <+: t.submitted := by
  have commands (cmd : Text)
      (ran : (if s.line.l = 0 then some s else s.submitCommand setting cmd) = some t) : s.submitted <+: t.submitted := by
    split at ran
    · exact Option.some.inj ran ▸ List.prefix_rfl
    · obtain ⟨_, -, rfl⟩ := Option.map_eq_some_iff.mp ran
      exact List.prefix_append _ _
  cases state : s.shell.state with
  | login =>
    simp only [Console.submit, state] at submits
    split at submits <;> obtain rfl := Option.some.inj submits
    · exact List.prefix_rfl
    · exact List.prefix_append _ _
  | password =>
    obtain ⟨_, more⟩ := submit_hidden (by simp [Console.echoes, state]) submits
    exact more ▸ List.prefix_append _ _
  | enablePassword =>
    obtain ⟨_, more⟩ := submit_hidden (by simp [Console.echoes, state]) submits
    exact more ▸ List.prefix_append _ _
  | normal =>
    simp only [Console.submit, state] at submits
    exact commands _ submits
  | enable =>
    simp only [Console.submit, state] at submits
    exact commands _ submits

theorem step_grows (stepped : s.step setting e = some t) :
    s.submitted <+: t.submitted ∧ (t.ended = false → s.ended = false) := by
  rcases console_step_cases stepped with
    ⟨_, _, -, -, rfl⟩ | ⟨_, decoder, d, -, open_, -, decoded⟩ | ⟨_, rfl⟩ | ⟨_, -, rfl⟩
  · exact ⟨List.prefix_rfl, id⟩
  · refine ⟨?_, fun _ => open_⟩
    have same := (key_around setting { s with decoder := decoder } d).submitted
    rcases keyed : Console.key setting { s with decoder := decoder } d with ⟨t', turn⟩
    rw [keyed] at same
    dsimp only at same
    rw [← same]
    obtain ⟨-, rfl⟩ | ⟨-, rfl⟩ | ⟨-, u, submits, next⟩ := decoded_cases decoded keyed
    · rw [(prompted_same t').submitted]
    · exact List.prefix_rfl
    · have more := submit_prefix submits
      obtain ⟨-, rfl⟩ | ⟨-, rfl⟩ := next
      · exact more
      · rw [(prompted_same u.fresh).submitted]
        exact more
  · exact ⟨List.prefix_rfl, fun open_ => by simp at open_⟩
  · exact ⟨List.prefix_rfl, id⟩

theorem run_grows (events : List ConsoleEvent) (reached : Interleaving.run (Console.step setting) s events = some t) :
    s.submitted <+: t.submitted :=
  Interleaving.run_invariant (fun t => s.submitted <+: t.submitted)
    (fun _ _ _ grown stepped => grown.trans (step_grows stepped).1) List.prefix_rfl events reached

theorem step_quiet (quiet : s.ended = false → s.showprompt = false) (stepped : s.step setting e = some t)
    (open_ : t.ended = false) : t.showprompt = false := by
  rcases console_step_cases stepped with
    ⟨_, _, -, -, rfl⟩ | ⟨_, decoder, d, -, -, -, decoded⟩ | ⟨_, rfl⟩ | ⟨_, -, rfl⟩
  · exact quiet open_
  · rcases keyed : Console.key setting { s with decoder := decoder } d with ⟨t', turn⟩
    obtain ⟨-, rfl⟩ | ⟨-, rfl⟩ | ⟨-, u, -, ⟨ended, rfl⟩ | ⟨-, rfl⟩⟩ := decoded_cases decoded keyed
    · exact (prompted_rest t').2.2.2.1
    · cases open_
    · rw [ended] at open_
      cases open_
    · exact (prompted_rest u.fresh).2.2.2.1
  · cases open_
  · exact quiet open_

theorem run_quiet (events : List ConsoleEvent)
    (reached : Interleaving.run (Console.step setting) (.start base globals) events = some s) :
    s.ended = false → s.showprompt = false :=
  Interleaving.run_invariant (fun s => s.ended = false → s.showprompt = false)
    (fun _ _ _ quiet stepped => step_quiet quiet stepped) (fun _ => (prompted_rest _).2.2.2.1) events reached

theorem run_hides (hides : s.Hides) (events : List ConsoleEvent)
    (reached : Interleaving.run (Console.step setting) s events = some t) (open_ : t.ended = false)
    (waits : t.submitted = s.submitted) :
    t.Hides ∧ ∃ out, t.line.sent = s.line.sent ++ out ∧
      ((∀ c ∈ out, c = BEL) ↔ ∀ before e after, events = before ++ e :: after →
        ∀ m, Interleaving.run (Console.step setting) s before = some m → ¬m.InFront e) := by
  induction events using List.reverseRecOn generalizing t with
  | nil =>
    obtain rfl := Option.some.inj reached
    exact ⟨hides, [], by simp, by simp⟩
  | append_singleton events e ih =>
    rw [Interleaving.run_concat] at reached
    obtain ⟨m, earlier, stepped⟩ := Option.bind_eq_some_iff.mp reached
    obtain ⟨grows, ended⟩ := step_grows stepped
    have back : m.submitted <+: s.submitted := waits ▸ grows
    have same : m.submitted = s.submitted := back.eq_of_length_le (run_grows events earlier).length_le
    obtain ⟨still, out, sent, bells⟩ := ih earlier (ended open_) same
    obtain ⟨hides, more, sent', bells'⟩ := step_hides still stepped open_ (waits.trans same.symm)
    refine ⟨hides, out ++ more, by rw [sent', sent, List.append_assoc], ?_⟩
    rw [Paths.forall_split_concat, List.forall_mem_append, bells, bells', earlier]
    simp

end Hidden

/-- Over every session in which every completed word fits the buffer: from the prompt for a password
to its submission the client is sent bells only, just when no character is put in front of others
on the way. -/
theorem password_hidden_iff (setting : Setting) (base : Mem) (globals : Globals) (earlier events : List ConsoleEvent)
    (s t : Console) (before : (Console.start base globals).Fits setting earlier s)
    (typing : s.shell.state = .password ∨ s.shell.state = .enablePassword) (prompts : s.ended = false)
    (later : s.Fits setting events t) (open_ : t.ended = false) (waits : t.submitted = s.submitted) :
    ∃ out, t.line.sent = s.line.sent ++ out ∧
      ((∀ c ∈ out, c = BEL) ↔ ∀ before e after, events = before ++ e :: after →
        ∀ m, Interleaving.run (Console.step setting) s before = some m → ¬m.InFront e) := by
  have hides : s.Hides := by
    refine ⟨?_, run_quiet earlier before.reached prompts, (run_lawful earlier before.reached).exec ?_⟩
    · rcases typing with state | state <;> simp [Console.echoes, state]
    · rcases typing with state | state <;> simp [Console.ready, state]
  exact (run_hides hides events later.reached open_ waits).2

/-- `adm` for the password: nothing is sent, as nothing is put in front of others. -/
theorem password_hidden_iff_adm :
    ∃ s t out, Interleaving.run (Console.step bareSetting) s ("adm".toList.map .byte) = some t ∧
      t.line.sent = s.line.sent ++ out ∧
      ((∀ c ∈ out, c = BEL) ↔ ∀ before e after, ("adm".toList.map ConsoleEvent.byte) = before ++ e :: after →
        ∀ m, Interleaving.run (Console.step bareSetting) s before = some m → ¬m.InFront e) := by
  have ends : ((Interleaving.run (Console.step bareSetting) (.start (fun _ => NUL) ⟨⟨.init, []⟩, .zero, 0⟩)
      ("admin\r".toList.map .byte)).bind fun s =>
        (Interleaving.run (Console.step bareSetting) s ("adm".toList.map .byte)).map fun t =>
          (s.shell.state, s.ended, t.ended, decide (t.submitted = s.submitted))) = some (.password, false, false, true) := by
    decide +kernel
  obtain ⟨s, reached, rest⟩ := Option.bind_eq_some_iff.mp ends
  obtain ⟨t, later, same⟩ := Option.map_eq_some_iff.mp rest
  simp only [Prod.mk.injEq, decide_eq_true_eq] at same
  obtain ⟨state, prompts, open_, waits⟩ := same
  have before := fits_tabless _ (List.all_iff_forall_prop.mp (by decide)) reached
  have fits := fits_tabless _ (List.all_iff_forall_prop.mp (by decide)) later
  obtain ⟨out, sent, bells⟩ :=
    password_hidden_iff _ _ _ _ ("adm".toList.map .byte) s t before (.inl state) prompts fits open_ waits
  exact ⟨s, t, out, later, sent, bells⟩

end WlanBridge
