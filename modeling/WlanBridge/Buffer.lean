import WlanBridge.Completed
import WlanBridge.Histories

/-! What a key and a step of a session leave alone, and that no byte makes `cli_loop` write behind
its buffer but for a completion that does not fit. -/
namespace WlanBridge

open Memory Terminal

namespace Console
variable (setting : Setting) (s : Console)

/-- What is typed for the last word fits the buffer. -/
def HasRoom (help : CompHelp) : Prop :=
  ∀ text ∈ completion help,
    ((slice s.line.cmd 0 s.line.l).rdropWhile fun c => !stop help.commaSeparated c).length + text.length <
      CLI_MAX_LINE_LENGTH

def Roomy : Prop :=
  s.line.cursor = s.line.l → s.lastchar ≠ CTRL 'I' → ∀ help ∈ s.completions setting (CTRL 'I'), s.HasRoom help

/-- The characters that an event comes to, for which a completion has to fit the buffer. -/
def Careful : ConsoleEvent → Prop
  | .byte c => s.ready = true → ∀ d ∈ (s.decoder.feed c).2, keyOf d = .tab → s.Roomy setting
  | _ => True

/-- A run in which every word that is completed fits the buffer. What `strcpy` writes behind the
buffer is the end of what the code says about a session. -/
structure Fits (events : List ConsoleEvent) (t : Console) : Prop where
  reached : Interleaving.run (step setting) s events = some t
  careful : ∀ before e after, events = before ++ e :: after →
    ∀ m, Interleaving.run (step setting) s before = some m → m.Careful setting e

end Console

theorem Console.foldl_cliError (s : Console) (texts : List Text) :
    ∃ sent, texts.foldl Console.cliError s = { s with line := { s.line with sent := sent } } := by
  induction texts generalizing s with
  | nil => exact ⟨s.line.sent, rfl⟩
  | cons text texts ih =>
    obtain ⟨sent, said⟩ := ih (s.cliError text)
    exact ⟨sent, said⟩

/-- The session around the line, but for what a key can do to the prompt. -/
structure Console.Around (s t : Console) : Prop where
  shell : t.shell = s.shell ∨ t.shell = s.shell.cliSetConfigmode MODE_EXEC
  ended : t.ended = s.ended
  submitted : t.submitted = s.submitted
  username : t.username = s.username
  decoder : t.decoder = s.decoder

theorem Console.Around.refl (s : Console) : s.Around s := ⟨.inl rfl, rfl, rfl, rfl, rfl⟩

theorem typed_around (s : Console) (c : Char) : s.Around (s.typed c).1 := by
  unfold Console.typed
  split
  · exact ⟨.inl rfl, rfl, rfl, rfl, rfl⟩
  · dsimp only
    split
    · split <;> exact ⟨.inl rfl, rfl, rfl, rfl, rfl⟩
    · exact ⟨.inl rfl, rfl, rfl, rfl, rfl⟩

theorem help_around (s : Console) (help : CompHelp) :
    s.Around (s.help help).1 ∧ (s.help help).1.old = s.old ∧
      ∃ sent, (s.help help).1.line = { s.line with sent := sent } := by
  unfold Console.help
  dsimp only
  split
  · exact ⟨⟨.inl rfl, rfl, rfl, rfl, rfl⟩, rfl, _, rfl⟩
  · exact ⟨⟨.inl rfl, rfl, rfl, rfl, rfl⟩, rfl, _, rfl⟩
  · rename_i entries _ _
    obtain ⟨sent, said⟩ :=
      Console.foldl_cliError ({ s.asked help with showprompt := true }.write "\r\n".toList) entries
    rw [said]
    split <;> exact ⟨⟨.inl rfl, rfl, rfl, rfl, rfl⟩, rfl, _, rfl⟩

theorem tab_around (s : Console) (help : CompHelp) : s.Around (s.tab help) ∧ (s.tab help).old = s.old := by
  unfold Console.tab
  dsimp only
  split
  · exact ⟨⟨.inl rfl, rfl, rfl, rfl, rfl⟩, rfl⟩
  · split
    · exact ⟨⟨.inl rfl, rfl, rfl, rfl, rfl⟩, rfl⟩
    · split
      · exact ⟨⟨.inl rfl, rfl, rfl, rfl, rfl⟩, rfl⟩
      · split
        · exact ⟨⟨.inl rfl, rfl, rfl, rfl, rfl⟩, rfl⟩
        · split <;> exact ⟨⟨.inl rfl, rfl, rfl, rfl, rfl⟩, rfl⟩

theorem Console.Around.trans {s t u : Console} (first : s.Around t) (same : t.shell = s.shell) (second : t.Around u) :
    s.Around u :=
  ⟨by rw [← same]; exact second.shell, second.ended.trans first.ended, second.submitted.trans first.submitted,
    second.username.trans first.username, second.decoder.trans first.decoder⟩

theorem help_shell (s : Console) (help : CompHelp) : (s.help help).1.shell = s.shell := by
  unfold Console.help
  dsimp only
  split
  · rfl
  · rfl
  · rename_i entries _ _
    obtain ⟨sent, said⟩ :=
      Console.foldl_cliError ({ s.asked help with showprompt := true }.write "\r\n".toList) entries
    rw [said]
    split <;> rfl

theorem completed_around (setting : Setting) (s : Console) (c : Char) : s.Around (s.completed setting c).1 := by
  unfold Console.completed
  split
  · exact .refl s
  · exact (tab_around s _).1

theorem explained_around (setting : Setting) (s : Console) (c : Char) : s.Around (s.explained setting c).1 := by
  unfold Console.explained
  split
  · exact .refl s
  · split
    · exact (help_around s _).1
    · exact (help_around s _).1.trans (help_shell s _) (typed_around _ c)

theorem key_around (setting : Setting) (s : Console) (c : Char) : s.Around (s.key setting c).1 := by
  unfold Console.key
  split
  · exact ⟨.inl rfl, rfl, rfl, rfl, rfl⟩
  · exact ⟨.inl rfl, rfl, rfl, rfl, rfl⟩
  · split
    · exact .refl s
    · split <;> exact .refl s
  · unfold Console.endMode
    split
    · exact ⟨.inr rfl, rfl, rfl, rfl, rfl⟩
    · exact .refl s
  · split
    · exact completed_around setting s c
    · exact .refl s
  · split
    · exact typed_around s c
    · split
      · exact .refl s
      · exact explained_around setting s c
  · dsimp only
    split
    · exact ⟨.inl rfl, rfl, rfl, rfl, rfl⟩
    · exact .refl s
  · exact typed_around s c

section Waits
variable {base : Mem} {setting : Setting} {s t : Console} {turn : Console.Turn}

theorem Line.insert_filled (e : Line) (c : Char) : (e.insert c).l ≠ 0 := by
  unfold Line.insert
  split
  · exact Nat.succ_ne_zero _
  · split
    · rename_i last
      dsimp only
      rw [last]
      decide
    · exact Nat.succ_ne_zero _

theorem echoes_of_ready (ready : s.ready = true) : s.echoes = true := by
  unfold Console.ready at ready
  unfold Console.echoes
  rcases state : s.shell.state <;> simp_all

theorem typed_bounded (b : s.line.Bounded base) (c : Char) : (Console.typed s c).1.line.Bounded base := by
  have l := b.l
  have cursor := b.cursor
  unfold Console.typed
  split
  · refine ⟨l, cursor, fun i behind => ?_⟩
    dsimp only [Line.write]
    rw [Function.update_of_ne (by omega)]
    exact b.outside i behind
  · rename_i room
    have inserted := b.insert (Bool.eq_false_iff.mpr room) c
    dsimp only
    split
    · split
      · exact ⟨inserted.l, Nat.sub_le _ 1, inserted.outside⟩
      · exact inserted.write _
    · exact inserted

theorem Line.Bounded.same (b : Line.Bounded base e) (sent : Text) : Line.Bounded base { e with sent := sent } :=
  ⟨b.l, b.cursor, b.outside⟩

theorem tab_bounded (b : s.line.Bounded base)
    (room : s.lastchar ≠ CTRL 'I' → s.HasRoom help) : (s.tab help).line.Bounded base := by
  have asked : (s.asked help).line.Bounded base := b.write help.said
  unfold Console.tab
  dsimp only
  split
  · exact asked.write _
  · split
    · exact asked.write _
    · rename_i once
      split
      · rename_i word completes
        have fits := room once word completes
        refine ⟨fits, Nat.le_refl _, fun i behind => ?_⟩
        dsimp only [Line.retype, Console.asked, Console.write, Line.write]
        rw [store, if_neg (by omega)]
        exact b.outside i behind
      · split
        · exact asked
        · dsimp only
          split
          · exact asked
          · exact asked.write _

theorem bringBack_bounded (b : s.line.Bounded base) (c : Char) : (s.bringBack c).line.Bounded base := by
  unfold Console.bringBack
  dsimp only
  split
  · rename_i line _
    have l := b.l
    have cursor := b.cursor
    have size : CLI_MAX_LINE_LENGTH = 4096 := rfl
    have short : (line.take (CLI_MAX_LINE_LENGTH - 1)).length ≤ CLI_MAX_LINE_LENGTH - 1 := List.length_take_le _ _
    refine ⟨by dsimp only [Line.bringBack]; omega, Nat.le_refl _, fun i behind => ?_⟩
    dsimp only [Line.bringBack, Line.cliClearLine]
    rw [store, if_neg (by omega), memset, if_neg (by omega), memset, if_neg (by omega), memset, if_neg (by omega)]
    exact b.outside i behind
  · exact b

theorem completed_bounded (b : s.line.Bounded base)
    (room : ∀ help ∈ s.completions setting c, s.lastchar ≠ CTRL 'I' → s.HasRoom help) :
    (s.completed setting c).1.line.Bounded base := by
  unfold Console.completed
  split
  · exact b
  · rename_i help completes
    exact tab_bounded b (room help completes)

theorem explained_bounded (b : s.line.Bounded base) (c : Char) : (s.explained setting c).1.line.Bounded base := by
  have helped (help : CompHelp) : (s.help help).1.line.Bounded base := by
    obtain ⟨-, -, sent, line⟩ := help_around s help
    exact line ▸ b.same sent
  unfold Console.explained
  split
  · exact b
  · split
    · exact helped _
    · exact typed_bounded (helped _) c

/-- Whatever is typed, and in whatever state: only a completion can be too long for the buffer. -/
theorem key_bounded (b : s.line.Bounded base) (room : s.ready = true → keyOf c = .tab → s.Roomy setting) :
    (s.key setting c).1.line.Bounded base := by
  unfold Console.key
  cases kind : keyOf c with
  | edit key => exact key.act_bounded b s.echoes (showPrompt s.shell)
  | enter => exact b.echo s.echoes _
  | eot =>
    dsimp only
    split
    · exact b
    · split <;> exact b
  | endMode =>
    dsimp only [Console.endMode]
    split
    · exact b.clear true
    · exact b
  | tab =>
    dsimp only
    split
    · rename_i typing
      obtain rfl := keyOf_tab kind
      exact completed_bounded b fun help completes once => room typing.1 kind typing.2 once help completes
    · exact b
  | question =>
    dsimp only
    split
    · exact typed_bounded b c
    · split
      · exact b
      · exact explained_bounded b c
  | history =>
    dsimp only
    split
    · exact bringBack_bounded b c
    · exact b
  | char => exact typed_bounded b c

theorem typed_old (settled : s.old = none) (typed : Console.typed s c = (t, turn)) :
    t.old = none ∨ turn = .done ∧ s.echoes = true ∧ t.old = some (t.line.l - 1) ∧ t.line.l ≠ 0 := by
  unfold Console.typed at typed
  split at typed
  · obtain ⟨rfl, rfl⟩ := Prod.mk.inj typed
    exact .inl settled
  · have filled := Line.insert_filled s.line c
    dsimp only at typed
    split at typed
    · rename_i echoes
      split at typed
      · obtain ⟨rfl, rfl⟩ := Prod.mk.inj typed
        exact .inr ⟨rfl, echoes, rfl, filled⟩
      · obtain ⟨rfl, rfl⟩ := Prod.mk.inj typed
        exact .inl rfl
    · obtain ⟨rfl, rfl⟩ := Prod.mk.inj typed
      exact .inl rfl

theorem completed_old (settled : s.old = none) (keyed : s.completed setting c = (t, turn)) : t.old = none := by
  unfold Console.completed at keyed
  split at keyed
  · obtain ⟨rfl, rfl⟩ := Prod.mk.inj keyed
    exact settled
  · obtain ⟨rfl, rfl⟩ := Prod.mk.inj keyed
    exact (tab_around s _).2.trans settled

theorem explained_old (settled : s.old = none) (keyed : s.explained setting c = (t, turn)) :
    t.old = none ∨ turn = .done ∧ s.echoes = true ∧ t.old = some (t.line.l - 1) ∧ t.line.l ≠ 0 := by
  unfold Console.explained at keyed
  split at keyed
  · obtain ⟨rfl, rfl⟩ := Prod.mk.inj keyed
    exact .inl settled
  · rename_i help _
    obtain ⟨-, kept, -⟩ := help_around s help
    have echoes : (s.help help).1.echoes = s.echoes := by rw [Console.echoes, help_shell, Console.echoes]
    split at keyed
    · obtain ⟨rfl, rfl⟩ := Prod.mk.inj keyed
      exact .inl (kept.trans settled)
    · rw [← echoes]
      exact typed_old (kept.trans settled) keyed

theorem key_old (settled : s.old = none) (keyed : s.key setting c = (t, turn)) :
    t.old = none ∨ turn = .done ∧ s.echoes = true ∧ t.old = some (t.line.l - 1) ∧ t.line.l ≠ 0 := by
  unfold Console.key at keyed
  cases kind : keyOf c with
  | edit key =>
    simp only [kind] at keyed
    obtain ⟨rfl, rfl⟩ := Prod.mk.inj keyed
    exact .inl settled
  | enter =>
    simp only [kind] at keyed
    obtain ⟨rfl, rfl⟩ := Prod.mk.inj keyed
    exact .inl settled
  | eot =>
    simp only [kind] at keyed
    split at keyed
    · obtain ⟨rfl, rfl⟩ := Prod.mk.inj keyed
      exact .inl settled
    · split at keyed <;> obtain ⟨rfl, rfl⟩ := Prod.mk.inj keyed <;> exact .inl settled
  | endMode =>
    simp only [kind, Console.endMode] at keyed
    obtain ⟨rfl, rfl⟩ := Prod.mk.inj keyed
    split <;> exact .inl settled
  | tab =>
    simp only [kind] at keyed
    split at keyed
    · exact .inl (completed_old settled keyed)
    · obtain ⟨rfl, rfl⟩ := Prod.mk.inj keyed
      exact .inl settled
  | question =>
    simp only [kind] at keyed
    split at keyed
    · exact typed_old settled keyed
    · split at keyed
      · obtain ⟨rfl, rfl⟩ := Prod.mk.inj keyed
        exact .inl settled
      · exact explained_old settled keyed
  | history =>
    simp only [kind] at keyed
    obtain ⟨rfl, rfl⟩ := Prod.mk.inj keyed
    split <;> exact .inl settled
  | char =>
    simp only [kind] at keyed
    exact typed_old settled keyed

theorem prompted_rest (s : Console) :
    s.prompted.shell = s.shell ∧ s.prompted.old = s.old ∧ s.prompted.ended = s.ended ∧ s.prompted.showprompt = false ∧
      ∃ sent, s.prompted.line = { s.line with sent := sent } := by
  unfold Console.prompted
  split
  · dsimp only
    split <;> split <;> exact ⟨rfl, rfl, rfl, rfl, _, rfl⟩
  · rename_i shown
    exact ⟨rfl, rfl, rfl, Bool.eq_false_iff.mpr shown, _, rfl⟩

theorem prompted_bounded (b : s.line.Bounded base) : s.prompted.line.Bounded base := by
  obtain ⟨-, -, -, -, sent, line⟩ := prompted_rest s
  rw [line]
  exact b.same sent

theorem submit_line (submits : s.submit setting = some t) :
    t.old = s.old ∧ ∃ sent, t.line = { s.line with sent := sent } := by
  have commands (cmd : Text)
      (ran : (if s.line.l = 0 then some s else s.submitCommand setting cmd) = some t) :
      t.old = s.old ∧ ∃ sent, t.line = { s.line with sent := sent } := by
    split at ran
    · exact Option.some.inj ran ▸ ⟨rfl, _, rfl⟩
    · obtain ⟨⟨rc, shell, globals, sent⟩, -, rfl⟩ := Option.map_eq_some_iff.mp ran
      exact ⟨rfl, sent, rfl⟩
  unfold Console.submit at submits
  dsimp only at submits
  split at submits
  · split at submits <;> obtain rfl := Option.some.inj submits <;> exact ⟨rfl, _, rfl⟩
  · obtain rfl := Option.some.inj submits
    unfold Console.submitPassword
    dsimp only
    split <;> exact ⟨rfl, _, rfl⟩
  · obtain rfl := Option.some.inj submits
    unfold Console.submitEnable
    dsimp only
    split <;> exact ⟨rfl, _, rfl⟩
  · exact commands _ submits

theorem fresh_bounded (b : s.line.Bounded base) (old : s.old = none ∨ s.old = some (s.line.l - 1)) :
    s.fresh.line.Bounded base := by
  have l := b.l
  rcases old with none_ | kept
  · have filled : 0 < CLI_MAX_LINE_LENGTH := by decide
    unfold Console.fresh
    rw [none_]
    refine ⟨filled, Nat.le_refl 0, fun i behind => ?_⟩
    dsimp only
    rw [memset, if_neg (by omega)]
    exact b.outside i behind
  · unfold Console.fresh
    rw [kept]
    refine ⟨by dsimp only; omega, Nat.le_refl _, fun i behind => ?_⟩
    dsimp only
    rw [Function.update_of_ne (by omega)]
    exact b.outside i behind

/-- Between two waits the buffer is respected, and no line is kept. -/
structure Console.InBuffer (base : Mem) (s : Console) : Prop where
  bounded : s.line.Bounded base
  old : s.ended = false → s.old = none

/-- What a character comes to, once its key is known: another turn, the end of the session, or a
submission that the session outlives or does not. -/
theorem decoded_cases (decoded : s.decoded setting c = some t) (keyed : s.key setting c = (t', turn)) :
    turn = .again ∧ t = t'.prompted ∨ turn = .leave ∧ t = { t' with ended := true } ∨
      turn = .done ∧ ∃ u, t'.submit setting = some u ∧
        (u.ended = true ∧ t = u ∨ u.ended = false ∧ t = u.fresh.prompted) := by
  unfold Console.decoded at decoded
  rw [keyed] at decoded
  cases turn with
  | again => exact .inl ⟨rfl, (Option.some.inj decoded).symm⟩
  | leave => exact .inr (.inl ⟨rfl, (Option.some.inj decoded).symm⟩)
  | crash => cases decoded
  | done =>
    obtain ⟨u, submits, rfl⟩ := Option.map_eq_some_iff.mp decoded
    refine .inr (.inr ⟨rfl, u, submits, ?_⟩)
    cases ended : u.ended with
    | true => exact .inl ⟨rfl, if_pos rfl⟩
    | false => exact .inr ⟨rfl, if_neg Bool.false_ne_true⟩

theorem decoded_inBuffer (safe : s.InBuffer base) (open_ : s.ended = false)
    (room : s.ready = true → keyOf c = .tab → s.Roomy setting) (decoded : s.decoded setting c = some t) :
    t.InBuffer base := by
  rcases keyed : s.key setting c with ⟨t', turn⟩
  have bounded := key_bounded safe.bounded room
  have old := key_old (safe.old open_) keyed
  rw [keyed] at bounded
  obtain ⟨rfl, rfl⟩ | ⟨-, rfl⟩ | ⟨-, u, submits, next⟩ := decoded_cases decoded keyed
  · obtain ⟨-, kept, -⟩ := prompted_rest t'
    refine ⟨prompted_bounded bounded, fun _ => kept.trans ?_⟩
    simpa using old
  · exact ⟨bounded, fun open_ => by simp at open_⟩
  · obtain ⟨kept, sent, line⟩ := submit_line submits
    have still : u.line.Bounded base := line ▸ bounded.same sent
    obtain ⟨ended, rfl⟩ | ⟨-, rfl⟩ := next
    · exact ⟨still, fun open_ => by simp [ended] at open_⟩
    · refine ⟨prompted_bounded (fresh_bounded still ?_), fun _ => (prompted_rest u.fresh).2.1⟩
      rw [kept, line]
      exact old.imp_right fun question => question.2.2.1

/-- What a step is: a byte that a decoder keeps for itself, a character, the end of the session, or
news from the rest of the server. -/
theorem console_step_cases (stepped : s.step setting e = some t) :
    (∃ c decoder, e = .byte c ∧ s.decoder.feed c = (decoder, none) ∧ t = { s with decoder := decoder }) ∨
      (∃ c decoder d, e = .byte c ∧ s.ended = false ∧ s.decoder.feed c = (decoder, some d) ∧
        Console.decoded setting { s with decoder := decoder } d = some t) ∨
      (∃ sent, t = { s with line := { s.line with sent := sent }, ended := true }) ∨
      ∃ globals, e = .others globals ∧ t = { s with globals := globals } := by
  cases e with
  | byte c =>
    simp only [Console.step] at stepped
    split at stepped
    · cases stepped
    rename_i open_
    rcases fed : s.decoder.feed c with ⟨decoder, _ | d⟩
    · simp only [fed] at stepped
      exact .inl ⟨c, decoder, rfl, fed, (Option.some.inj stepped).symm⟩
    · simp only [fed] at stepped
      exact .inr (.inl ⟨c, decoder, d, rfl, Bool.eq_false_iff.mpr open_, fed, stepped⟩)
  | hangup =>
    simp only [Console.step] at stepped
    split at stepped
    · cases stepped
    · exact .inr (.inr (.inl ⟨s.line.sent, (Option.some.inj stepped).symm⟩))
  | idle =>
    simp only [Console.step] at stepped
    split at stepped
    · cases stepped
    · exact .inr (.inr (.inl ⟨_, (Option.some.inj stepped).symm⟩))
  | others globals => exact .inr (.inr (.inr ⟨globals, rfl, (Option.some.inj stepped).symm⟩))

theorem feed_mem (d : Decoder) (c : Char) (fed : e ∈ (d.feed c).2) : (e = c ∨ e = arrow c) ∧ e ≠ NUL := by
  have kept (d : Decoder) (b : Char) (found : e ∈ (d.plain b).2) : e = b ∧ e ≠ NUL := by
    unfold Decoder.plain at found
    split at found
    · cases found
    · split at found
      · cases found
      · rename_i ends _
        obtain rfl := Option.mem_some_iff.mp found
        exact ⟨rfl, fun zero => ends (.inl zero)⟩
  unfold Decoder.feed at fed
  dsimp only at fed
  split at fed
  · cases fed
  · split at fed
    · cases fed
    · split at fed
      · cases fed
      · split at fed
        · exact (kept _ _ fed).imp_left .inr
        · split at fed
          · cases fed
          · exact (kept _ _ fed).imp_left .inl

theorem step_inBuffer (safe : s.InBuffer base) (careful : s.Careful setting e) (stepped : s.step setting e = some t) :
    t.InBuffer base := by
  rcases console_step_cases stepped with
    ⟨_, _, -, -, rfl⟩ | ⟨c, decoder, d, rfl, open_, fed, decoded⟩ | ⟨_, rfl⟩ | ⟨_, -, rfl⟩
  · exact ⟨safe.bounded, safe.old⟩
  · exact decoded_inBuffer (s := { s with decoder := decoder }) ⟨safe.bounded, safe.old⟩ open_
      (fun ready => careful ready d (by rw [fed]; rfl)) decoded
  · exact ⟨safe.bounded.same _, fun open_ => by simp at open_⟩
  · exact ⟨safe.bounded, safe.old⟩

theorem start_inBuffer (base : Mem) (globals : Globals) : (Console.start base globals).InBuffer base := by
  have filled : 0 < CLI_MAX_LINE_LENGTH := by decide
  have bounded : Line.Bounded base ⟨base, 0, 0, Console.negotiate⟩ := ⟨filled, Nat.le_refl 0, fun _ _ => rfl⟩
  refine ⟨prompted_bounded (fresh_bounded (bounded.same _) (.inl rfl)), fun _ => ?_⟩
  exact (prompted_rest _).2.1

theorem program_careful (regcomp : Regcomp) (meter : Meter) (e : ConsoleEvent)
    (short : s.line.l + 17 < CLI_MAX_LINE_LENGTH) : s.Careful (.program regcomp meter) e := by
  cases e with
  | byte c =>
    intro _ d _ _ _ _ help asked text completed
    rw [Console.program_completions] at asked
    have width := (cliGetCompletions_fills s.shell s.typedLine help asked text completed).short
    have keep := (List.rdropWhile_prefix (fun c => !Console.stop help.commaSeparated c)
      (l := slice s.line.cmd 0 s.line.l)).length_le
    rw [slice_length] at keep
    omega
  | hangup | idle | others => trivial

/-- Whatever bytes a client sends, in whatever order with hangups and timeouts: nothing is written
behind the buffer of the line, whose end and cursor stay inside it, as long as every word that a
tabulator completes fits the buffer. -/
theorem line_stays_in_buffer (setting : Setting) (base : Mem) (globals : Globals) (events : List ConsoleEvent)
    (careful : ∀ before e after, events = before ++ e :: after →
      ∀ s, Interleaving.run (Console.step setting) (.start base globals) before = some s → s.Careful setting e)
    (s : Console) (reached : Interleaving.run (Console.step setting) (.start base globals) events = some s) :
    s.line.l < CLI_MAX_LINE_LENGTH ∧ s.line.cursor ≤ s.line.l ∧
      ∀ i, CLI_MAX_LINE_LENGTH ≤ i → s.line.cmd i = base i := by
  have safe : s.InBuffer base :=
    Interleaving.run_careful (Console.InBuffer base) (Console.Careful setting)
      (fun _ _ _ safe careful stepped => step_inBuffer safe careful stepped) (start_inBuffer base globals) events careful
      reached
  exact ⟨safe.bounded.l, safe.bounded.cursor, safe.bounded.outside⟩

/-- `admin` twice; at the prompt `shw`, the letter that is missing, an `f` that a tabulator completes,
and a letter too many. -/
def typedSession : List ConsoleEvent := "admin\radmin\rshw\x02o\x05 f\tx\x08".toList.map .byte

def plainProgram : Setting := .program (fun _ _ _ => none) .stopped

theorem line_stays_in_buffer_session :
    ∃ s, Interleaving.run (Console.step plainProgram) (.start (fun _ => NUL) ⟨⟨.init, []⟩, .zero, 0⟩) typedSession = some s ∧
      s.line.l < CLI_MAX_LINE_LENGTH ∧ s.line.cursor ≤ s.line.l ∧ ∀ i, CLI_MAX_LINE_LENGTH ≤ i → s.line.cmd i = NUL := by
  have ends : (Interleaving.run (Console.step plainProgram) (.start (fun _ => NUL) ⟨⟨.init, []⟩, .zero, 0⟩)
      typedSession).isSome = true := by decide +kernel
  have short : Interleaving.checks (Console.step plainProgram) (fun s _ => decide (s.line.l + 17 < CLI_MAX_LINE_LENGTH))
      (.start (fun _ => NUL) ⟨⟨.init, []⟩, .zero, 0⟩) typedSession = true := by decide +kernel
  obtain ⟨s, reached⟩ := Option.isSome_iff_exists.mp ends
  have careful (before : List ConsoleEvent) (e : ConsoleEvent) (after : List ConsoleEvent)
      (split : typedSession = before ++ e :: after) (t : Console)
      (earlier : Interleaving.run (Console.step plainProgram) (.start (fun _ => NUL) ⟨⟨.init, []⟩, .zero, 0⟩) before = some t) :
      t.Careful plainProgram e :=
    program_careful _ _ e (by simpa using Interleaving.checks_spec short before e after split t earlier)
  exact ⟨s, reached, line_stays_in_buffer plainProgram (fun _ => NUL) ⟨⟨.init, []⟩, .zero, 0⟩ typedSession careful s reached⟩

def bareSetting : Setting := ⟨fun _ _ _ => some (.of []), fun _ _ _ => none, .stopped⟩

theorem fits_tabless (text : Text) (tabless : ∀ c ∈ text, keyOf c ≠ .tab ∧ keyOf (arrow c) ≠ .tab)
    (reached : Interleaving.run (Console.step setting) s (text.map .byte) = some t) :
    s.Fits setting (text.map .byte) t := by
  refine ⟨reached, fun before e after split m _ => ?_⟩
  have member : e ∈ text.map ConsoleEvent.byte := by simp [split]
  obtain ⟨c, typed, rfl⟩ := List.mem_map.mp member
  intro _ d fed tab
  obtain ⟨itself, arrows⟩ := tabless c typed
  rcases (feed_mem m.decoder c fed).1 with rfl | rfl
  · exact absurd tab itself
  · exact absurd tab arrows

end Waits

end WlanBridge
