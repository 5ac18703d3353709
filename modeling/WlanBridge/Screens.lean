import WlanBridge.Buffer

/-! What the client's terminal shows while commands are typed, over whole sessions: the prompt, and
behind it the text that an ideal editor holds, which is also what the buffer holds. -/
namespace WlanBridge

open Memory Terminal

namespace Console
variable (setting : Setting) (s : Console)

def idealTab (help : CompHelp) (z : Zipper Char) : Zipper Char :=
  if help.entries = some [] ∨ s.lastchar = CTRL 'I' then z
  else
    match completion help with
    | some text => z.retype (stop help.commaSeparated) text
    | none => z

/-- What a character means to the text while commands are typed. -/
def ideal (c : Char) (z : Zipper Char) : Zipper Char :=
  match keyOf c with
  | .edit key => key.means z
  | .enter => z
  | .eot => z
  | .endMode => if s.shell.cli.mode ≠ MODE_EXEC then .atEnd [] else z
  | .tab => if z.back = [] then (setting.getCompletions s.shell z.text c).elim z (s.idealTab · z) else z
  | .question =>
    if z.back = [] ∧ (setting.getCompletions s.shell z.text c).any (·.entries.isSome) then z
    else z.insert (CLI_MAX_LINE_LENGTH - 1) c
  | .history => (s.recalled c).elim z .atEnd
  | .char => z.insert (CLI_MAX_LINE_LENGTH - 1) c

/-- While commands are typed, the client sends keys and characters that take a column each, and what
completes a line or helps with it does what it should. -/
def Courteous : ConsoleEvent → Prop
  | .byte c => s.ready = true → ∀ d ∈ (s.decoder.feed c).2,
      (keyOf d = .char → Printable d) ∧
        (s.line.cursor = s.line.l → keyOf d = .tab ∨ keyOf d = .question → ∀ help ∈ s.completions setting d,
          Told help ∧ (keyOf d = .tab → s.lastchar ≠ CTRL 'I' → Completes help s.typedLine))
  | _ => True

/-- What the program's completions ask of the client besides: a tabulator comes behind a line without
quotes and backslashes that neither the parser's array nor the buffer is almost full of. -/
def polite : ConsoleEvent → Bool
  | .byte c => (s.decoder.feed c).2.all fun d =>
      (keyOf d != .char || decide (Printable d)) &&
        (keyOf d != .tab || s.typedLine.all (fun b => decide (Bare b)) &&
          decide ((cliParseLine s.typedLine CLI_MAX_LINE_WORDS).length < CLI_MAX_LINE_WORDS - 1) &&
          decide (s.typedLine.length + 17 < CLI_MAX_LINE_LENGTH))
  | _ => true

theorem program_courteous {s : Console} (regcomp : Regcomp) (meter : Meter) (polite : s.polite e = true) :
    s.Courteous (.program regcomp meter) e := by
  cases e with
  | byte c =>
    intro _ d fed
    obtain ⟨char, tab⟩ := Bool.and_eq_true_iff.mp ((Option.all_eq_true _ _).mp polite d fed)
    rw [program_completions]
    refine ⟨fun typed => by simpa [typed] using char, fun _ _ help asked =>
      ⟨(cliGetCompletions_plain _ _ _ help asked).told, fun typed _ => ?_⟩⟩
    simp only [typed, bne_self_eq_false, Bool.false_or, Bool.and_eq_true, decide_eq_true_eq] at tab
    obtain ⟨⟨bare, few⟩, short⟩ := tab
    obtain rfl := keyOf_tab typed
    exact program_completes _ _ (List.all_iff_forall_prop.mp bare) few short help asked
  | hangup | idle | others => trivial

end Console

/-- A session with an ideal editor beside it. -/
structure Watched where
  console : Console
  ideal : Zipper Char

/-- The text behind a character: a line that is submitted is forgotten, but for the one that a
question mark has been typed behind. -/
def Watched.idealNext (setting : Setting) (w : Watched) (c : Char) : Zipper Char :=
  match w.console.key setting c with
  | (_, .again) => w.console.ideal setting c w.ideal
  | (_, .leave) | (_, .crash) => w.ideal
  | (t, .done) =>
    if t.old.isSome then .atEnd (w.ideal.insert (CLI_MAX_LINE_LENGTH - 1) c).text.dropLast else .atEnd []

def Watched.idealStep (setting : Setting) (w : Watched) : ConsoleEvent → Zipper Char
  | .byte c =>
    let (decoder, key) := w.console.decoder.feed c
    match key with
    | none => w.ideal
    | some c => Watched.idealNext setting ⟨{ w.console with decoder := decoder }, w.ideal⟩ c
  | _ => w.ideal

def Watched.step (setting : Setting) (w : Watched) (e : ConsoleEvent) : Option Watched :=
  (w.console.step setting e).map fun console => ⟨console, w.idealStep setting e⟩

def Watched.start (base : Mem) (globals : Globals) : Watched := ⟨.start base globals, .atEnd []⟩

/-- The buffer follows the ideal editor, and so does the screen, unless a new prompt is due. -/
structure Console.Settled (base : Mem) (screen : Screen) (t : Console) (z : Zipper Char) : Prop where
  edits : t.line.Edits base z
  shows_ : t.showprompt = false → t.line.Shows base screen (showPrompt t.shell) z
  old : t.old = none

structure Console.Leaves (base : Mem) (t : Console) (text : Text) : Prop where
  holds : Contains base CLI_MAX_LINE_LENGTH t.line.cmd text
  l : t.line.l = text.length
  printable : ∀ c ∈ text, Printable c

/-- What a key makes of the line: it goes on as the ideal editor's, or is submitted as it stands, with
the key behind it if that was a question mark. -/
structure Console.Goes (base : Mem) (screen : Screen) (c : Char) (z ideal : Zipper Char) (t : Console) (turn : Turn) :
    Prop where
  goesOn : turn = .again → t.Settled base screen ideal
  submits : turn = .done → t.old = none ∧ t.Leaves base z.text ∨
    t.old = some (t.line.l - 1) ∧ t.line.l ≠ 0 ∧ t.Leaves base (z.insert (CLI_MAX_LINE_LENGTH - 1) c).text

/-- What a prompt is made of, and what comes up from the history. -/
structure Shell.Readable (s : Shell) : Prop where
  hostname : ∀ c ∈ s.hostname.getD [], Printable c
  modestring : ∀ c ∈ s.cli.modestring.getD [], Printable c
  promptchar : ∀ c ∈ s.promptchar, Printable c
  history : ∀ line ∈ s.history, line.length < CLI_MAX_LINE_LENGTH ∧ ∀ c ∈ line, Printable c

theorem Shell.Readable.prompt (readable : Shell.Readable s) : ∀ c ∈ showPrompt s, Printable c := by
  intro c member
  rw [showPrompt, List.mem_append, List.mem_append] at member
  rcases member with (host | mode) | char
  · exact readable.hostname c host
  · exact readable.modestring c mode
  · exact readable.promptchar c char

section Ready
variable {base : Mem} {screen : Screen} {setting : Setting} {s : Console} {z : Zipper Char}

theorem Console.Settled.goes {c : Char} {z ideal : Zipper Char} (settled : s.Settled base screen ideal) :
    s.Goes base screen c z ideal .again := ⟨fun _ => settled, by simp⟩

theorem typed_goes (ready : s.ready = true) (shows_ : s.line.Shows base screen (showPrompt s.shell) z) (c : Char)
    (printable : Printable c) (settled : s.old = none) (typed : s.typed c = (t, turn)) :
    t.Goes base screen c z (z.insert (CLI_MAX_LINE_LENGTH - 1) c) turn := by
  unfold Console.typed at typed
  by_cases full : s.line.full = true
  · rw [if_pos full] at typed
    obtain ⟨rfl, rfl⟩ := Prod.mk.inj typed
    rw [shows_.full_line full c]
    have cleared : Function.update s.line.cmd s.line.cursor NUL = s.line.cmd := by
      simp only [Line.full, Bool.and_eq_true, beq_iff_eq, decide_eq_true_eq] at full
      have fits := shows_.holds.fits
      have length := shows_.l
      funext i
      by_cases here : i = s.line.cursor
      · subst here
        rw [Function.update_self, shows_.holds.inside _ (by omega), List.getD_eq_default _ _ (by omega)]
      · exact Function.update_of_ne here _ _
    apply Console.Settled.goes
    dsimp only
    rw [cleared]
    exact ⟨shows_.bell.edits, fun _ => shows_.bell, settled⟩
  · have room : s.line.full = false := Bool.eq_false_iff.mpr full
    have inserted := shows_.insert room c printable
    have filled := Line.insert_filled s.line c
    rw [if_neg full] at typed
    have echoes : Console.echoes { s with line := s.line.insert c } = true := echoes_of_ready (s := s) ready
    simp only [echoes, if_true] at typed
    by_cases help : c = '?' ∧ (s.line.insert c).cursor = (s.line.insert c).l
    · rw [if_pos help] at typed
      obtain ⟨rfl, rfl⟩ := Prod.mk.inj typed
      exact ⟨by simp, fun _ => .inr ⟨rfl, filled, inserted.holds, inserted.l, inserted.printable⟩⟩
    · rw [if_neg help] at typed
      obtain ⟨rfl, rfl⟩ := Prod.mk.inj typed
      exact Console.Settled.goes ⟨inserted.edits, fun _ => inserted, rfl⟩

theorem typedLine_eq (shows_ : s.line.Shows base screen (showPrompt s.shell) z) : s.typedLine = z.text := by
  refine shows_.holds.cstr fun member => ?_
  exact absurd (shows_.printable NUL member).1 (by decide)

theorem asked_settled (shows_ : s.line.Shows base screen (showPrompt s.shell) z) (old : s.old = none)
    {help : CompHelp} (quiet : help.said = [] ∨ help.reprompt = true) : (s.asked help).Settled base screen z := by
  refine ⟨shows_.edits.write help.said, fun due => ?_, old⟩
  rcases quiet with silent | reprompt
  · simp only [Console.asked, Console.write, silent]
    refine ⟨shows_.holds, shows_.l, shows_.cursor, shows_.printable, ?_⟩
    simpa using shows_.shown
  · simp [Console.asked, reprompt] at due

theorem Console.Settled.bell (settled : s.Settled base screen z) : (s.write [BEL]).Settled base screen z :=
  ⟨settled.edits.write _, fun due => (settled.shows_ due).bell, settled.old⟩

theorem Console.Settled.due (edits : s.line.Edits base z) (due : s.showprompt = true) (old : s.old = none) :
    s.Settled base screen z := by
  refine ⟨edits, fun none_ => ?_, old⟩
  rw [due] at none_
  cases none_

theorem foldl_cliError_edits (edits : s.line.Edits base z) (texts : List Text) :
    (texts.foldl Console.cliError s).line.Edits base z ∧
      (texts.foldl Console.cliError s).showprompt = s.showprompt ∧ (texts.foldl Console.cliError s).old = s.old := by
  obtain ⟨sent, said⟩ := Console.foldl_cliError s texts
  rw [said]
  exact ⟨⟨edits.holds, edits.l, edits.cursor, edits.printable⟩, rfl, rfl⟩

theorem help_settled {help : CompHelp} (shows_ : s.line.Shows base screen (showPrompt s.shell) z)
    (old : s.old = none) (told : Console.Told help) :
    (s.help help).1.Settled base screen z ∧ ((s.help help).2 = true ↔ help.entries.isSome) ∧
      ((s.help help).2 = false →
        (s.help help).1.line.Shows base screen (showPrompt (s.help help).1.shell) z) := by
  have settled := asked_settled shows_ old (told.imp_right And.left)
  unfold Console.help
  rcases entries : help.entries with _ | _ | ⟨entry, more⟩
  · simp only
    refine ⟨settled, by simp, fun _ => ?_⟩
    rcases told with silent | ⟨-, empty⟩
    · refine ⟨shows_.holds, shows_.l, shows_.cursor, shows_.printable, ?_⟩
      simpa [Console.asked, Console.write, silent] using shows_.shown
    · rw [entries] at empty
      cases empty
  · simp only
    exact ⟨settled.bell, by simp, by simp⟩
  · simp only
    obtain ⟨edits, due, kept⟩ := foldl_cliError_edits
      (s := { s.asked help with showprompt := true }.write "\r\n".toList) (settled.edits.write _) (entry :: more)
    refine ⟨?_, by simp, by simp⟩
    split
    · exact .due ⟨edits.holds, edits.l, edits.cursor, edits.printable⟩ due (kept.trans old)
    · exact .due edits due (kept.trans old)

theorem tab_settled {help : CompHelp} (shows_ : s.line.Shows base screen (showPrompt s.shell) z) (old : s.old = none)
    (last : z.back = []) (told : Console.Told help)
    (completes : s.lastchar ≠ CTRL 'I' → Console.Completes help z.text) :
    (s.tab help).Settled base screen (s.idealTab help z) := by
  have settled := asked_settled shows_ old (told.imp_right And.left)
  unfold Console.tab Console.idealTab
  by_cases nothing : help.entries = some []
  · simp only [nothing, if_true, true_or]
    exact settled.bell
  have asked : (s.asked help).lastchar = s.lastchar := rfl
  by_cases again : s.lastchar = CTRL 'I'
  · simp only [asked, nothing, again, if_false, if_true, or_true]
    exact .due (settled.edits.write _) rfl old
  have silent : help.said = [] := by
    rcases told with silent | ⟨-, empty⟩
    · exact silent
    · exact absurd empty nothing
  simp only [asked, nothing, again, if_false, or_self]
  rcases completed : Console.completion help with _ | word
  · dsimp only
    split
    · exact settled
    · split
      · exact ⟨settled.edits, settled.shows_, settled.old⟩
      · exact ⟨settled.bell.edits, settled.bell.shows_, settled.bell.old⟩
  · obtain ⟨printable, covers, room⟩ := completes again word completed
    obtain ⟨front, back⟩ := z
    obtain rfl : back = [] := last
    have typed := shows_.retype rfl (Console.stop help.commaSeparated) word printable
      (by simpa [Zipper.text] using covers) (by simpa [Zipper.text] using room)
    have line : (s.asked help).line = s.line := by simp [Console.asked, Console.write, Line.write, silent]
    rw [← line] at typed
    exact ⟨typed.edits, fun _ => typed, old⟩

theorem Console.recalled_mem (s : Console) (c : Char) (line : Text) (found : s.recalled c = some line) :
    line ∈ s.shell.history := by
  unfold Console.recalled at found
  dsimp only at found
  split at found
  · exact List.mem_of_getElem? found
  · cases found

theorem Line.Shows.settled (shows_ : s.line.Shows base screen (showPrompt s.shell) z) (old : s.old = none) :
    s.Settled base screen z := ⟨shows_.edits, fun _ => shows_, old⟩

theorem Line.Shows.last (shows_ : s.line.Shows base screen (showPrompt s.shell) z) :
    s.line.cursor = s.line.l ↔ z.back = [] := by
  rw [shows_.cursor, shows_.l, Zipper.text, List.length_append, ← List.length_eq_zero_iff]
  omega

theorem endMode_settled (shows_ : s.line.Shows base screen (showPrompt s.shell) z) (old : s.old = none) :
    s.endMode.Settled base screen (if s.shell.cli.mode ≠ MODE_EXEC then .atEnd [] else z) := by
  unfold Console.endMode
  by_cases config : s.shell.cli.mode ≠ MODE_EXEC
  · rw [if_pos config, if_pos config]
    exact .due shows_.clear.edits rfl old
  · rw [if_neg config, if_neg config]
    exact shows_.settled old

theorem bringBack_settled (shows_ : s.line.Shows base screen (showPrompt s.shell) z) (old : s.old = none)
    (readable : s.shell.Readable) (c : Char) :
    (s.bringBack c).Settled base screen ((s.recalled c).elim z .atEnd) := by
  unfold Console.bringBack
  rcases found : s.recalled c with _ | line
  · exact ⟨shows_.edits, fun _ => shows_, old⟩
  · obtain ⟨fits, printable⟩ := readable.history line (s.recalled_mem c line found)
    have shown := shows_.bringBack line printable fits
    exact ⟨shown.edits, fun _ => shown, old⟩

theorem tab_goes (shows_ : s.line.Shows base screen (showPrompt s.shell) z) (old : s.old = none)
    (courteous : s.line.cursor = s.line.l → ∀ help ∈ s.completions setting (CTRL 'I'),
      Console.Told help ∧ (s.lastchar ≠ CTRL 'I' → Console.Completes help s.typedLine))
    (keyed : (if s.line.cursor = s.line.l then s.completed setting (CTRL 'I') else (s, .again)) = (t, turn)) :
    t.Goes base screen (CTRL 'I') z
      (if z.back = [] then (setting.getCompletions s.shell z.text (CTRL 'I')).elim z (s.idealTab · z) else z) turn := by
  have text := typedLine_eq shows_
  by_cases last : s.line.cursor = s.line.l
  · rw [if_pos last, Console.completed] at keyed
    rw [if_pos (shows_.last.mp last), ← text]
    rcases asked : s.completions setting (CTRL 'I') with _ | help
    · simp only [asked] at keyed
      obtain ⟨rfl, rfl⟩ := Prod.mk.inj keyed
      exact ⟨by simp, by simp⟩
    · simp only [asked] at keyed
      obtain ⟨rfl, rfl⟩ := Prod.mk.inj keyed
      obtain ⟨told, completes⟩ := courteous last help asked
      rw [Console.completions] at asked
      rw [asked]
      exact (tab_settled shows_ old (shows_.last.mp last) told (text ▸ completes)).goes
  · rw [if_neg last] at keyed
    obtain ⟨rfl, rfl⟩ := Prod.mk.inj keyed
    rw [if_neg fun back => last (shows_.last.mpr back)]
    exact (shows_.settled old).goes

theorem help_goes {help : CompHelp} (ready : s.ready = true)
    (shows_ : s.line.Shows base screen (showPrompt s.shell) z) (old : s.old = none) (told : Console.Told help)
    (keyed : (if (s.help help).2 then ((s.help help).1, .again) else (s.help help).1.typed '?') = (t, turn)) :
    t.Goes base screen '?' z (if help.entries.isSome then z else z.insert (CLI_MAX_LINE_LENGTH - 1) '?') turn := by
  obtain ⟨helped, asks, shown⟩ := help_settled shows_ old told
  by_cases answered : (s.help help).2 = true
  · rw [if_pos answered] at keyed
    obtain ⟨rfl, rfl⟩ := Prod.mk.inj keyed
    rw [if_pos (asks.mp answered)]
    exact helped.goes
  · rw [if_neg answered] at keyed
    rw [if_neg fun both => answered (asks.mpr both)]
    have still : (s.help help).1.ready = true := by
      rw [Console.ready, help_shell]
      exact ready
    exact typed_goes still (shown (Bool.eq_false_iff.mpr answered)) '?' (by decide) helped.old keyed

theorem question_goes (ready : s.ready = true) (shows_ : s.line.Shows base screen (showPrompt s.shell) z)
    (old : s.old = none)
    (courteous : s.line.cursor = s.line.l → ∀ help ∈ s.completions setting '?', Console.Told help)
    (keyed : (if s.line.cursor ≠ s.line.l then s.typed '?' else s.explained setting '?') = (t, turn)) :
    t.Goes base screen '?' z
      (if z.back = [] ∧ (setting.getCompletions s.shell z.text '?').any (·.entries.isSome) then z
        else z.insert (CLI_MAX_LINE_LENGTH - 1) '?') turn := by
  by_cases last : s.line.cursor = s.line.l
  · rw [if_neg (not_not.mpr last), Console.explained] at keyed
    simp only [shows_.last.mp last, true_and]
    rcases asked : s.completions setting '?' with _ | help
    · simp only [asked] at keyed
      obtain ⟨rfl, rfl⟩ := Prod.mk.inj keyed
      exact ⟨by simp, by simp⟩
    · simp only [asked] at keyed
      have told := courteous last help asked
      rw [Console.completions, typedLine_eq shows_] at asked
      rw [asked, Option.any_some]
      exact help_goes ready shows_ old told keyed
  · rw [if_pos last] at keyed
    rw [if_neg fun both => last (shows_.last.mpr both.1)]
    exact typed_goes ready shows_ '?' (by decide) old keyed

theorem key_goes (ready : s.ready = true) (shows_ : s.line.Shows base screen (showPrompt s.shell) z)
    (readable : s.shell.Readable) (old : s.old = none) (char : keyOf c = .char → Printable c)
    (courteous : s.line.cursor = s.line.l → keyOf c = .tab ∨ keyOf c = .question → ∀ help ∈ s.completions setting c,
      Console.Told help ∧ (keyOf c = .tab → s.lastchar ≠ CTRL 'I' → Console.Completes help s.typedLine))
    (keyed : s.key setting c = (t, turn)) : t.Goes base screen c z (s.ideal setting c z) turn := by
  have echoes := echoes_of_ready ready
  have stays := shows_.settled old
  unfold Console.key at keyed
  unfold Console.ideal
  cases kind : keyOf c with
  | edit key =>
    simp only [kind] at keyed ⊢
    obtain ⟨rfl, rfl⟩ := Prod.mk.inj keyed
    have shown := key.act_shows shows_ readable.prompt
    rw [echoes]
    exact Console.Settled.goes ⟨shown.edits, fun _ => shown, old⟩
  | enter =>
    simp only [kind] at keyed ⊢
    obtain ⟨rfl, rfl⟩ := Prod.mk.inj keyed
    rw [echoes]
    exact ⟨by simp, fun _ => .inl ⟨old, shows_.holds, shows_.l, shows_.printable⟩⟩
  | eot =>
    simp only [kind, echoes, Bool.not_true, Bool.false_eq_true, if_false] at keyed ⊢
    split at keyed
    · obtain ⟨rfl, rfl⟩ := Prod.mk.inj keyed
      exact stays.goes
    · obtain ⟨rfl, rfl⟩ := Prod.mk.inj keyed
      exact ⟨by simp, by simp⟩
  | endMode =>
    simp only [kind] at keyed ⊢
    obtain ⟨rfl, rfl⟩ := Prod.mk.inj keyed
    exact (endMode_settled shows_ old).goes
  | tab =>
    obtain rfl := keyOf_tab kind
    simp only [kind, ready, true_and] at keyed ⊢
    exact tab_goes shows_ old (fun last help asked => (courteous last (.inl kind) help asked).imp_right (· kind)) keyed
  | question =>
    obtain rfl := keyOf_question kind
    simp only [kind, ready, Bool.not_true, Bool.false_eq_true, if_false] at keyed ⊢
    exact question_goes ready shows_ old (fun last help asked => (courteous last (.inr kind) help asked).1) keyed
  | history =>
    simp only [kind, ready, if_true] at keyed ⊢
    obtain ⟨rfl, rfl⟩ := Prod.mk.inj keyed
    exact (bringBack_settled shows_ old readable c).goes
  | char =>
    simp only [kind] at keyed ⊢
    exact typed_goes ready shows_ c (char kind) old keyed

end Ready

section Turns
variable {base : Mem} {screen : Screen} {setting : Setting} {s t u : Console} {z : Zipper Char}

theorem prompted_ready (ready : s.ready = true) (due : s.showprompt = true) :
    s.prompted.line = s.line.redraw (showPrompt s.shell) true := by
  have echoes := echoes_of_ready ready
  unfold Console.prompted
  rw [if_pos due]
  simp only [echoes, if_true]
  simp only [Console.ready, Bool.or_eq_true, beq_iff_eq] at ready
  rcases ready with normal | enable
  · simp [Console.write, normal, Line.write, Line.redraw, Line.echo, List.append_assoc]
  · simp [Console.write, enable, Line.write, Line.redraw, Line.echo, List.append_assoc]

theorem prompted_shows (ready : s.ready = true) (readable : s.shell.Readable) (settled : s.Settled base screen z) :
    s.prompted.line.Shows base screen (showPrompt s.shell) z := by
  by_cases due : s.showprompt = true
  · rw [prompted_ready ready due]
    exact settled.edits.redraw screen readable.prompt
  · have shown := settled.shows_ (Bool.eq_false_iff.mpr due)
    unfold Console.prompted
    rw [if_neg due]
    exact shown

theorem fresh_edits (b : s.line.Bounded base) (none_ : s.old = none) : s.fresh.line.Edits base (.atEnd []) := by
  have cleared : Contains base CLI_MAX_LINE_LENGTH (memset s.line.cmd 0 CLI_MAX_LINE_LENGTH NUL) [] :=
    contains_nil b.outside (by decide)
  unfold Console.fresh
  rw [none_]
  exact ⟨by simpa using cleared, rfl, rfl, by simp⟩

theorem fresh_kept {text : Text} (leaves : s.Leaves base text) (old : s.old = some (s.line.l - 1))
    (filled : s.line.l ≠ 0) : s.fresh.line.Edits base (.atEnd text.dropLast) := by
  obtain ⟨holds, length, printable⟩ := leaves
  rcases List.eq_nil_or_concat' text with rfl | ⟨text, c, rfl⟩
  · exact absurd length filled
  have last : s.line.l - 1 = text.length := by simp [length]
  have chopped := holds.chop
  unfold Console.fresh
  rw [old, last, List.dropLast_concat]
  exact ⟨by simpa using chopped, by simp, by simp [Zipper.atEnd],
    fun d member => printable d (List.mem_append_left _ (by simpa using member))⟩

theorem Shell.Keeps.readable {s t : Shell} (keeps : s.Keeps t) (readable : s.Readable) : t.Readable := by
  refine ⟨?_, ?_, ?_, ?_⟩
  · rw [keeps.hostname]
    exact readable.hostname
  · rcases keeps.modestring with same | none_ | config
    · rw [same]
      exact readable.modestring
    · simp [none_]
    · rw [config]
      exact List.all_iff_forall_prop.mp (by decide)
  · rcases keeps.promptchar with same | low
    · rw [same]
      exact readable.promptchar
    · rw [low]
      exact List.all_iff_forall_prop.mp (by decide)
  · rw [keeps.history]
    exact readable.history

theorem cliAddHistory_mem (history : List Text) (cmd line : Text)
    (member : line ∈ Console.cliAddHistory history cmd) : line ∈ history ∨ line = cmd := by
  have added (rest : List Text) (part : ∀ l ∈ rest, l ∈ history) (found : line ∈ rest ++ [cmd]) :
      line ∈ history ∨ line = cmd := by
    rcases List.mem_append.mp found with old | new
    · exact .inl (part line old)
    · exact .inr (List.mem_singleton.mp new)
  unfold Console.cliAddHistory at member
  split at member
  · split at member
    · exact added history (fun _ => id) member
    · exact .inl member
  · exact added history.tail (fun _ => List.mem_of_mem_tail) member

structure Console.Submits (s t : Console) : Prop where
  plain : t.shell.Plain
  readable : t.shell.Readable
  ready : t.ready = true → s.ready = true ∨ s.echoes = false

theorem Shell.Readable.enters {s : Shell} (readable : s.Readable) (state : CliState) :
    ({ s with state := state } : Shell).Readable :=
  ⟨readable.hostname, readable.modestring, readable.promptchar, readable.history⟩

theorem submitPassword_submits (plain : s.shell.Plain) (readable : s.shell.Readable)
    (typing : s.shell.state = .password) (cmd : Text) : s.Submits (s.submitPassword cmd) := by
  have echoes : s.echoes = false := by simp [Console.echoes, typing]
  unfold Console.submitPassword
  dsimp only
  split
  · exact ⟨plain, readable.enters .normal, fun _ => .inr echoes⟩
  · exact ⟨plain, readable.enters .login, fun _ => .inr echoes⟩

theorem Shell.Readable.setPrivilege {s : Shell} (readable : s.Readable) (priv : Nat) :
    (s.cliSetPrivilege priv).Readable := by
  obtain ⟨cli, -, history, hostname⟩ := cliSetPrivilege_rest s priv
  refine ⟨hostname ▸ readable.hostname, cli ▸ readable.modestring, ?_, history ▸ readable.history⟩
  rcases cliSetPrivilege_promptchar s priv with same | new
  · exact same ▸ readable.promptchar
  · rw [new]
    split <;> exact List.all_iff_forall_prop.mp (by decide)

theorem submitEnable_submits (plain : s.shell.Plain) (readable : s.shell.Readable)
    (typing : s.shell.state = .enablePassword) (cmd : Text) : s.Submits (s.submitEnable cmd) := by
  have echoes : s.echoes = false := by simp [Console.echoes, typing]
  unfold Console.submitEnable
  dsimp only
  split
  · have modes := (cliSetPrivilege_rest { s.shell with state := .enable } PRIVILEGE_PRIVILEGED).1
    refine ⟨?_, (readable.enters .enable).setPrivilege PRIVILEGE_PRIVILEGED, fun _ => .inr echoes⟩
    dsimp only [Console.enter, Shell.Plain]
    rw [modes]
    exact plain
  · exact ⟨plain, readable.enters .normal, fun _ => .inr echoes⟩

theorem submitCommand_submits (plain : s.shell.Plain) (readable : s.shell.Readable) (ready : s.ready = true)
    (fits : cmd.length < CLI_MAX_LINE_LENGTH ∧ ∀ c ∈ cmd, Printable c)
    (submits : s.submitCommand setting cmd = some t) : s.Submits t := by
  obtain ⟨⟨rc, shell, globals, sent⟩, ran, rfl⟩ := Option.map_eq_some_iff.mp submits
  have remembers : ∀ remembered : Prop, [Decidable remembered] →
      (if remembered then { s.shell with history := Console.cliAddHistory s.shell.history cmd } else s.shell).Plain ∧
        (if remembered then { s.shell with history := Console.cliAddHistory s.shell.history cmd }
          else s.shell).Readable := by
    intro remembered _
    split
    · refine ⟨plain, readable.hostname, readable.modestring, readable.promptchar, fun line member => ?_⟩
      rcases cliAddHistory_mem s.shell.history cmd line member with old | rfl
      · exact readable.history line old
      · exact fits
    · exact ⟨plain, readable⟩
  obtain ⟨plain, readable⟩ := remembers
    (s.line.cmd (s.line.l - 1) ≠ '?' ∧ cmd.map Char.toLower ≠ "history".toList)
  have keeps := run_keeps plain ran
  exact ⟨keeps.plain, keeps.readable readable, fun _ => .inl ready⟩

theorem submit_submits (plain : s.shell.Plain) (readable : s.shell.Readable)
    (leaves : s.ready = true → ∃ text, s.Leaves base text) (submits : s.submit setting = some t) :
    s.Submits t := by
  have stays : s.Submits s := ⟨plain, readable, .inl⟩
  have runs (ready : s.ready = true)
      (ran : (if s.line.l = 0 then some s else s.submitCommand setting (cstr s.line.cmd CLI_MAX_LINE_LENGTH)) = some t) :
      s.Submits t := by
    split at ran
    · exact Option.some.inj ran ▸ stays
    · obtain ⟨text, left⟩ := leaves ready
      have whole : cstr s.line.cmd CLI_MAX_LINE_LENGTH = text :=
        left.holds.cstr fun member => absurd (left.printable NUL member).1 (by decide)
      rw [whole] at ran
      exact submitCommand_submits plain readable ready ⟨left.holds.fits, left.printable⟩ ran
  unfold Console.submit at submits
  dsimp only at submits
  cases state : s.shell.state with
  | login =>
    simp only [state] at submits
    split at submits
    · exact Option.some.inj submits ▸ stays
    · obtain rfl := Option.some.inj submits
      refine ⟨plain, readable.enters .password, fun ready => ?_⟩
      simp [Console.ready, Console.enter] at ready
  | password =>
    simp only [state] at submits
    exact Option.some.inj submits ▸ submitPassword_submits plain readable state _
  | enablePassword =>
    simp only [state] at submits
    exact Option.some.inj submits ▸ submitEnable_submits plain readable state _
  | normal =>
    simp only [state] at submits
    exact runs (by simp [Console.ready, state]) submits
  | enable =>
    simp only [state] at submits
    exact runs (by simp [Console.ready, state]) submits

theorem Console.Around.texts {s t : Console} (around : s.Around t) (plain : s.shell.Plain)
    (readable : s.shell.Readable) : t.shell.Plain ∧ t.shell.Readable ∧ t.shell.state = s.shell.state := by
  rcases around.shell with same | exec
  · rw [same]
    exact ⟨plain, readable, rfl⟩
  · have keeps := Shell.Keeps.configmode s.shell (Nat.zero_le MODE_CONFIG)
    rw [exec]
    exact ⟨keeps.plain, keeps.readable readable, rfl⟩

/-- What holds whenever the session waits for the client. -/
structure Watched.Sound (base : Mem) (screen : Screen) (w : Watched) : Prop where
  inBuffer : w.console.InBuffer base
  plain : w.console.shell.Plain
  readable : w.console.shell.Readable
  shows_ : w.console.ended = false → w.console.ready = true →
    w.console.line.Shows base screen (showPrompt w.console.shell) w.ideal

theorem ended_sound {w : Watched} (bounded : w.console.line.Bounded base) (plain : w.console.shell.Plain)
    (readable : w.console.shell.Readable) (ended : w.console.ended = true) : w.Sound base screen := by
  refine ⟨⟨bounded, fun open_ => ?_⟩, plain, readable, fun open_ => ?_⟩
  · rw [ended] at open_
    cases open_
  · rw [ended] at open_
    cases open_

theorem submitted_shows {s t : Console} (bounded : s.line.Bounded base) (submits : s.submit setting = some t)
    (old : s.old = none ∨ s.old = some (s.line.l - 1) ∧ s.line.l ≠ 0)
    (leaves : s.old.isSome → ∃ text, s.Leaves base text ∧ z = .atEnd text.dropLast)
    (cleared : s.old = none → z = .atEnd []) (readable : t.shell.Readable) (ready : t.ready = true) :
    t.fresh.prompted.line.Shows base screen (showPrompt t.shell) z := by
  obtain ⟨kept, sent, line⟩ := submit_line submits
  refine prompted_shows (s := t.fresh) ready readable (.due ?_ rfl rfl)
  rcases old with none_ | ⟨question, filled⟩
  · rw [cleared none_]
    exact fresh_edits (line ▸ bounded.same sent) (kept.trans none_)
  · obtain ⟨text, ⟨holds, size, printable⟩, rfl⟩ := leaves (by rw [question]; rfl)
    have length : t.line.l = s.line.l := by rw [line]
    refine fresh_kept (s := t) ⟨line ▸ holds, length.trans size, printable⟩ ?_ (length ▸ filled)
    rw [kept, question, length]

theorem completes_roomy (shows_ : s.line.Shows base screen (showPrompt s.shell) z)
    (completes : s.line.cursor = s.line.l → ∀ help ∈ s.completions setting (CTRL 'I'),
      s.lastchar ≠ CTRL 'I' → Console.Completes help s.typedLine) : s.Roomy setting := by
  intro last once help asked word completed
  have front : slice s.line.cmd 0 s.line.l = s.typedLine := by
    rw [typedLine_eq shows_, shows_.l]
    exact shows_.holds.slice_all
  rw [front]
  exact (completes last help asked once word completed).2.2

/-- A submission, when the line that it takes is as the key has left it. -/
theorem submit_sound {ideal : Zipper Char} (safe : u.InBuffer base)
    (next : t.ended = true ∧ u = t ∨ t.ended = false ∧ u = t.fresh.prompted) (bounded : s.line.Bounded base)
    (plain : s.shell.Plain) (readable : s.shell.Readable)
    (kept : s.old = none ∨ s.echoes = true ∧ s.old = some (s.line.l - 1) ∧ s.line.l ≠ 0)
    (leaves : s.ready = true → s.old = none ∧ s.Leaves base z.text ∨
      s.old = some (s.line.l - 1) ∧ s.line.l ≠ 0 ∧ s.Leaves base ideal.text)
    (submits : s.submit setting = some t) :
    Watched.Sound base screen ⟨u, if s.old.isSome then .atEnd ideal.text.dropLast else .atEnd []⟩ := by
  obtain ⟨plain, readable, ready⟩ := submit_submits plain readable (fun typing => by
    rcases leaves typing with ⟨-, left⟩ | ⟨-, -, left⟩
    · exact ⟨_, left⟩
    · exact ⟨_, left⟩) submits
  obtain ⟨ended, rfl⟩ | ⟨-, rfl⟩ := next
  · exact ended_sound safe.bounded plain readable ended
  obtain ⟨shell, -⟩ := prompted_rest t.fresh
  refine ⟨safe, shell ▸ plain, shell ▸ readable, fun _ waiting => ?_⟩
  have typing : t.ready = true := by
    rw [Console.ready, shell] at waiting
    exact waiting
  refine shell.symm ▸ submitted_shows bounded submits (kept.imp_right And.right) (fun question => ?_)
    (fun none_ => by simp [none_]) readable typing
  -- A line that is kept for its question mark was typed where commands are.
  rcases ready typing with before | hidden
  · rcases leaves before with ⟨none_, -⟩ | ⟨-, -, left⟩
    · rw [none_] at question
      cases question
    · exact ⟨_, left, if_pos question⟩
  · rcases kept with none_ | ⟨shown, -⟩
    · rw [none_] at question
      cases question
    · rw [hidden] at shown
      cases shown

theorem decoded_sound {s t : Console} (sound : Watched.Sound base screen ⟨s, z⟩) (open_ : s.ended = false)
    (courteous : s.ready = true → (keyOf c = .char → Printable c) ∧
      (s.line.cursor = s.line.l → keyOf c = .tab ∨ keyOf c = .question → ∀ help ∈ s.completions setting c,
        Console.Told help ∧ (keyOf c = .tab → s.lastchar ≠ CTRL 'I' → Console.Completes help s.typedLine)))
    (decoded : s.decoded setting c = some t) :
    Watched.Sound base screen ⟨t, Watched.idealNext setting ⟨s, z⟩ c⟩ := by
  obtain ⟨inBuffer, plain, readable, shows_⟩ := sound
  have old := inBuffer.old open_
  have room (ready : s.ready = true) (tab : keyOf c = .tab) : s.Roomy setting := by
    obtain rfl := keyOf_tab tab
    exact completes_roomy (shows_ open_ ready) fun last help asked =>
      ((courteous ready).2 last (.inl tab) help asked).2 tab
  have safe := decoded_inBuffer inBuffer open_ room decoded
  rcases keyed : s.key setting c with ⟨t', turn⟩
  have around := key_around setting s c
  have bounded := key_bounded inBuffer.bounded room
  have kept := key_old old keyed
  have goes (typing : s.ready = true) : t'.Goes base screen c z (s.ideal setting c z) turn :=
    key_goes typing (shows_ open_ typing) readable old (courteous typing).1 (courteous typing).2 keyed
  rw [keyed] at around bounded
  obtain ⟨plain', readable', state⟩ := around.texts plain readable
  dsimp only at plain' readable' state bounded
  have ready' : t'.ready = s.ready := by rw [Console.ready, Console.ready, state]
  have echoes' : t'.echoes = s.echoes := by rw [Console.echoes, Console.echoes, state]
  unfold Watched.idealNext
  obtain ⟨rfl, rfl⟩ | ⟨rfl, rfl⟩ | ⟨rfl, u, submits, next⟩ := decoded_cases decoded keyed
  · simp only [keyed]
    obtain ⟨shell, -⟩ := prompted_rest t'
    refine ⟨safe, shell ▸ plain', shell ▸ readable', fun _ waiting => ?_⟩
    have typing : s.ready = true := by
      rw [← ready', Console.ready, ← shell]
      exact waiting
    exact shell.symm ▸ prompted_shows (ready'.trans typing) readable' ((goes typing).goesOn rfl)
  · exact ended_sound safe.bounded plain' readable' rfl
  · simp only [keyed]
    have leaves (typing : t'.ready = true) := (goes (ready'.symm.trans typing)).submits rfl
    have question := kept.imp_right fun kept => And.intro (echoes'.trans kept.2.1) kept.2.2
    exact submit_sound safe next bounded plain' readable' question leaves submits

theorem watched_step_sound {w w' : Watched} (sound : w.Sound base screen)
    (courteous : w.console.Courteous setting e) (stepped : w.step setting e = some w') : w'.Sound base screen := by
  obtain ⟨inBuffer, plain, readable, shows_⟩ := sound
  obtain ⟨t, consoled, rfl⟩ := Option.map_eq_some_iff.mp stepped
  rcases console_step_cases consoled with
    ⟨c, decoder, rfl, fed, rfl⟩ | ⟨c, decoder, d, rfl, open_, fed, decoded⟩ | ⟨_, rfl⟩ | ⟨_, rfl, rfl⟩
  · simp only [Watched.idealStep, fed]
    exact ⟨⟨inBuffer.bounded, inBuffer.old⟩, plain, readable, shows_⟩
  · simp only [Watched.idealStep, fed]
    have before : Watched.Sound base screen ⟨{ w.console with decoder := decoder }, w.ideal⟩ :=
      ⟨⟨inBuffer.bounded, inBuffer.old⟩, plain, readable, shows_⟩
    exact decoded_sound before open_ (fun ready => courteous ready d (by rw [fed]; rfl)) decoded
  · exact ended_sound (inBuffer.bounded.same _) plain readable rfl
  · exact ⟨⟨inBuffer.bounded, inBuffer.old⟩, plain, readable, shows_⟩

theorem watched_start_sound (base : Mem) (screen : Screen) (globals : Globals) :
    (Watched.start base globals).Sound base screen := by
  obtain ⟨shell, -⟩ := prompted_rest
    (Console.fresh (Console.cliError ⟨⟨base, 0, 0, Console.negotiate⟩, NUL, 0, true, none, ⟨0, NUL⟩, Shell.init, globals,
      none, [], false⟩ Console.banner))
  have init : (Console.start base globals).shell = Shell.init := shell
  refine ⟨start_inBuffer base globals, ?_, ?_, fun _ ready => ?_⟩
  · simp only [Watched.start, init]
    exact Nat.zero_le MODE_CONFIG
  · simp only [Watched.start, init]
    refine ⟨?_, by simp [Shell.init, CliDef.init], ?_, by simp [Shell.init]⟩
    · exact List.all_iff_forall_prop.mp (by decide)
    · exact List.all_iff_forall_prop.mp (by decide)
  · simp [Watched.start, Console.ready, init, Shell.init] at ready

/-- Over every session: while commands are typed, the client sees the prompt and behind it the text
of the ideal editor, with its cursor in the editor's place, and the buffer holds that text and
nothing else. -/
theorem screen_shows_line (setting : Setting) (base : Mem) (screen : Screen) (globals : Globals)
    (events : List ConsoleEvent)
    (courteous : ∀ before e after, events = before ++ e :: after →
      ∀ s, Interleaving.run (Console.step setting) (.start base globals) before = some s → s.Courteous setting e)
    (s : Console) (reached : Interleaving.run (Console.step setting) (.start base globals) events = some s) :
    ∃ z, Interleaving.run (Watched.step setting) (.start base globals) events = some ⟨s, z⟩ ∧
      (s.ended = false → s.ready = true → s.line.Shows base screen (showPrompt s.shell) z) := by
  have sound : ∃ z, Interleaving.run (Watched.step setting) (.start base globals) events = some ⟨s, z⟩ ∧
      Watched.Sound base screen ⟨s, z⟩ := by
    induction events using List.reverseRecOn generalizing s with
    | nil =>
      obtain rfl := Option.some.inj reached
      exact ⟨.atEnd [], rfl, watched_start_sound base screen globals⟩
    | append_singleton before e ih =>
      rw [Interleaving.run_concat] at reached
      obtain ⟨t, earlier, stepped⟩ := Option.bind_eq_some_iff.mp reached
      obtain ⟨z, watched, sound⟩ := ih
        (fun first e' after split => courteous first e' (after ++ [e])
          (by rw [split, List.append_assoc, List.cons_append])) t earlier
      have next : Watched.step setting ⟨t, z⟩ e = some ⟨s, Watched.idealStep setting ⟨t, z⟩ e⟩ := by
        rw [Watched.step, stepped]
        rfl
      refine ⟨_, ?_, watched_step_sound sound (courteous before e [] rfl t earlier) next⟩
      rw [Interleaving.run_concat, watched]
      exact next
  obtain ⟨z, watched, sound⟩ := sound
  exact ⟨z, watched, sound.shows_⟩

theorem screen_shows_line_session :
    ∃ s, Interleaving.run (Console.step plainProgram) (.start (fun _ => NUL) ⟨⟨.init, []⟩, .zero, 0⟩) typedSession = some s ∧
      s.line.Shows (fun _ => NUL) ⟨fun _ => ' ', 0⟩ "cli> ".toList (.atEnd "show fdb ".toList) := by
  have ends : (Interleaving.run (Console.step plainProgram) (.start (fun _ => NUL) ⟨⟨.init, []⟩, .zero, 0⟩)
      typedSession).isSome = true := by decide +kernel
  have polite : Interleaving.checks (Console.step plainProgram) Console.polite
      (.start (fun _ => NUL) ⟨⟨.init, []⟩, .zero, 0⟩) typedSession = true := by decide +kernel
  have state : (Interleaving.run (Watched.step plainProgram) (.start (fun _ => NUL) ⟨⟨.init, []⟩, .zero, 0⟩)
      typedSession).map (fun w => (w.console.ended, w.console.ready, showPrompt w.console.shell, w.ideal)) =
      some (false, true, "cli> ".toList, .atEnd "show fdb ".toList) := by decide +kernel
  obtain ⟨s, reached⟩ := Option.isSome_iff_exists.mp ends
  obtain ⟨z, watched, shows_⟩ := screen_shows_line plainProgram (fun _ => NUL) ⟨fun _ => ' ', 0⟩ ⟨⟨.init, []⟩, .zero, 0⟩
    typedSession (fun before e after split t earlier => Console.program_courteous _ _
      (Interleaving.checks_spec polite before e after split t earlier)) s reached
  simp only [watched, Option.map_some, Option.some.injEq, Prod.mk.injEq] at state
  obtain ⟨open_, ready, prompt, rfl⟩ := state
  exact ⟨s, reached, prompt ▸ shows_ open_ ready⟩

end Turns

end WlanBridge
