import WlanBridge.Completions
import WlanBridge.LineEditor

/-! A session of `cli_loop`: bytes come in, the line is edited, logins, passwords and commands are
submitted. What completes a word or helps with it is a parameter, as is what libc compiles; the
program's own is `Setting.program`. -/
namespace WlanBridge

open Memory Terminal

def checkAuth (username password : Text) : Int :=
  if username.map Char.toLower ≠ "admin".toList then CLI_ERROR
  else if password.map Char.toLower ≠ "admin".toList then CLI_ERROR
  else CLI_OK

def checkEnable (password : Text) : Bool := password.map Char.toLower == "admin".toList

structure Setting where
  getCompletions : Shell → Text → Char → Option CompHelp
  regcomp : Regcomp
  meter : Meter

/-- The program completes by `cli_get_completions`. -/
def Setting.program (regcomp : Regcomp) (meter : Meter) : Setting := ⟨cliGetCompletions, regcomp, meter⟩

inductive Submission where
  | login (username : Text)
  | password (username password : Text)
  | enablePassword (password : Text)
  | command (privilege : Nat) (line : Text)
  deriving DecidableEq, Repr

structure Decoder where
  isTelnetOption : Nat
  esc : Char
  deriving DecidableEq, Repr

/-- The locals of `cli_loop` with the session and the globals; `old` is `oldl` while `oldcmd` is set. -/
structure Console where
  line : Line
  lastchar : Char
  inHistory : Int
  showprompt : Bool
  old : Option Nat
  decoder : Decoder
  shell : Shell
  globals : Globals
  username : Option Text
  submitted : List Submission
  ended : Bool

/-- A byte is read; the client is gone; the client has been idle for too long; the rest of
the server has changed the globals. -/
inductive ConsoleEvent where
  | byte (c : Char)
  | hangup
  | idle
  | others (globals : Globals)

def ESC : Char := '\x1b'

def DEL : Char := '\x7f'

def arrow : Char → Char
  | 'A' => CTRL 'P'
  | 'B' => CTRL 'N'
  | 'C' => CTRL 'F'
  | 'D' => CTRL 'B'
  | _ => NUL

/-- A byte that a pending escape does not take. -/
def Decoder.plain (d : Decoder) (c : Char) : Decoder × Option Char :=
  if c = NUL ∨ c = '\n' then (d, none)
  else if c = ESC then ({ d with esc := '\x01' }, none)
  else (d, some c)

/-- The start of the loop's body, up to the keys: telnet options and arrows. -/
def Decoder.feed (d : Decoder) (c : Char) : Decoder × Option Char :=
  if c.toNat = 255 ∧ d.isTelnetOption = 0 then ({ d with isTelnetOption := 1 }, none)
  else if d.isTelnetOption ≠ 0 ∧ 251 ≤ c.toNat ∧ c.toNat ≤ 254 then ({ d with isTelnetOption := c.toNat }, none)
  else if d.isTelnetOption ≠ 0 ∧ c.toNat ≠ 255 then ({ d with isTelnetOption := 0 }, none)
  else
    let d := { d with isTelnetOption := 0 }
    if d.esc = '[' then { d with esc := NUL }.plain (arrow c)
    else if d.esc ≠ NUL then ({ d with esc := if c = '[' then '[' else NUL }, none)
    else d.plain c

/-- What a character stands for; the keys that change the line and nothing else, and the others. -/
inductive Key where
  | edit (key : EditKey)
  | enter
  | eot
  | endMode
  | tab
  | question
  | history
  | char
  deriving DecidableEq, Repr

def keyOf (c : Char) : Key :=
  if c = '\r' then .enter
  else if c = CTRL 'C' then .edit .bell
  else if c = CTRL 'W' then .edit .ruboutWord
  else if c = CTRL 'H' ∨ c = DEL then .edit .ruboutChar
  else if c = CTRL 'L' then .edit .redraw
  else if c = CTRL 'U' then .edit .clear
  else if c = CTRL 'K' then .edit .kill
  else if c = CTRL 'D' then .eot
  else if c = CTRL 'Z' then .endMode
  else if c = CTRL 'I' then .tab
  else if c = '?' then .question
  else if c = CTRL 'P' ∨ c = CTRL 'N' then .history
  else if c = CTRL 'B' then .edit .left
  else if c = CTRL 'F' then .edit .right
  else if c = CTRL 'A' then .edit .home
  else if c = CTRL 'E' then .edit .toEnd
  else .char

theorem of_ite_ne {p : Prop} [Decidable p] {a b x : Key} (eq : (if p then a else b) = x) (other : a ≠ x) : b = x := by
  by_cases branch : p
  · rw [if_pos branch] at eq
    exact absurd eq other
  · rwa [if_neg branch] at eq

theorem keyOf_tab (tab : keyOf c = .tab) : c = CTRL 'I' := by
  by_contra other
  unfold keyOf at tab
  iterate 9 replace tab := of_ite_ne tab nofun
  rw [if_neg other] at tab
  iterate 6 replace tab := of_ite_ne tab nofun
  cases tab

theorem keyOf_question (question : keyOf c = .question) : c = '?' := by
  by_contra other
  unfold keyOf at question
  iterate 10 replace question := of_ite_ne question nofun
  rw [if_neg other] at question
  iterate 5 replace question := of_ite_ne question nofun
  cases question

/-- `show_prompt`, outside of build mode. -/
def showPrompt (s : Shell) : Text := s.hostname.getD [] ++ s.cli.modestring.getD [] ++ s.promptchar

namespace Console
variable (setting : Setting) (s : Console)

def write (text : Text) : Console := { s with line := s.line.write text }

def cliError (text : Text) : Console :=
  { s with line := { s.line with sent := (WlanBridge.cliError ⟨[], [], s.line.sent⟩ text).sent } }

def echoes : Bool := s.shell.state != .password && s.shell.state != .enablePassword

def ready : Bool := s.shell.state == .normal || s.shell.state == .enable

/-- The start of the inner loop. -/
def prompted : Console :=
  if s.showprompt then
    let s := if s.echoes then s.write "\r\n".toList else s
    let s := match s.shell.state with
      | .login => s.write "Username: ".toList
      | .password => s.write "Password: ".toList
      | .enablePassword => s.write "Password: ".toList
      | _ =>
        s.write (showPrompt s.shell ++ slice s.line.cmd 0 s.line.l ++
          List.replicate (s.line.l - s.line.cursor) BS)
    { s with showprompt := false }
  else s

/-- How the body of the inner loop ends: `continue`, `break`, `break` with `l` at -1, or the end of
the process. -/
inductive Turn where
  | again
  | done
  | leave
  | crash
  deriving DecidableEq, Repr

def endMode : Console :=
  if s.shell.cli.mode ≠ MODE_EXEC then
    { s with
      line := { s.line.cliClearLine with l := 0, cursor := 0 }
      shell := s.shell.cliSetConfigmode MODE_EXEC
      showprompt := true }
  else s

/-- Where a completion starts to be typed. -/
def stop (commaSeparated : Bool) (c : Char) : Bool := c == ' ' || c == '|' || (commaSeparated && c == ',')

def unbracketed (entry : Text) : Text := if entry.head? = some '[' then entry.tail else entry

/-- As much as all entries share; an entry that stands for any text shares nothing. -/
def common (entries : List Text) : Text :=
  match entries with
  | [] => []
  | first :: rest =>
    let tptr := unbracketed first
    let k := rest.foldl
      (fun k entry => if entry.head? = some '<' then 0 else min k (sharedLen tptr (unbracketed entry)))
      (if first.head? = some '<' then 0 else first.length)
    tptr.take k

def columns (entries : List Text) : Text :=
  (entries.zipIdx.flatMap fun (entry, i) => (if i % 4 = 0 then "\r\n".toList else " ".toList) ++ entry) ++
    "\r\n".toList

def asked (help : CompHelp) : Console :=
  { s.write help.said with showprompt := s.showprompt || help.reprompt }

/-- What a completion types, and where it starts: nothing when it does not complete the line. -/
def completion (help : CompHelp) : Option Text :=
  match help.entries with
  | some [entry] =>
    if entry.head? ≠ some '[' ∧ entry.head? ≠ some '<' then some (entry ++ [' ']) else none
  | some (first :: second :: rest) =>
    let text := common (first :: second :: rest)
    if text ≠ [] ∧ ((first :: second :: rest).getLastD []).head? ≠ some '[' then some text else none
  | _ => none

def typedLine : Text := cstr s.line.cmd CLI_MAX_LINE_LENGTH

def completions (lastchar : Char) : Option CompHelp := setting.getCompletions s.shell s.typedLine lastchar

/-- The tabulator, at the end of a line. -/
def tab (help : CompHelp) : Console :=
  let s := s.asked help
  if help.entries = some [] then s.write [BEL]
  else if s.lastchar = CTRL 'I' then { s.write (columns (help.entries.getD [])) with showprompt := true }
  else
    let single := (help.entries.getD []).length = 1
    match completion help with
    | some text =>
      { s with
        line := s.line.retype (stop help.commaSeparated) text
        lastchar := if single then NUL else CTRL 'I' }
    | none =>
      if help.entries = none then s
      else { if single then s else s.write [BEL] with lastchar := CTRL 'I' }

/-- The question mark, at the end of a line; it is a character like the others when a command is
complete that takes no arguments. -/
def help (help : CompHelp) : Console × Bool :=
  let s := s.asked help
  match help.entries with
  | none => (s, false)
  | some [] => (s.write [BEL], true)
  | some entries =>
    let s := entries.foldl cliError ({ s with showprompt := true }.write "\r\n".toList)
    (if entries.all fun entry => entry[2]? = some '[' then s.cliError "  <cr>".toList else s, true)

/-- Up and down in the history: the place, and whether a line is found there. -/
def historyAt (c : Char) : Int × Bool :=
  let history := s.shell.history
  if c = CTRL 'P' then
    let i := s.inHistory - 1
    if i < 0 then ((history.length : Int) - 1, !history.isEmpty) else (i, decide (i < history.length))
  else
    let i := s.inHistory + 1
    if i ≥ MAX_HISTORY ∨ i ≥ history.length then if history.isEmpty then (i, false) else (0, true) else (i, true)

def recalled (c : Char) : Option Text :=
  let (i, found) := s.historyAt c
  if found then s.shell.history[i.toNat]? else none

def bringBack (c : Char) : Console :=
  { s with
    inHistory := (s.historyAt c).1
    line := match s.recalled c with
      | some line => s.line.bringBack line
      | none => s.line }

def typed (c : Char) : Console × Turn :=
  if s.line.full then
    ({ s with line := { s.line with cmd := Function.update s.line.cmd s.line.cursor NUL }.write [BEL] }, .again)
  else
    let s := { s with line := s.line.insert c }
    if s.echoes then
      if c = '?' ∧ s.line.cursor = s.line.l then
        ({ s with
          line := { s.line.write "\r\n".toList with cursor := s.line.l - 1 }, old := some (s.line.l - 1) }, .done)
      else ({ s with line := s.line.write [c], old := none, lastchar := c }, .again)
    else ({ s with old := none, lastchar := c }, .again)

def completed (c : Char) : Console × Turn :=
  match s.completions setting c with
  | none => (s, .crash)
  | some help => (s.tab help, .again)

def explained (c : Char) : Console × Turn :=
  match s.completions setting c with
  | none => (s, .crash)
  | some help => if (s.help help).2 then ((s.help help).1, .again) else (s.help help).1.typed c

/-- The rest of the inner loop's body, for one decoded character. -/
def key (c : Char) : Console × Turn :=
  match keyOf c with
  | .edit key => ({ s with line := key.act s.echoes (showPrompt s.shell) s.line }, .again)
  | .enter => ({ s with line := s.line.echo s.echoes "\r\n".toList }, .done)
  | .eot => if !s.echoes then (s, .done) else if s.line.l ≠ 0 then (s, .again) else (s, .leave)
  | .endMode => (s.endMode, .again)
  | .tab =>
    if s.ready ∧ s.line.cursor = s.line.l then s.completed setting c else (s, .again)
  | .question =>
    if s.line.cursor ≠ s.line.l then s.typed c
    else if !s.ready then (s, .again)
    else s.explained setting c
  | .history => (if s.ready then s.bringBack c else s, .again)
  | .char => s.typed c

def cliAddHistory (history : List Text) (cmd : Text) : List Text :=
  if history.length < MAX_HISTORY then
    if history = [] ∨ (history.getLastD []).map Char.toLower ≠ cmd.map Char.toLower then history ++ [cmd] else history
  else history.tail ++ [cmd]

def enter (state : CliState) : Console := { s with shell := { s.shell with state := state } }

def submitPassword (cmd : Text) : Console :=
  let username := s.username.getD []
  let s := { s with submitted := s.submitted ++ [Submission.password username cmd] }
  if checkAuth username cmd = CLI_OK then (s.cliError " ".toList).enter .normal
  else { s.cliError "\n\nAccess denied".toList with username := none }.enter .login

def submitEnable (cmd : Text) : Console :=
  let s := { s with submitted := s.submitted ++ [Submission.enablePassword cmd] }
  if checkEnable cmd then
    let s := s.enter .enable
    { s with shell := s.shell.cliSetPrivilege PRIVILEGE_PRIVILEGED }
  else (s.cliError "\n\nAccess denied".toList).enter .normal

/-- There is no result when the command crashes the process. -/
def submitCommand (cmd : Text) : Option Console :=
  let remembered := s.line.cmd (s.line.l - 1) ≠ '?' ∧ cmd.map Char.toLower ≠ "history".toList
  let shell := if remembered then { s.shell with history := cliAddHistory s.shell.history cmd } else s.shell
  (cliRunCommand setting.regcomp setting.meter shell s.globals s.line.sent cmd).map fun (rc, shell, globals, sent) =>
    { s with
      shell := shell
      globals := globals
      line := { s.line with sent := sent }
      submitted := s.submitted ++ [.command s.shell.privilege cmd]
      ended := rc = CLI_QUIT }

/-- The rest of the outer loop's body. An empty line is no login and no command. -/
def submit : Option Console :=
  let cmd := cstr s.line.cmd CLI_MAX_LINE_LENGTH
  match s.shell.state with
  | .login =>
    if s.line.l = 0 then some s
    else some ({ s with username := some cmd, submitted := s.submitted ++ [Submission.login cmd] }.enter .password)
  | .password => some (s.submitPassword cmd)
  | .enablePassword => some (s.submitEnable cmd)
  | _ => if s.line.l = 0 then some s else s.submitCommand setting cmd

/-- The start of the outer loop. -/
def fresh : Console :=
  { s with
    inHistory := 0
    lastchar := NUL
    showprompt := true
    old := none
    line := match s.old with
      | some l => { s.line with l := l, cursor := l, cmd := Function.update s.line.cmd l NUL }
      | none => { s.line with l := 0, cursor := 0, cmd := memset s.line.cmd 0 CLI_MAX_LINE_LENGTH NUL } }

def decoded (c : Char) : Option Console :=
  match s.key setting c with
  | (t, .again) => some t.prompted
  | (t, .leave) => some { t with ended := true }
  | (_, .crash) => none
  | (t, .done) => (t.submit setting).map fun u => if u.ended then u else u.fresh.prompted

/-- From one wait for the client to the next. -/
def step : ConsoleEvent → Option Console
  | .byte c =>
    if s.ended then none
    else
      let (decoder, key) := s.decoder.feed c
      let s := { s with decoder := decoder }
      match key with
      | none => some s
      | some c => s.decoded setting c
  | .hangup => if s.ended then none else some { s with ended := true }
  | .idle =>
    -- `idle_timeout` calls `cli_print`, which is `cli_error` as long as there are no filters.
    if s.ended then none else some { s.cliError "Custom idle timeout".toList with ended := true }
  | .others globals => some { s with globals := globals }

def banner : Text := "-------wlan bridge server environment-------".toList

def negotiate : Text :=
  ['\xff', '\xfb', '\x03', '\xff', '\xfb', '\x01', '\xff', '\xfd', '\x03', '\xff', '\xfd', '\x01']

/-- The first wait for the client, over a buffer from `malloc`. -/
def start (base : Mem) (globals : Globals) : Console :=
  let s : Console :=
    ⟨⟨base, 0, 0, negotiate⟩, NUL, 0, true, none, ⟨0, NUL⟩, Shell.init, globals, none, [], false⟩
  (s.cliError banner).fresh.prompted

end Console

end WlanBridge
