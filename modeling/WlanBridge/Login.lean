import WlanBridge.Buffer
import WlanBridge.Paths

/-! Who may do what on the console: an abstract account of names, passwords and privileges, which
every session of `cli_loop` keeps to. -/
namespace WlanBridge

open Memory Terminal Paths

inductive Stage where
  | outside
  | named (username : Text)
  | inside
  | asked
  deriving DecidableEq, Repr

structure Access where
  stage : Stage
  privilege : Nat
  deriving DecidableEq, Repr

/-- What a submission does. A command keeps the privilege or gives it up, and the password for
it is asked for only where it is missing. -/
inductive Access.Step : Access → Submission → Access → Prop where
  | login : Step ⟨.outside, priv⟩ (.login username) ⟨.named username, priv⟩
  | accepted : checkAuth username password = CLI_OK →
      Step ⟨.named username, priv⟩ (.password username password) ⟨.inside, priv⟩
  | denied : checkAuth username password ≠ CLI_OK →
      Step ⟨.named username, priv⟩ (.password username password) ⟨.outside, priv⟩
  | command : kept = priv ∨ kept = PRIVILEGE_UNPRIVILEGED →
      Step ⟨.inside, priv⟩ (.command priv line) ⟨.inside, kept⟩
  | enable : priv ≠ PRIVILEGE_PRIVILEGED → Step ⟨.inside, priv⟩ (.command priv line) ⟨.asked, priv⟩
  | granted : checkEnable password = true →
      Step ⟨.asked, priv⟩ (.enablePassword password) ⟨.inside, PRIVILEGE_PRIVILEGED⟩
  | refused : checkEnable password = false →
      Step ⟨.asked, priv⟩ (.enablePassword password) ⟨.inside, priv⟩

def Access.init : Access := ⟨.outside, PRIVILEGE_UNPRIVILEGED⟩

namespace Access

def In (a : Access) : Prop := a.stage = .inside ∨ a.stage = .asked

theorem Step.enters (step : Step a e b) (out : ¬a.In) (in_ : b.In) :
    ∃ username password, a.stage = .named username ∧ e = .password username password ∧
      checkAuth username password = CLI_OK := by
  cases step with
  | login => simp [In] at in_
  | accepted ok => exact ⟨_, _, rfl, rfl, ok⟩
  | denied => simp [In] at in_
  | command => simp [In] at out
  | enable => simp [In] at out
  | granted => simp [In] at out
  | refused => simp [In] at out

theorem Step.raises (step : Step a e b) (low : ¬a.privilege ≠ PRIVILEGE_UNPRIVILEGED)
    (high : b.privilege ≠ PRIVILEGE_UNPRIVILEGED) : ∃ password, e = .enablePassword password ∧ checkEnable password = true := by
  cases step with
  | login => exact absurd high low
  | accepted => exact absurd high low
  | denied => exact absurd high low
  | command kept =>
    rcases kept with rfl | rfl
    · exact absurd high low
    · exact absurd rfl high
  | enable => exact absurd high low
  | granted ok => exact ⟨_, rfl, ok⟩
  | refused => exact absurd high low

theorem Step.levels (step : Step a e b) (level : a.privilege = PRIVILEGE_UNPRIVILEGED ∨ a.privilege = PRIVILEGE_PRIVILEGED) :
    b.privilege = PRIVILEGE_UNPRIVILEGED ∨ b.privilege = PRIVILEGE_PRIVILEGED := by
  cases step with
  | command kept =>
    rcases kept with rfl | rfl
    · exact level
    · exact .inl rfl
  | granted => exact .inr rfl
  | login => exact level
  | accepted => exact level
  | denied => exact level
  | enable => exact level
  | refused => exact level

theorem named_last (path : Path Step init events a) (named : a.stage = .named username) :
    ∃ earlier, events = earlier ++ [.login username] := by
  cases path with
  | nil => cases named
  | snoc path step =>
    cases step with
    | login =>
      cases named
      exact ⟨_, rfl⟩
    | accepted => cases named
    | denied => cases named
    | command => cases named
    | enable => cases named
    | granted => cases named
    | refused => cases named

theorem Step.command_privilege (step : Step a (.command priv line) b) : priv = a.privilege ∧ a.stage = .inside := by
  cases step with
  | command => exact ⟨rfl, rfl⟩
  | enable => exact ⟨rfl, rfl⟩

theorem privilege_levels (path : Path Step init events a) :
    a.privilege = PRIVILEGE_UNPRIVILEGED ∨ a.privilege = PRIVILEGE_PRIVILEGED :=
  path.invariant (fun a => a.privilege = PRIVILEGE_UNPRIVILEGED ∨ a.privilege = PRIVILEGE_PRIVILEGED)
    (fun _ _ _ level step => step.levels level) (.inl rfl)

theorem in_has_login (path : Path Step init events a) (in_ : a.In) :
    ∃ earlier username password later, events = earlier ++ .login username :: .password username password :: later ∧
      checkAuth username password = CLI_OK := by
  obtain ⟨before, e, after, s, s', rfl, start, out, step, inside, -⟩ := path.since In (by simp [In, init]) in_
  obtain ⟨username, password, named, rfl, ok⟩ := step.enters out inside
  obtain ⟨earlier, rfl⟩ := named_last start named
  exact ⟨earlier, username, password, after, by simp, ok⟩

/-- Behind a privilege stands an accepted password for it, and every command since then has had it. -/
theorem privilege_has_password (path : Path Step init events a) (high : a.privilege ≠ PRIVILEGE_UNPRIVILEGED) :
    a.privilege = PRIVILEGE_PRIVILEGED ∧
      ∃ earlier password later, events = earlier ++ .enablePassword password :: later ∧ checkEnable password = true ∧
        ∀ priv line, .command priv line ∈ later → priv = PRIVILEGE_PRIVILEGED := by
  refine ⟨(privilege_levels path).resolve_left high, ?_⟩
  obtain ⟨before, e, after, s, s', rfl, start, low, step, raised, since⟩ :=
    path.since (fun a => a.privilege ≠ PRIVILEGE_UNPRIVILEGED) (by simp [init]) high
  obtain ⟨password, rfl, ok⟩ := step.raises low raised
  refine ⟨before, password, after, rfl, ok, fun priv line member => ?_⟩
  obtain ⟨first, rest, rfl⟩ := List.append_of_mem member
  obtain ⟨m, until_, onward⟩ := since.split
  obtain ⟨_, ⟨still, commands⟩, -⟩ := onward.first
  obtain ⟨rfl, -⟩ := commands.command_privilege
  have level : m.privilege = PRIVILEGE_UNPRIVILEGED ∨ m.privilege = PRIVILEGE_PRIVILEGED :=
    until_.invariant (fun a => a.privilege = PRIVILEGE_UNPRIVILEGED ∨ a.privilege = PRIVILEGE_PRIVILEGED)
      (fun _ _ _ level both => both.2.levels level) (step.levels (privilege_levels start))
  exact level.resolve_left still

theorem command_authorised (path : Path Step init (before ++ .command priv line :: after) a) :
    (∃ earlier username password later,
        before = earlier ++ .login username :: .password username password :: later ∧
          checkAuth username password = CLI_OK) ∧
      (priv = PRIVILEGE_UNPRIVILEGED ∨ priv = PRIVILEGE_PRIVILEGED ∧
        ∃ earlier password later, before = earlier ++ .enablePassword password :: later ∧ checkEnable password = true ∧
          ∀ other line, .command other line ∈ later → other = PRIVILEGE_PRIVILEGED) := by
  obtain ⟨s, earlier, onward⟩ := path.split
  obtain ⟨_, step, -⟩ := onward.first
  obtain ⟨rfl, inside⟩ := step.command_privilege
  refine ⟨in_has_login earlier (.inl inside), ?_⟩
  by_cases low : s.privilege = PRIVILEGE_UNPRIVILEGED
  · exact .inl low
  · exact .inr (privilege_has_password earlier low)

end Access

def Console.access (s : Console) : Access :=
  ⟨match s.shell.state with
    | .login => .outside
    | .password => .named (s.username.getD [])
    | .normal => .inside
    | .enablePassword => .asked
    | .enable => .inside, s.shell.privilege⟩

theorem call_state (callback : Callback) (called : callback.call meter argv s g = some result) :
    result.shell.state = s.state ∨ callback = .enable ∧ result.shell = s.cliEnable := by
  cases callback with
  | help => exact .inl (Option.some.inj called ▸ rfl)
  | quit => exact .inl (Option.some.inj called ▸ (cliSetPrivilege_rest s _).2.1)
  | exit =>
    obtain rfl := Option.some.inj called
    refine .inl ?_
    dsimp only [Shell.cliExit]
    split
    · exact (cliSetPrivilege_rest s _).2.1
    · rfl
  | history => exact .inl (Option.some.inj called ▸ rfl)
  | enable => exact .inr ⟨rfl, Option.some.inj called ▸ rfl⟩
  | disable => exact .inl (Option.some.inj called ▸ (cliSetPrivilege_rest s _).2.1)
  | configureTerminal => exact .inl (Option.some.inj called ▸ rfl)
  | server c =>
    obtain ⟨ran, -, rfl⟩ := Option.map_eq_some_iff.mp called
    exact .inl rfl

theorem Shell.Finds.inherits {s : Shell} (finds : s.Finds type commands words c argv) {has : CliCommand → Prop}
    (here : ∀ c ∈ commands, has c) (below : ∀ p, has p → ∀ c ∈ p.children, has c) : has c ∧ s.Offers c := by
  induction finds with
  | leaf denotes => exact ⟨here _ denotes.1, denotes.2.2.1⟩
  | under denotes _ _ ih => exact ih (below _ (here _ denotes.1))
  | group denotes => exact ⟨here _ denotes.1, denotes.2.2.1⟩

theorem finds_enable {s : Shell} (finds : s.Finds type sessionCommands words c argv)
    (enables : c.callback = some .enable) : s.cli.mode = MODE_EXEC := by
  have registered : ∀ c ∈ sessionCommands, (c.callback = some .enable → c.mode = some MODE_EXEC) ∧
      ∀ d ∈ c.children, (d.callback = some .enable → d.mode = some MODE_EXEC) ∧ d.children.isEmpty = true := by
    decide
  obtain ⟨⟨exec, -⟩, offered⟩ := finds.inherits registered fun p has c member => by
    obtain ⟨exec, leaf⟩ := has.2 c member
    exact ⟨exec, fun d deeper => by simp [List.isEmpty_iff.mp leaf] at deeper⟩
  rcases offered.1 with any | here
  · rw [exec enables] at any
    cases any
  · exact Option.some.inj (here.symm.trans (exec enables))

theorem run_state {s s' : Shell} (plain : s.Plain)
    (ran : cliRunCommand regcomp meter s g sent line = some (rc, s', g', sent')) :
    s'.state = s.state ∨ s' = { s with state := .enablePassword } ∧ s.privilege ≠ PRIVILEGE_PRIVILEGED ∧
      s.cli.mode = MODE_EXEC := by
  rcases run_cases plain ran with ⟨rfl, -⟩ | ⟨_, _, c, _, callback, called, -, finds, -, given, call, -, rfl, -⟩
  · exact .inl rfl
  · rcases call_state callback call with same | ⟨rfl, enabled⟩
    · exact .inl same
    · rw [enabled, Shell.cliEnable]
      split
      · exact .inl rfl
      · rename_i missing
        exact .inr ⟨rfl, missing, finds_enable finds given⟩

/-- What a session keeps between its submissions: while a password is typed, the mode is the first one. -/
structure Console.Lawful (s : Console) : Prop where
  plain : s.shell.Plain
  exec : s.ready = false → s.shell.cli.mode = MODE_EXEC
  path : Path Access.Step .init s.submitted s.access

section Sessions
variable {setting : Setting} {s t u : Console}

/-- Nothing of a session that is looked at here has changed. -/
structure Console.Same (s t : Console) : Prop where
  shell : t.shell = s.shell
  submitted : t.submitted = s.submitted
  username : t.username = s.username

theorem Console.Lawful.same (lawful : s.Lawful) (same : s.Same t) : t.Lawful := by
  obtain ⟨shell, submitted, username⟩ := same
  refine ⟨shell ▸ lawful.plain, fun waits => ?_, ?_⟩
  · rw [shell]
    refine lawful.exec ?_
    rw [Console.ready, ← shell]
    exact waits
  · have access : t.access = s.access := by rw [Console.access, Console.access, shell, username]
    rw [submitted, access]
    exact lawful.path

theorem prompted_same (s : Console) : s.Same s.prompted := by
  unfold Console.prompted
  split
  · dsimp only
    split <;> split <;> exact ⟨rfl, rfl, rfl⟩
  · exact ⟨rfl, rfl, rfl⟩

theorem key_lawful (setting : Setting) (lawful : s.Lawful) (c : Char) : (s.key setting c).1.Lawful := by
  obtain ⟨shell, -, submitted, username, -⟩ := key_around setting s c
  rcases shell with same | exec
  · exact lawful.same ⟨same, submitted, username⟩
  · have mode : (s.shell.cliSetConfigmode MODE_EXEC).cli.mode = MODE_EXEC := cliSetConfigmode_mode _ _
    refine ⟨?_, fun _ => exec ▸ mode, ?_⟩
    · rw [exec, Shell.Plain, mode]
      exact Nat.zero_le _
    · have access : (s.key setting c).1.access = s.access := by
        rw [Console.access, Console.access, exec, username]
        rfl
      rw [submitted, access]
      exact lawful.path

theorem submitCommand_lawful (lawful : s.Lawful) (ready : s.ready = true)
    (submits : s.submitCommand setting cmd = some t) : t.Lawful := by
  obtain ⟨plain, -, path⟩ := lawful
  have in_ : s.access = ⟨.inside, s.shell.privilege⟩ := by
    simp only [Console.ready, Bool.or_eq_true, beq_iff_eq] at ready
    rcases ready with state | state <;> rw [Console.access, state]
  obtain ⟨⟨rc, shell, globals, sent⟩, ran, rfl⟩ := Option.map_eq_some_iff.mp submits
  generalize remembered : (if s.line.cmd (s.line.l - 1) ≠ '?' ∧ cmd.map Char.toLower ≠ "history".toList then
    { s.shell with history := Console.cliAddHistory s.shell.history cmd } else s.shell) = before at ran
  obtain ⟨state, privilege, cli⟩ : before.state = s.shell.state ∧ before.privilege = s.shell.privilege ∧
      before.cli = s.shell.cli := by
    subst remembered
    split <;> exact ⟨rfl, rfl, rfl⟩
  have plain : before.Plain := by
    rw [Shell.Plain, cli]
    exact plain
  have keeps := run_keeps plain ran
  rw [in_] at path
  rcases run_state plain ran with same | ⟨rfl, missing, mode⟩
  · refine ⟨keeps.plain, fun waits => ?_, .snoc path ?_⟩
    · rw [Console.ready, same, state] at waits
      rw [Console.ready, waits] at ready
      cases ready
    · have stage := congrArg Access.stage in_
      rw [Console.access, ← state, ← same] at stage
      rw [Console.access]
      dsimp only at stage ⊢
      rw [stage]
      exact .command (privilege ▸ keeps.privilege)
  · refine ⟨keeps.plain, fun _ => mode, .snoc path ?_⟩
    rw [privilege] at missing
    rw [Console.access]
    dsimp only
    rw [privilege]
    exact .enable missing

theorem submitPassword_lawful (lawful : s.Lawful) (typing : s.shell.state = .password) (cmd : Text) :
    (s.submitPassword cmd).Lawful := by
  obtain ⟨plain, exec, path⟩ := lawful
  have named : s.access = ⟨.named (s.username.getD []), s.shell.privilege⟩ := by rw [Console.access, typing]
  have waits : s.ready = false := by simp [Console.ready, typing]
  rw [named] at path
  unfold Console.submitPassword
  dsimp only
  split
  · rename_i ok
    exact ⟨plain, fun _ => exec waits, .snoc path (.accepted ok)⟩
  · rename_i wrong
    exact ⟨plain, fun _ => exec waits, .snoc path (.denied wrong)⟩

theorem submitEnable_lawful (lawful : s.Lawful) (typing : s.shell.state = .enablePassword) (cmd : Text) :
    (s.submitEnable cmd).Lawful := by
  obtain ⟨plain, exec, path⟩ := lawful
  have asked : s.access = ⟨.asked, s.shell.privilege⟩ := by rw [Console.access, typing]
  have waits : s.ready = false := by simp [Console.ready, typing]
  rw [asked] at path
  unfold Console.submitEnable
  dsimp only
  split
  · rename_i ok
    obtain ⟨cli, granted, -⟩ := cliSetPrivilege_rest { s.shell with state := .enable } PRIVILEGE_PRIVILEGED
    refine ⟨?_, fun _ => ?_, .snoc path ?_⟩
    · dsimp only [Console.enter, Shell.Plain]
      rw [cli]
      exact plain
    · dsimp only [Console.enter]
      rw [cli]
      exact exec waits
    · rw [Console.access]
      dsimp only [Console.enter]
      rw [granted, cliSetPrivilege_privilege]
      exact .granted ok
  · rename_i wrong
    exact ⟨plain, fun _ => exec waits, .snoc path (.refused (Bool.eq_false_iff.mpr wrong))⟩

theorem submit_lawful (lawful : s.Lawful) (submits : s.submit setting = some t) : t.Lawful := by
  have commands (cmd : Text) (ready : s.ready = true)
      (ran : (if s.line.l = 0 then some s else s.submitCommand setting cmd) = some t) : t.Lawful := by
    split at ran
    · exact Option.some.inj ran ▸ lawful
    · exact submitCommand_lawful lawful ready ran
  unfold Console.submit at submits
  generalize cstr s.line.cmd CLI_MAX_LINE_LENGTH = cmd at submits
  dsimp only at submits
  cases state : s.shell.state with
  | login =>
    obtain ⟨plain, exec, path⟩ := lawful
    have out : s.access = ⟨.outside, s.shell.privilege⟩ := by rw [Console.access, state]
    have waits : s.ready = false := by simp [Console.ready, state]
    simp only [state] at submits
    split at submits
    · exact Option.some.inj submits ▸ ⟨plain, exec, path⟩
    · obtain rfl := Option.some.inj submits
      rw [out] at path
      exact ⟨plain, fun _ => exec waits, .snoc path .login⟩
  | password =>
    simp only [state] at submits
    exact Option.some.inj submits ▸ submitPassword_lawful lawful state _
  | enablePassword =>
    simp only [state] at submits
    exact Option.some.inj submits ▸ submitEnable_lawful lawful state _
  | normal =>
    simp only [state] at submits
    exact commands _ (by simp [Console.ready, state]) submits
  | enable =>
    simp only [state] at submits
    exact commands _ (by simp [Console.ready, state]) submits

theorem decoded_lawful (lawful : s.Lawful) (decoded : s.decoded setting c = some t) : t.Lawful := by
  have typed := key_lawful setting lawful c
  rcases keyed : s.key setting c with ⟨t', turn⟩
  rw [keyed] at typed
  obtain ⟨-, rfl⟩ | ⟨-, rfl⟩ | ⟨-, u, submits, next⟩ := decoded_cases decoded keyed
  · exact typed.same (prompted_same t')
  · exact typed.same ⟨rfl, rfl, rfl⟩
  · have submitted := submit_lawful typed submits
    obtain ⟨-, rfl⟩ | ⟨-, rfl⟩ := next
    · exact submitted
    · have fresh : u.fresh.Lawful := submitted.same ⟨rfl, rfl, rfl⟩
      exact fresh.same (prompted_same u.fresh)

theorem step_lawful (lawful : s.Lawful) (stepped : s.step setting e = some t) : t.Lawful := by
  rcases console_step_cases stepped with
    ⟨_, _, -, -, rfl⟩ | ⟨_, decoder, _, -, -, -, decoded⟩ | ⟨_, rfl⟩ | ⟨_, -, rfl⟩
  · exact lawful.same ⟨rfl, rfl, rfl⟩
  · exact decoded_lawful (s := { s with decoder := decoder }) (lawful.same ⟨rfl, rfl, rfl⟩) decoded
  · exact lawful.same ⟨rfl, rfl, rfl⟩
  · exact lawful.same ⟨rfl, rfl, rfl⟩

theorem start_lawful (base : Mem) (globals : Globals) : (Console.start base globals).Lawful := by
  have init : Console.Lawful ⟨⟨base, 0, 0, Console.negotiate⟩, NUL, 0, true, none, ⟨0, NUL⟩, Shell.init, globals, none, [],
      false⟩ := ⟨Nat.zero_le _, fun _ => rfl, .nil⟩
  exact init.same ⟨(prompted_same _).shell, (prompted_same _).submitted, (prompted_same _).username⟩

theorem run_lawful (events : List ConsoleEvent)
    (reached : Interleaving.run (Console.step setting) (.start base globals) events = some s) : s.Lawful :=
  Interleaving.run_invariant Console.Lawful (fun _ _ _ lawful stepped => step_lawful lawful stepped)
    (start_lawful base globals) events reached

end Sessions

/-- Over every session, whatever its bytes are, as long as every completed word fits the buffer: a
command runs only behind a login with the right password, and with the higher privilege only
behind the right password for it, since which no command has run without. -/
theorem commands_are_authorised (setting : Setting) (base : Mem) (globals : Globals) (events : List ConsoleEvent)
    (s : Console) (fits : (Console.start base globals).Fits setting events s) :
    ∀ before priv line after, s.submitted = before ++ .command priv line :: after →
      (∃ earlier username password later,
          before = earlier ++ .login username :: .password username password :: later ∧
            checkAuth username password = CLI_OK) ∧
        (priv = PRIVILEGE_UNPRIVILEGED ∨ priv = PRIVILEGE_PRIVILEGED ∧
          ∃ earlier password later, before = earlier ++ .enablePassword password :: later ∧
            checkEnable password = true ∧ ∀ other line, .command other line ∈ later → other = PRIVILEGE_PRIVILEGED) := by
  intro before priv line after split
  have path := (run_lawful events fits.reached).path
  rw [split] at path
  exact Access.command_authorised path

/-- A login, `enable` with its password, and `quit`. -/
theorem commands_are_authorised_quit :
    ∃ earlier password later,
      [Submission.login "admin".toList, Submission.password "admin".toList "Admin".toList,
          Submission.command 0 "ena".toList, Submission.enablePassword "admin".toList] =
        earlier ++ Submission.enablePassword password :: later ∧
        checkEnable password = true ∧
        ∀ other line, Submission.command other line ∈ later → other = PRIVILEGE_PRIVILEGED := by
  have ends : ((Interleaving.run (Console.step bareSetting) (.start (fun _ => NUL) ⟨⟨.init, []⟩, .zero, 0⟩)
      ("admin\rAdmin\rena\radmin\rquit\r".toList.map .byte)).map Console.submitted) =
      some ([Submission.login "admin".toList, Submission.password "admin".toList "Admin".toList,
        Submission.command 0 "ena".toList, Submission.enablePassword "admin".toList] ++
          Submission.command 15 "quit".toList :: []) := by decide +kernel
  obtain ⟨s, reached, submitted⟩ := Option.map_eq_some_iff.mp ends
  have fits := fits_tabless _ (List.all_iff_forall_prop.mp (by decide)) reached
  rcases (commands_are_authorised _ _ _ _ s fits _ _ _ _ submitted).2 with low | ⟨-, granted⟩
  · cases low
  · exact granted

end WlanBridge
