import WlanBridge.CommandTree
import WlanBridge.Words

/-! `cli_run_command` from the line to its effects, with the commands that `cli_init` and
`run_child` register. -/
namespace WlanBridge

def CLI_QUIT : Int := -2

def MAX_HISTORY : Nat := 256

def regularCommand (command : String) (callback : Option Callback) (privilege : Nat) (mode : Option Nat)
    (help : String) (children : List CliCommand) : CliCommand :=
  .mk command.toList .regular privilege mode callback none help.toList children

def filterCommand (filter : FilterCommand) (help : String) : CliCommand :=
  .mk filter.name .filter PRIVILEGE_UNPRIVILEGED none none (some filter) help.toList []

/-- What `cli_init` registers. -/
def builtinCommands : List CliCommand :=
  [regularCommand "help" (some .help) PRIVILEGE_UNPRIVILEGED none "Show available commands" [],
    regularCommand "quit" (some .quit) PRIVILEGE_UNPRIVILEGED none "Disconnect" [],
    regularCommand "logout" (some .quit) PRIVILEGE_UNPRIVILEGED none "Disconnect" [],
    regularCommand "exit" (some .exit) PRIVILEGE_UNPRIVILEGED none "Exit from current mode" [],
    regularCommand "history" (some .history) PRIVILEGE_UNPRIVILEGED none "Show a list of previously run commands" [],
    regularCommand "enable" (some .enable) PRIVILEGE_UNPRIVILEGED (some MODE_EXEC) "Turn on privileged commands" [],
    regularCommand "disable" (some .disable) PRIVILEGE_PRIVILEGED (some MODE_EXEC) "Turn off privileged commands" [],
    regularCommand "configure" none PRIVILEGE_PRIVILEGED (some MODE_EXEC) "Enter configuration mode"
      [regularCommand "terminal" (some .configureTerminal) PRIVILEGE_PRIVILEGED (some MODE_EXEC)
        "Conlfigure from the terminal" []],
    filterCommand .begin "Begin with lines that match",
    filterCommand .between "Between lines that match",
    filterCommand .count "Count of lines",
    filterCommand .exclude "Exclude lines that match",
    filterCommand .include "Include lines that match",
    filterCommand .grep "Include lines that match regex (options: -v, -i, -e)",
    filterCommand .egrep "Include lines that match extended regex"]

/-- What `run_child` of the server adds. -/
def serverCommands : List CliCommand :=
  let exec (command : String) (handler : Command) (help : String) :=
    regularCommand command (some (.server handler)) PRIVILEGE_UNPRIVILEGED (some MODE_EXEC) help []
  [exec "test" .test "",
    regularCommand "show" none PRIVILEGE_UNPRIVILEGED (some MODE_EXEC) ""
      [exec "epoll_stat" .showEpollStat "Show epoll statistics",
        exec "fdb" .showFdb "Show fdb list",
        exec "ip_stat" .showIpStat "Show ip statistics",
        exec "counters" .showCounters "Show the counters that the system uses"],
    regularCommand "set" none PRIVILEGE_UNPRIVILEGED (some MODE_EXEC) ""
      [exec "epoll_stat_clean" .setEpollStatClean "clean epoll statistics",
        exec "log_level" .setLogLevel "set log level 1: info, 2: debug",
        exec "counters" .setCounters "set the counters that the system uses"],
    regularCommand "exit" (some (.server .exit)) PRIVILEGE_PRIVILEGED (some MODE_CONFIG_INT)
      "Exit from interface configuration" []]

def sessionCommands : List CliCommand := builtinCommands ++ serverCommands

mutual

/-- The lines of `cli_show_help` for a command and what is below it. -/
def CliCommand.showHelp (s : Shell) (path : Text) : CliCommand → List Text
  | .mk command _ privilege mode callback _ help children =>
    (if callback.isSome ∧ privilege ≤ s.privilege ∧ (mode = none ∨ mode = some s.cli.mode) then
        ["  ".toList ++ padRight 20 (path ++ command) ++ [' '] ++ help]
      else []) ++ cliShowHelp s (path ++ command ++ [' ']) children

def cliShowHelp (s : Shell) (path : Text) : List CliCommand → List Text
  | [] => []
  | c :: rest => c.showHelp s path ++ cliShowHelp s path rest

end

def Shell.cliHistory (s : Shell) : List Text :=
  "\nCommand history:".toList ::
    s.history.zipIdx.map fun (cmd, i) => padLeft ' ' 3 (decimal i) ++ ". ".toList ++ cmd

/-- With the callback that `run_child` sets, the privilege has a password. -/
def Shell.cliEnable (s : Shell) : Shell :=
  if s.privilege = PRIVILEGE_PRIVILEGED then s else { s with state := .enablePassword }

def Shell.cliDisable (s : Shell) : Shell := (s.cliSetPrivilege PRIVILEGE_UNPRIVILEGED).cliSetConfigmode MODE_EXEC

def Shell.cliQuit (s : Shell) : Int × Shell := (CLI_QUIT, s.cliDisable)

def Shell.cliExit (s : Shell) : Int × Shell :=
  if s.cli.mode = MODE_EXEC then s.cliQuit
  else (CLI_OK, s.cliSetConfigmode (if s.cli.mode > MODE_CONFIG then MODE_CONFIG else MODE_EXEC))

/-- What a callback returns, with the session and the globals behind it and what it prints, past
the filters and through them. -/
structure Called where
  rc : Int
  shell : Shell
  globals : Globals
  errors : List Text
  texts : List Text

def Callback.call (meter : Meter) (argv : List Text) (s : Shell) (g : Globals) :
    Callback → Option Called
  | .help => some ⟨CLI_OK, s, g, "\nCommands available:".toList :: cliShowHelp s [] sessionCommands, []⟩
  | .quit => some ⟨s.cliQuit.1, s.cliQuit.2, g, [], []⟩
  | .exit => some ⟨s.cliExit.1, s.cliExit.2, g, [], []⟩
  | .history => some ⟨CLI_OK, s, g, s.cliHistory, []⟩
  | .enable => some ⟨CLI_OK, s.cliEnable, g, [], []⟩
  | .disable => some ⟨CLI_OK, s.cliDisable, g, [], []⟩
  | .configureTerminal => some ⟨CLI_OK, s.cliSetConfigmode MODE_CONFIG, g, [], []⟩
  | .server c =>
    (c.run meter argv { s.cli with out := [] } g).map fun (rc, cli, g) =>
      ⟨rc, { s with cli := { cli with out := [] } }, g, [], cli.out⟩

structure Validated where
  command : CliCommand
  argv : List Text
  filters : List FilterStage

def Shell.validateStage (s : Shell) (type : CommandType) (words : List Text) :
    Shell × Except Text (CliCommand × List Text) :=
  match words with
  | [] => (s, .error "Empty command given".toList)
  | word :: _ =>
    match s.locate type [] words sessionCommands with
    | (s, .found c rest) => (s, .ok (c, rest))
    | (s, .error text) => (s, .error text)
    | (s, .errorArg) => (s, .error ("Invalid command \"".toList ++ word ++ ['"']))

/-- The stages behind the first one; a filter looks at its words at once. -/
def Shell.validateFilters (s : Shell) : List (List Text) → Shell × Except Text (List FilterStage)
  | [] => (s, .ok [])
  | words :: rest =>
    match s.validateStage .filter words with
    | (s, .error text) => (s, .error text)
    | (s, .ok (c, _)) =>
      match c.filter with
      | none => (s, .error [])
      | some filter =>
        match filter.stage words with
        | .error text => (s, .error text)
        | .ok stage =>
          let (s, filters) := s.validateFilters rest
          (s, filters.map (stage :: ·))

/-- `cli_int_validate_pipeline`. -/
def Shell.validate (s : Shell) : List (List Text) → Shell × Except Text Validated
  | [] => (s, .error [])
  | words :: rest =>
    match s.validateStage .regular words with
    | (s, .error text) => (s, .error text)
    | (s, .ok (c, argv)) =>
      let (s, filters) := s.validateFilters rest
      (s, filters.map (⟨c, argv, ·⟩))

/-- `cli_run_command`: the value, of which the caller looks at `CLI_QUIT` only, and what is sent to
the client after the text that was sent before. -/
def cliRunCommand (regcomp : Regcomp) (meter : Meter) (s : Shell) (g : Globals) (sent : Text)
    (command : Text) : Option (Int × Shell × Globals × Text) :=
  let stages := cliIntGeneratePipeline command
  if stages = [[]] then some (CLI_ERROR, s, g, sent)
  else
    match s.validate stages with
    | (s, .error text) => some (CLI_ERROR, s, g, (cliError ⟨[], [], sent⟩ text).sent)
    | (s, .ok v) =>
      let pipe (errors texts : List Text) :=
        (cliIntExecutePipeline regcomp (errors.foldl cliError ⟨[], [], sent⟩) v.filters texts).sent
      if (initFilters regcomp v.filters).2.isSome then some (1, s, g, pipe [] [])
      else
        match v.command.callback with
        | none => some (CLI_OK, s, g, pipe [] [])
        | some callback =>
          (callback.call meter v.argv s g).map fun called =>
            (called.rc, called.shell, called.globals, pipe called.errors called.texts)

/-- The session's modes: no command enters a submode of the configuration. -/
def Shell.Plain (s : Shell) : Prop := s.cli.mode ≤ MODE_CONFIG

/-- The fields that no command but the built-in ones changes, and how these do. -/
structure Shell.Keeps (s t : Shell) : Prop where
  plain : t.Plain
  privilege : t.privilege = s.privilege ∨ t.privilege = PRIVILEGE_UNPRIVILEGED
  state : t.state = s.state ∨ t.state = .enablePassword ∧ s.privilege ≠ PRIVILEGE_PRIVILEGED
  history : t.history = s.history
  hostname : t.hostname = s.hostname
  promptchar : t.promptchar = s.promptchar ∨ t.promptchar = "> ".toList
  modestring : t.cli.modestring = s.cli.modestring ∨ t.cli.modestring = none ∨
    t.cli.modestring = some "(config)".toList

theorem Shell.Keeps.refl {s : Shell} (plain : s.Plain) : s.Keeps s :=
  ⟨plain, .inl rfl, .inl rfl, rfl, rfl, .inl rfl, .inl rfl⟩

theorem cliSetConfigmode_modestring (cli : CliDef) (mode : Nat) :
    (cliSetConfigmode cli mode).modestring = cli.modestring ∨ (cliSetConfigmode cli mode).modestring = none ∨
      (cliSetConfigmode cli mode).modestring = some "(config)".toList := by
  unfold cliSetConfigmode
  split
  · dsimp only
    split
    · exact .inr (.inl rfl)
    · exact .inr (.inr rfl)
  · exact .inl rfl

@[simp] theorem cliSetConfigmode_mode (cli : CliDef) (mode : Nat) : (cliSetConfigmode cli mode).mode = mode := by
  unfold cliSetConfigmode
  split <;> rfl

@[simp] theorem cliSetPrivilege_privilege (s : Shell) (priv : Nat) : (s.cliSetPrivilege priv).privilege = priv := by
  unfold Shell.cliSetPrivilege
  split <;> simp_all

theorem cliSetPrivilege_rest (s : Shell) (priv : Nat) :
    (s.cliSetPrivilege priv).cli = s.cli ∧ (s.cliSetPrivilege priv).state = s.state ∧
      (s.cliSetPrivilege priv).history = s.history ∧ (s.cliSetPrivilege priv).hostname = s.hostname := by
  unfold Shell.cliSetPrivilege
  split <;> exact ⟨rfl, rfl, rfl, rfl⟩

theorem cliSetPrivilege_promptchar (s : Shell) (priv : Nat) :
    (s.cliSetPrivilege priv).promptchar = s.promptchar ∨
      (s.cliSetPrivilege priv).promptchar = if priv = PRIVILEGE_PRIVILEGED then "# ".toList else "> ".toList := by
  unfold Shell.cliSetPrivilege
  split
  · exact .inr rfl
  · exact .inl rfl

theorem Shell.Keeps.configmode (s : Shell) (low : mode ≤ MODE_CONFIG) : s.Keeps (s.cliSetConfigmode mode) :=
  ⟨(cliSetConfigmode_mode s.cli mode).trans_le low, .inl rfl, .inl rfl, rfl, rfl, .inl rfl,
    cliSetConfigmode_modestring s.cli mode⟩

theorem Shell.Keeps.disable (s : Shell) : s.Keeps s.cliDisable := by
  obtain ⟨cli, state, history, hostname⟩ := cliSetPrivilege_rest s PRIVILEGE_UNPRIVILEGED
  have modestring := cliSetConfigmode_modestring (s.cliSetPrivilege PRIVILEGE_UNPRIVILEGED).cli MODE_EXEC
  rw [cli] at modestring
  refine ⟨(cliSetConfigmode_mode _ MODE_EXEC).trans_le (Nat.zero_le _), .inr (cliSetPrivilege_privilege s _),
    .inl state, history, hostname, cliSetPrivilege_promptchar s PRIVILEGE_UNPRIVILEGED, ?_⟩
  simpa [Shell.cliDisable, Shell.cliSetConfigmode, cli] using modestring

def CliDef.SameMode (cli cli' : CliDef) : Prop := cli'.mode = cli.mode ∧ cli'.modestring = cli.modestring

theorem printAll_mode (cli : CliDef) (lines : List Text) : cli.SameMode (cli.printAll lines) := by
  induction lines generalizing cli with
  | nil => exact ⟨rfl, rfl⟩
  | cons line lines ih => exact ih (cli.print line)

theorem cmdSet_mode (cli : CliDef) (argv : List Text) : cli.SameMode (cmdSet cli argv).2 := by
  unfold cmdSet
  split
  · split
    · exact ⟨rfl, rfl⟩
    · split
      · exact ⟨rfl, rfl⟩
      · split
        · dsimp only
          split <;> exact ⟨rfl, rfl⟩
        · exact ⟨rfl, rfl⟩
  · exact ⟨rfl, rfl⟩

theorem cmdSetLogLevel_mode (cli : CliDef) (argv : List Text) (g : Globals) :
    cli.SameMode (cmdSetLogLevel cli argv g).2.1 := by
  rcases argv with _ | ⟨level, rest⟩
  · exact ⟨rfl, rfl⟩
  · cases number : isNumber level <;> simp [cmdSetLogLevel, number, CliDef.SameMode, CliDef.print]

theorem Command.run_mode (c : Command) (ran : c.run meter argv cli g = some result) :
    cli.SameMode result.2.1 ∨ result.2.1 = cliSetConfigmode cli MODE_CONFIG := by
  cases c with
  | exit => exact .inr (Option.some.inj ran ▸ rfl)
  | showFdb =>
    obtain ⟨shown, dumped, rfl⟩ := Option.map_eq_some_iff.mp ran
    obtain ⟨lines, -, rfl⟩ := Option.map_eq_some_iff.mp dumped
    exact .inl (printAll_mode cli lines)
  | setCounters => exact .inl (Option.some.inj ran ▸ cmdSet_mode cli argv)
  | setLogLevel => exact .inl (Option.some.inj ran ▸ cmdSetLogLevel_mode cli argv g)
  | showIpStat => exact .inl (Option.some.inj ran ▸ printAll_mode cli _)
  | test => exact .inl (Option.some.inj ran ▸ printAll_mode ((cli.print _).print _) _)
  | showCounters => exact .inl (Option.some.inj ran ▸ printAll_mode ((cli.print _).print _) _)
  | showEpollStat => exact .inl (Option.some.inj ran ▸ ⟨rfl, rfl⟩)
  | setEpollStatClean => exact .inl (Option.some.inj ran ▸ ⟨rfl, rfl⟩)

theorem call_keeps (callback : Callback) (plain : s.Plain) (called : callback.call meter argv s g = some result) :
    s.Keeps result.shell := by
  cases callback with
  | help => exact Option.some.inj called ▸ .refl plain
  | history => exact Option.some.inj called ▸ .refl plain
  | quit => exact Option.some.inj called ▸ .disable s
  | disable => exact Option.some.inj called ▸ .disable s
  | configureTerminal => exact Option.some.inj called ▸ .configmode s (Nat.le_refl _)
  | exit =>
    obtain rfl := Option.some.inj called
    dsimp only [Shell.cliExit]
    split
    · exact .disable s
    · refine .configmode s ?_
      split
      · exact Nat.le_refl _
      · exact Nat.zero_le _
  | enable =>
    obtain rfl := Option.some.inj called
    dsimp only [Shell.cliEnable]
    split
    · exact .refl plain
    · rename_i other
      exact ⟨plain, .inl rfl, .inr ⟨rfl, other⟩, rfl, rfl, .inl rfl, .inl rfl⟩
  | server c =>
    obtain ⟨⟨rc, cli, g'⟩, ran, rfl⟩ := Option.map_eq_some_iff.mp called
    rcases c.run_mode ran with ⟨mode, modestring⟩ | left
    · exact ⟨mode.trans_le plain, .inl rfl, .inl rfl, rfl, rfl, .inl rfl, .inl modestring⟩
    · dsimp only at left
      subst left
      exact ⟨(cliSetConfigmode_mode _ MODE_CONFIG).le, .inl rfl, .inl rfl, rfl, rfl, .inl rfl,
        cliSetConfigmode_modestring { s.cli with out := [] } MODE_CONFIG⟩

/-- Names on one level differ, but for a command of the interface configuration. -/
def Apart (c d : CliCommand) : Prop :=
  c.commandType = d.commandType → c.command ≠ d.command ∨ d.mode = some MODE_CONFIG_INT

instance (c d : CliCommand) : Decidable (Apart c d) := inferInstanceAs (Decidable (_ → _))

theorem Apart.distinct {s : Shell} (apart : Apart c d) (plain : s.Plain) : s.Distinct c d := by
  intro kind _ offers
  rcases apart kind with differ | submode
  · exact differ
  · rcases offers.1 with any | here
    · rw [submode] at any
      cases any
    · have mode : MODE_CONFIG_INT = s.cli.mode := Option.some.inj (submode.symm.trans here)
      have low : MODE_CONFIG_INT ≤ MODE_CONFIG := mode.trans_le plain
      exact absurd low (by decide)

theorem level_tidy {s : Shell} (plain : s.Plain) (lower : ∀ c ∈ level, c.command.map Char.toLower = c.command)
    (apart : level.Pairwise Apart) (below : ∀ c ∈ level, s.Tidy c.children) : s.Tidy level :=
  .mk lower (apart.imp fun apart => apart.distinct plain) below

theorem commands_tidy (s : Shell) (plain : s.Plain) : s.Tidy sessionCommands := by
  have leaves (level : List CliCommand) (single : ∀ c ∈ level, c.children.isEmpty = true)
      (lower : ∀ c ∈ level, c.command.map Char.toLower = c.command) (apart : level.Pairwise Apart) : s.Tidy level := by
    refine level_tidy plain lower apart fun c member => ?_
    rw [List.isEmpty_iff.mp (single c member)]
    exact level_tidy plain (by simp) .nil (by simp)
  have below : ∀ c ∈ sessionCommands, (∀ d ∈ c.children, d.children.isEmpty = true) ∧
      (∀ d ∈ c.children, d.command.map Char.toLower = d.command) ∧ c.children.Pairwise Apart := by decide
  exact level_tidy plain (by decide) (by decide) fun c member =>
    leaves c.children (below c member).1 (below c member).2.1 (below c member).2.2

theorem validateStage_eq {s : Shell} (plain : s.Plain) (valid : s.validateStage type words = (s', answer)) :
    s' = s ∧ ∀ c argv, answer = .ok (c, argv) → s.Finds type sessionCommands words c argv := by
  rcases words with _ | ⟨word, words⟩
  · obtain ⟨rfl, rfl⟩ := Prod.mk.inj valid
    exact ⟨rfl, by simp⟩
  · have tidy := commands_tidy s plain
    have stays := locate_shell type plain tidy [] (word :: words)
    have finds := locate_iff s type sessionCommands plain tidy [] (word :: words)
    rw [Shell.validateStage] at valid
    rcases located : s.locate type [] (word :: words) sessionCommands with ⟨s1, found | text | _⟩
    all_goals
      rw [located] at valid stays
      obtain rfl : s1 = s := stays
      obtain ⟨rfl, rfl⟩ := Prod.mk.inj valid
      refine ⟨rfl, fun c argv ok => ?_⟩
      cases ok
    exact (finds _ _).mp located

theorem validateFilters_eq {s : Shell} (plain : s.Plain) (stages : List (List Text))
    (valid : s.validateFilters stages = (s', answer)) :
    s' = s ∧ ∀ filters, answer = .ok filters →
      ∀ stage ∈ stages, ∃ c argv, s.Finds .filter sessionCommands stage c argv := by
  induction stages generalizing s' answer with
  | nil =>
    obtain ⟨rfl, rfl⟩ := Prod.mk.inj valid
    exact ⟨rfl, by simp⟩
  | cons words rest ih =>
    rw [Shell.validateFilters] at valid
    rcases first : s.validateStage .filter words with ⟨s1, text | ⟨c, argv⟩⟩
    · obtain ⟨rfl, -⟩ := validateStage_eq plain first
      rw [first] at valid
      obtain ⟨rfl, rfl⟩ := Prod.mk.inj valid
      exact ⟨rfl, by simp⟩
    · obtain ⟨rfl, found⟩ := validateStage_eq plain first
      rw [first] at valid
      rcases others : s1.validateFilters rest with ⟨s2, filters⟩
      obtain ⟨rfl, later⟩ := ih others
      simp only [others] at valid
      split at valid
      · obtain ⟨rfl, rfl⟩ := Prod.mk.inj valid
        exact ⟨rfl, by simp⟩
      · split at valid
        · obtain ⟨rfl, rfl⟩ := Prod.mk.inj valid
          exact ⟨rfl, by simp⟩
        · obtain ⟨rfl, rfl⟩ := Prod.mk.inj valid
          refine ⟨rfl, fun built ok stage member => ?_⟩
          rcases filters with text | filters
          · cases ok
          · rcases List.mem_cons.mp member with rfl | behind
            · exact ⟨c, argv, found c argv rfl⟩
            · exact later filters rfl stage behind

theorem validate_eq {s : Shell} (plain : s.Plain) (stages : List (List Text)) (valid : s.validate stages = (s', answer)) :
    s' = s ∧ ∀ v, answer = .ok v → ∃ words rest, stages = words :: rest ∧
      s.Finds .regular sessionCommands words v.command v.argv ∧
      ∀ stage ∈ rest, ∃ c argv, s.Finds .filter sessionCommands stage c argv := by
  rcases stages with _ | ⟨words, rest⟩
  · obtain ⟨rfl, rfl⟩ := Prod.mk.inj valid
    exact ⟨rfl, by simp⟩
  · rw [Shell.validate] at valid
    rcases first : s.validateStage .regular words with ⟨s1, text | ⟨c, argv⟩⟩
    · obtain ⟨rfl, -⟩ := validateStage_eq plain first
      rw [first] at valid
      obtain ⟨rfl, rfl⟩ := Prod.mk.inj valid
      exact ⟨rfl, by simp⟩
    · obtain ⟨rfl, found⟩ := validateStage_eq plain first
      rw [first] at valid
      rcases others : s1.validateFilters rest with ⟨s2, filters⟩
      obtain ⟨rfl, later⟩ := validateFilters_eq plain rest others
      simp only [others] at valid
      obtain ⟨rfl, rfl⟩ := Prod.mk.inj valid
      refine ⟨rfl, fun v ok => ?_⟩
      rcases filters with text | filters
      · cases ok
      · cases ok
        exact ⟨words, rest, rfl, found c argv rfl, later filters rfl⟩

/-- What a line that is run changes, if anything. -/
theorem run_cases (plain : s.Plain) (ran : cliRunCommand regcomp meter s g sent line = some (rc, s', g', sent')) :
    s' = s ∧ g' = g ∨
      ∃ words rest c argv callback called, cliIntGeneratePipeline line = words :: rest ∧
        s.Finds .regular sessionCommands words c argv ∧
        (∀ stage ∈ rest, ∃ f args, s.Finds .filter sessionCommands stage f args) ∧
        c.callback = some callback ∧ callback.call meter argv s g = some called ∧
        rc = called.rc ∧ s' = called.shell ∧ g' = called.globals := by
  rw [cliRunCommand] at ran
  split at ran
  · cases ran
    exact .inl ⟨rfl, rfl⟩
  · rcases valid : s.validate (cliIntGeneratePipeline line) with ⟨s1, text | v⟩
    · obtain ⟨rfl, -⟩ := validate_eq plain _ valid
      rw [valid] at ran
      cases ran
      exact .inl ⟨rfl, rfl⟩
    · obtain ⟨rfl, named⟩ := validate_eq plain _ valid
      obtain ⟨words, rest, stages, finds, filters⟩ := named v rfl
      simp only [valid] at ran
      split at ran
      · cases ran
        exact .inl ⟨rfl, rfl⟩
      · split at ran
        · cases ran
          exact .inl ⟨rfl, rfl⟩
        · rename_i callback given
          obtain ⟨called, result, same⟩ := Option.map_eq_some_iff.mp ran
          cases same
          exact .inr ⟨words, rest, v.command, v.argv, callback, called, stages, finds, filters, given, result,
            rfl, rfl, rfl⟩

theorem run_keeps (plain : s.Plain) (ran : cliRunCommand regcomp meter s g sent line = some (rc, s', g', sent')) :
    s.Keeps s' := by
  rcases run_cases plain ran with ⟨rfl, -⟩ | ⟨_, _, _, _, callback, called, -, -, -, -, call, -, rfl, -⟩
  · exact .refl plain
  · exact call_keeps callback plain call

theorem validateStage_found {s : Shell} (plain : s.Plain) (finds : s.Finds type sessionCommands words c argv) :
    s.validateStage type words = (s, .ok (c, argv)) := by
  have located := (locate_iff s type sessionCommands plain (commands_tidy s plain) [] words c argv).mpr finds
  rcases words with _ | ⟨word, words⟩
  · cases finds
  · simp only [Shell.validateStage, located]

/-- A line changes the session and the server by nothing but the callback of the command that its
first stage names, with the words behind the name, and only if a filter is named behind every
pipe; every command that is named is one that the session offers. And when the filters can be built,
the callback that is named runs, and what it prints goes through them. -/
theorem line_runs (regcomp : Regcomp) (meter : Meter) (s : Shell) (g : Globals)
    (sent line : Text) (plain : s.Plain) :
    (∀ rc s' g' sent', cliRunCommand regcomp meter s g sent line = some (rc, s', g', sent') →
      s' = s ∧ g' = g ∨
        ∃ words rest c argv callback called, cliIntGeneratePipeline line = words :: rest ∧
          s.Finds .regular sessionCommands words c argv ∧
          (∀ stage ∈ rest, ∃ f args, s.Finds .filter sessionCommands stage f args) ∧
          c.callback = some callback ∧ callback.call meter argv s g = some called ∧
          rc = called.rc ∧ s' = called.shell ∧ g' = called.globals) ∧
    ∀ words rest c argv callback filters, cliIntGeneratePipeline line = words :: rest →
      s.Finds .regular sessionCommands words c argv → c.callback = some callback →
      s.validateFilters rest = (s, .ok filters) → (initFilters regcomp filters).2 = none →
      cliRunCommand regcomp meter s g sent line =
        (callback.call meter argv s g).map fun called =>
          (called.rc, called.shell, called.globals,
            (cliIntExecutePipeline regcomp (called.errors.foldl cliError ⟨[], [], sent⟩) filters called.texts).sent) := by
  refine ⟨fun rc s' g' sent' ran => run_cases plain ran, ?_⟩
  intro words rest c argv callback filters stages finds given built ready
  have filled : ¬words :: rest = [[]] := by
    rintro same
    obtain ⟨rfl, -⟩ := List.cons.inj same
    cases finds
  have valid : s.validate (words :: rest) = (s, .ok ⟨c, argv, filters⟩) := by
    simp only [Shell.validate, validateStage_found plain finds, built]
    rfl
  simp only [cliRunCommand, stages, if_neg filled, valid, ready, Option.isSome_none, Bool.false_eq_true, if_false,
    given]

/-- What `run_child` has set up when `cli_loop` starts. -/
def Shell.init : Shell := ⟨CliDef.init, .login, PRIVILEGE_UNPRIVILEGED, "> ".toList, some "cli".toList, []⟩

/-- `ENA`, typed at the first prompt. -/
theorem line_runs_ena :
    cliRunCommand (fun _ _ _ => none) .stopped { Shell.init with state := .normal } ⟨⟨.init, []⟩, .zero, 0⟩ []
        "ENA".toList =
      some (CLI_OK, { Shell.init with state := .enablePassword }, ⟨⟨.init, []⟩, .zero, 0⟩, []) := by
  have word : Typed ('E' :: "NA".toList ++ []) ["ENA".toList] :=
    .word rfl (by decide) (.char rfl (by decide) (.char rfl (by decide) .nil)) (by simp) .nil
  have typed : Typed "ENA".toList ["ENA".toList] := word
  have stages : cliIntGeneratePipeline "ENA".toList = [["ENA".toList]] := by
    have dark : "ENA".toList.dropWhile isSpace = "ENA".toList := rfl
    rw [pipeline_split, dark, words_read_back typed]
    rfl
  have finds : ({ Shell.init with state := .normal } : Shell).Finds .regular sessionCommands ["ENA".toList]
      (regularCommand "enable" (some .enable) PRIVILEGE_UNPRIVILEGED (some MODE_EXEC) "Turn on privileged commands" [])
      [] :=
    .leaf ⟨by simp [sessionCommands, builtinCommands], rfl, by decide, .inr ⟨by decide, by decide, by decide⟩⟩ rfl rfl
  exact (line_runs _ _ { Shell.init with state := .normal } _ [] _ (Nat.zero_le _)).2
    _ [] _ [] .enable [] stages finds rfl rfl rfl

/-- `show ip_stat|count` with one account: its line, and one for each of its two rates. -/
example : (cliRunCommand (fun _ _ _ => none) .stopped { Shell.init with state := .normal }
      ⟨⟨{ Server.init with stats := ⟨[⟨0x0100007f, ⟨1, 100, 0, 0, 0⟩, .zero⟩], 1⟩ }, []⟩, .zero, 0⟩ []
      "show ip_stat|count".toList).map (fun ran => ran.2.2.2) = some "3\r\n".toList := by decide +kernel

end WlanBridge
