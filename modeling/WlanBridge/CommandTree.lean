import WlanBridge.Print

/-! The tree of commands and how the words of a stage find one in it. Build mode is left
out: no command of the server allows it. -/
namespace WlanBridge

inductive CliState where
  | login
  | password
  | normal
  | enablePassword
  | enable
  deriving DecidableEq, Repr

/-- What a session of libcli keeps between two lines, besides the history's bound. -/
structure Shell where
  cli : CliDef
  state : CliState
  privilege : Nat
  promptchar : Text
  hostname : Option Text
  history : List Text
  deriving DecidableEq, Repr

def PRIVILEGE_UNPRIVILEGED : Nat := 0

def PRIVILEGE_PRIVILEGED : Nat := 15

def MODE_CONFIG_INT : Nat := 10

def Shell.cliSetConfigmode (s : Shell) (mode : Nat) : Shell := { s with cli := WlanBridge.cliSetConfigmode s.cli mode }

def Shell.cliSetPrivilege (s : Shell) (priv : Nat) : Shell :=
  if priv ≠ s.privilege then
    { s with privilege := priv, promptchar := if priv = PRIVILEGE_PRIVILEGED then "# ".toList else "> ".toList }
  else s

inductive CommandType where
  | regular
  | filter
  deriving DecidableEq, Repr

/-- The handlers of the commands; those of `run_child` go by the place of their registration. -/
inductive Callback where
  | help
  | quit
  | exit
  | history
  | enable
  | disable
  | configureTerminal
  | server (command : Command)
  deriving DecidableEq, Repr

/-- `struct cli_command`; `mode` is `none` for `MODE_ANY`. -/
inductive CliCommand where
  | mk (command : Text) (commandType : CommandType) (privilege : Nat) (mode : Option Nat)
      (callback : Option Callback) (filter : Option FilterCommand) (help : Text) (children : List CliCommand)

namespace CliCommand

def command : CliCommand → Text | mk c _ _ _ _ _ _ _ => c

def commandType : CliCommand → CommandType | mk _ t _ _ _ _ _ _ => t

def privilege : CliCommand → Nat | mk _ _ p _ _ _ _ _ => p

def mode : CliCommand → Option Nat | mk _ _ _ m _ _ _ _ => m

def callback : CliCommand → Option Callback | mk _ _ _ _ c _ _ _ => c

def filter : CliCommand → Option FilterCommand | mk _ _ _ _ _ f _ _ => f

def help : CliCommand → Text | mk _ _ _ _ _ _ h _ => h

def children : CliCommand → List CliCommand | mk _ _ _ _ _ _ _ c => c

end CliCommand

/-- `!strncasecmp(a, b, n)`. -/
def strncasecmp (a b : Text) (n : Nat) : Bool := (a.take n).map Char.toLower == (b.take n).map Char.toLower

/-- How many characters two names share, as `cli_build_shortest` counts them. -/
def sharedLen : Text → Text → Nat
  | c :: cp, p :: pp => if c = p then sharedLen cp pp + 1 else 0
  | _, _ => 0

def Shell.Offers (s : Shell) (c : CliCommand) : Prop :=
  (c.mode = none ∨ c.mode = some s.cli.mode) ∧ c.privilege ≤ s.privilege

instance (s : Shell) (c : CliCommand) : Decidable (s.Offers c) := inferInstanceAs (Decidable (_ ∧ _))

/-- `cli_build_shortest` for one command among the others of its level. It runs whenever the mode or
the privilege changes, so `unique_len` always has this value. -/
def uniqueLen (s : Shell) (others : List CliCommand) (c : CliCommand) : Nat :=
  if s.Offers c then
    ((others.filter fun p => c.commandType = p.commandType ∧ s.Offers p).map
      fun p => 1 + sharedLen c.command p.command).foldl max 1
  else c.command.length

/-- The checks of `cli_int_locate_command` before the mode is looked at. -/
def Shell.fits (s : Shell) (type : CommandType) (others : List CliCommand) (word : Text) (c : CliCommand) : Bool :=
  c.commandType = type && decide (c.privilege ≤ s.privilege) &&
    strncasecmp c.command word (uniqueLen s others c) && abbreviates word c.command

/-- The loop of `cli_int_locate_command` over a level, from one index on: the command to take, and
whether the session has to drop to the mode `MODE_CONFIG` for it. -/
def Shell.locateLoop (s : Shell) (type : CommandType) (commands : List CliCommand) (word : Text) :
    List (CliCommand × Nat) → Option CliCommand → Option CliCommand → Option (Bool × CliCommand)
  | [], againConfig, againAny =>
    match againConfig with
    | some c => some (true, c)
    | none => againAny.map fun c => (false, c)
  | (c, i) :: rest, againConfig, againAny =>
    if ¬s.fits type (commands.eraseIdx i) word c then s.locateLoop type commands word rest againConfig againAny
    else if c.mode = some s.cli.mode ∨ (c.mode = none ∧ againAny.isSome) then some (false, c)
    else if s.cli.mode > MODE_CONFIG ∧ c.mode = some MODE_CONFIG then
      s.locateLoop type commands word rest (some c) againAny
    else if c.mode = none then s.locateLoop type commands word rest againConfig (some c)
    else s.locateLoop type commands word rest againConfig againAny

/-- A command with the words behind it, `CLI_ERROR` with its text, or `CLI_ERROR_ARG`. -/
inductive Located where
  | found (c : CliCommand) (unmatched : List Text)
  | error (text : Text)
  | errorArg

def CliCommand.itself (c : CliCommand) (runs : Bool) (words : List Text) (text : Text) : Located :=
  if runs then .found c words else .error text

def Located.orElse (located other : Located) : Located :=
  match located with
  | .errorArg => other
  | located => located

/-- `cli_int_locate_command`; `path` is the name of the command that the level belongs to. -/
def Shell.locate (s : Shell) (type : CommandType) (path : Text) : List Text → List CliCommand → Shell × Located
  | [], _ => (s, .errorArg)
  | word :: words, commands =>
    match s.locateLoop type commands word commands.zipIdx none none with
    | none => (s, .errorArg)
    | some (drops, c) =>
      let s := if drops then s.cliSetConfigmode MODE_CONFIG else s
      let name := path ++ c.command
      if c.children.isEmpty then
        (s, c.itself (c.callback.isSome || c.filter.isSome) words ("No callback for \"".toList ++ name ++ ['"']))
      else
        match words with
        | [] => (s, c.itself c.callback.isSome [] "Incomplete command".toList)
        | next :: rest =>
          let (s, located) := s.locate type (name ++ [' ']) (next :: rest) c.children
          (s, located.orElse (c.itself c.callback.isSome (next :: rest)
            ("Invalid command \"".toList ++ name ++ [' '] ++ next ++ ['"'])))

/-- A word names an offered command of the level: by its full name, or by the start of it when no
other offered command starts so. -/
def Shell.Denotes (s : Shell) (type : CommandType) (commands : List CliCommand) (word : Text) (c : CliCommand) : Prop :=
  c ∈ commands ∧ c.commandType = type ∧ s.Offers c ∧
    (word.map Char.toLower = c.command ∨ word ≠ [] ∧ abbreviates word c.command = true ∧
      ∀ d ∈ commands, d.commandType = type → s.Offers d → abbreviates word d.command = true → d.command = c.command)

/-- Words name a command level by level, and the rest are its arguments. -/
inductive Shell.Finds (s : Shell) (type : CommandType) : List CliCommand → List Text → CliCommand → List Text → Prop
  | leaf : s.Denotes type commands word c → c.children = [] → (c.callback.isSome || c.filter.isSome) = true →
      s.Finds type commands (word :: words) c words
  | under : s.Denotes type commands word p → p.children ≠ [] → s.Finds type p.children words c rest →
      s.Finds type commands (word :: words) c rest
  | group : s.Denotes type commands word p → p.children ≠ [] → p.callback.isSome = true →
      (∀ next ∈ words.head?, ∀ d, ¬s.Denotes type p.children next d) →
      s.Finds type commands (word :: words) p words

def Shell.Distinct (s : Shell) (c d : CliCommand) : Prop :=
  c.commandType = d.commandType → s.Offers c → s.Offers d → c.command ≠ d.command

/-- On every level, names are in lower case, and no two offered commands of one kind share theirs. -/
inductive Shell.Tidy (s : Shell) : List CliCommand → Prop
  | mk : (∀ c ∈ commands, c.command.map Char.toLower = c.command) →
      commands.Pairwise s.Distinct → (∀ c ∈ commands, s.Tidy c.children) → s.Tidy commands

theorem sharedLen_le_iff (word : Text) (long : word <+: a) : word.length ≤ sharedLen a b ↔ word <+: b := by
  induction a generalizing word b with
  | nil =>
    obtain rfl := List.prefix_nil.mp long
    simp
  | cons c a ih =>
    rcases word with _ | ⟨w, word⟩
    · simp
    obtain ⟨rfl, tail⟩ := List.cons_prefix_cons.mp long
    rcases b with _ | ⟨d, b⟩
    · simp [sharedLen]
    · by_cases same : w = d
      · subst same
        simp [sharedLen, List.cons_prefix_cons, ih word tail]
      · simp [sharedLen, List.cons_prefix_cons, same]

theorem foldl_max_le (lens : List Nat) (least bound : Nat) :
    lens.foldl max least ≤ bound ↔ least ≤ bound ∧ ∀ len ∈ lens, len ≤ bound := by
  induction lens generalizing least with
  | nil => simp
  | cons len lens ih => simp [ih, and_assoc]

/-- An offered command's shortest abbreviation is as long as the word if no other offered
command of its kind starts with the word. -/
theorem uniqueLen_le (others : List CliCommand) (offered : s.Offers c) (word : Text) (long : word <+: c.command) :
    uniqueLen s others c ≤ word.length ↔
      word ≠ [] ∧ ∀ d ∈ others, d.commandType = c.commandType → s.Offers d → ¬word <+: d.command := by
  rw [uniqueLen, if_pos offered, foldl_max_le]
  refine and_congr ?_ ?_
  · rcases word with _ | ⟨w, word⟩ <;> simp
  · simp only [List.mem_map, List.mem_filter, decide_eq_true_eq, forall_exists_index, and_imp]
    constructor
    · intro short d member kind offers starts
      have len := short _ d member kind.symm offers rfl
      have shared := (sharedLen_le_iff word long).mpr starts
      omega
    · rintro alone _ d member kind offers rfl
      have shared := (sharedLen_le_iff word long).not.mpr (alone d member kind.symm offers)
      omega

theorem take_eq_take_iff (long : word <+: name) (n : Nat) :
    name.take n = word.take n ↔ n ≤ word.length ∨ word = name := by
  obtain ⟨rest, rfl⟩ := long
  rcases Nat.lt_or_ge word.length n with behind | inside
  · rw [List.take_of_length_le (l := word) (by omega), List.take_append, List.take_of_length_le (by omega)]
    rcases rest with _ | ⟨r, rest⟩
    · simp
    · have : n - word.length ≠ 0 := by omega
      simp [Nat.not_le.mpr behind, this]
  · simp [List.take_append_of_le_length inside, inside]

section Resolution
variable {s : Shell} {type : CommandType} {c d : CliCommand} {i j : Nat} {commands others : List CliCommand}

theorem abbreviates_iff (lower : c.command.map Char.toLower = c.command) (word : Text) :
    abbreviates word c.command = true ↔ word.map Char.toLower <+: c.command := by
  rw [abbreviates, lower, List.isPrefixOf_iff_prefix]

theorem fits_iff (offered : s.Offers c) (lower : c.command.map Char.toLower = c.command)
    (others_lower : ∀ d ∈ others, d.command.map Char.toLower = d.command) (word : Text) :
    s.fits type others word c = true ↔
      c.commandType = type ∧ (word.map Char.toLower = c.command ∨
        abbreviates word c.command = true ∧ word ≠ [] ∧
          ∀ d ∈ others, d.commandType = type → s.Offers d → ¬abbreviates word d.command = true) := by
  by_cases starts : abbreviates word c.command = true
  · have long := (abbreviates_iff lower word).mp starts
    have taken (n : Nat) : (word.take n).map Char.toLower = (word.map Char.toLower).take n := List.map_take
    have short := uniqueLen_le others offered _ long
    simp only [Shell.fits, starts, offered.2, decide_true, Bool.and_true, Bool.and_eq_true, decide_eq_true_eq,
      strncasecmp, List.map_take, lower, beq_iff_eq, take_eq_take_iff long, short, true_and]
    refine and_congr_right fun kind => ?_
    rw [or_comm]
    refine or_congr_right (and_congr (by simp) ?_)
    refine forall₂_congr fun d member => ?_
    rw [kind, abbreviates_iff (others_lower d member)]
  · have other : ¬word.map Char.toLower = c.command := by
      intro full
      exact starts ((abbreviates_iff lower word).mpr (full ▸ List.prefix_rfl))
    simp [Shell.fits, starts, other]

def Shell.Takes (s : Shell) (type : CommandType) (commands : List CliCommand) (word : Text) (x : CliCommand × Nat) :
    Prop :=
  s.fits type (commands.eraseIdx x.2) word x.1 = true ∧ (x.1.mode = none ∨ x.1.mode = some s.cli.mode)

theorem loop_skip (plain : s.cli.mode ≤ MODE_CONFIG) (pre post : List (CliCommand × Nat)) (again : Option CliCommand)
    (none_taken : ∀ x ∈ pre, ¬s.Takes type commands word x) :
    s.locateLoop type commands word (pre ++ post) none again = s.locateLoop type commands word post none again := by
  induction pre with
  | nil => rfl
  | cons x pre ih =>
    obtain ⟨c, i⟩ := x
    rw [List.cons_append, Shell.locateLoop]
    by_cases fit : s.fits type (commands.eraseIdx i) word c = true
    · have other : ¬(c.mode = none ∨ c.mode = some s.cli.mode) := fun mode => none_taken (c, i) (by simp) ⟨fit, mode⟩
      rw [not_or] at other
      simp only [fit, not_true_eq_false, if_false, other, false_and, or_false, Nat.not_lt.mpr plain]
      exact ih fun x member => none_taken x (List.mem_cons_of_mem _ member)
    · rw [if_pos fit]
      exact ih fun x member => none_taken x (List.mem_cons_of_mem _ member)

theorem loop_takes (plain : s.cli.mode ≤ MODE_CONFIG)
    (once : ∀ pre x post, commands.zipIdx = pre ++ x :: post → s.Takes type commands word x →
      ∀ y ∈ pre ++ post, ¬s.Takes type commands word y) :
    s.locateLoop type commands word commands.zipIdx none none = some (drops, c) ↔
      drops = false ∧ ∃ i, (c, i) ∈ commands.zipIdx ∧ s.Takes type commands word (c, i) := by
  by_cases some_taken : ∃ x ∈ commands.zipIdx, s.Takes type commands word x
  · obtain ⟨⟨d, i⟩, member, takes⟩ := some_taken
    obtain ⟨pre, post, split⟩ := List.append_of_mem member
    have others := once pre (d, i) post split takes
    have result : s.locateLoop type commands word commands.zipIdx none none = some (false, d) := by
      rw [split, loop_skip plain pre _ _ fun y member => others y (List.mem_append_left _ member), Shell.locateLoop]
      rcases takes with ⟨fit, mode | mode⟩
      · have rest := loop_skip plain post [] (some d) fun y member => others y (List.mem_append_right _ member)
        rw [List.append_nil] at rest
        simp [fit, mode, rest, Shell.locateLoop]
      · simp [fit, mode]
    rw [result]
    constructor
    · rintro ⟨rfl, rfl⟩
      exact ⟨rfl, i, member, takes⟩
    · rintro ⟨rfl, j, other, takes'⟩
      rw [split] at other
      rcases List.mem_append.mp other with before | same | behind
      · exact absurd takes' (others _ (List.mem_append_left _ before))
      · rfl
      · rename_i behind
        exact absurd takes' (others _ (List.mem_append_right _ behind))
  · have skipped : s.locateLoop type commands word (commands.zipIdx ++ []) none none =
        s.locateLoop type commands word [] none none :=
      loop_skip plain commands.zipIdx [] none fun x member takes => some_taken ⟨x, member, takes⟩
    rw [List.append_nil] at skipped
    rw [skipped]
    constructor
    · intro found
      simp [Shell.locateLoop] at found
    · rintro ⟨-, i, member, takes⟩
      exact absurd ⟨(c, i), member, takes⟩ some_taken

theorem distinct_of_ne (distinct : commands.Pairwise s.Distinct) (one : commands[i]? = some c)
    (two : commands[j]? = some d) (apart : i ≠ j) : s.Distinct c d := by
  obtain ⟨insideI, rfl⟩ := List.getElem?_eq_some_iff.mp one
  obtain ⟨insideJ, rfl⟩ := List.getElem?_eq_some_iff.mp two
  rw [List.pairwise_iff_getElem] at distinct
  rcases Nat.lt_or_gt_of_ne apart with before | behind
  · exact distinct i j insideI insideJ before
  · exact fun kind offersI offersJ => (distinct j i insideJ insideI behind kind.symm offersJ offersI).symm

theorem denotes_unique (lower : ∀ c ∈ commands, c.command.map Char.toLower = c.command)
    (one : s.Denotes type commands word c) (two : s.Denotes type commands word d) : c.command = d.command := by
  obtain ⟨memberC, typeC, offersC, nameC⟩ := one
  obtain ⟨memberD, typeD, offersD, nameD⟩ := two
  rcases nameC with fullC | ⟨-, startC, aloneC⟩
  · rcases nameD with fullD | ⟨-, startD, aloneD⟩
    · exact fullC.symm.trans fullD
    · exact aloneD c memberC typeC offersC ((abbreviates_iff (lower c memberC) word).mpr (fullC ▸ List.prefix_rfl))
  · rcases nameD with fullD | ⟨-, startD, -⟩
    · exact (aloneC d memberD typeD offersD
        ((abbreviates_iff (lower d memberD) word).mpr (fullD ▸ List.prefix_rfl))).symm
    · exact (aloneC d memberD typeD offersD startD).symm

theorem takes_iff (lower : ∀ c ∈ commands, c.command.map Char.toLower = c.command)
    (distinct : commands.Pairwise s.Distinct) (at_ : commands[i]? = some c) (word : Text) :
    s.Takes type commands word (c, i) ↔ s.Denotes type commands word c := by
  have member : c ∈ commands := List.mem_of_getElem? at_
  have others_lower : ∀ d ∈ commands.eraseIdx i, d.command.map Char.toLower = d.command :=
    fun d inside => lower d (List.mem_of_mem_eraseIdx inside)
  by_cases offered : s.Offers c
  · have mode := offered.1
    simp only [Shell.Takes, Shell.Denotes, fits_iff offered (lower c member) others_lower, mode, member, offered,
      and_true, true_and]
    refine and_congr_right fun kind => or_congr_right ⟨?_, ?_⟩
    · rintro ⟨start, filled, alone⟩
      refine ⟨filled, start, fun d memberD kindD offersD startD => ?_⟩
      obtain ⟨j, atJ⟩ := List.getElem?_of_mem memberD
      by_cases same : j = i
      · subst same
        rw [Option.some.inj (atJ.symm.trans at_)]
      · exact absurd startD (alone d (List.mem_eraseIdx_iff_getElem?.mpr ⟨j, same, atJ⟩) kindD offersD)
    · rintro ⟨filled, start, alone⟩
      refine ⟨start, filled, fun d memberD kindD offersD startD => ?_⟩
      obtain ⟨j, apart, atJ⟩ := List.mem_eraseIdx_iff_getElem?.mp memberD
      exact distinct_of_ne distinct atJ at_ apart (kindD.trans kind.symm) offersD offered
        (alone d (List.mem_of_getElem? atJ) kindD offersD startD)
  · constructor
    · rintro ⟨fit, mode⟩
      simp only [Shell.fits, Bool.and_eq_true, decide_eq_true_eq] at fit
      exact absurd ⟨mode, fit.1.1.2⟩ offered
    · rintro ⟨-, -, offers, -⟩
      exact absurd offers offered

theorem locateLoop_iff (plain : s.cli.mode ≤ MODE_CONFIG)
    (lower : ∀ c ∈ commands, c.command.map Char.toLower = c.command) (distinct : commands.Pairwise s.Distinct)
    (word : Text) :
    s.locateLoop type commands word commands.zipIdx none none = some (drops, c) ↔
      drops = false ∧ s.Denotes type commands word c := by
  have at_ {d j} (member : (d, j) ∈ commands.zipIdx) : commands[j]? = some d :=
    List.mem_zipIdx_iff_getElem?.mp member
  rw [loop_takes plain]
  · refine and_congr_right fun _ => ⟨?_, ?_⟩
    · rintro ⟨i, member, takes⟩
      exact (takes_iff lower distinct (at_ member) word).mp takes
    · intro denotes
      obtain ⟨i, found⟩ := List.getElem?_of_mem denotes.1
      exact ⟨i, List.mem_zipIdx_iff_getElem?.mpr found, (takes_iff lower distinct found word).mpr denotes⟩
  · rintro pre ⟨c, i⟩ post split takes ⟨d, j⟩ member takes'
    have one := at_ (d := c) (j := i) (by rw [split]; simp)
    have two := at_ (d := d) (j := j) (by
      rw [split, List.mem_append, List.mem_cons]
      rcases List.mem_append.mp member with before | behind
      · exact .inl before
      · exact .inr (.inr behind))
    have apart : i ≠ j := by
      have nodup : (commands.zipIdx.map Prod.snd).Nodup := by
        rw [List.zipIdx_map_snd]
        exact List.nodup_range'
      rw [split, List.map_append, List.map_cons, List.nodup_middle, List.nodup_cons, ← List.map_append] at nodup
      rintro rfl
      exact nodup.1 (List.mem_map.mpr ⟨(d, i), member, rfl⟩)
    have denotes := (takes_iff lower distinct one word).mp takes
    have denotes' := (takes_iff lower distinct two word).mp takes'
    exact distinct_of_ne distinct one two apart (denotes.2.1.trans denotes'.2.1.symm) denotes.2.2.1 denotes'.2.2.1
      (denotes_unique lower denotes denotes')

theorem locateLoop_none (plain : s.cli.mode ≤ MODE_CONFIG)
    (lower : ∀ c ∈ commands, c.command.map Char.toLower = c.command) (distinct : commands.Pairwise s.Distinct)
    (word : Text) :
    s.locateLoop type commands word commands.zipIdx none none = none ↔ ∀ c, ¬s.Denotes type commands word c := by
  rw [Option.eq_none_iff_forall_ne_some]
  constructor
  · intro none c denotes
    exact none (false, c) ((locateLoop_iff plain lower distinct word).mpr ⟨rfl, denotes⟩)
  · rintro none ⟨drops, c⟩ found
    exact none c ((locateLoop_iff plain lower distinct word).mp found).2

theorem denotes_same (distinct : commands.Pairwise s.Distinct)
    (lower : ∀ c ∈ commands, c.command.map Char.toLower = c.command)
    (one : s.Denotes type commands word c) (two : s.Denotes type commands word d) : c = d := by
  obtain ⟨i, atI⟩ := List.getElem?_of_mem one.1
  obtain ⟨j, atJ⟩ := List.getElem?_of_mem two.1
  by_cases same : i = j
  · subst same
    exact Option.some.inj (atI.symm.trans atJ)
  · exact absurd (denotes_unique lower one two)
      (distinct_of_ne distinct atI atJ same (one.2.1.trans two.2.1.symm) one.2.2.1 two.2.2.1)

end Resolution

@[simp] theorem itself_found (p c : CliCommand) (runs : Bool) (words rest : List Text) (text : Text) :
    p.itself runs words text = .found c rest ↔ runs = true ∧ c = p ∧ rest = words := by
  cases runs <;> simp [CliCommand.itself, eq_comm]

@[simp] theorem itself_errorArg (p : CliCommand) (runs : Bool) (words : List Text) (text : Text) :
    p.itself runs words text ≠ .errorArg := by
  cases runs <;> simp [CliCommand.itself]

theorem orElse_errorArg (located : Located) (other : answer ≠ .errorArg) : located.orElse answer ≠ .errorArg := by
  cases located <;> simp [Located.orElse, other]

theorem finds_iff {s : Shell} (lower : ∀ c ∈ commands, c.command.map Char.toLower = c.command)
    (distinct : commands.Pairwise s.Distinct) (denotes : s.Denotes type commands word p) (c : CliCommand)
    (words rest : List Text) :
    s.Finds type commands (word :: words) c rest ↔
      p.children = [] ∧ (p.callback.isSome || p.filter.isSome) = true ∧ c = p ∧ rest = words ∨
      p.children ≠ [] ∧ (s.Finds type p.children words c rest ∨
        (∀ next ∈ words.head?, ∀ d, ¬s.Denotes type p.children next d) ∧
          p.callback.isSome = true ∧ c = p ∧ rest = words) := by
  constructor
  · intro finds
    cases finds with
    | leaf named single action =>
      obtain rfl := denotes_same distinct lower denotes named
      exact .inl ⟨single, action, rfl, rfl⟩
    | under named parent finds =>
      obtain rfl := denotes_same distinct lower denotes named
      exact .inr ⟨parent, .inl finds⟩
    | group named parent callback below =>
      obtain rfl := denotes_same distinct lower denotes named
      exact .inr ⟨parent, .inr ⟨below, callback, rfl, rfl⟩⟩
  · rintro (⟨single, action, rfl, rfl⟩ | ⟨parent, finds | ⟨below, callback, rfl, rfl⟩⟩)
    · exact .leaf denotes single action
    · exact .under denotes parent finds
    · exact .group denotes parent callback below

theorem locate_errorArg {s : Shell} (type : CommandType) (plain : s.cli.mode ≤ MODE_CONFIG)
    (lower : ∀ c ∈ commands, c.command.map Char.toLower = c.command) (distinct : commands.Pairwise s.Distinct)
    (path word : Text) (words : List Text) :
    (s.locate type path (word :: words) commands).2 = .errorArg ↔ ∀ c, ¬s.Denotes type commands word c := by
  rw [← locateLoop_none plain lower distinct, Shell.locate]
  rcases loop : s.locateLoop type commands word commands.zipIdx none none with _ | ⟨drops, p⟩
  · simp
  · simp only [reduceCtorEq, iff_false]
    split
    · exact itself_errorArg _ _ _ _
    · rcases words with _ | ⟨next, words⟩
      · exact itself_errorArg _ _ _ _
      · exact orElse_errorArg _ (itself_errorArg _ _ _ _)

theorem locate_shell {s : Shell} (type : CommandType) (plain : s.cli.mode ≤ MODE_CONFIG) (tidy : s.Tidy commands) (path : Text)
    (words : List Text) : (s.locate type path words commands).1 = s := by
  induction words generalizing path commands with
  | nil => rfl
  | cons word words ih =>
    obtain ⟨lower, distinct, below⟩ := tidy
    rw [Shell.locate]
    rcases loop : s.locateLoop type commands word commands.zipIdx none none with _ | ⟨drops, p⟩
    · rfl
    · obtain ⟨rfl, denotes⟩ := (locateLoop_iff plain lower distinct word).mp loop
      simp only [Bool.false_eq_true, if_false]
      split
      · rfl
      · rcases words with _ | ⟨next, words⟩
        · rfl
        · exact ih (below p denotes.1) _

/-- In the modes of the server's sessions, `cli_int_locate_command` finds the command that the words
name, every part of which the session offers, and finds nothing else. -/
theorem locate_iff (s : Shell) (type : CommandType) (commands : List CliCommand) (plain : s.cli.mode ≤ MODE_CONFIG)
    (tidy : s.Tidy commands) (path : Text) (words : List Text) (c : CliCommand) (rest : List Text) :
    s.locate type path words commands = (s, .found c rest) ↔ s.Finds type commands words c rest := by
  have stays : s.locate type path words commands = (s, .found c rest) ↔
      (s.locate type path words commands).2 = .found c rest := by
    rw [Prod.ext_iff, locate_shell type plain tidy]
    exact and_iff_right rfl
  rw [stays]
  clear stays
  induction words generalizing path commands with
  | nil =>
    constructor
    · intro found
      cases found
    · intro finds
      cases finds
  | cons word words ih =>
    obtain ⟨lower, distinct, below⟩ := tidy
    rcases loop : s.locateLoop type commands word commands.zipIdx none none with _ | ⟨drops, p⟩
    · have nothing := (locateLoop_none plain lower distinct word).mp loop
      rw [Shell.locate, loop]
      constructor
      · intro found
        cases found
      · intro finds
        cases finds with
        | leaf denotes => exact absurd denotes (nothing _)
        | under denotes => exact absurd denotes (nothing _)
        | group denotes => exact absurd denotes (nothing _)
    · obtain ⟨rfl, denotes⟩ := (locateLoop_iff plain lower distinct word).mp loop
      rw [finds_iff lower distinct denotes, Shell.locate, loop]
      by_cases single : p.children = []
      · simp [single]
      · have parent : p.children.isEmpty = false := by simp [single]
        simp only [parent, Bool.false_eq_true, if_false, single, false_and, false_or, ne_eq, not_false_eq_true,
          true_and]
        rcases words with _ | ⟨next, words⟩
        · have nothing : ¬s.Finds type p.children [] c rest := by
            intro finds
            cases finds
          simp only [itself_found, nothing, List.head?_nil, Option.mem_def, reduceCtorEq, false_implies,
            implies_true, true_and, false_or]
        · have tidyP := below p denotes.1
          obtain ⟨lowerP, distinctP, belowP⟩ := tidyP
          have arg := locate_errorArg type plain lowerP distinctP (path ++ p.command ++ [' ']) next words
          have inner := ih p.children (below p denotes.1) (path ++ p.command ++ [' '])
          simp only [List.head?_cons, Option.mem_def, Option.some.injEq, forall_eq', ← arg, ← inner]
          cases (s.locate type (path ++ p.command ++ [' ']) (next :: words) p.children).2 <;>
            simp [Located.orElse]

end WlanBridge
