import WlanBridge.RunCommand

/-! `cli_get_completions`: what a tabulator completes and a question mark explains, from the
commands of a session and the options of its filters. -/
namespace WlanBridge

def CTRL (c : Char) : Char := Char.ofNat (c.toNat - '@'.toNat)

/-- The entries of `struct cli_comphelp`, or none when `num_entries` is -1; what
`cli_get_completions` prints on its way, and whether it calls `cli_reprompt`. -/
structure CompHelp where
  commaSeparated : Bool
  entries : Option (List Text)
  said : Text
  reprompt : Bool
  deriving DecidableEq, Repr

def CompHelp.of (entries : List Text) : CompHelp := ⟨false, some entries, [], false⟩

/-- The stage has a status, and `cli_error` has told why. -/
def CompHelp.failed (text : Text) : CompHelp := ⟨false, some [], (cliError ⟨[], [], []⟩ text).sent, true⟩

def MAXWIDTHCOL1 : Nat := 22

def availwidth : Nat := 80 - MAXWIDTHCOL1 - 1

/-- Where the help is cut: at the last white space that leaves the line short enough, if there is
one, and at the end of a line of its own. -/
def toprint (help : Text) : Nat :=
  let fits :=
    if help.length > availwidth then
      let upTo := ((help.take (availwidth + 1)).rdropWhile fun c => !isSpace c).length
      if upTo = 0 then availwidth else upTo - 1
    else help.length
  min fits (help.takeWhile fun c => c ≠ '\n' && c ≠ '\r').length

/-- The loop of `cli_int_wrap_help_line`, which makes the help shorter in every turn. -/
def wrapLoop : Nat → Text → Text → List Text
  | 0, _, _ => []
  | fuel + 1, name, help =>
    let line := padRight MAXWIDTHCOL1 name ++ [' '] ++ help.take (toprint help)
    let rest := (help.drop (toprint help)).dropWhile isSpace
    line :: if rest = [] then [] else wrapLoop fuel [] rest

def cliIntWrapHelpLine (name help : Text) : List Text :=
  if name.length > MAXWIDTHCOL1 then name :: wrapLoop (help.length + 1) [] help
  else wrapLoop (help.length + 1) name help

def CliCommand.comphelp (lastchar : Char) (c : CliCommand) : List Text :=
  if lastchar = '?' then cliIntWrapHelpLine ("  ".toList ++ c.command) c.help else [c.command]

/-- `cli_get_optarg_comphelp`, for the options and arguments of the filters. -/
def Optarg.comphelp (lastchar : Char) (found : List (Text × Text)) (word : Option Text) (optarg : Optarg) : List Text :=
  if found.any fun pair => pair.1 = optarg.name then []
  else
    let tname :=
      if optarg.hyphenated then '[' :: optarg.name ++ [']']
      else if optarg.argument then '<' :: optarg.name ++ ['>']
      else optarg.name
    if lastchar = '?' then cliIntWrapHelpLine ("  ".toList ++ tname) optarg.help
    else if word.all fun word => word.isPrefixOf optarg.name then [tname]
    else []

/-- `cli_int_parse_optargs` for a line that is being typed; `last` is its last word, null behind a
blank. There is no result when `join_words` takes the length of the null word, which crashes the
process. -/
def completeOptargs (lastchar : Char) (command : Text) (last : Option Text) :
    List Optarg → List (Text × Text) → List Text → Option CompHelp
  | [], _, _ => some (.of [])
  | optarg :: optargs, found, [] =>
    -- A null word is a candidate for what an empty one is.
    some (.of ((candidates (last.getD []) [] (optarg :: optargs)).flatMap (Optarg.comphelp lastchar found last)))
  | optarg :: optargs, found, word :: rest =>
    match candidates word [] (optarg :: optargs) with
    | [] => some (.of [])
    | [open_] =>
      if open_.validator.all fun valid => valid word then
        if open_.remainder ∧ last = none then none
        else
          let value := if open_.remainder then joinWords (word :: rest ++ last.toList) else word
          let later := if open_.argument then optargsAfter open_.name (optarg :: optargs) else optarg :: optargs
          completeOptargs lastchar command last later (setOptargValue found open_.name value) rest
      else some (.failed ("\nProblem parsing command setting ".toList ++ open_.name ++ " with value ".toList ++ word))
    | _ => some (.failed ("\nAmbiguous option/argument for command ".toList ++ command))

/-- The words of the last stage, with the one that is being typed apart. In front of the words of an
empty stage there is something, be it only the `cmdline` of the pipeline. -/
def typedWords (command : Text) : List Text × Option Text :=
  let words := (cliIntGeneratePipeline command).getLastD []
  if words = [] ∨ command.getLast? = some ' ' then (words, none) else (words.dropLast, words.getLast?)

namespace Shell
variable (s : Shell) (type : CommandType)

/-- What a word has to do with a command before its place in the line is looked at. -/
def starts (word : Option Text) (c : CliCommand) : Bool :=
  c.commandType = type && decide (s.Offers c) && word.all fun word => abbreviates word c.command

def next (commands : List CliCommand) (word : Text) : Option CliCommand :=
  (commands.zipIdx.find? fun (c, i) =>
    s.starts type (some word) c && (decide (uniqueLen s (commands.eraseIdx i) c ≤ word.length) || word == c.command)).map
    Prod.fst

/-- The loop of `cli_get_completions` up to the last word: the level that it is on, or a command
with nothing below it and the words behind that. -/
def reach : List CliCommand → List Text → List CliCommand ⊕ CliCommand × List Text
  | commands, [] => .inl commands
  | commands, word :: words =>
    match s.next type commands word with
    | none => .inl []
    | some c => if c.children.isEmpty then .inr (c, words) else reach c.children words

end Shell

def cliGetCompletions (s : Shell) (command : Text) (lastchar : Char) : Option CompHelp :=
  let type := if (cliIntGeneratePipeline command).length = 1 then CommandType.regular else .filter
  let (words, last) := typedWords command
  match s.reach type sessionCommands words with
  | .inl commands => some (.of ((commands.filter (s.starts type last)).flatMap (CliCommand.comphelp lastchar)))
  | .inr (c, rest) =>
    match c.filter.elim [] FilterCommand.optargs with
    | [] => some { CompHelp.of [] with entries := if lastchar = '?' then none else some [] }
    | optargs => completeOptargs lastchar c.command last optargs [] rest

end WlanBridge
