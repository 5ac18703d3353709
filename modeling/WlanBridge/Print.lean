import WlanBridge.Commands
import WlanBridge.Sieve

/-! What a command prints, through the filters behind its pipes. `_print` cuts the text
into lines and hands each to the filters in a row; the filters are built from the words of
their stages, and taken down when the command is done. -/
namespace WlanBridge

/-- What `regexec` says about a line, and what `strstr` says that takes the `regex_t` for
the string that shares its place in the union. -/
structure Regex where
  regexec : Text → Bool
  misread : Text → Bool

/-- `regcomp` with `REG_EXTENDED` and `REG_ICASE`; there is no result for a bad pattern. -/
abbrev Regcomp := (extended icase : Bool) → Text → Option Regex

def crlf (line : Text) : Text := line ++ ['\r', '\n']

def strstr (string pattern : Text) : Bool := decide (pattern <:+: string)

/-- The union `match`, with `MATCH_REGEX` or without it. -/
inductive Match where
  | string (pattern : Text)
  | re (regex : Regex)
  | reAsString (regex : Regex)

def Match.found (m : Match) (string : Text) : Bool :=
  match m with
  | .string pattern => strstr string pattern
  | .re regex => regex.regexec string
  | .reAsString regex => regex.misread string

/-- `struct cli_filter` with its data. -/
inductive Filter where
  | matching (m : Match) (invert : Bool)
  | range (matched : Bool) (start : Text) (stop : Option Text)
  | count (n : Nat)

def cliMatchFilter (m : Match) (invert : Bool) (string : Text) : Bool := m.found string != invert

/-- Whether the line is printed, and `matched` behind it. -/
def cliRangeFilter (matched : Bool) (start : Text) (stop : Option Text) (string : Text) : Bool × Bool :=
  let matched := matched || strstr string start
  if matched then (true, !(stop.any fun stop => strstr string stop)) else (false, false)

/-- No line is printed; those that are not blank are counted. -/
def cliCountFilter (count : Nat) (string : Text) : Bool × Nat :=
  (false, if (string.dropWhile isSpace).isEmpty then count else count + 1)

def Filter.run (f : Filter) (string : Text) : Bool × Filter :=
  match f with
  | .matching m invert => (cliMatchFilter m invert string, f)
  | .range matched start stop =>
    let (print, matched) := cliRangeFilter matched start stop string
    (print, .range matched start stop)
  | .count n =>
    let (print, n) := cliCountFilter n string
    (print, .count n)

def Filter.teardown : Filter → Text
  | .matching .. => []
  | .range .. => []
  | .count n => crlf (decimal n)

/-- The parts of `struct cli_def` that `_print` uses, and what the client has been sent. -/
structure Printer where
  buffer : Text
  filters : List Filter
  sent : Text

/-- The text before each newline, and what is left behind the last one. -/
def splitLines : Text → List Text × Text
  | [] => ([], [])
  | c :: rest =>
    let (lines, last) := splitLines rest
    if c = '\n' then ([] :: lines, last)
    else
      match lines with
      | [] => ([], c :: last)
      | line :: lines => ((c :: line) :: lines, last)

/-- The body of the loop of `_print` for one line. -/
def Printer.emit (filtered : Bool) (p : Printer) (line : Text) : Printer :=
  let (print, filters) := if filtered then Sieve.pass Filter.run p.filters line else (true, p.filters)
  { p with filters := filters, sent := if print then p.sent ++ crlf line else p.sent }

/-- `_print`: what lacks its newline is kept when buffered and printed when not. -/
def Printer.print (filtered buffered : Bool) (p : Printer) (text : Text) : Printer :=
  let (lines, last) := splitLines (p.buffer ++ text)
  let p := lines.foldl (Printer.emit filtered) p
  if buffered then { p with buffer := last } else { p.emit filtered last with buffer := [] }

def cliPrint (p : Printer) (text : Text) : Printer := p.print true false text

def cliError (p : Printer) (text : Text) : Printer := p.print false false text

/-- `struct cli_optarg`, for any mode and privilege. -/
structure Optarg where
  name : Text
  argument : Bool
  remainder : Bool
  hyphenated : Bool
  help : Text
  validator : Option (Text → Bool)

def joinWords (words : List Text) : Text := (words.intersperse [' ']).flatten

/-- `!strncasecmp(name, word, strlen(word))`. -/
def abbreviates (word name : Text) : Bool := (word.map Char.toLower).isPrefixOf (name.map Char.toLower)

/-- The optargs that a word may be for, from the first open one to the first argument. A
hyphenated option that takes the word is the only one. -/
def candidates (word : Text) (found : List Optarg) : List Optarg → List Optarg
  | [] => found
  | optarg :: rest =>
    if word.head? = some '-' ∧ optarg.hyphenated = true then [optarg]
    else
      let found := if optarg.argument || abbreviates word optarg.name then found ++ [optarg] else found
      if optarg.argument then found else candidates word found rest

def optargsAfter (name : Text) (optargs : List Optarg) : List Optarg :=
  (optargs.dropWhile fun optarg => optarg.name ≠ name).tail

/-- `cli_set_optarg_value` without `allow_multiple`. -/
def setOptargValue (found : List (Text × Text)) (name value : Text) : List (Text × Text) :=
  if found.any fun pair => pair.1 = name then
    found.map fun pair => if pair.1 = name then (name, value) else pair
  else found ++ [(name, value)]

/-- The last check of `cli_int_parse_optargs`. -/
def missingOptarg (command : Text) (optargs : List Optarg) (found : List (Text × Text)) :
    Except Text (List (Text × Text)) :=
  match optargs.find? Optarg.argument with
  | none => .ok found
  | some optarg => .error ("Incomplete command, missing required argument '".toList ++ optarg.name ++
      "' for command '".toList ++ command ++ ['\''])

/-- `cli_int_parse_optargs` for a command that is to be run: the values found, or the error. -/
def parseOptargs (command : Text) (optargs : List Optarg) (words : List Text) (found : List (Text × Text)) :
    Except Text (List (Text × Text)) :=
  match words with
  | [] => missingOptarg command optargs found
  | word :: rest =>
    match candidates word [] optargs with
    | [] => missingOptarg command optargs found
    | [optarg] =>
      if optarg.validator.all fun valid => valid word then
        let value := if optarg.remainder then joinWords (word :: rest) else word
        let optargs := if optarg.argument then optargsAfter optarg.name optargs else optargs
        parseOptargs command optargs rest (setOptargValue found optarg.name value)
      else .error ("Problem parsing command setting ".toList ++ optarg.name ++ " with value ".toList ++ word)
    | _ => .error ("\nAmbiguous option/argument for command ".toList ++ command)

/-- A hyphen, then any of the three flags, one at least. -/
def cliSearchFlagsValidator (value : Text) : Bool :=
  match value with
  | '-' :: flags => !flags.isEmpty && flags.all fun c => c = 'v' || c = 'i' || c = 'e'
  | _ => false

/-- The filters that `cli_init` registers. -/
inductive FilterCommand where
  | begin
  | between
  | count
  | exclude
  | include
  | grep
  | egrep
  deriving DecidableEq, Repr

def FilterCommand.name : FilterCommand → Text
  | .begin => "begin".toList
  | .between => "between".toList
  | .count => "count".toList
  | .exclude => "exclude".toList
  | .include => "include".toList
  | .grep => "grep".toList
  | .egrep => "egrep".toList

def rangeStart (remainder : Bool) : Optarg :=
  ⟨"range_start".toList, true, remainder, false, "Begin showing lines that match".toList, none⟩

def rangeEnd : Optarg := ⟨"range_end".toList, true, true, false, "Stop showing lines that match".toList, none⟩

def searchFlags : Optarg :=
  ⟨"search_flags".toList, false, false, true, "Search flags (-[ivx]".toList, some cliSearchFlagsValidator⟩

def searchPattern : Optarg := ⟨"search_pattern".toList, true, true, false, "Search pattern".toList, none⟩

def FilterCommand.optargs : FilterCommand → List Optarg
  | .begin => [rangeStart true]
  | .between => [rangeStart false, rangeEnd]
  | .count => []
  | .exclude => [searchPattern]
  | .include => [searchPattern]
  | .grep => [searchFlags, searchPattern]
  | .egrep => [searchFlags, searchPattern]

/-- The name as it was typed decides what the pattern is: under any other one, an
abbreviation too, it is compiled, and then taken for a string. -/
def cliMatchFilterInit (regcomp : Regcomp) (name : Text) (found : List (Text × Text)) : Except Text Filter :=
  let pattern := (found.lookup "search_pattern".toList).getD []
  let flags := (found.lookup "search_flags".toList).getD []
  if name = "include".toList then .ok (.matching (.string pattern) false)
  else if name = "exclude".toList then .ok (.matching (.string pattern) true)
  else
    match regcomp (name = "egrep".toList) (flags.contains 'i') pattern with
    | none => .error ("Invalid pattern \"".toList ++ pattern ++ ['"'])
    | some regex =>
      .ok (.matching (if name = "grep".toList ∨ name = "egrep".toList then .re regex else .reAsString regex)
        (flags.contains 'v'))

def cliRangeFilterInit (found : List (Text × Text)) : Except Text Filter :=
  .ok (.range false ((found.lookup "range_start".toList).getD []) (found.lookup "range_end".toList))

def cliCountFilterInit (words : List Text) : Except Text Filter :=
  if words.length > 1 then .error "Count filter does not take arguments".toList else .ok (.count 0)

structure FilterStage where
  command : FilterCommand
  words : List Text
  foundOptargs : List (Text × Text)
  deriving DecidableEq, Repr

/-- The stage of a command, or the error in its words; the first word is the name. -/
def FilterCommand.stage (command : FilterCommand) (words : List Text) : Except Text FilterStage :=
  (parseOptargs command.name command.optargs words.tail []).map fun found => ⟨command, words, found⟩

def FilterStage.init (regcomp : Regcomp) (stage : FilterStage) : Except Text Filter :=
  match stage.command with
  | .begin => cliRangeFilterInit stage.foundOptargs
  | .between => cliRangeFilterInit stage.foundOptargs
  | .count => cliCountFilterInit stage.words
  | _ => cliMatchFilterInit regcomp (stage.words.headD []) stage.foundOptargs

/-- The filters of some stages, up to one that cannot be built. -/
def initFilters (regcomp : Regcomp) : List FilterStage → List Filter × Option Text
  | [] => ([], none)
  | stage :: rest =>
    match stage.init regcomp with
    | .error text => ([], some text)
    | .ok filter =>
      let (filters, error) := initFilters regcomp rest
      (filter :: filters, error)

/-- `cli_int_execute_pipeline`, for a command that prints these texts. A filter that cannot
be built says so to the client itself. -/
def cliIntExecutePipeline (regcomp : Regcomp) (p : Printer) (stages : List FilterStage) (texts : List Text) : Printer :=
  let (filters, error) := initFilters regcomp stages
  let p := { p with filters := filters, sent := p.sent ++ error.elim [] crlf }
  let p := if error = none then texts.foldl cliPrint p else p
  { p with filters := [], sent := p.sent ++ p.filters.flatMap Filter.teardown }

end WlanBridge
