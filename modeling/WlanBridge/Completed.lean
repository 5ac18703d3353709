import WlanBridge.Console

/-! What the program's own completions come to. An error is printed with a prompt behind it. What
is typed for a word comes from the names of the commands, and covers the word unless quotes or
backslashes were typed, or more words than the parser has room for. -/
namespace WlanBridge

open Terminal

namespace Console

/-- An error is printed with a new prompt behind it and nothing else. -/
def Told (help : CompHelp) : Prop := help.said = [] ∨ help.reprompt = true ∧ help.entries = some []

/-- What is typed has characters that take a column each, covers the word that it stands for, and
fits the buffer. -/
def Completes (help : CompHelp) (line : Text) : Prop :=
  ∀ text ∈ completion help,
    let keep := (line.rdropWhile fun c => !stop help.commaSeparated c).length
    (∀ c ∈ text, Printable c) ∧ line.length ≤ keep + text.length ∧ keep + text.length < CLI_MAX_LINE_LENGTH

theorem program_completions (regcomp : Regcomp) (meter : Meter) (s : Console) (c : Char) :
    s.completions (.program regcomp meter) c = cliGetCompletions s.shell s.typedLine c := by
  rw [completions, Setting.program]

end Console

/-- Whatever the entries are, there is no comma at which a word starts. -/
structure CompHelp.Plain (help : CompHelp) : Prop where
  told : Console.Told help
  commaSeparated : help.commaSeparated = false

theorem CompHelp.Plain.of (entries : List Text) : (CompHelp.of entries).Plain := ⟨.inl rfl, rfl⟩

theorem CompHelp.Plain.failed (text : Text) : (CompHelp.failed text).Plain := ⟨.inr ⟨rfl, rfl⟩, rfl⟩

theorem completeOptargs_plain (words : List Text) : ∀ optargs found,
    ∀ help ∈ completeOptargs lastchar command last optargs found words, help.Plain := by
  induction words with
  | nil =>
    intro optargs found help asked
    rcases optargs with _ | ⟨optarg, optargs⟩ <;> exact Option.some.inj asked ▸ .of _
  | cons word rest ih =>
    intro optargs found help asked
    rcases optargs with _ | ⟨optarg, optargs⟩
    · exact Option.some.inj asked ▸ .of _
    · simp only [completeOptargs] at asked
      split at asked
      · exact Option.some.inj asked ▸ .of _
      · split at asked
        · split at asked
          · cases asked
          · exact ih _ _ help asked
        · exact Option.some.inj asked ▸ .failed _
      · exact Option.some.inj asked ▸ .failed _

theorem cliGetCompletions_plain (s : Shell) (line : Text) (lastchar : Char) :
    ∀ help ∈ cliGetCompletions s line lastchar, help.Plain := by
  intro help asked
  simp only [cliGetCompletions] at asked
  split at asked
  · exact Option.some.inj asked ▸ .of _
  · split at asked
    · exact Option.some.inj asked ▸ ⟨.inl rfl, rfl⟩
    · exact completeOptargs_plain _ _ _ help asked

/-- Behind the name of a filter that takes the rest of the line, a word and a blank crash the process:
the word after them is null. -/
theorem completeOptargs_crash (filter : f = .begin ∨ f = .exclude ∨ f = .include) (last : Option Text) (words : List Text) :
    completeOptargs lastchar command last (FilterCommand.optargs f) found words = none ↔ words ≠ [] ∧ last = none := by
  obtain ⟨optarg, one, argument, remainder, plain, any⟩ : ∃ optarg : Optarg, FilterCommand.optargs f = [optarg] ∧
      optarg.argument = true ∧ optarg.remainder = true ∧ optarg.hyphenated = false ∧ optarg.validator = none := by
    rcases filter with rfl | rfl | rfl <;> exact ⟨_, rfl, rfl, rfl, rfl, rfl⟩
  rw [one]
  rcases words with _ | ⟨word, rest⟩
  · simp [completeOptargs]
  · have takes : candidates word [] [optarg] = [optarg] := by simp [candidates, argument, plain]
    have after : optargsAfter optarg.name [optarg] = [] := by simp [optargsAfter]
    rcases last with _ | last
    · simp [completeOptargs, takes, any, remainder]
    · rcases rest with _ | ⟨next, rest⟩ <;> simp [completeOptargs, takes, any, argument, after]

/-- `show fdb | include x ` and a tabulator. -/
example : cliGetCompletions Shell.init "show fdb | include x ".toList (CTRL 'I') = none := by decide +kernel

mutual

def CliCommand.names : CliCommand → List Text
  | .mk command _ _ _ _ _ _ children => command :: namesOf children

def namesOf : List CliCommand → List Text
  | [] => []
  | c :: rest => c.names ++ namesOf rest

end

structure Named (name : Text) : Prop where
  lower : name.map Char.toLower = name
  short : name.length ≤ 16
  printable : ∀ c ∈ name, Printable c
  bare : name.head? ≠ some '[' ∧ name.head? ≠ some '<'

theorem session_named : ∀ name ∈ namesOf sessionCommands, Named name := by
  have checked : ∀ name ∈ namesOf sessionCommands, name.map Char.toLower = name ∧ name.length ≤ 16 ∧
      name.all (fun c => decide (Printable c)) = true ∧ name.head? ≠ some '[' ∧ name.head? ≠ some '<' :=
    List.all_iff_forall_prop.mp (by decide +kernel)
  intro name member
  obtain ⟨lower, short, printable, bare⟩ := checked name member
  exact ⟨lower, short, List.all_iff_forall_prop.mp printable, bare⟩

theorem names_self (member : c ∈ commands) : c.command ∈ namesOf commands := by
  induction commands with
  | nil => cases member
  | cons d rest ih =>
    rcases List.mem_cons.mp member with rfl | later
    · cases c
      simp [namesOf, CliCommand.names, CliCommand.command]
    · exact List.mem_append_right _ (ih later)

theorem names_below (member : c ∈ commands) (below : name ∈ namesOf c.children) : name ∈ namesOf commands := by
  induction commands with
  | nil => cases member
  | cons d rest ih =>
    rcases List.mem_cons.mp member with rfl | later
    · cases c
      simp only [namesOf, CliCommand.names, CliCommand.children] at below ⊢
      exact List.mem_append_left _ (List.mem_cons_of_mem _ below)
    · exact List.mem_append_right _ (ih later)

theorem reach_named {s : Shell} (words : List Text) : ∀ commands level,
    (∀ name ∈ namesOf commands, Named name) → s.reach type commands words = .inl level →
      ∀ c ∈ level, Named c.command := by
  induction words with
  | nil =>
    intro commands level named reached c member
    obtain rfl := Sum.inl.inj reached
    exact named _ (names_self member)
  | cons word words ih =>
    intro commands level named reached c member
    simp only [Shell.reach] at reached
    split at reached
    · obtain rfl := Sum.inl.inj reached
      cases member
    · rename_i c' taken
      split at reached
      · cases reached
      · obtain ⟨⟨_, i⟩, found, rfl⟩ := Option.map_eq_some_iff.mp taken
        have here := List.fst_mem_of_mem_zipIdx (List.mem_of_find?_eq_some found)
        exact ih _ level (fun name below => named name (names_below here below)) reached c member

structure Fills (word text : Text) : Prop where
  covers : word.length ≤ text.length
  short : text.length ≤ 17
  printable : ∀ c ∈ text, Printable c

theorem le_foldl_shared (tptr : Text) (n : Nat) (entries : List Text) : ∀ k,
    n ≤ entries.foldl
      (fun k entry => if entry.head? = some '<' then 0 else min k (sharedLen tptr (Console.unbracketed entry))) k ↔
      n ≤ k ∧ ∀ entry ∈ entries, n ≤ if entry.head? = some '<' then 0 else sharedLen tptr (Console.unbracketed entry) := by
  induction entries with
  | nil => simp
  | cons entry entries ih =>
    intro k
    rw [List.foldl_cons, ih, List.forall_mem_cons]
    split
    · constructor
      · rintro ⟨none_, rest⟩
        exact ⟨by omega, none_, rest⟩
      · exact fun ⟨_, none_, rest⟩ => ⟨none_, rest⟩
    · rw [Nat.le_min, and_assoc]

theorem common_stands (first : Text) (open_ : entry ∈ rest) (stands : entry.head? = some '<') :
    Console.common (first :: rest) = [] := by
  have least (tptr : Text) (k : Nat) := ((le_foldl_shared tptr _ rest k).mp (Nat.le_refl _)).2 entry open_
  simp only [if_pos stands, Nat.le_zero] at least
  simp only [Console.common, least, List.take_zero]

theorem completion_bracketed {help : CompHelp}
    (bracketed : ∀ entry ∈ help.entries.getD [], entry.head? = some '[' ∨ entry.head? = some '<') :
    Console.completion help = none := by
  rcases entries : help.entries with _ | _ | ⟨first, _ | ⟨second, rest⟩⟩
  · simp [Console.completion, entries]
  · simp [Console.completion, entries]
  · have bracket := bracketed first (by simp [entries])
    simp only [Console.completion, entries]
    rw [if_neg fun bare => bracket.elim bare.1 bare.2]
  · have last : ((first :: second :: rest).getLastD []) = (second :: rest).getLast (by simp) := by
      rw [List.getLastD_cons, List.getLastD_eq_getLast?, List.getLast?_eq_some_getLast (by simp), Option.getD_some]
    have member : (second :: rest).getLast (by simp) ∈ second :: rest := List.getLast_mem _
    simp only [Console.completion, entries, last]
    rw [if_neg]
    rintro ⟨typed, bare⟩
    have stands := (bracketed _ (by rw [entries]; exact List.mem_cons_of_mem _ member)).resolve_left bare
    exact typed (common_stands first member stands)

theorem completion_named {help : CompHelp} {entries : List Text} (listed : help.entries = some entries)
    (named : ∀ entry ∈ entries, Named entry) (begins : ∀ entry ∈ entries, word.map Char.toLower <+: entry) :
    ∀ text ∈ Console.completion help, Fills word text := by
  intro text completed
  rcases entries with _ | ⟨first, rest⟩
  · simp [Console.completion, listed] at completed
  have here : first ∈ first :: rest := List.mem_cons_self
  obtain ⟨-, short, printable, bare⟩ := named first here
  have covers := (begins first here).length_le
  rw [List.length_map] at covers
  rcases rest with _ | ⟨second, rest⟩
  · simp only [Console.completion, listed] at completed
    rw [if_pos bare] at completed
    obtain rfl := Option.some.inj completed
    refine ⟨?_, ?_, fun c member => ?_⟩
    · rw [List.length_append]
      omega
    · rw [List.length_append]
      exact Nat.succ_le_succ short
    · rcases List.mem_append.mp member with letter | blank
      · exact printable c letter
      · rw [List.mem_singleton.mp blank]
        decide
  · simp only [Console.completion, listed] at completed
    split at completed
    · obtain rfl := Option.some.inj completed
      have plain (entry : Text) (member : entry ∈ first :: second :: rest) : Console.unbracketed entry = entry :=
        if_neg (named entry member).bare.1
      have shared : word.length ≤ (second :: rest).foldl
          (fun k entry => if entry.head? = some '<' then 0
            else min k (sharedLen first (Console.unbracketed entry))) first.length := by
        refine (le_foldl_shared _ _ _ _).mpr ⟨covers, fun entry member => ?_⟩
        have member := List.mem_cons_of_mem first member
        rw [if_neg (named entry member).bare.2, plain entry member]
        have both := (sharedLen_le_iff _ (begins first here)).mpr (begins entry member)
        rwa [List.length_map] at both
      simp only [Console.common, plain first here]
      rw [if_neg bare.2]
      refine ⟨?_, ?_, fun c member => printable c (List.mem_of_mem_take member)⟩
      · rw [List.length_take]
        exact Nat.le_min.mpr ⟨shared, covers⟩
      · rw [List.length_take]
        omega
    · cases completed

theorem mem_candidates (optargs : List Optarg) : ∀ found,
    ∀ optarg ∈ candidates word found optargs, optarg ∈ found ∨ optarg ∈ optargs := by
  induction optargs with
  | nil => exact fun found optarg member => .inl member
  | cons first rest ih =>
    intro found optarg member
    simp only [candidates] at member
    split at member
    · exact .inr (List.mem_singleton.mp member ▸ List.mem_cons_self)
    · have either (more : optarg ∈ if (first.argument || abbreviates word first.name) = true then found ++ [first]
          else found) : optarg ∈ found ∨ optarg ∈ first :: rest := by
        split at more
        · rcases List.mem_append.mp more with old | new
          · exact .inl old
          · exact .inr (List.mem_singleton.mp new ▸ List.mem_cons_self)
        · exact .inl more
      split at member
      · exact either member
      · rcases ih _ optarg member with old | later
        · exact either old
        · exact .inr (List.mem_cons_of_mem _ later)

theorem comphelp_bracketed {optarg : Optarg} (kind : optarg.hyphenated = true ∨ optarg.argument = true) :
    ∀ entry ∈ optarg.comphelp (CTRL 'I') found word, entry.head? = some '[' ∨ entry.head? = some '<' := by
  intro entry member
  have tab : ¬CTRL 'I' = '?' := by decide
  simp only [Optarg.comphelp, if_neg tab] at member
  split at member
  · cases member
  · split at member
    · rw [List.mem_singleton.mp member]
      rcases kind with option | argument
      · simp [option]
      · by_cases option : optarg.hyphenated = true <;> simp [option, argument]
    · cases member

theorem completeOptargs_bracketed (words : List Text) : ∀ optargs found,
    (∀ optarg ∈ optargs, optarg.hyphenated = true ∨ optarg.argument = true) →
      ∀ help ∈ completeOptargs (CTRL 'I') command last optargs found words,
        ∀ entry ∈ help.entries.getD [], entry.head? = some '[' ∨ entry.head? = some '<' := by
  induction words with
  | nil =>
    intro optargs found kinds help asked entry member
    rcases optargs with _ | ⟨optarg, optargs⟩
    · obtain rfl := Option.some.inj asked
      cases member
    · obtain rfl := Option.some.inj asked
      obtain ⟨candidate, chosen, listed⟩ := List.mem_flatMap.mp member
      have source := (mem_candidates _ _ _ chosen).resolve_left (by simp)
      exact comphelp_bracketed (kinds candidate source) entry listed
  | cons word rest ih =>
    intro optargs found kinds help asked entry member
    rcases optargs with _ | ⟨optarg, optargs⟩
    · obtain rfl := Option.some.inj asked
      cases member
    · simp only [completeOptargs] at asked
      split at asked
      · obtain rfl := Option.some.inj asked
        cases member
      · split at asked
        · split at asked
          · cases asked
          · refine ih _ _ (fun other later => kinds other ?_) help asked entry member
            split at later
            · exact (List.dropWhile_sublist _).subset (List.mem_of_mem_tail later)
            · exact later
        · obtain rfl := Option.some.inj asked
          cases member
      · obtain rfl := Option.some.inj asked
        cases member

theorem optargs_kinds (f : FilterCommand) : ∀ optarg ∈ f.optargs, optarg.hyphenated = true ∨ optarg.argument = true := by
  cases f <;> exact List.all_iff_forall_prop.mp (by decide)

/-- Whatever stands on the line, a tabulator types a short printable text that covers the last word. -/
theorem cliGetCompletions_fills (s : Shell) (line : Text) :
    ∀ help ∈ cliGetCompletions s line (CTRL 'I'),
      ∀ text ∈ Console.completion help, Fills ((typedWords line).2.getD []) text := by
  intro help asked
  have tab : ¬CTRL 'I' = '?' := by decide
  simp only [cliGetCompletions] at asked
  generalize (if (cliIntGeneratePipeline line).length = 1 then CommandType.regular else .filter) = type at asked
  split at asked
  · rename_i level reached
    obtain rfl := Option.some.inj asked
    have named := reach_named _ _ _ session_named reached
    have kept (entry : Text)
        (member : entry ∈ (level.filter (s.starts type (typedWords line).2)).flatMap (CliCommand.comphelp (CTRL 'I'))) :
        ∃ c ∈ level, entry = c.command ∧ (typedWords line).2.all fun word => abbreviates word c.command := by
      obtain ⟨c, chosen, listed⟩ := List.mem_flatMap.mp member
      obtain ⟨here, starts⟩ := List.mem_filter.mp chosen
      rw [CliCommand.comphelp, if_neg tab] at listed
      rw [Shell.starts, Bool.and_eq_true] at starts
      exact ⟨c, here, List.mem_singleton.mp listed, starts.2⟩
    refine completion_named rfl (fun entry member => ?_) (fun entry member => ?_)
    · obtain ⟨c, here, rfl, -⟩ := kept entry member
      exact named c here
    · obtain ⟨c, here, rfl, begins⟩ := kept entry member
      rcases last : (typedWords line).2 with _ | word
      · exact List.nil_prefix
      · rw [last, Option.all_some] at begins
        exact (abbreviates_iff (named c here).lower word).mp begins
  · rename_i c rest reached
    have none_ (bracketed : ∀ entry ∈ help.entries.getD [], entry.head? = some '[' ∨ entry.head? = some '<') :
        ∀ text ∈ Console.completion help, Fills ((typedWords line).2.getD []) text := by
      rw [completion_bracketed bracketed]
      simp
    apply none_
    split at asked
    · obtain rfl := Option.some.inj asked
      simp [if_neg tab]
    · refine completeOptargs_bracketed _ _ _ ?_ help asked
      rcases filter : c.filter with _ | f
      · simp
      · exact optargs_kinds f

def Bare (c : Char) : Prop := Printable c ∧ c ≠ '\\' ∧ c ≠ '"' ∧ c ≠ '\''

instance (c : Char) : Decidable (Bare c) := inferInstanceAs (Decidable (_ ∧ _))

def lastWord (line : Text) : Text := line.rtakeWhile fun c => !Console.stop false c

theorem bare_stop (bare : Bare c) (stop : Console.stop false c = true) :
    c = '|' ∧ isSpace c = false ∨ c ≠ '|' ∧ isSpace c = true := by
  simp only [Console.stop, Bool.false_and, Bool.or_false, Bool.or_eq_true, beq_iff_eq] at stop
  rcases stop with rfl | rfl
  · exact .inr (by decide)
  · exact .inl (by decide)

theorem bare_inside (bare : Bare c) (inside : Console.stop false c = false) : stops none c = false ∧ c ≠ '|' := by
  simp only [Console.stop, Bool.false_and, Bool.or_false, Bool.or_eq_false_iff, beq_eq_false_iff_ne] at inside
  obtain ⟨⟨low, -⟩, -, double, single⟩ := bare
  have dark : isSpace c = false := by
    simp only [isSpace, Bool.or_eq_false_iff, Bool.and_eq_false_iff, decide_eq_false_iff_not]
    refine ⟨inside.1, .inr fun high => ?_⟩
    exact absurd (Char.le_trans low high) (by decide)
  simp [stops, dark, inside.2, double, single]

theorem lastWord_behind (before line : Text) (stop : Console.stop false c = true) :
    lastWord (before ++ c :: line) = lastWord line := by
  have split : (before ++ c :: line).reverse = line.reverse ++ (c :: before.reverse) := by simp
  rw [lastWord, lastWord, List.rtakeWhile, List.rtakeWhile, split, List.takeWhile_append]
  split
  · rename_i whole
    rw [List.takeWhile_cons_of_neg (by simp [stop]), List.append_nil, (List.takeWhile_prefix _).eq_of_length whole]
  · rfl

theorem lastWord_whole (inside : ∀ c ∈ word, Console.stop false c = false) : lastWord word = word :=
  List.rtakeWhile_eq_self_iff.mpr fun c member => by simp [inside c member]

theorem parse_stop (bare : Bare c) (stop : Console.stop false c = true) (done : List Text) (line : Text) :
    ∃ more, parseLoop maxWords done none none (c :: line) = parseLoop maxWords (done ++ more) none none line := by
  rcases Nat.lt_or_ge done.length (maxWords - 1) with room | full
  · rw [parse_step room bare.2.1]
    rcases bare_stop bare stop with ⟨rfl, dark⟩ | ⟨bar, blank⟩
    · exact ⟨[['|']], by simp⟩
    · exact ⟨[], by simp [bar, blank, bare.2.2]⟩
  · exact ⟨[], by rw [List.append_nil, parse_full full, parse_full full]⟩

/-- The word that has been started. -/
def pending (word : Text) : Option Text := if word = [] then none else some word

theorem parse_shut (bare : Bare c) (stop : Console.stop false c = true) (done : List Text) (word line : Text) :
    ∃ more, parseLoop maxWords done (pending word) none (c :: line) = parseLoop maxWords (done ++ more) none none line := by
  by_cases empty : word = []
  · rw [pending, if_pos empty]
    exact parse_stop bare stop done line
  rcases Nat.lt_or_ge done.length (maxWords - 1) with room | full
  · have stopped : ∀ d ∈ (c :: line).head?, stops none d = true := by
      intro d head
      obtain rfl := Option.some.inj head
      rcases bare_stop bare stop with ⟨rfl, -⟩ | ⟨-, blank⟩ <;> simp [stops, *]
    rw [pending, if_neg empty, parse_taken room empty stopped]
    obtain ⟨later, ends⟩ := parse_stop bare stop (done ++ [cliIntReturnNewword word]) line
    exact ⟨cliIntReturnNewword word :: later, by rw [ends, List.append_assoc, List.singleton_append]⟩
  · exact ⟨[], by rw [List.append_nil, parse_full full, parse_full full]⟩

theorem parse_join (bare : Bare c) (inside : Console.stop false c = false) (done : List Text) (word line : Text) :
    parseLoop maxWords done (pending word) none (c :: line) =
      parseLoop maxWords done (pending (word ++ [c])) none line := by
  have char := (bare_inside bare inside).1
  have started : pending (word ++ [c]) = some (word ++ [c]) := if_neg (by simp)
  by_cases empty : word = []
  · subst empty
    rcases Nat.lt_or_ge done.length (maxWords - 1) with room | full
    · rw [started, pending, if_pos rfl, parse_step room bare.2.1]
      simp_all [stops]
    · rw [parse_full full, parse_full full]
  · rw [started, pending, if_neg empty, parse_char bare.2.1 char]

/-- The parser ends with the word at the end of the line, if it has room for it. -/
theorem parse_lastWord (maxWords : Nat) (line : Text) (bare : ∀ c ∈ line, Bare c) : ∀ done word,
    (∀ c ∈ word, Bare c ∧ Console.stop false c = false) →
      (parseLoop maxWords done (pending word) none line).length < maxWords - 1 → lastWord (word ++ line) ≠ [] →
        (parseLoop maxWords done (pending word) none line).getLast? = some (lastWord (word ++ line)) := by
  induction line with
  | nil =>
    intro done word inside room filled
    rw [List.append_nil, lastWord_whole fun c member => (inside c member).2] at filled ⊢
    have whole : cliIntReturnNewword word = word :=
      List.filter_eq_self.mpr fun c member => by simpa using (inside c member).1.2.1
    rcases Nat.lt_or_ge done.length (maxWords - 1) with more | full
    · rw [parse_ended more, pending, if_neg filled]
      simp [whole]
    · rw [parse_full full] at room
      omega
  | cons c line ih =>
    intro done word inside room filled
    have here := bare c List.mem_cons_self
    have rest := ih fun d member => bare d (List.mem_cons_of_mem c member)
    cases stop : Console.stop false c with
    | true =>
      obtain ⟨later, ends⟩ := parse_shut here stop done word line
      rw [lastWord_behind word line stop] at filled ⊢
      rw [ends] at room ⊢
      exact rest (done ++ later) [] (by simp) room filled
    | false =>
      have next := rest done (word ++ [c]) fun d member => by
        rcases List.mem_append.mp member with old | new
        · exact inside d old
        · exact List.mem_singleton.mp new ▸ ⟨here, stop⟩
      rw [List.append_assoc] at next
      rw [parse_join here stop] at room ⊢
      exact next room filled

theorem lastWord_dropWhile (line : Text) (bare : ∀ c ∈ line, Bare c) :
    lastWord (line.dropWhile isSpace) = lastWord line := by
  induction line with
  | nil => rfl
  | cons c line ih =>
    rw [List.dropWhile_cons]
    split
    · rename_i blank
      have stop : Console.stop false c = true := by
        cases stop : Console.stop false c with
        | true => rfl
        | false =>
          have dark := (bare_inside (bare c List.mem_cons_self) stop).1
          simp [stops, blank] at dark
      rw [ih fun d member => bare d (List.mem_cons_of_mem c member), ← lastWord_behind [] line stop]
      rfl
    · rfl

theorem words_lastWord (line : Text) (bare : ∀ c ∈ line, Bare c) (dark : ∀ c ∈ line.head?, isSpace c = false)
    (few : (cliParseLine line maxWords).length < maxWords - 1) (filled : lastWord line ≠ []) :
    (cliParseLine line maxWords).getLast? = some (lastWord line) := by
  rcases line with _ | ⟨c, line⟩
  · exact absurd rfl filled
  · have here := bare c List.mem_cons_self
    have rest := parse_lastWord maxWords line fun d member => bare d (List.mem_cons_of_mem c member)
    rw [parse_from (dark c rfl)] at few ⊢
    have more : ([] : List Text).length < maxWords - 1 := by
      rcases Nat.lt_or_ge ([] : List Text).length (maxWords - 1) with more | full
      · exact more
      · rwa [parse_full full] at few
    cases stop : Console.stop false c with
    | true =>
      rcases bare_stop here stop with ⟨rfl, -⟩ | ⟨-, blank⟩
      · have first : parseLoop maxWords [] (some []) none ('|' :: line) =
            parseLoop maxWords [[]] none none ('|' :: line) := by
          rw [parse_step more (by decide)]
          simp [cliIntReturnNewword]
        obtain ⟨later, ends⟩ := parse_stop here stop [[]] line
        rw [first, ends] at few ⊢
        rw [← List.nil_append ('|' :: line), lastWord_behind [] line stop] at filled ⊢
        exact rest _ [] (by simp) few filled
      · rw [dark c rfl] at blank
        cases blank
    | false =>
      rw [parse_char here.2.1 (bare_inside here stop).1] at few ⊢
      exact rest [] [c] (by simp [here, stop]) few filled

/-- On a line without quotes and backslashes the word that a tabulator completes is the one at its end. -/
theorem typedWords_lastWord (line : Text) (bare : ∀ c ∈ line, Bare c)
    (few : (cliParseLine line CLI_MAX_LINE_WORDS).length < CLI_MAX_LINE_WORDS - 1) (filled : lastWord line ≠ []) :
    (typedWords line).2 = some (lastWord line) := by
  have whole : cliParseLine (line.dropWhile isSpace) CLI_MAX_LINE_WORDS = cliParseLine line CLI_MAX_LINE_WORDS := by
    unfold cliParseLine
    rw [List.dropWhile_idempotent]
  have dark : ∀ c ∈ (line.dropWhile isSpace).head?, isSpace c = false := by
    intro c head
    have fact := List.head?_dropWhile_not isSpace line
    rwa [Option.mem_def.mp head] at fact
  have last := words_lastWord (line.dropWhile isSpace) (fun c member => bare c ((List.dropWhile_sublist _).subset member))
    dark (whole ▸ few) (by rwa [lastWord_dropWhile line bare])
  rw [lastWord_dropWhile line bare] at last
  obtain ⟨words, split⟩ := List.getLast?_eq_some_iff.mp last
  have inside : ∀ c ∈ lastWord line, Console.stop false c = false := fun c member => by
    simpa using List.mem_rtakeWhile_imp member
  have word : (lastWord line).head? ≠ some '|' := fun bar => by
    have stop := inside '|' (List.mem_of_mem_head? bar)
    cases stop
  have ends : line.getLast? ≠ some ' ' := by
    intro blank
    obtain ⟨before, rfl⟩ := List.getLast?_eq_some_iff.mp blank
    exact filled (List.rtakeWhile_concat_neg _ _ _ (by decide))
  unfold typedWords cliIntGeneratePipeline
  rw [split, List.foldl_append, List.foldl_cons, List.foldl_nil, stageStep, if_neg word]
  simp [ends]

theorem program_completes (s : Shell) (line : Text) (bare : ∀ c ∈ line, Bare c)
    (few : (cliParseLine line CLI_MAX_LINE_WORDS).length < CLI_MAX_LINE_WORDS - 1)
    (short : line.length + 17 < CLI_MAX_LINE_LENGTH) :
    ∀ help ∈ cliGetCompletions s line (CTRL 'I'), Console.Completes help line := by
  intro help asked text completed
  have fills := cliGetCompletions_fills s line help asked text completed
  have apart := (cliGetCompletions_plain s line (CTRL 'I') help asked).commaSeparated
  have parts : line.length = (line.rdropWhile fun c => !Console.stop false c).length + (lastWord line).length := by
    rw [lastWord, ← List.length_append, List.rdropWhile_append_rtakeWhile]
  have covers : (lastWord line).length ≤ text.length := by
    by_cases empty : lastWord line = []
    · rw [empty]
      exact Nat.zero_le _
    · have last := fills.covers
      rwa [typedWords_lastWord line bare few empty] at last
  have width := fills.short
  dsimp only
  rw [apart]
  exact ⟨fills.printable, by omega, by omega⟩

end WlanBridge
