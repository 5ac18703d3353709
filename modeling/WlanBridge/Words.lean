import WlanBridge.Commands

/-! From a line to the stages of its pipeline: `cli_parse_line` and the splitting of
`cli_int_generate_pipeline`. A line has no null character; the words that the arrays have
no room for are left out by the code as well. -/
namespace WlanBridge

def CLI_MAX_LINE_WORDS : Nat := 128

/-- `cli_int_return_newword`: every backslash is left out. -/
def cliIntReturnNewword (word : Text) : Text := word.filter fun c => c ≠ '\\'

/-- A backslash and the character behind it are passed over, within a word or not. -/
def skipEscape (word : Option Text) (rest : Text) : Option Text × Text :=
  match rest with
  | '\\' :: c :: rest => (word.map fun w => w ++ ['\\', c], rest)
  | rest => (word, rest)

theorem skipEscape_cases (past : skipEscape word rest = (word', rest')) :
    word'.isSome = word.isSome ∧ rest'.length ≤ rest.length := by
  unfold skipEscape at past
  split at past
  · obtain ⟨rfl, rfl⟩ := Prod.mk.inj past
    simp only [Option.isSome_map, List.length_cons, true_and]
    omega
  · obtain ⟨rfl, rfl⟩ := Prod.mk.inj past
    exact ⟨rfl, Nat.le_refl _⟩

theorem parse_decreases (past : skipEscape word rest = (word', c :: more)) (next : Option Text) :
    2 * more.length + (if next.isSome then 1 else 0) < 2 * rest.length + (if word.isSome then 1 else 0) := by
  have shorter := (skipEscape_cases past).2
  have little : (if next.isSome then 1 else 0) ≤ 1 := by split <;> decide
  rw [List.length_cons] at shorter
  omega

theorem parse_stays (past : skipEscape word rest = (word', c :: more)) (inside : word'.isSome = true) :
    2 * (c :: more).length + (if (none : Option Text).isSome then 1 else 0) <
      2 * rest.length + (if word.isSome then 1 else 0) := by
  obtain ⟨same, shorter⟩ := skipEscape_cases past
  rw [← same, inside, if_pos rfl, if_neg (by decide)]
  omega

/-- The word that an opening quote cuts off. -/
def begun : Option Text → List Text
  | some (c :: word) => [cliIntReturnNewword (c :: word)]
  | _ => []

/-- The loop of `cli_parse_line`: the words so far, the text since `word_start`, and `inquote`. -/
def parseLoop (maxWords : Nat) (words : List Text) (word : Option Text) (inquote : Option Char) (rest : Text) :
    List Text :=
  if words.length < maxWords - 1 then
    match _past : skipEscape word rest with
    | (word, []) => words ++ (word.map cliIntReturnNewword).toList
    | (word, c :: more) =>
      if some c = inquote then
        parseLoop maxWords (words ++ (word.map cliIntReturnNewword).toList) none none more
      else if word.isSome ∧ inquote = none ∧ (isSpace c = true ∨ c = '|') then
        parseLoop maxWords (words ++ (word.map cliIntReturnNewword).toList) none none (c :: more)
      else if inquote = none ∧ (c = '"' ∨ c = '\'') then
        parseLoop maxWords (words ++ begun word) (some []) (some c) more
      else
        match word with
        | some w => parseLoop maxWords words (some (w ++ [c])) inquote more
        | none =>
          if c = '|' then parseLoop maxWords (words ++ [['|']]) none inquote more
          else if isSpace c then parseLoop maxWords words none inquote more
          else parseLoop maxWords words (some [c]) inquote more
  else words
termination_by 2 * rest.length + (if word.isSome then 1 else 0)
decreasing_by
  · exact parse_decreases _past none
  · exact parse_stays _past ‹_ ∧ _›.1
  · exact parse_decreases _past (some [])
  · exact parse_decreases _past (some _)
  · exact parse_decreases _past none
  · exact parse_decreases _past none
  · exact parse_decreases _past (some [_])

/-- The first word starts at the first character that is no space, whatever it is. -/
def cliParseLine (line : Text) (maxWords : Nat) : List Text :=
  match line.dropWhile isSpace with
  | [] => parseLoop maxWords [] none none []
  | rest => parseLoop maxWords [] (some []) none rest

/-- The loop of `cli_int_generate_pipeline`: a word that begins with a pipe opens the next stage. -/
def stageStep (stages : List (List Text) × List Text) (word : Text) : List (List Text) × List Text :=
  if word.head? = some '|' then (stages.1 ++ [stages.2], []) else (stages.1, stages.2 ++ [word])

/-- `cli_int_generate_pipeline`, outside build mode. -/
def cliIntGeneratePipeline (command : Text) : List (List Text) :=
  let stages := (cliParseLine (command.dropWhile isSpace) CLI_MAX_LINE_WORDS).foldl stageStep ([], [])
  stages.1 ++ [stages.2]

def stops : Option Char → Char → Bool
  | none, c => isSpace c || c == '|' || c == '"' || c == '\''
  | some quote, c => c == quote

/-- The text of a word as it is typed: a backslash carries one character, and none follows at once. -/
inductive Spelled (quote : Option Char) : Text → Text → Prop
  | nil : Spelled quote [] []
  | char : stops quote c = false → c ≠ '\\' → Spelled quote text word → Spelled quote (c :: text) (c :: word)
  | escape : c ≠ '\\' → text.head? ≠ some '\\' → Spelled quote text word →
      Spelled quote ('\\' :: c :: text) (c :: word)

/-- The lines of the command language and the words they say. -/
inductive Typed : Text → List Text → Prop
  | nil : Typed [] []
  | space : isSpace c = true → Typed line words → Typed (c :: line) words
  | pipe : Typed line words → Typed ('|' :: line) (['|'] :: words)
  | word : stops none c = false → c ≠ '\\' → Spelled none text word →
      (∀ d ∈ line.head?, stops none d = true) → Typed line words → Typed (c :: text ++ line) ((c :: word) :: words)
  | quoted : quote = '"' ∨ quote = '\'' → Spelled (some quote) text word → Typed line words →
      Typed (quote :: text ++ quote :: line) (word :: words)
  | unclosed : quote = '"' ∨ quote = '\'' → Spelled (some quote) text word → Typed (quote :: text) [word]

/-- A pipe at the start of a line has an empty word put before it. -/
def leading (line : Text) : List Text := if (line.dropWhile isSpace).head? = some '|' then [[]] else []

theorem skipEscape_plain (word : Option Text) (plain : rest.head? ≠ some '\\') :
    skipEscape word rest = (word, rest) := by
  rcases rest with _ | ⟨c, rest⟩
  · rfl
  · rcases rest with _ | ⟨d, rest⟩ <;> simp_all [skipEscape]

theorem parse_full (full : maxWords - 1 ≤ done.length) :
    parseLoop maxWords done word quote rest = done := by
  rw [parseLoop, if_neg (by omega)]

theorem parse_ended (room : done.length < maxWords - 1) :
    parseLoop maxWords done word quote [] = done ++ (word.map cliIntReturnNewword).toList := by
  rw [parseLoop, if_pos room]
  rfl

theorem parse_step (room : done.length < maxWords - 1) (plain : c ≠ '\\') :
    parseLoop maxWords done word quote (c :: more) =
      if some c = quote then parseLoop maxWords (done ++ (word.map cliIntReturnNewword).toList) none none more
      else if word.isSome ∧ quote = none ∧ (isSpace c = true ∨ c = '|') then
        parseLoop maxWords (done ++ (word.map cliIntReturnNewword).toList) none none (c :: more)
      else if quote = none ∧ (c = '"' ∨ c = '\'') then
        parseLoop maxWords (done ++ begun word) (some []) (some c) more
      else
        match word with
        | some w => parseLoop maxWords done (some (w ++ [c])) quote more
        | none =>
          if c = '|' then parseLoop maxWords (done ++ [['|']]) none quote more
          else if isSpace c then parseLoop maxWords done none quote more
          else parseLoop maxWords done (some [c]) quote more := by
  rw [parseLoop, if_pos room]
  split
  · rename_i past
    rw [skipEscape_plain word (by simpa using plain)] at past
    cases past
  · rename_i past
    rw [skipEscape_plain word (by simpa using plain)] at past
    cases past
    rcases word with _ | word <;> rfl

theorem parse_char (plain : c ≠ '\\') (inside : stops quote c = false) (word rest : Text) :
    parseLoop maxWords done (some word) quote (c :: rest) =
      parseLoop maxWords done (some (word ++ [c])) quote rest := by
  by_cases room : done.length < maxWords - 1
  · rw [parse_step room plain]
    rcases quote with _ | quote <;> simp_all [stops]
  · rw [parse_full (by omega), parse_full (by omega)]

theorem parse_escape (plain : rest.head? ≠ some '\\') (word : Text) (c : Char) :
    parseLoop maxWords done (some word) quote ('\\' :: c :: rest) =
      parseLoop maxWords done (some (word ++ ['\\', c])) quote rest := by
  by_cases room : done.length < maxWords - 1
  · rcases rest with _ | ⟨d, rest⟩
    · rw [parseLoop, if_pos room, parse_ended room]
      rfl
    · rw [parseLoop, if_pos room, parse_step room (by simpa using plain)]
      rfl
  · rw [parse_full (by omega), parse_full (by omega)]

theorem parse_taken (room : done.length < maxWords - 1) (filled : word ≠ []) (stopped : ∀ c ∈ rest.head?, stops none c = true) :
    parseLoop maxWords done (some word) none rest =
      parseLoop maxWords (done ++ [cliIntReturnNewword word]) none none rest := by
  rcases rest with _ | ⟨c, rest⟩
  · rw [parse_ended room]
    by_cases more : (done ++ [cliIntReturnNewword word]).length < maxWords - 1
    · simp [parse_ended more]
    · rw [parse_full (by omega)]
      rfl
  · have stop := stopped c rfl
    have plain : c ≠ '\\' := by
      rintro rfl
      simp [stops, isSpace] at stop
    rcases word with _ | ⟨d, word⟩
    · exact absurd rfl filled
    rw [parse_step room plain]
    by_cases space : isSpace c = true ∨ c = '|'
    · simp [space]
    · by_cases more : (done ++ [cliIntReturnNewword (d :: word)]).length < maxWords - 1
      · rw [parse_step more plain]
        simp_all [stops, begun]
      · have full : maxWords - 1 ≤ (done ++ [cliIntReturnNewword (d :: word)]).length := by omega
        rw [parse_full full]
        simp_all [stops, begun, parse_full]

/-- What is spelled joins the word, and is the word once the backslashes are left out. -/
theorem parse_spelled (maxWords : Nat) (done : List Text) (rest : Text) (spelled : Spelled quote text word)
    (beyond : rest.head? ≠ some '\\') :
    ∀ before, ∃ typed, cliIntReturnNewword typed = cliIntReturnNewword before ++ word ∧
      (before ≠ [] → typed ≠ []) ∧
      parseLoop maxWords done (some before) quote (text ++ rest) = parseLoop maxWords done (some typed) quote rest := by
  induction spelled with
  | nil => exact fun before => ⟨before, by simp, id, rfl⟩
  | @char c text word inside plain spelled ih =>
    intro before
    obtain ⟨typed, spelt, filled, same⟩ := ih (before ++ [c])
    refine ⟨typed, ?_, fun _ => filled (by simp), ?_⟩
    · rw [spelt]
      simp [cliIntReturnNewword, plain]
    · rw [List.cons_append, parse_char plain inside, same]
  | @escape c text word plain next spelled ih =>
    intro before
    obtain ⟨typed, spelt, filled, same⟩ := ih (before ++ ['\\', c])
    refine ⟨typed, ?_, fun _ => filled (by simp), ?_⟩
    · rw [spelt]
      simp [cliIntReturnNewword, plain]
    · rw [List.cons_append, List.cons_append, parse_escape, same]
      rcases text with _ | ⟨d, text⟩
      · simpa using beyond
      · simpa using next

theorem parse_of_room (fits : done.length ≤ maxWords - 1)
    (read : done.length < maxWords - 1 →
      parseLoop maxWords done word quote line = (done ++ words).take (maxWords - 1)) :
    parseLoop maxWords done word quote line = (done ++ words).take (maxWords - 1) := by
  rcases Nat.lt_or_ge done.length (maxWords - 1) with room | full
  · exact read room
  · rw [parse_full full, List.take_left' (by omega)]

theorem quote_facts (quote : c = '"' ∨ c = '\'') : c ≠ '\\' ∧ c ≠ '|' ∧ isSpace c = false := by
  rcases quote with rfl | rfl <;> decide

theorem parse_quote (room : done.length < maxWords - 1) (quote : c = '"' ∨ c = '\'')
    (fresh : word = none ∨ word = some []) (rest : Text) :
    parseLoop maxWords done word none (c :: rest) = parseLoop maxWords done (some []) (some c) rest := by
  obtain ⟨plain, bar, space⟩ := quote_facts quote
  rw [parse_step room plain]
  rcases fresh with rfl | rfl <;> simp [quote, bar, space, begun]

theorem parse_word (room : done.length < maxWords - 1) (fresh : word = none ∨ word = some [])
    (inside : stops none c = false) (plain : c ≠ '\\') (spelled : Spelled none text tail)
    (stopped : ∀ d ∈ line.head?, stops none d = true) :
    parseLoop maxWords done word none (c :: text ++ line) =
      parseLoop maxWords (done ++ [c :: tail]) none none line := by
  have beyond : line.head? ≠ some '\\' := by
    intro back
    have stop := stopped '\\' back
    simp [stops, isSpace] at stop
  have first : parseLoop maxWords done word none (c :: (text ++ line)) =
      parseLoop maxWords done (some [c]) none (text ++ line) := by
    rw [parse_step room plain]
    rcases fresh with rfl | rfl <;> simp_all [stops]
  obtain ⟨typed, spelt, filled, same⟩ := parse_spelled maxWords done line spelled beyond [c]
  rw [List.cons_append, first, same, parse_taken room (filled (by simp)) stopped, spelt]
  simp [cliIntReturnNewword, plain]

theorem parse_quoted (room : done.length < maxWords - 1) (quote : c = '"' ∨ c = '\'')
    (fresh : word = none ∨ word = some []) (spelled : Spelled (some c) text held) :
    parseLoop maxWords done word none (c :: text ++ c :: line) =
      parseLoop maxWords (done ++ [held]) none none line := by
  obtain ⟨plain, -, -⟩ := quote_facts quote
  obtain ⟨typed, spelt, -, same⟩ :=
    parse_spelled maxWords done (c :: line) spelled (by simpa using plain) []
  rw [List.cons_append, parse_quote room quote fresh, same, parse_step room plain, if_pos rfl]
  simp only [Option.map_some, spelt]
  rfl

theorem parse_unclosed (room : done.length < maxWords - 1) (quote : c = '"' ∨ c = '\'')
    (fresh : word = none ∨ word = some []) (spelled : Spelled (some c) text held) :
    parseLoop maxWords done word none (c :: text) = done ++ [held] := by
  obtain ⟨typed, spelt, -, same⟩ :=
    parse_spelled maxWords done [] spelled (by simp) []
  rw [List.append_nil] at same
  rw [parse_quote room quote fresh, same, parse_ended room]
  simp only [Option.map_some, spelt]
  rfl

theorem parse_typed (typed : Typed line words) : ∀ done, done.length ≤ maxWords - 1 →
    parseLoop maxWords done none none line = (done ++ words).take (maxWords - 1) := by
  induction typed with
  | nil =>
    refine fun done fits => parse_of_room fits fun room => ?_
    rw [parse_ended room, List.take_of_length_le (by simpa using fits)]
    rfl
  | @space c line words blank typed ih =>
    refine fun done fits => parse_of_room fits fun room => ?_
    have plain : c ≠ '\\' ∧ c ≠ '|' ∧ c ≠ '"' ∧ c ≠ '\'' := by
      refine ⟨?_, ?_, ?_, ?_⟩ <;> rintro rfl <;> simp [isSpace] at blank
    rw [parse_step room plain.1]
    simpa [plain, blank] using ih done fits
  | pipe typed ih =>
    refine fun done fits => parse_of_room fits fun room => ?_
    rw [parse_step room (by decide)]
    simpa [isSpace] using ih (done ++ [['|']]) (by simpa using Nat.succ_le_of_lt room)
  | word inside plain spelled stopped typed ih =>
    refine fun done fits => parse_of_room fits fun room => ?_
    rw [parse_word room (.inl rfl) inside plain spelled stopped, ih _ (by simpa using Nat.succ_le_of_lt room)]
    simp
  | quoted quote spelled typed ih =>
    refine fun done fits => parse_of_room fits fun room => ?_
    rw [parse_quoted room quote (.inl rfl) spelled, ih _ (by simpa using Nat.succ_le_of_lt room)]
    simp
  | unclosed quote spelled =>
    refine fun done fits => parse_of_room fits fun room => ?_
    rw [parse_unclosed room quote (.inl rfl) spelled, List.take_of_length_le]
    simpa using Nat.succ_le_of_lt room

theorem parse_from (dark : isSpace c = false) (line : Text) (maxWords : Nat) :
    cliParseLine (c :: line) maxWords = parseLoop maxWords [] (some []) none (c :: line) := by
  simp [cliParseLine, dark]

theorem leading_bare (dark : isSpace c = false) (bar : c ≠ '|') (line : Text) : leading (c :: line) = [] := by
  simp [leading, dark, bar]

theorem bare_facts (inside : stops none c = false) : isSpace c = false ∧ c ≠ '|' := by
  simp_all [stops]

/-- A typed line gives the words it says, up to the room of the array; a line that begins with a
pipe has an empty word before it. -/
theorem words_read_back (typed : Typed line words) (maxWords : Nat) :
    cliParseLine line maxWords = (leading line ++ words).take (maxWords - 1) := by
  induction typed with
  | nil => exact parse_typed .nil [] (Nat.zero_le _)
  | space blank typed ih => simpa [cliParseLine, leading, List.dropWhile_cons, blank] using ih
  | @pipe line words typed ih =>
    have dark : isSpace '|' = false := by decide
    rw [parse_from dark]
    refine parse_of_room (Nat.zero_le _) fun room => ?_
    rw [parse_step room (by decide)]
    exact parse_typed (.pipe typed) [[]] (Nat.succ_le_of_lt room)
  | word inside plain spelled stopped typed ih =>
    obtain ⟨dark, bar⟩ := bare_facts inside
    rw [List.cons_append, parse_from dark, leading_bare dark bar]
    refine parse_of_room (Nat.zero_le _) fun room => ?_
    rw [← List.cons_append, parse_word room (.inr rfl) inside plain spelled stopped,
      parse_typed typed _ (Nat.succ_le_of_lt room)]
    rfl
  | quoted quote spelled typed ih =>
    obtain ⟨plain, bar, dark⟩ := quote_facts quote
    rw [List.cons_append, parse_from dark, leading_bare dark bar]
    refine parse_of_room (Nat.zero_le _) fun room => ?_
    rw [← List.cons_append, parse_quoted room quote (.inr rfl) spelled,
      parse_typed typed _ (Nat.succ_le_of_lt room)]
    rfl
  | unclosed quote spelled =>
    obtain ⟨plain, bar, dark⟩ := quote_facts quote
    rw [parse_from dark, leading_bare dark bar]
    refine parse_of_room (Nat.zero_le _) fun room => ?_
    rw [parse_unclosed room quote (.inr rfl) spelled, List.take_of_length_le (Nat.succ_le_of_lt room)]

def isPipe (word : Text) : Bool := word.head? == some '|'

theorem stages_split (words : List Text) : ∀ stages : List (List Text) × List Text,
    (words.foldl stageStep stages).1 ++ [(words.foldl stageStep stages).2] =
      stages.1 ++ (words.splitOnP isPipe).modifyHead (stages.2 ++ ·) := by
  induction words with
  | nil => exact fun stages => by simp [List.splitOnP_nil]
  | cons word words ih =>
    intro stages
    rw [List.foldl_cons, ih, List.splitOnP_cons_eq_if_modifyHead]
    by_cases bar : word.head? = some '|'
    · have whole : (fun stage : List Text => stage) = id := rfl
      simp [stageStep, isPipe, bar, whole]
    · simp [stageStep, isPipe, bar, List.modifyHead_modifyHead, Function.comp_def]

theorem pipeline_split (line : Text) :
    cliIntGeneratePipeline line =
      (cliParseLine (line.dropWhile isSpace) CLI_MAX_LINE_WORDS).splitOnP isPipe := by
  have whole : (fun stage : List Text => stage) = id := rfl
  unfold cliIntGeneratePipeline
  simp [stages_split, whole]

theorem split_length (words : List Text) : (words.splitOnP isPipe).length = words.countP isPipe + 1 := by
  induction words with
  | nil => rfl
  | cons word words ih =>
    rw [List.splitOnP_cons_eq_if_modifyHead, List.countP_cons]
    by_cases bar : isPipe word = true <;> simp [bar, ih]

theorem split_flatten (words : List Text) :
    (words.splitOnP isPipe).flatten = words.filter fun word => !isPipe word := by
  induction words with
  | nil => rfl
  | cons word words ih =>
    rw [List.splitOnP_cons_eq_if_modifyHead]
    by_cases bar : isPipe word = true
    · simp [bar, ih]
    · rcases split : words.splitOnP isPipe with _ | ⟨stage, stages⟩
      · exact absurd split (List.splitOnP_ne_nil _ _)
      · simp_all

def Held (maxWords : Nat) (words : List Text) : Prop :=
  words.length ≤ maxWords - 1 ∧ ∀ word ∈ words, '\\' ∉ word

theorem Held.append (held : Held maxWords done) (room : done.length < maxWords - 1)
    (short : more.length ≤ 1) (clean : ∀ word ∈ more, '\\' ∉ word) : Held maxWords (done ++ more) := by
  refine ⟨by rw [List.length_append]; omega, fun word mem => ?_⟩
  rcases List.mem_append.mp mem with old | new
  · exact held.2 word old
  · exact clean word new

theorem newword_clean (word : Option Text) :
    (word.map cliIntReturnNewword).toList.length ≤ 1 ∧
      ∀ w ∈ (word.map cliIntReturnNewword).toList, '\\' ∉ w := by
  rcases word with _ | word <;> simp [cliIntReturnNewword]

theorem begun_clean (word : Option Text) : (begun word).length ≤ 1 ∧ ∀ w ∈ begun word, '\\' ∉ w := by
  rcases word with _ | _ | ⟨c, word⟩ <;> simp [begun, cliIntReturnNewword]

theorem parse_held (held : Held maxWords done) : Held maxWords (parseLoop maxWords done word quote line) := by
  fun_induction parseLoop maxWords done word quote line with
  | case1 => exact held.append ‹_› (newword_clean _).1 (newword_clean _).2
  | case2 | case3 =>
    rename_i ih
    exact ih (held.append ‹_› (newword_clean _).1 (newword_clean _).2)
  | case4 =>
    rename_i ih
    exact ih (held.append ‹_› (begun_clean _).1 (begun_clean _).2)
  | case6 =>
    rename_i ih
    exact ih (held.append ‹_› (by simp) (by simp))
  | case5 | case7 | case8 =>
    rename_i ih
    exact ih held
  | case9 => exact held

theorem line_held (line : Text) (maxWords : Nat) : Held maxWords (cliParseLine line maxWords) := by
  have empty : Held maxWords [] := ⟨Nat.zero_le _, by simp⟩
  unfold cliParseLine
  split <;> exact parse_held empty

/-- Whatever the line is, its words leave the last place of their array free and its stages fit in
theirs; the stages are the words between the pipes, in order, and no backslash is left. -/
theorem pipeline_fits (line : Text) :
    let words := cliParseLine (line.dropWhile isSpace) CLI_MAX_LINE_WORDS
    let stages := cliIntGeneratePipeline line
    words.length < CLI_MAX_LINE_WORDS ∧ stages.length ≤ CLI_MAX_LINE_WORDS ∧
      stages.length = words.countP isPipe + 1 ∧ stages.flatten = (words.filter fun word => !isPipe word) ∧
      ∀ word ∈ words, '\\' ∉ word := by
  intro words stages
  obtain ⟨fits, clean⟩ : Held CLI_MAX_LINE_WORDS words := line_held _ _
  have split : stages = words.splitOnP isPipe := pipeline_split line
  have pipes : words.countP isPipe ≤ words.length := List.countP_le_length
  have number : stages.length = words.countP isPipe + 1 := split ▸ split_length words
  have room : CLI_MAX_LINE_WORDS - 1 = 127 ∧ CLI_MAX_LINE_WORDS = 128 := ⟨rfl, rfl⟩
  exact ⟨by omega, by omega, number, split ▸ split_flatten words, clean⟩

end WlanBridge
