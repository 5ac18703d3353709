import WlanBridge.Commands
import WlanBridge.Memory
import WlanBridge.Terminal
import WlanBridge.Zipper

/-! The line that `cli_loop` edits: the keys as they change the buffer and as they are
written to the client, and that buffer and screen follow an editor of plain texts. -/
namespace WlanBridge

open Memory Terminal

def CLI_MAX_LINE_LENGTH : Nat := 4096

/-- `cmd`, `l` and `cursor` of `cli_loop`, with all that has been written to the client. -/
structure Line where
  cmd : Mem
  l : Nat
  cursor : Nat
  sent : Text

namespace Line

def write (e : Line) (text : Text) : Line := { e with sent := e.sent ++ text }

def echo (shown : Bool) (e : Line) (text : Text) : Line := if shown then e.write text else e

@[simp] theorem write_cmd (e : Line) (text : Text) : (e.write text).cmd = e.cmd := rfl

@[simp] theorem write_l (e : Line) (text : Text) : (e.write text).l = e.l := rfl

@[simp] theorem write_cursor (e : Line) (text : Text) : (e.write text).cursor = e.cursor := rfl

@[simp] theorem write_sent (e : Line) (text : Text) : (e.write text).sent = e.sent ++ text := rfl

@[simp] theorem echo_true (e : Line) (text : Text) : e.echo true text = e.write text := rfl

@[simp] theorem echo_false (e : Line) (text : Text) : e.echo false text = e := rfl

/-- One turn of the loop of a backspace. In the middle of a password the buffer stays as it is. -/
def rubout (shown : Bool) (e : Line) : Line :=
  if e.l = e.cursor then
    { e.echo shown [BS, ' ', BS] with
      cmd := Function.update e.cmd (e.cursor - 1) NUL, cursor := e.cursor - 1, l := e.l - 1 }
  else if shown then
    let rest := e.l - e.cursor
    { e.write ([BS] ++ slice e.cmd e.cursor rest ++ [' '] ++ List.replicate (rest + 1) BS) with
      cmd := Function.update (memmove e.cmd (e.cursor - 1) e.cursor rest) (e.l - 1) NUL
      cursor := e.cursor - 1
      l := e.l - 1 }
  else { e with cursor := e.cursor - 1, l := e.l - 1 }

def ruboutChar (shown : Bool) (e : Line) : Line :=
  if e.l = 0 ∨ e.cursor = 0 then e.write [BEL] else e.rubout shown

def isBlank (c : Char) : Bool := c == ' '

def wordStart (e : Line) : Nat :=
  (((slice e.cmd 0 e.cursor).rdropWhile isBlank).rdropWhile fun c => !isBlank c).length

def ruboutWord (shown : Bool) (e : Line) : Line :=
  if e.l = 0 ∨ e.cursor = 0 then e else (rubout shown)^[e.cursor - e.wordStart] e

def redraw (prompt : Text) (shown : Bool) (e : Line) : Line :=
  e.echo shown ("\r\n".toList ++ prompt ++ slice e.cmd 0 e.l ++ List.replicate (e.l - e.cursor) BS)

/-- `cli_clear_line`; the buffer holds what is written, and is cleared at last. -/
def cliClearLine (e : Line) : Line :=
  { e.write (List.replicate e.cursor BS ++ List.replicate e.l ' ' ++ List.replicate e.l BS) with
    cmd := memset (memset e.cmd 0 e.cursor BS) 0 e.l NUL }

def clear (shown : Bool) (e : Line) : Line :=
  { if shown then e.cliClearLine else { e with cmd := memset e.cmd 0 e.l NUL } with l := 0, cursor := 0 }

def kill (shown : Bool) (e : Line) : Line :=
  if e.cursor = e.l then e
  else
    let rest := e.l - e.cursor
    { e.echo shown (List.replicate rest ' ' ++ List.replicate rest BS) with
      cmd := memset e.cmd e.cursor rest NUL, l := e.cursor }

def left (shown : Bool) (e : Line) : Line :=
  if e.cursor ≠ 0 then { e.echo shown [BS] with cursor := e.cursor - 1 } else e

def right (shown : Bool) (e : Line) : Line :=
  if e.cursor < e.l then { e.echo shown [e.cmd e.cursor] with cursor := e.cursor + 1 } else e

def home (prompt : Text) (shown : Bool) (e : Line) : Line :=
  if e.cursor ≠ 0 then { e.echo shown ('\r' :: prompt) with cursor := 0 } else e

def toEnd (shown : Bool) (e : Line) : Line :=
  if e.cursor < e.l then { e.echo shown (slice e.cmd e.cursor (e.l - e.cursor)) with cursor := e.l } else e

def full (e : Line) : Bool := e.cursor == e.l && decide (e.l ≥ CLI_MAX_LINE_LENGTH - 1)

/-- A character is put into the buffer; in the middle, the rest is written, whatever is typed. -/
def insert (c : Char) (e : Line) : Line :=
  if e.cursor = e.l then
    { e with cmd := Function.update e.cmd e.cursor c, l := e.l + 1, cursor := e.cursor + 1 }
  else
    let cmd := Function.update (memmove e.cmd (e.cursor + 1) e.cursor (e.l - e.cursor)) e.cursor c
    let (cmd, l) := if e.l = CLI_MAX_LINE_LENGTH - 1 then (Function.update cmd e.l NUL, e.l) else (cmd, e.l + 1)
    { e.write (slice cmd e.cursor (l - e.cursor) ++ List.replicate (l - e.cursor) BS) with
      cmd := cmd, l := l, cursor := e.cursor + 1 }

/-- A completion takes the place of the word at the end of the line. -/
def retype (stop : Char → Bool) (word : Text) (e : Line) : Line :=
  let keep := ((slice e.cmd 0 e.l).rdropWhile fun c => !stop c).length
  { e.write (List.replicate (e.l - keep) BS ++ word) with
    cmd := store e.cmd keep word, l := keep + word.length, cursor := keep + word.length }

def bringBack (line : Text) (e : Line) : Line :=
  let text := line.take (CLI_MAX_LINE_LENGTH - 1)
  { e.cliClearLine.write text with
    cmd := store (memset e.cliClearLine.cmd 0 CLI_MAX_LINE_LENGTH NUL) 0 text, l := text.length, cursor := text.length }

end Line

inductive EditKey where
  | bell
  | ruboutWord
  | ruboutChar
  | redraw
  | clear
  | kill
  | left
  | right
  | home
  | toEnd
  deriving DecidableEq, Repr

namespace EditKey

/-- What the code does to the line. -/
def act (shown : Bool) (prompt : Text) : EditKey → Line → Line
  | bell => fun e => e.write [BEL]
  | ruboutWord => Line.ruboutWord shown
  | ruboutChar => Line.ruboutChar shown
  | redraw => Line.redraw prompt shown
  | clear => Line.clear shown
  | kill => Line.kill shown
  | left => Line.left shown
  | right => Line.right shown
  | home => Line.home prompt shown
  | toEnd => Line.toEnd shown

/-- What an editor of plain texts does. -/
def means : EditKey → Zipper Char → Zipper Char
  | bell => id
  | ruboutWord => fun z => z.ruboutWord Line.isBlank
  | ruboutChar => Zipper.rubout
  | redraw => id
  | clear => fun _ => .atEnd []
  | kill => Zipper.kill
  | left => Zipper.left
  | right => Zipper.right
  | home => Zipper.home
  | toEnd => Zipper.toEnd

end EditKey

/-- The buffer holds the text of an editor, and the terminal shows it behind the prompt, with its
cursor where the editor's is. -/
structure Line.Shows (base : Mem) (screen : Screen) (prompt : Text) (e : Line) (z : Zipper Char) : Prop where
  holds : Contains base CLI_MAX_LINE_LENGTH e.cmd z.text
  l : e.l = z.text.length
  cursor : e.cursor = z.front.length
  printable : ∀ c ∈ z.text, Printable c
  shown : (screen.shown e.sent).Shows (prompt ++ z.text) (prompt.length + z.front.length)

/-- What `Line.Shows` says about the buffer. -/
structure Line.Edits (base : Mem) (e : Line) (z : Zipper Char) : Prop where
  holds : Contains base CLI_MAX_LINE_LENGTH e.cmd z.text
  l : e.l = z.text.length
  cursor : e.cursor = z.front.length
  printable : ∀ c ∈ z.text, Printable c

theorem Line.Edits.write (s : Line.Edits base e z) (text : Text) : (e.write text).Edits base z :=
  ⟨s.holds, s.l, s.cursor, s.printable⟩

theorem Line.Edits.redraw (s : Line.Edits base e z) (screen : Screen) (printable : ∀ c ∈ prompt, Printable c) :
    (e.redraw prompt true).Shows base screen prompt z := by
  obtain ⟨front, back⟩ := z
  have whole : slice e.cmd 0 e.l = front ++ back := by
    rw [s.l]
    exact s.holds.slice_all
  have rest : e.l - e.cursor = back.length := by simp [s.l, s.cursor, Zipper.text]
  have drawn := (Screen.Shows.append (newline (screen.shown e.sent)) (prompt ++ (front ++ back)) (by
    intro c member
    rcases List.mem_append.mp member with first | second
    · exact printable c first
    · exact s.printable c second)).back back.length
  refine ⟨s.holds, s.l, s.cursor, s.printable, ?_⟩
  have crlf : "\r\n".toList = ['\r', '\n'] := rfl
  have col : prompt.length + (front.length + back.length) - back.length = prompt.length + front.length := by omega
  simp only [Line.redraw, Line.echo_true, Line.write_sent, shown_append, whole, rest, crlf]
  simpa [Zipper.text, shown_append, col] using drawn

namespace Line.Shows
variable {base : Mem} {screen : Screen} {prompt : Text} {e : Line} {z : Zipper Char}

theorem edits (s : e.Shows base screen prompt z) : e.Edits base z := ⟨s.holds, s.l, s.cursor, s.printable⟩

theorem rest_length (s : e.Shows base screen prompt z) : e.l - e.cursor = z.back.length := by
  rw [s.l, s.cursor, Zipper.text, List.length_append, Nat.add_sub_cancel_left]

theorem bell (s : e.Shows base screen prompt z) : (e.write [BEL]).Shows base screen prompt z := by
  refine ⟨s.holds, s.l, s.cursor, s.printable, ?_⟩
  rw [Line.write, shown_append]
  exact s.shown.bell

theorem left (s : e.Shows base screen prompt z) : (e.left true).Shows base screen prompt z.left := by
  obtain ⟨front, back⟩ := z
  rcases List.eq_nil_or_concat' front with rfl | ⟨front, c, rfl⟩
  · have size : e.cursor = 0 := s.cursor
    simpa [Line.left, size, Zipper.left] using s
  · have size : e.cursor = front.length + 1 := by simpa using s.cursor
    have moved := s.shown.back 1
    rw [Line.left, if_pos (by omega)]
    refine ⟨by simpa [Zipper.left, Zipper.text] using s.holds, by simpa [Zipper.left, Zipper.text] using s.l,
      by simp [Zipper.left, size], by simpa [Zipper.left, Zipper.text] using s.printable, ?_⟩
    simp only [Line.echo_true, Line.write_sent, shown_append]
    simpa [Zipper.left, Zipper.text, ← Nat.add_assoc] using moved

theorem right (s : e.Shows base screen prompt z) : (e.right true).Shows base screen prompt z.right := by
  obtain ⟨front, _ | ⟨c, back⟩⟩ := z
  · have whole : ¬e.cursor < e.l := by simp [s.l, s.cursor, Zipper.text]
    rw [Line.right, if_neg whole]
    exact s
  · have inside : e.cursor < e.l := by simp [s.l, s.cursor, Zipper.text]
    have char : e.cmd e.cursor = c := s.cursor ▸ s.holds.char
    have before : (screen.shown e.sent).Shows ((prompt ++ front) ++ ([c] ++ back)) (prompt ++ front).length := by
      simpa [Zipper.text] using s.shown
    have moved := before.retrace (by simpa using s.printable c (by simp [Zipper.text]))
    rw [Line.right, if_pos inside]
    refine ⟨by simpa [Zipper.right, Zipper.text] using s.holds, by simpa [Zipper.right, Zipper.text] using s.l,
      by simpa [Zipper.right] using s.cursor, by simpa [Zipper.right, Zipper.text] using s.printable, ?_⟩
    simp only [Line.echo_true, Line.write_sent, shown_append, char]
    simpa [Zipper.right, Zipper.text, Nat.add_assoc] using moved

theorem home (s : e.Shows base screen prompt z) (printable : ∀ c ∈ prompt, Printable c) :
    (e.home prompt true).Shows base screen prompt z.home := by
  obtain ⟨front, back⟩ := z
  by_cases start : e.cursor ≠ 0
  · have before : ((screen.shown e.sent).shown ['\r']).Shows ([] ++ (prompt ++ (front ++ back))) 0 := by
      simpa [Zipper.text] using s.shown.home
    have moved := before.retrace printable
    rw [Line.home, if_pos start]
    refine ⟨s.holds, s.l, rfl, s.printable, ?_⟩
    have split : '\r' :: prompt = ['\r'] ++ prompt := rfl
    simp only [Line.echo_true, Line.write_sent, split, shown_append]
    simpa [Zipper.home, Zipper.text] using moved
  · have empty : front = [] := List.length_eq_zero_iff.mp (s.cursor.symm.trans (not_not.mp start))
    subst empty
    rw [Line.home, if_neg start]
    exact s

theorem toEnd (s : e.Shows base screen prompt z) : (e.toEnd true).Shows base screen prompt z.toEnd := by
  obtain ⟨front, back⟩ := z
  by_cases inside : e.cursor < e.l
  · have rest := s.rest_length
    have part : slice e.cmd e.cursor (e.l - e.cursor) = back := by
      rw [rest, s.cursor]
      exact s.holds.slice
    have before : (screen.shown e.sent).Shows ((prompt ++ front) ++ (back ++ [])) (prompt ++ front).length := by
      simpa [Zipper.text] using s.shown
    have moved := before.retrace fun c member => s.printable c (by simp [Zipper.text, member])
    rw [Line.toEnd, if_pos inside, part]
    refine ⟨by simpa using s.holds, by simpa using s.l, by simpa [Zipper.toEnd, Zipper.atEnd] using s.l,
      by simpa using s.printable, ?_⟩
    simp only [Line.echo_true, Line.write_sent, shown_append]
    simpa [Zipper.toEnd, Zipper.atEnd, Zipper.text, Nat.add_assoc] using moved
  · have rest : (⟨front, back⟩ : Zipper Char).back.length = 0 := by
      rw [← s.rest_length]
      omega
    obtain rfl : back = [] := List.length_eq_zero_iff.mp rest
    rw [Line.toEnd, if_neg inside]
    simpa [Zipper.toEnd, Zipper.atEnd, Zipper.text] using s

theorem rubout (s : e.Shows base screen prompt z) (inside : z.front ≠ []) :
    (e.rubout true).Shows base screen prompt z.rubout := by
  obtain ⟨front, back⟩ := z
  rcases List.eq_nil_or_concat' front with rfl | ⟨front, c, rfl⟩
  · exact absurd rfl inside
  have cursor : e.cursor = front.length + 1 := by simpa using s.cursor
  have length : e.l = front.length + 1 + back.length := by simp [s.l, Zipper.text, Nat.add_assoc]; omega
  have printable : ∀ d ∈ front ++ back, Printable d := fun d member => s.printable d (by
    rcases List.mem_append.mp member with first | second
    · simp [Zipper.text, first]
    · simp [Zipper.text, second])
  have stepped := s.shown.back 1
  have col : prompt.length + (front ++ [c]).length - 1 = (prompt ++ front).length := by simp
  rw [col] at stepped
  rcases back with _ | ⟨d, back⟩
  · have before : ((screen.shown e.sent).shown (List.replicate 1 BS)).Shows ((prompt ++ front) ++ [c])
        (prompt ++ front).length := by simpa [Zipper.text] using stepped
    have wiped := (before.replace [] 1 (by simp) (by simp)).back 1
    rw [Line.rubout, if_pos (by simp [cursor, length])]
    refine ⟨?_, by simp [Zipper.rubout, Zipper.text, length], by simp [Zipper.rubout, cursor],
      by simpa [Zipper.rubout, Zipper.text] using printable, ?_⟩
    · have whole : Contains base CLI_MAX_LINE_LENGTH e.cmd (front ++ [c]) := by simpa [Zipper.text] using s.holds
      simpa [Zipper.rubout, Zipper.text, cursor] using whole.chop
    · have split : [BS, ' ', BS] = [BS] ++ ([] ++ List.replicate 1 ' ') ++ List.replicate 1 BS := rfl
      simp only [Line.echo_true, Line.write_sent, split, shown_append] at wiped ⊢
      simpa [Zipper.rubout, Zipper.text] using wiped
  · have rest := s.rest_length
    have part : slice e.cmd e.cursor (d :: back).length = d :: back := by
      rw [s.cursor]
      exact s.holds.slice
    have before : ((screen.shown e.sent).shown (List.replicate 1 BS)).Shows ((prompt ++ front) ++ c :: d :: back)
        (prompt ++ front).length := by simpa [Zipper.text] using stepped
    have moved := (before.replace (d :: back) 1 (fun x member => printable x (List.mem_append_right _ member))
      (by simp)).back (back.length + 2)
    rw [Line.rubout, if_neg (by simp [cursor, length]), if_pos rfl]
    simp only [rest, part]
    refine ⟨?_, by simp [Zipper.rubout, Zipper.text, length]; omega, by simp [Zipper.rubout, cursor],
      by simpa [Zipper.rubout, Zipper.text] using printable, ?_⟩
    · have whole : Contains base CLI_MAX_LINE_LENGTH e.cmd (front ++ c :: d :: back) := by
        simpa [Zipper.text] using s.holds
      have held := whole.remove
      have last : e.l - 1 = front.length + (d :: back).length := by
        rw [length]
        omega
      simpa [Zipper.rubout, Zipper.text, cursor, last] using held
    · have there : (prompt ++ front).length + (d :: back).length + 1 - (back.length + 2) =
          prompt.length + front.length := by simp
      simp only [Line.write_sent, List.append_assoc, shown_append] at moved ⊢
      rw [there] at moved
      simpa [Zipper.rubout, Zipper.text] using moved

theorem ruboutChar (s : e.Shows base screen prompt z) :
    (e.ruboutChar true).Shows base screen prompt z.rubout := by
  rcases front : z.front with _ | ⟨c, rest⟩
  · have start : e.cursor = 0 := by rw [s.cursor, front]; rfl
    have same : z.rubout = z := by
      obtain ⟨_, back⟩ := z
      obtain rfl := front
      rfl
    rw [Line.ruboutChar, if_pos (.inr start), same]
    exact s.bell
  · have cursor : e.cursor = rest.length + 1 := by rw [s.cursor, front]; rfl
    have length : e.cursor ≤ e.l := by rw [s.l, s.cursor, Zipper.text, List.length_append]; omega
    rw [Line.ruboutChar, if_neg (by omega)]
    exact s.rubout (by simp [front])

theorem rubout_iterate (s : e.Shows base screen prompt z) (n : Nat) (inside : n ≤ z.front.length) :
    ((Line.rubout true)^[n] e).Shows base screen prompt (Zipper.rubout^[n] z) := by
  induction n with
  | zero => exact s
  | succ n ih =>
    rw [Function.iterate_succ_apply', Function.iterate_succ_apply']
    refine (ih (by omega)).rubout ?_
    rw [Zipper.rubout_iterate]
    intro empty
    have size := congrArg List.length empty
    simp only [List.length_take, List.length_nil] at size
    omega

theorem ruboutWord (s : e.Shows base screen prompt z) :
    (e.ruboutWord true).Shows base screen prompt (z.ruboutWord Line.isBlank) := by
  have front : slice e.cmd 0 e.cursor = z.front := by
    rw [s.cursor]
    exact s.holds.slice_front
  by_cases start : e.l = 0 ∨ e.cursor = 0
  · have length : e.cursor ≤ e.l := by rw [s.l, s.cursor, Zipper.text, List.length_append]; omega
    have cursor : e.cursor = 0 := by omega
    have empty : z.front = [] := List.length_eq_zero_iff.mp (s.cursor.symm.trans cursor)
    have same : z.ruboutWord Line.isBlank = z := by
      obtain ⟨_, back⟩ := z
      obtain rfl := empty
      rfl
    rw [Line.ruboutWord, if_pos start, same]
    exact s
  · rw [Line.ruboutWord, if_neg start, Zipper.ruboutWord_eq, Line.wordStart, front, s.cursor]
    exact s.rubout_iterate _ (Nat.sub_le _ _)

theorem wiped (s : e.Shows base screen prompt z) :
    ((screen.shown e.cliClearLine.sent).Shows prompt prompt.length) ∧
      Contains base CLI_MAX_LINE_LENGTH e.cliClearLine.cmd [] := by
  have length : z.text.length = z.front.length + z.back.length := List.length_append
  have back := s.shown.back e.cursor
  rw [s.cursor, Nat.add_sub_cancel] at back
  have blank := (back.replace [] e.l (by simp) (by simp [s.l])).back e.l
  constructor
  · simp only [Line.cliClearLine, Line.write_sent, shown_append, s.cursor] at blank ⊢
    simpa using blank
  · have same : memset (memset e.cmd 0 e.cursor BS) 0 e.l NUL = memset e.cmd 0 e.l NUL := by
      funext i
      simp only [memset, s.cursor, s.l, length]
      split
      · rfl
      · rw [if_neg (by omega)]
    have whole : Contains base CLI_MAX_LINE_LENGTH e.cmd ([] ++ z.text) := s.holds
    have held := whole.cut
    rw [← s.l] at held
    simpa [Line.cliClearLine, same] using held

theorem clear (s : e.Shows base screen prompt z) : (e.clear true).Shows base screen prompt (.atEnd []) := by
  obtain ⟨shown, held⟩ := s.wiped
  exact ⟨by simpa [Line.clear] using held, rfl, rfl, by simp [Zipper.atEnd, Zipper.text],
    by simpa [Line.clear, Zipper.atEnd, Zipper.text] using shown⟩

theorem kill (s : e.Shows base screen prompt z) : (e.kill true).Shows base screen prompt z.kill := by
  obtain ⟨front, back⟩ := z
  have rest := s.rest_length
  have length : e.l = front.length + back.length := by simpa [Zipper.text] using s.l
  have cursor : e.cursor = front.length := s.cursor
  by_cases whole : e.cursor = e.l
  · obtain rfl : back = [] := List.length_eq_zero_iff.mp (by omega)
    rw [Line.kill, if_pos whole]
    exact s
  · have before : (screen.shown e.sent).Shows ((prompt ++ front) ++ back) (prompt ++ front).length := by
      simpa [Zipper.text] using s.shown
    have blank := (before.replace [] back.length (by simp) (by simp)).back back.length
    have all : Contains base CLI_MAX_LINE_LENGTH e.cmd (front ++ back) := s.holds
    have held := all.cut
    rw [Line.kill, if_neg whole, rest]
    refine ⟨by simpa [Zipper.kill, Zipper.text, cursor] using held, by simpa [Zipper.kill, Zipper.text] using cursor,
      cursor, fun c member => s.printable c (List.mem_append_left _ (by simpa [Zipper.kill, Zipper.text] using member)), ?_⟩
    simp only [Line.echo_true, Line.write_sent, shown_append] at blank ⊢
    simpa [Zipper.kill, Zipper.text] using blank

theorem inserted {s : Screen} {front back : Text} (rest : Text) {c : Char}
    (shown : s.Shows (prompt ++ (front ++ back)) (prompt.length + front.length))
    (printable : ∀ d ∈ c :: rest, Printable d) (covers : back.length ≤ rest.length + 1) :
    (((s.shown (c :: rest)).shown (List.replicate (rest.length + 1) BS)).shown [c]).Shows
      (prompt ++ (front ++ c :: rest)) (prompt.length + (front.length + 1)) := by
  have before : s.Shows ((prompt ++ front) ++ back) (prompt ++ front).length := by simpa using shown
  have rewritten := (before.replace (c :: rest) 0 printable (by simpa using covers)).back (rest.length + 1)
  have there : (prompt ++ front).length + (c :: rest).length + 0 - (rest.length + 1) = (prompt ++ front).length := by
    simp
  rw [there, List.replicate_zero, List.append_nil] at rewritten
  have typed : ((s.shown (c :: rest)).shown (List.replicate (rest.length + 1) BS)).Shows
      ((prompt ++ front) ++ ([c] ++ rest)) (prompt ++ front).length := by simpa using rewritten
  have again := typed.retrace (by simpa using printable c (by simp))
  simpa [Nat.add_assoc] using again

theorem inserted_line {front back rest : Text} {c : Char} {cmd : Mem} {l : Nat}
    (s : e.Shows base screen prompt ⟨front, back⟩) (held : Contains base CLI_MAX_LINE_LENGTH cmd (front ++ c :: rest))
    (length : l = front.length + (rest.length + 1)) (printable : ∀ d ∈ front ++ c :: rest, Printable d)
    (covers : back.length ≤ rest.length + 1) :
    (Line.write { e.write (slice cmd e.cursor (l - e.cursor) ++ List.replicate (l - e.cursor) BS) with
        cmd := cmd, l := l, cursor := e.cursor + 1 } [c]).Shows base screen prompt ⟨front ++ [c], rest⟩ := by
  have cursor : e.cursor = front.length := s.cursor
  have width : l - e.cursor = (c :: rest).length := by simp [length, cursor]
  have part : slice cmd e.cursor (l - e.cursor) = c :: rest := by
    rw [width, cursor]
    exact held.slice
  have shown := inserted rest s.shown (fun d member => printable d (List.mem_append_right _ member)) covers
  refine ⟨by simpa [Zipper.text] using held, by simpa [Zipper.text] using length, by simp [cursor],
    by simpa [Zipper.text] using printable, ?_⟩
  simp only [Line.write_sent]
  rw [part, width, List.length_cons, ← List.append_assoc, shown_append, shown_append, shown_append]
  simpa [Zipper.text] using shown

theorem insert (s : e.Shows base screen prompt z) (room : e.full = false) (c : Char) (printable : Printable c) :
    ((e.insert c).write [c]).Shows base screen prompt (z.insert (CLI_MAX_LINE_LENGTH - 1) c) := by
  obtain ⟨front, back⟩ := z
  have length : e.l = front.length + back.length := by simpa [Zipper.text] using s.l
  have cursor : e.cursor = front.length := s.cursor
  have fits : front.length + back.length < CLI_MAX_LINE_LENGTH := by simpa [Zipper.text] using s.holds.fits
  have size : CLI_MAX_LINE_LENGTH = 4096 := rfl
  have all (rest : Text) (part : ∀ d ∈ rest, d ∈ back) : ∀ d ∈ front ++ c :: rest, Printable d := by
    intro d member
    rcases List.mem_append.mp member with before | behind
    · exact s.printable d (List.mem_append_left _ before)
    · rcases List.mem_cons.mp behind with rfl | behind
      · exact printable
      · exact s.printable d (List.mem_append_right _ (part d behind))
  rcases List.eq_nil_or_concat' back with rfl | ⟨back, d, rfl⟩
  · have short : front.length < CLI_MAX_LINE_LENGTH - 1 := by
      simp only [Line.full, length, cursor, List.length_nil, Nat.add_zero, beq_self_eq_true, Bool.true_and,
        decide_eq_false_iff_not] at room
      omega
    have before : (screen.shown e.sent).Shows (prompt ++ front) (prompt ++ front).length := by
      simpa [Zipper.text] using s.shown
    have written := before.append [c] (by simpa using printable)
    have held := Contains.append (c := c) s.holds (by simp [Zipper.text]; omega)
    rw [Line.insert, if_pos (by simp [cursor, length]), Zipper.insert, if_pos (by simpa [Zipper.text] using short)]
    refine ⟨by simpa [Zipper.text, cursor] using held, by simp [Zipper.text, length], by simp [cursor],
      by simpa [Zipper.text] using all [] (by simp), ?_⟩
    simp only [Line.write_sent, shown_append]
    simpa [Zipper.text] using written
  · have behind : ¬e.cursor = e.l := by simp [cursor, length]
    have rest : e.l - e.cursor = back.length + 1 := by simp [length, cursor]
    have end_ : e.l = front.length + back.length + 1 := by simpa [Nat.add_assoc] using length
    rw [Line.insert, if_neg behind, Zipper.insert]
    by_cases last : e.l = CLI_MAX_LINE_LENGTH - 1
    · have whole : Contains base CLI_MAX_LINE_LENGTH e.cmd (front ++ (back ++ [d])) := s.holds
      have held := whole.push_out (c := c) (by omega)
      rw [← end_, ← rest, ← cursor] at held
      rw [if_neg (by simp [Zipper.text]; omega), if_neg (by simp), List.dropLast_concat]
      simp only [if_pos last]
      exact s.inserted_line held (by omega) (all back (by simp +contextual)) (by simp)
    · have whole : Contains base CLI_MAX_LINE_LENGTH e.cmd (front ++ (back ++ [d])) := s.holds
      have held := whole.insert (c := c) (by simp; omega)
      have width : (back ++ [d]).length = e.l - e.cursor := by simp [rest]
      rw [width, ← cursor] at held
      rw [if_pos (by simp [Zipper.text]; omega)]
      simp only [if_neg last]
      exact s.inserted_line held (by simp; omega) (all (back ++ [d]) (by simp)) (by simp)

/-- A full line takes no more at its end; the bell that is written for it is all. -/
theorem full_line (s : e.Shows base screen prompt z) (full : e.full = true) (c : Char) :
    z.insert (CLI_MAX_LINE_LENGTH - 1) c = z := by
  obtain ⟨front, back⟩ := z
  have length : e.l = front.length + back.length := by simpa [Zipper.text] using s.l
  have cursor : e.cursor = front.length := s.cursor
  simp only [Line.full, Bool.and_eq_true, beq_iff_eq, decide_eq_true_eq] at full
  obtain rfl : back = [] := List.length_eq_zero_iff.mp (by omega)
  rw [Zipper.insert, if_neg (by simp [Zipper.text]; simp at length; omega), if_pos rfl]

theorem retype (s : e.Shows base screen prompt z) (whole : z.back = []) (stop : Char → Bool) (word : Text)
    (printable : ∀ c ∈ word, Printable c)
    (covers : z.front.length ≤ (z.front.rdropWhile fun c => !stop c).length + word.length)
    (room : (z.front.rdropWhile fun c => !stop c).length + word.length < CLI_MAX_LINE_LENGTH) :
    (e.retype stop word).Shows base screen prompt (z.retype stop word) := by
  obtain ⟨front, back⟩ := z
  obtain rfl : back = [] := whole
  obtain ⟨old, split⟩ := List.rdropWhile_prefix (fun c => !stop c) front
  generalize keep_eq : (front.rdropWhile fun c => !stop c) = keep at *
  subst split
  have held : Contains base CLI_MAX_LINE_LENGTH e.cmd (keep ++ old) := by simpa [Zipper.text] using s.holds
  have length : e.l = keep.length + old.length := by simpa [Zipper.text] using s.l
  have front : slice e.cmd 0 e.l = keep ++ old := by
    rw [length, ← List.length_append]
    exact held.slice_all
  have stepped := s.shown.back old.length
  have col : prompt.length + (keep ++ old).length - old.length = (prompt ++ keep).length := by simp; omega
  rw [col] at stepped
  have before : ((screen.shown e.sent).shown (List.replicate old.length BS)).Shows ((prompt ++ keep) ++ old)
      (prompt ++ keep).length := by simpa [Zipper.text] using stepped
  have typed := before.replace word 0 printable (by simp at covers; omega)
  have written : Contains base CLI_MAX_LINE_LENGTH (store e.cmd keep.length word) (keep ++ word) :=
    held.rewrite (by simp at covers; omega) room
  have result : (⟨keep ++ old, []⟩ : Zipper Char).retype stop word = ⟨keep ++ word, []⟩ := by
    rw [Zipper.retype, keep_eq]
  rw [result, Line.retype, front, keep_eq]
  refine ⟨by simpa [Zipper.text] using written, by simp [Zipper.text], by simp, ?_, ?_⟩
  · intro c member
    rw [Zipper.text, List.append_nil, List.mem_append] at member
    rcases member with kept | new
    · exact s.printable c (by simp [Zipper.text, kept])
    · exact printable c new
  · simp only [Line.write_sent, shown_append, length, Nat.add_sub_cancel_left]
    simpa [Zipper.text, Nat.add_assoc] using typed

theorem bringBack (s : e.Shows base screen prompt z) (line : Text) (printable : ∀ c ∈ line, Printable c)
    (fits : line.length < CLI_MAX_LINE_LENGTH) : (e.bringBack line).Shows base screen prompt (.atEnd line) := by
  obtain ⟨shown, held⟩ := s.wiped
  have whole : line.take (CLI_MAX_LINE_LENGTH - 1) = line := List.take_of_length_le (by omega)
  have cleared : Contains base CLI_MAX_LINE_LENGTH (memset e.cliClearLine.cmd 0 CLI_MAX_LINE_LENGTH NUL) ([] ++ []) :=
    contains_nil held.outside (by decide)
  have stored := cleared.rewrite (Nat.zero_le line.length) (by simpa using fits)
  have typed := shown.append line printable
  rw [Line.bringBack, whole]
  refine ⟨by simpa using stored, by simp, by simp [Zipper.atEnd], by simpa using printable, ?_⟩
  simp only [Line.write_sent, shown_append] at typed ⊢
  simpa [Zipper.atEnd, Zipper.text] using typed

end Line.Shows

/-- Every key does to buffer and screen what it means. -/
theorem EditKey.act_shows (key : EditKey) (s : Line.Shows base screen prompt e z)
    (printable : ∀ c ∈ prompt, Printable c) : (key.act true prompt e).Shows base screen prompt (key.means z) := by
  cases key with
  | bell => exact s.bell
  | ruboutWord => exact s.ruboutWord
  | ruboutChar => exact s.ruboutChar
  | redraw => exact s.edits.redraw screen printable
  | clear => exact s.clear
  | kill => exact s.kill
  | left => exact s.left
  | right => exact s.right
  | home => exact s.home printable
  | toEnd => exact s.toEnd

/-- The line fits its buffer, and nothing behind the buffer has been written. -/
structure Line.Bounded (base : Mem) (e : Line) : Prop where
  l : e.l < CLI_MAX_LINE_LENGTH
  cursor : e.cursor ≤ e.l
  outside : ∀ i, CLI_MAX_LINE_LENGTH ≤ i → e.cmd i = base i

theorem Line.Shows.bounded (s : Line.Shows base screen prompt e z) : e.Bounded base :=
  ⟨s.l.trans_lt s.holds.fits, by rw [s.l, s.cursor, Zipper.text, List.length_append]; omega, s.holds.outside⟩

namespace Line.Bounded
variable {base : Mem} {e : Line}

theorem rubout (b : e.Bounded base) (shown : Bool) : (e.rubout shown).Bounded base := by
  have l := b.l
  have cursor := b.cursor
  unfold Line.rubout
  split
  · refine ⟨by dsimp only; omega, by dsimp only; omega, fun i behind => ?_⟩
    simp only
    rw [Function.update_of_ne (by omega)]
    exact b.outside i behind
  · split
    · refine ⟨by dsimp only; omega, by dsimp only; omega, fun i behind => ?_⟩
      simp only
      rw [Function.update_of_ne (by omega), memmove, if_neg (by omega)]
      exact b.outside i behind
    · exact ⟨by dsimp only; omega, by dsimp only; omega, b.outside⟩

theorem rubout_iterate (b : e.Bounded base) (shown : Bool) (n : Nat) :
    ((Line.rubout shown)^[n] e).Bounded base := by
  induction n with
  | zero => exact b
  | succ n ih =>
    rw [Function.iterate_succ_apply']
    exact ih.rubout shown

theorem write (b : e.Bounded base) (text : Text) : (e.write text).Bounded base := ⟨b.l, b.cursor, b.outside⟩

theorem echo (b : e.Bounded base) (shown : Bool) (text : Text) : (e.echo shown text).Bounded base := by
  cases shown
  · exact b
  · exact b.write text

theorem ruboutChar (b : e.Bounded base) (shown : Bool) : (e.ruboutChar shown).Bounded base := by
  unfold Line.ruboutChar
  split
  · exact b.write _
  · exact b.rubout shown

theorem ruboutWord (b : e.Bounded base) (shown : Bool) : (e.ruboutWord shown).Bounded base := by
  unfold Line.ruboutWord
  split
  · exact b
  · exact b.rubout_iterate shown _

theorem filled (b : e.Bounded base) (start n : Nat) (c : Char) (inside : start + n ≤ e.l) :
    ∀ i, CLI_MAX_LINE_LENGTH ≤ i → memset e.cmd start n c i = base i := by
  intro i behind
  have l := b.l
  rw [memset, if_neg (by omega)]
  exact b.outside i behind

theorem clear (b : e.Bounded base) (shown : Bool) : (e.clear shown).Bounded base := by
  have l := b.l
  have cursor := b.cursor
  have filled : 0 < CLI_MAX_LINE_LENGTH := by decide
  refine ⟨filled, Nat.le_refl 0, fun i behind => ?_⟩
  cases shown
  · exact b.filled 0 e.l NUL (by omega) i behind
  · simp only [Line.clear, if_true, Line.cliClearLine]
    rw [memset, if_neg (by omega)]
    exact b.filled 0 e.cursor BS (by omega) i behind

theorem kill (b : e.Bounded base) (shown : Bool) : (e.kill shown).Bounded base := by
  unfold Line.kill
  split
  · exact b
  · have cursor := b.cursor
    have outside := b.filled e.cursor (e.l - e.cursor) NUL (by omega)
    cases shown <;> exact ⟨cursor.trans_lt b.l, Nat.le_refl _, outside⟩

theorem left (b : e.Bounded base) (shown : Bool) : (e.left shown).Bounded base := by
  unfold Line.left
  split
  · cases shown <;> exact ⟨b.l, (Nat.sub_le _ _).trans b.cursor, b.outside⟩
  · exact b

theorem right (b : e.Bounded base) (shown : Bool) : (e.right shown).Bounded base := by
  unfold Line.right
  split
  · rename_i inside
    cases shown <;> exact ⟨b.l, inside, b.outside⟩
  · exact b

theorem home (b : e.Bounded base) (prompt : Text) (shown : Bool) : (e.home prompt shown).Bounded base := by
  unfold Line.home
  split
  · cases shown <;> exact ⟨b.l, Nat.zero_le _, b.outside⟩
  · exact b

theorem toEnd (b : e.Bounded base) (shown : Bool) : (e.toEnd shown).Bounded base := by
  unfold Line.toEnd
  split
  · cases shown <;> exact ⟨b.l, Nat.le_refl _, b.outside⟩
  · exact b

theorem insert (b : e.Bounded base) (room : e.full = false) (c : Char) : (e.insert c).Bounded base := by
  have l := b.l
  have cursor := b.cursor
  unfold Line.insert
  split
  · rename_i last
    simp only [Line.full, last, beq_self_eq_true, Bool.true_and, decide_eq_false_iff_not] at room
    refine ⟨by dsimp only; omega, by dsimp only; omega, fun i behind => ?_⟩
    dsimp only
    rw [Function.update_of_ne (by omega)]
    exact b.outside i behind
  · have moved (i : Nat) (behind : CLI_MAX_LINE_LENGTH ≤ i) :
        Function.update (memmove e.cmd (e.cursor + 1) e.cursor (e.l - e.cursor)) e.cursor c i = base i := by
      rw [Function.update_of_ne (by omega), memmove, if_neg (by omega)]
      exact b.outside i behind
    by_cases last : e.l = CLI_MAX_LINE_LENGTH - 1
    · simp only [if_pos last]
      refine ⟨l, by dsimp only; omega, fun i behind => ?_⟩
      dsimp only
      rw [Function.update_of_ne (by omega)]
      exact moved i behind
    · simp only [if_neg last]
      exact ⟨by dsimp only; omega, by dsimp only; omega, moved⟩

end Line.Bounded

theorem EditKey.act_bounded (key : EditKey) (b : Line.Bounded base e) (shown : Bool) (prompt : Text) :
    (key.act shown prompt e).Bounded base := by
  cases key with
  | bell => exact b.write _
  | ruboutWord => exact b.ruboutWord shown
  | ruboutChar => exact b.ruboutChar shown
  | redraw => exact b.echo shown _
  | clear => exact b.clear shown
  | kill => exact b.kill shown
  | left => exact b.left shown
  | right => exact b.right shown
  | home => exact b.home prompt shown
  | toEnd => exact b.toEnd shown

end WlanBridge
