import Mathlib.Data.Bool.AllAny
import Mathlib.Logic.Function.Basic

/-! The line of a terminal that its cursor is on. Printable characters overwrite, back
spaces, returns and bells move the cursor or nothing, and a new line starts blank; the
line is as long as it has to be. -/
namespace WlanBridge.Terminal

structure Screen where
  line : Nat → Char
  col : Nat

def BS : Char := '\x08'

def BEL : Char := '\x07'

/-- The characters that take one column each. -/
def Printable (c : Char) : Prop := ' ' ≤ c ∧ c ≠ '\x7f'

instance (c : Char) : Decidable (Printable c) := inferInstanceAs (Decidable (_ ∧ _))

def Screen.put (s : Screen) (c : Char) : Screen :=
  if c = BS then { s with col := s.col - 1 }
  else if c = '\r' then { s with col := 0 }
  else if c = '\n' then { s with line := fun _ => ' ' }
  else if c = BEL then s
  else ⟨Function.update s.line s.col c, s.col + 1⟩

def Screen.shown (s : Screen) (out : List Char) : Screen := out.foldl Screen.put s

/-- Blanks at the end of a line are not seen. -/
structure Screen.Shows (s : Screen) (text : List Char) (col : Nat) : Prop where
  col : s.col = col
  line : ∀ i, s.line i = text.getD i ' '

theorem shown_append (s : Screen) (out more : List Char) : s.shown (out ++ more) = (s.shown out).shown more :=
  List.foldl_append

@[simp] theorem shown_nil (s : Screen) : s.shown [] = s := rfl

theorem Printable.put (printable : Printable c) (s : Screen) :
    s.put c = ⟨Function.update s.line s.col c, s.col + 1⟩ := by
  obtain ⟨low, del⟩ := printable
  have ne (d : Char) (below : ¬(' ' ≤ d)) : c ≠ d := by
    rintro rfl
    exact below low
  rw [Screen.put, if_neg (ne BS (by decide)), if_neg (ne '\r' (by decide)), if_neg (ne '\n' (by decide)),
    if_neg (ne BEL (by decide))]

section Rules
variable {s : Screen} {text : List Char} {col : Nat}

theorem Screen.Shows.overwrite (shows_ : s.Shows text col) (inside : col ≤ text.length) (new : List Char)
    (printable : ∀ c ∈ new, Printable c) :
    (s.shown new).Shows (text.take col ++ new ++ text.drop (col + new.length)) (col + new.length) := by
  induction new generalizing s text col with
  | nil => simpa using shows_
  | cons c rest ih =>
    have first : (s.put c).Shows (text.take col ++ [c] ++ text.drop (col + 1)) (col + 1) := by
      rw [(printable c (by simp)).put]
      refine ⟨by rw [shows_.col], fun i => ?_⟩
      have size : (text.take col).length = col := List.length_take_of_le inside
      rw [shows_.col, List.append_assoc]
      dsimp only
      rcases Nat.lt_trichotomy i col with before | rfl | behind
      · rw [Function.update_of_ne (by omega), shows_.line]
        simp only [List.getD_eq_getElem?_getD]
        rw [List.getElem?_append_left (by omega), List.getElem?_take_of_lt before]
      · rw [Function.update_self]
        simp only [List.getD_eq_getElem?_getD]
        rw [List.getElem?_append_right (by omega), size]
        simp
      · rw [Function.update_of_ne (by omega), shows_.line]
        simp only [List.getD_eq_getElem?_getD]
        rw [List.getElem?_append_right (by omega), size, List.getElem?_append_right (by simp; omega),
          List.getElem?_drop, List.length_singleton]
        congr 2
        omega
    have size : (text.take col).length = col := List.length_take_of_le inside
    have later := ih first (by simp; omega) fun d member => printable d (List.mem_cons_of_mem _ member)
    have taken : (text.take col ++ [c] ++ text.drop (col + 1)).take (col + 1) = text.take col ++ [c] := by
      apply List.take_left'
      simp [size]
    have dropped : (text.take col ++ [c] ++ text.drop (col + 1)).drop (col + 1 + rest.length) =
        text.drop (col + (c :: rest).length) := by
      have head : (text.take col ++ [c]).length = col + 1 := by simp [size]
      rw [← List.drop_drop, List.drop_left' head, List.drop_drop, List.length_cons, Nat.add_assoc, Nat.add_comm 1]
    rw [taken, dropped] at later
    simpa [Screen.shown, List.append_assoc, Nat.add_assoc, Nat.add_comm, Nat.add_left_comm] using later

theorem Screen.Shows.back (shows_ : s.Shows text col) (n : Nat) :
    (s.shown (List.replicate n BS)).Shows text (col - n) := by
  induction n generalizing s col with
  | zero => exact shows_
  | succ n ih =>
    have first : (s.put BS).Shows text (col - 1) := ⟨congrArg (· - 1) shows_.col, shows_.line⟩
    have later := ih first
    rw [Nat.sub_sub, Nat.add_comm 1] at later
    exact later

theorem Screen.Shows.bell (shows_ : s.Shows text col) : (s.shown [BEL]).Shows text col := shows_

theorem Screen.Shows.home (shows_ : s.Shows text col) : (s.shown ['\r']).Shows text 0 := ⟨rfl, shows_.line⟩

theorem newline (s : Screen) : (s.shown ['\r', '\n']).Shows [] 0 := ⟨rfl, fun _ => rfl⟩

theorem shows_blanks (n : Nat) : s.Shows (text ++ List.replicate n ' ') col ↔ s.Shows text col := by
  have same (i : Nat) : (text ++ List.replicate n ' ').getD i ' ' = text.getD i ' ' := by
    simp only [List.getD_eq_getElem?_getD]
    by_cases inside : i < text.length
    · rw [List.getElem?_append_left inside]
    · rw [List.getElem?_append_right (by omega), List.getElem?_replicate, List.getElem?_eq_none (by omega)]
      split <;> rfl
  exact ⟨fun shows_ => ⟨shows_.col, fun i => (shows_.line i).trans (same i)⟩,
    fun shows_ => ⟨shows_.col, fun i => (shows_.line i).trans (same i).symm⟩⟩

theorem printable_blanks (n : Nat) : ∀ c ∈ List.replicate n ' ', Printable c := by
  intro c member
  obtain rfl := List.eq_of_mem_replicate member
  decide

theorem Screen.Shows.append (shows_ : s.Shows text text.length) (new : List Char)
    (printable : ∀ c ∈ new, Printable c) : (s.shown new).Shows (text ++ new) (text ++ new).length := by
  have written := shows_.overwrite (Nat.le_refl _) new printable
  rw [List.take_length, List.drop_of_length_le (by omega), List.append_nil] at written
  rw [List.length_append]
  exact written

/-- The rest of a line is written again over itself, with something in front of it or
without some of it, and blanks behind it. -/
theorem Screen.Shows.replace (shows_ : s.Shows (front ++ old) front.length) (new : List Char) (blanks : Nat)
    (printable : ∀ c ∈ new, Printable c) (covers : old.length ≤ new.length + blanks) :
    (s.shown (new ++ List.replicate blanks ' ')).Shows (front ++ new) (front.length + new.length + blanks) := by
  have written := shows_.overwrite (by simp) (new ++ List.replicate blanks ' ') (by
    intro c member
    rcases List.mem_append.mp member with text | blank
    · exact printable c text
    · exact printable_blanks blanks c blank)
  rw [List.take_left, List.drop_of_length_le (by simp; omega), List.append_nil, ← List.append_assoc,
    shows_blanks, List.length_append, List.length_replicate, ← Nat.add_assoc] at written
  exact written

theorem Screen.Shows.retrace {rest : List Char} (shows_ : s.Shows (front ++ (part ++ rest)) front.length)
    (printable : ∀ c ∈ part, Printable c) :
    (s.shown part).Shows (front ++ (part ++ rest)) (front.length + part.length) := by
  have written := shows_.overwrite (by simp) part printable
  rw [List.take_left, List.drop_length_add_append, List.drop_left, List.append_assoc] at written
  exact written

end Rules

end WlanBridge.Terminal
