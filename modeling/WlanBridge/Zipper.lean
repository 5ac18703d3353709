import Mathlib.Data.List.DropRight
import Mathlib.Logic.Function.Iterate

/-! A text with a place in it where it is edited, and what the keys of a line editor mean. -/
namespace WlanBridge

structure Zipper (α : Type) where
  front : List α
  back : List α
  deriving DecidableEq, Repr

namespace Zipper
variable {α : Type} (z : Zipper α)

def text : List α := z.front ++ z.back

def atEnd (text : List α) : Zipper α := ⟨text, []⟩

/-- A text of at most `size` characters takes one more: at its end when there is room, and in
front of the rest in any case, whose last character then gives way. -/
def insert (size : Nat) (c : α) : Zipper α :=
  if z.text.length < size then ⟨z.front ++ [c], z.back⟩
  else if z.back = [] then z
  else ⟨z.front ++ [c], z.back.dropLast⟩

def rubout : Zipper α := ⟨z.front.dropLast, z.back⟩

/-- Back over the blanks and the word before them. -/
def ruboutWord (blank : α → Bool) : Zipper α :=
  ⟨(z.front.rdropWhile blank).rdropWhile fun c => !blank c, z.back⟩

def kill : Zipper α := ⟨z.front, []⟩

def left : Zipper α := ⟨z.front.dropLast, z.front.getLast?.toList ++ z.back⟩

def right : Zipper α :=
  match z.back with
  | [] => z
  | c :: back => ⟨z.front ++ [c], back⟩

def home : Zipper α := ⟨[], z.text⟩

def toEnd : Zipper α := atEnd z.text

def retype (stop : α → Bool) (word : List α) : Zipper α := ⟨(z.front.rdropWhile fun c => !stop c) ++ word, z.back⟩

@[simp] theorem text_atEnd (text : List α) : (atEnd text).text = text := List.append_nil text

@[simp] theorem left_text : z.left.text = z.text := by
  rcases List.eq_nil_or_concat z.front with front | ⟨front, c, whole⟩
  · simp [left, text, front]
  · simp [left, text, whole]

@[simp] theorem right_text : z.right.text = z.text := by
  obtain ⟨front, _ | ⟨c, back⟩⟩ := z <;> simp [right, text]

@[simp] theorem home_text : z.home.text = z.text := rfl

@[simp] theorem toEnd_text : z.toEnd.text = z.text := text_atEnd z.text

theorem rubout_iterate (n : Nat) : rubout^[n] z = ⟨z.front.take (z.front.length - n), z.back⟩ := by
  induction n with
  | zero => simp
  | succ n ih =>
    rw [Function.iterate_succ_apply', ih, rubout, List.dropLast_eq_take, List.length_take, List.take_take]
    congr 2
    omega

theorem ruboutWord_eq (blank : α → Bool) :
    z.ruboutWord blank =
      rubout^[z.front.length - ((z.front.rdropWhile blank).rdropWhile fun c => !blank c).length] z := by
  have short : ((z.front.rdropWhile blank).rdropWhile fun c => !blank c) <+: z.front :=
    (List.rdropWhile_prefix _ _).trans (List.rdropWhile_prefix _ _)
  have size := short.length_le
  rw [rubout_iterate, Nat.sub_sub_self size, ← List.prefix_iff_eq_take.mp short]
  rfl

end Zipper

end WlanBridge
