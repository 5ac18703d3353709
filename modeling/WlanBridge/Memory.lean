import Mathlib.Data.List.GetD
import Mathlib.Logic.Function.Basic

/-! A buffer of characters in memory: `memset`, `memmove` and stores, and what it means that
the buffer holds a text that ends with its null characters. -/
namespace WlanBridge.Memory

abbrev Mem := Nat → Char

def NUL : Char := '\x00'

/-- `memset(m + start, c, n)`. -/
def memset (m : Mem) (start n : Nat) (c : Char) : Mem := fun i => if start ≤ i ∧ i < start + n then c else m i

/-- `memmove(m + dst, m + src, n)`. -/
def memmove (m : Mem) (dst src n : Nat) : Mem := fun i => if dst ≤ i ∧ i < dst + n then m (i - dst + src) else m i

/-- A text written at `dst`, without a null character behind it. -/
def store (m : Mem) (dst : Nat) (text : List Char) : Mem :=
  fun i => if dst ≤ i ∧ i < dst + text.length then text.getD (i - dst) NUL else m i

def slice (m : Mem) (start n : Nat) : List Char := (List.range n).map fun i => m (start + i)

def cstr (m : Mem) (size : Nat) : List Char := (slice m 0 size).takeWhile (· ≠ NUL)

/-- The first `size` characters are a text, with at least one null character behind it, and the
memory behind them is as it was. -/
structure Contains (base : Mem) (size : Nat) (m : Mem) (text : List Char) : Prop where
  fits : text.length < size
  inside : ∀ i < size, m i = text.getD i NUL
  outside : ∀ i, size ≤ i → m i = base i

@[simp] theorem slice_length (m : Mem) (start n : Nat) : (slice m start n).length = n := by
  simp [slice]

theorem getD_parts (front back : List Char) (i : Nat) :
    (front ++ back).getD i NUL = if i < front.length then front.getD i NUL else back.getD (i - front.length) NUL := by
  split
  · exact List.getD_append _ _ _ _ ‹_›
  · exact List.getD_append_right _ _ _ _ (by omega)

theorem getD_cons_pos (c : Char) (text : List Char) (i : Nat) (behind : 0 < i) :
    (c :: text).getD i NUL = text.getD (i - 1) NUL := by
  rcases i with _ | i
  · omega
  · rfl

section Rules
variable {base m : Mem} {size : Nat} {front back text : List Char} {c : Char}

theorem Contains.slice (held : Contains base size m (front ++ back)) : Memory.slice m front.length back.length = back := by
  have fits := held.fits
  rw [List.length_append] at fits
  apply List.ext_getElem (slice_length _ _ _)
  intro i short long
  have inside := held.inside (front.length + i) (by omega)
  rw [getD_parts, if_neg (by omega), Nat.add_sub_cancel_left, List.getD_eq_getElem _ _ long] at inside
  simpa [Memory.slice] using inside

theorem Contains.slice_front (held : Contains base size m (front ++ back)) : Memory.slice m 0 front.length = front := by
  have fits := held.fits
  rw [List.length_append] at fits
  apply List.ext_getElem (slice_length _ _ _)
  intro i short long
  have inside := held.inside i (by omega)
  rw [getD_parts, if_pos long, List.getD_eq_getElem _ _ long] at inside
  simpa [Memory.slice] using inside

theorem Contains.slice_all (held : Contains base size m text) : Memory.slice m 0 text.length = text := by
  have whole : Contains base size m (text ++ []) := by simpa using held
  exact whole.slice_front

theorem Contains.char (held : Contains base size m (front ++ c :: back)) : m front.length = c := by
  have fits := held.fits
  rw [List.length_append] at fits
  rw [held.inside _ (by omega), getD_parts, if_neg (by omega), Nat.sub_self]
  rfl

theorem Contains.cstr (held : Contains base size m text) (plain : NUL ∉ text) : Memory.cstr m size = text := by
  have fits := held.fits
  have whole : Memory.slice m 0 size = text ++ List.replicate (size - text.length) NUL := by
    apply List.ext_getElem
    · simp
      omega
    · intro i short long
      rw [slice_length] at short
      have inside := held.inside i short
      simp only [Memory.slice, List.getElem_map, List.getElem_range, Nat.zero_add]
      rw [inside, List.getElem_append]
      split
      · exact List.getD_eq_getElem _ _ _
      · rw [List.getElem_replicate]
        exact List.getD_eq_default _ _ (by omega)
  obtain ⟨n, rest⟩ : ∃ n, size - text.length = n + 1 := ⟨size - text.length - 1, by omega⟩
  rw [Memory.cstr, whole, rest, List.replicate_succ, List.takeWhile_append_of_pos]
  · simp
  · intro d member
    simp only [ne_eq, decide_not, Bool.not_eq_eq_eq_not, Bool.not_true, decide_eq_false_iff_not]
    rintro rfl
    exact plain member

theorem Contains.append (held : Contains base size m text) (room : text.length + 1 < size) :
    Contains base size (Function.update m text.length c) (text ++ [c]) := by
  refine ⟨by simpa using room, fun i inside => ?_, fun i outside => ?_⟩
  · rw [getD_parts]
    by_cases here : i = text.length
    · subst here
      simp
    · rw [Function.update_of_ne here, held.inside i inside]
      split
      · rfl
      · rw [List.getD_eq_default _ _ (by omega), List.getD_eq_default _ _ (by simp; omega)]
  · rw [Function.update_of_ne (by omega)]
    exact held.outside i outside

theorem Contains.chop (held : Contains base size m (text ++ [c])) :
    Contains base size (Function.update m text.length NUL) text := by
  have fits := held.fits
  rw [List.length_append, List.length_singleton] at fits
  refine ⟨by omega, fun i inside => ?_, fun i outside => ?_⟩
  · by_cases here : i = text.length
    · subst here
      rw [Function.update_self, List.getD_eq_default _ _ (by omega)]
    · rw [Function.update_of_ne here, held.inside i inside, getD_parts]
      split
      · rfl
      · rw [List.getD_eq_default _ _ (by simp; omega), List.getD_eq_default _ _ (by omega)]
  · rw [Function.update_of_ne (by omega)]
    exact held.outside i outside

theorem Contains.remove (held : Contains base size m (front ++ c :: back)) :
    Contains base size
      (Function.update (memmove m front.length (front.length + 1) back.length) (front.length + back.length) NUL)
      (front ++ back) := by
  have fits := held.fits
  rw [List.length_append, List.length_cons] at fits
  refine ⟨by rw [List.length_append]; omega, fun i inside => ?_, fun i outside => ?_⟩
  · rw [getD_parts]
    by_cases last : i = front.length + back.length
    · subst last
      rw [Function.update_self, if_neg (by omega), List.getD_eq_default _ _ (by omega)]
    · rw [Function.update_of_ne last, memmove]
      by_cases moved : front.length ≤ i ∧ i < front.length + back.length
      · rw [if_pos moved, if_neg (by omega), held.inside _ (by omega), getD_parts, if_neg (by omega),
          getD_cons_pos _ _ _ (by omega)]
        congr 1
        omega
      · rw [if_neg moved, held.inside i inside, getD_parts]
        split
        · rfl
        · rw [List.getD_eq_default _ _ (by simp; omega), List.getD_eq_default _ _ (by omega)]
  · rw [Function.update_of_ne (by omega), memmove, if_neg (by omega)]
    exact held.outside i outside

theorem Contains.insert (held : Contains base size m (front ++ back)) (room : front.length + back.length + 1 < size) :
    Contains base size (Function.update (memmove m (front.length + 1) front.length back.length) front.length c)
      (front ++ c :: back) := by
  refine ⟨by rw [List.length_append, List.length_cons]; omega, fun i inside => ?_, fun i outside => ?_⟩
  · rw [getD_parts]
    by_cases here : i = front.length
    · subst here
      simp
    · rw [Function.update_of_ne here, memmove]
      by_cases moved : front.length + 1 ≤ i ∧ i < front.length + 1 + back.length
      · rw [if_pos moved, if_neg (by omega), getD_cons_pos _ _ _ (by omega), held.inside _ (by omega), getD_parts,
          if_neg (by omega)]
        congr 1
        omega
      · rw [if_neg moved, held.inside i inside, getD_parts]
        split
        · rfl
        · rw [List.getD_eq_default _ _ (by omega), List.getD_eq_default _ _ (by simp; omega)]
  · rw [Function.update_of_ne (by omega), memmove, if_neg (by omega)]
    exact held.outside i outside

/-- A character is put into the middle of a full buffer, and the last one gives way. -/
theorem Contains.push_out (held : Contains base size m (front ++ (back ++ [d])))
    (full : front.length + back.length + 2 = size) :
    Contains base size
      (Function.update
        (Function.update (memmove m (front.length + 1) front.length (back.length + 1)) front.length c)
        (front.length + back.length + 1) NUL)
      (front ++ c :: back) := by
  refine ⟨by rw [List.length_append, List.length_cons]; omega, fun i inside => ?_, fun i outside => ?_⟩
  · rw [getD_parts]
    by_cases last : i = front.length + back.length + 1
    · subst last
      rw [Function.update_self, if_neg (by omega), List.getD_eq_default _ _ (by simp; omega)]
    rw [Function.update_of_ne last]
    by_cases here : i = front.length
    · subst here
      simp
    · rw [Function.update_of_ne here, memmove]
      by_cases moved : front.length + 1 ≤ i
      · rw [if_pos (by omega), if_neg (by omega), getD_cons_pos _ _ _ (by omega), held.inside _ (by omega), getD_parts,
          if_neg (by omega), getD_parts, if_pos (by omega)]
        congr 1
        omega
      · rw [if_neg (by omega), if_pos (by omega), held.inside i inside, getD_parts, if_pos (by omega)]
  · rw [Function.update_of_ne (by omega), Function.update_of_ne (by omega), memmove, if_neg (by omega)]
    exact held.outside i outside

theorem Contains.cut (held : Contains base size m (front ++ back)) :
    Contains base size (memset m front.length back.length NUL) front := by
  have fits := held.fits
  rw [List.length_append] at fits
  refine ⟨by omega, fun i inside => ?_, fun i outside => ?_⟩
  · rw [memset]
    split
    · rw [List.getD_eq_default _ _ (by omega)]
    · rw [held.inside i inside, getD_parts]
      split
      · rfl
      · rw [List.getD_eq_default _ _ (by omega), List.getD_eq_default _ _ (by omega)]
  · rw [memset, if_neg (by omega)]
    exact held.outside i outside

theorem Contains.rewrite (held : Contains base size m (front ++ back)) (covers : back.length ≤ text.length)
    (room : front.length + text.length < size) : Contains base size (store m front.length text) (front ++ text) := by
  refine ⟨by rw [List.length_append]; omega, fun i inside => ?_, fun i outside => ?_⟩
  · rw [store, getD_parts]
    split
    · rw [if_neg (by omega)]
    · rw [held.inside i inside, getD_parts]
      split
      · rfl
      · rw [List.getD_eq_default _ _ (by omega), List.getD_eq_default _ _ (by omega)]
  · rw [store, if_neg (by omega)]
    exact held.outside i outside

theorem contains_nil (outside : ∀ i, size ≤ i → m i = base i) (filled : 0 < size) :
    Contains base size (memset m 0 size NUL) [] := by
  refine ⟨filled, fun i inside => ?_, fun i behind => ?_⟩
  · rw [memset, if_pos (by omega)]
    rfl
  · rw [memset, if_neg (by omega)]
    exact outside i behind

end Rules

end WlanBridge.Memory
