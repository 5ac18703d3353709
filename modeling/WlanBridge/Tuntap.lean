import WlanBridge.Client
import Mathlib.Algebra.GroupWithZero.Nat

/-! `tuntap.c`: the burst functions of the TAP next to the plain ones. The device takes or
gives one frame a call, at a vectored call too, and answers with a number of bytes; the
burst functions use it as a number of frames. Transfers fit the `int` that holds their size. -/
namespace WlanBridge

/-- The bytes of the buffer stand in for its address. -/
structure Iovec where
  iovBase : List Byte
  iovLen : Nat
  deriving DecidableEq, Repr

structure Tap where
  waiting : List (List Byte)
  emitted : List (List Byte)
  deriving DecidableEq, Repr

/-- One frame made of the buffers, in order. -/
def Tap.writev (t : Tap) (iov : List Iovec) : Int × Tap :=
  let frame := iov.flatMap fun v => v.iovBase.take v.iovLen
  (frame.length, { t with emitted := t.emitted ++ [frame] })

/-- A frame spread over the buffers, each filled before the next. -/
def scatter : List Iovec → List Byte → List Iovec
  | [], _ => []
  | v :: rest, frame =>
    { v with iovBase := fill v.iovLen v.iovBase frame } :: scatter rest (frame.drop v.iovLen)

/-- One frame taken from the queue; what the buffers have no room for is lost. -/
def Tap.readv (t : Tap) (iov : List Iovec) : Int × List Iovec × Tap :=
  match t.waiting with
  | [] => (-1, iov, t)
  | frame :: rest =>
    (min frame.length (iov.map Iovec.iovLen).sum, scatter iov frame, { t with waiting := rest })

/-- The vector that both burst functions set up. -/
def iovOf (iovLen : Nat → Nat) (buf : List (List Byte)) (n : Nat) : List Iovec :=
  (List.range n).map fun i => ⟨buf.getD i [], iovLen i⟩

def sendDataUseTuntapBurst (t : Tap) (dataLen : List Nat) (buf : List (List Byte)) (msgMun : Nat) :
    Int × Tap :=
  let (sendData, t) := t.writev (iovOf (fun i => dataLen.getD i 0) buf msgMun)
  if sendData ≠ msgMun then (-1, t) else (sendData, t)

/-- The loop over `data_len[i] = iov[i].iov_len`; `none` is an index behind one of the arrays. -/
def copyLens (iov : List Iovec) (dataLen : List Nat) : Nat → Option (List Nat)
  | 0 => some dataLen
  | i + 1 =>
    match copyLens iov dataLen i, iov[i]? with
    | some dataLen, some v => if i < dataLen.length then some (dataLen.set i v.iovLen) else none
    | _, _ => none

/-- The return value with the arrays of the caller and the device behind the call. -/
structure BurstRead where
  ret : Int
  dataLen : List Nat
  buf : List (List Byte)
  tap : Tap
  deriving DecidableEq, Repr

def readDataFromTuntapBurst (t : Tap) (maxLen : Nat) (dataLen : List Nat) (buf : List (List Byte))
    (maxMsgMun : Nat) : Option BurstRead :=
  let (len, iov, t) := t.readv (iovOf (fun _ => maxLen) buf maxMsgMun)
  let buf := iov.map Iovec.iovBase ++ buf.drop maxMsgMun
  if len ≤ 0 then some ⟨-1, dataLen, buf, t⟩
  else (copyLens iov dataLen len.toNat).map fun dataLen => ⟨len, dataLen, buf, t⟩

def Tap.send (t : Tap) (len : Nat) (buf : List Byte) : Int × Tap :=
  let (ret, out) := sendDataUseTuntap true len buf
  (ret, { t with emitted := t.emitted ++ out.toList })

def Tap.sendEach (t : Tap) (dataLen : List Nat) (buf : List (List Byte)) (n : Nat) : Tap :=
  (List.range n).foldl (fun t i => (t.send (dataLen.getD i 0) (buf.getD i [])).2) t

def Tap.receive (t : Tap) (maxLen : Nat) (buf : List Byte) : (Int × List Byte) × Tap :=
  match t.waiting with
  | [] => ((-1, buf), t)
  | frame :: rest => (readDataFromTuntap maxLen buf frame, { t with waiting := rest })

/-- The answers of plain calls on one buffer after the other. -/
def Tap.receiveEach (t : Tap) (maxLen : Nat) : List (List Byte) → List (Int × List Byte)
  | [] => []
  | buf :: rest => (t.receive maxLen buf).1 :: (t.receive maxLen buf).2.receiveEach maxLen rest

/-- The length a call reports, and the bytes of the buffer it speaks of. -/
def report (len : Int) (buf : List Byte) : Int × List Byte := (len, buf.take len.toNat)

/-- Arrays for a burst to send, with a cell for each message and its bytes in the buffer. -/
structure SendCall where
  dataLen : List Nat
  buf : List (List Byte)
  msgMun : Nat
  some_ : 0 < msgMun
  lens : msgMun ≤ dataLen.length
  held : ∀ i < msgMun, dataLen.getD i 0 ≤ (buf.getD i []).length

/-- Arrays for a burst to receive, with a cell for each message and room in each buffer for
what may be read into it. -/
structure ReadCall where
  maxLen : Nat
  dataLen : List Nat
  buf : List (List Byte)
  maxMsgMun : Nat
  some_ : 0 < maxMsgMun
  lens : maxMsgMun ≤ dataLen.length
  bufs : maxMsgMun ≤ buf.length
  room : ∀ i < maxMsgMun, maxLen ≤ (buf.getD i []).length

def SendCall.burst (c : SendCall) (t : Tap) : Int × Tap := sendDataUseTuntapBurst t c.dataLen c.buf c.msgMun

def ReadCall.burst (c : ReadCall) (t : Tap) : Option BurstRead :=
  readDataFromTuntapBurst t c.maxLen c.dataLen c.buf c.maxMsgMun

/-- The frames of as many plain calls, and their number returned. -/
def SendAgrees (t : Tap) (c : SendCall) : Prop :=
  (c.burst t).2.emitted = (t.sendEach c.dataLen c.buf c.msgMun).emitted ∧ (c.burst t).1 = c.msgMun

/-- No index behind the arrays; on success the number of frames taken is returned, with a
cell for each, and every cell reports what a plain call would. -/
def ReadAgrees (t : Tap) (c : ReadCall) : Prop :=
  ∃ r, c.burst t = some r ∧ (r.ret ≠ -1 →
    1 ≤ r.ret ∧ r.ret ≤ c.maxMsgMun ∧ r.tap.waiting.length + r.ret = t.waiting.length ∧
    ∀ i : Nat, i < r.ret → ∃ plain, (t.receiveEach c.maxLen c.buf)[i]? = some plain ∧
      report (r.dataLen.getD i 0) (r.buf.getD i []) = report plain.1 plain.2)

theorem sendEach_emitted (t : Tap) (dataLen : List Nat) (buf : List (List Byte)) (n : Nat) :
    (t.sendEach dataLen buf n).emitted =
      t.emitted ++ (List.range n).map fun i => (buf.getD i []).take (dataLen.getD i 0) := by
  induction n with
  | zero => simp [Tap.sendEach]
  | succ n ih =>
    have last : (t.sendEach dataLen buf (n + 1)).emitted =
        (t.sendEach dataLen buf n).emitted ++ [(buf.getD n []).take (dataLen.getD n 0)] := by
      simp [Tap.sendEach, List.range_succ, Tap.send, sendDataUseTuntap, putOut]
    rw [last, ih, List.range_succ, List.map_append, List.map_singleton, List.append_assoc]

theorem sendBurst_emitted (t : Tap) (dataLen : List Nat) (buf : List (List Byte)) (n : Nat) :
    (sendDataUseTuntapBurst t dataLen buf n).2.emitted =
      t.emitted ++ [(List.range n).flatMap fun i => (buf.getD i []).take (dataLen.getD i 0)] := by
  unfold sendDataUseTuntapBurst
  simp only [Tap.writev, iovOf, List.flatMap_map]
  split <;> rfl

theorem sendBurst_ret (t : Tap) (dataLen : List Nat) (buf : List (List Byte)) (n : Nat) :
    (sendDataUseTuntapBurst t dataLen buf n).1 = n ↔
      ((List.range n).flatMap fun i => (buf.getD i []).take (dataLen.getD i 0)).length = n := by
  simp only [sendDataUseTuntapBurst, Tap.writev, iovOf, List.flatMap_map]
  generalize ((List.range n).flatMap fun i => (buf.getD i []).take (dataLen.getD i 0)).length = bytes
  by_cases same : (bytes : Int) = n
  · simp only [same, ne_eq, not_true_eq_false, if_false, true_iff]
    exact Int.ofNat_inj.mp same
  · have apart : bytes ≠ n := fun equal => same (congrArg Nat.cast equal)
    simp only [ne_eq, same, not_false_eq_true, if_true, apart, iff_false]
    omega

theorem send_agrees_iff (t : Tap) (c : SendCall) :
    SendAgrees t c ↔ c.msgMun = 1 ∧ c.dataLen.getD 0 0 = 1 := by
  have room := c.held 0 c.some_
  have whole : ((c.buf.getD 0 []).take (c.dataLen.getD 0 0)).length = c.dataLen.getD 0 0 :=
    List.length_take_of_le room
  rw [SendAgrees, SendCall.burst, sendBurst_ret, sendBurst_emitted, sendEach_emitted]
  constructor
  · rintro ⟨frames, bytes⟩
    have one : c.msgMun = 1 := by simpa using (congrArg List.length frames).symm
    rw [one] at bytes
    simp only [List.range_one, List.flatMap_singleton, whole] at bytes
    exact ⟨one, bytes⟩
  · rintro ⟨one, byte⟩
    rw [one]
    simp only [List.range_one, List.flatMap_singleton, List.map_singleton, whole]
    exact ⟨trivial, byte⟩

section Vector
variable {iov : List Iovec} {dataLen : List Nat}

theorem scatter_lens (iov : List Iovec) (frame : List Byte) :
    (scatter iov frame).map Iovec.iovLen = iov.map Iovec.iovLen := by
  induction iov generalizing frame with
  | nil => rfl
  | cons v rest ih => rw [scatter, List.map_cons, List.map_cons, ih]

theorem iovOf_lens (maxLen : Nat) (buf : List (List Byte)) (n : Nat) :
    (iovOf (fun _ => maxLen) buf n).map Iovec.iovLen = List.replicate n maxLen := by
  rw [iovOf, List.map_map]
  exact List.eq_replicate_iff.mpr ⟨by simp, by simp⟩

theorem set_copied (lens dataLen : List Nat) (here : i < lens.length) (room : i < dataLen.length) :
    (lens.take i ++ dataLen.drop i).set i lens[i] = lens.take (i + 1) ++ dataLen.drop (i + 1) := by
  have copied : (lens.take i).length = i := List.length_take_of_le (Nat.le_of_lt here)
  have cells : dataLen.drop i = dataLen[i] :: dataLen.drop (i + 1) := List.drop_eq_getElem_cons room
  have next : lens.take (i + 1) = lens.take i ++ [lens[i]] := (List.take_append_getElem here).symm
  rw [List.set_append_right _ _ (Nat.le_of_eq copied), copied, Nat.sub_self, cells, List.set_cons_zero, next,
    List.append_assoc, List.singleton_append]

theorem copyLens_within (cells : iov.length ≤ dataLen.length) (within : len ≤ iov.length) :
    copyLens iov dataLen len = some ((iov.map Iovec.iovLen).take len ++ dataLen.drop len) := by
  induction len with
  | zero => simp [copyLens]
  | succ i ih =>
    have here : i < (iov.map Iovec.iovLen).length := by
      rw [List.length_map]
      omega
    have room : i < ((iov.map Iovec.iovLen).take i ++ dataLen.drop i).length := by
      rw [List.length_append, List.length_take_of_le (Nat.le_of_lt here), List.length_drop]
      omega
    have step := set_copied (iov.map Iovec.iovLen) dataLen here (by omega)
    rw [List.getElem_map] at step
    rw [copyLens, ih (by omega), List.getElem?_eq_getElem (by omega)]
    simp only [room, if_true, step]

theorem copyLens_behind (behind : iov.length < len) : copyLens iov dataLen len = none := by
  induction len with
  | zero => omega
  | succ i ih =>
    rw [copyLens]
    by_cases last : i = iov.length
    · subst last
      rw [List.getElem?_eq_none (Nat.le_refl _)]
      cases copyLens iov dataLen iov.length <;> rfl
    · rw [ih (by omega)]

end Vector

/-- What a burst of `n` buffers takes from a frame, in bytes. -/
def bytesTaken (maxLen n : Nat) (frame : List Byte) : Nat := min frame.length (n * maxLen)

section Scattered
variable {maxLen n : Nat} {buf : List (List Byte)} {frame : List Byte}

theorem scattered_lens :
    (scatter (iovOf (fun _ => maxLen) buf n) frame).map Iovec.iovLen = List.replicate n maxLen := by
  rw [scatter_lens, iovOf_lens]

theorem scattered_length : (scatter (iovOf (fun _ => maxLen) buf n) frame).length = n := by
  rw [← List.length_map Iovec.iovLen, scattered_lens, List.length_replicate]

theorem scattered_head (some_ : 0 < n) (more : List (List Byte)) :
    ((scatter (iovOf (fun _ => maxLen) buf n) frame).map Iovec.iovBase ++ more).getD 0 [] =
      fill maxLen (buf.getD 0 []) frame := by
  cases n with
  | zero => omega
  | succ n => simp [iovOf, List.range_succ_eq_map, scatter]

end Scattered

section Read
variable {t : Tap} {c : ReadCall} {frame : List Byte} {rest : List (List Byte)}

theorem readv_cons (queue : t.waiting = frame :: rest) (maxLen : Nat) (buf : List (List Byte)) (n : Nat) :
    t.readv (iovOf (fun _ => maxLen) buf n) =
      ((bytesTaken maxLen n frame : Int), scatter (iovOf (fun _ => maxLen) buf n) frame,
        { t with waiting := rest }) := by
  have amount : min (frame.length : Int) ((n * maxLen : Nat) : Int) = bytesTaken maxLen n frame := by
    rw [bytesTaken]
    omega
  rw [Tap.readv, queue]
  simp only [iovOf_lens, List.sum_replicate_nat, amount]

theorem readBurst_none (queue : t.waiting = []) : ∃ r, c.burst t = some r ∧ r.ret = -1 := by
  simp [ReadCall.burst, readDataFromTuntapBurst, Tap.readv, queue]

theorem readBurst_empty (queue : t.waiting = frame :: rest) (nothing : bytesTaken c.maxLen c.maxMsgMun frame = 0) :
    ∃ r, c.burst t = some r ∧ r.ret = -1 := by
  simp [ReadCall.burst, readDataFromTuntapBurst, readv_cons queue, nothing]

theorem readBurst_behind (queue : t.waiting = frame :: rest)
    (behind : c.maxMsgMun < bytesTaken c.maxLen c.maxMsgMun frame) : c.burst t = none := by
  have some_ : ¬((bytesTaken c.maxLen c.maxMsgMun frame : Nat) : Int) ≤ 0 := by omega
  simp only [ReadCall.burst, readDataFromTuntapBurst, readv_cons queue, some_, if_false, Int.toNat_natCast]
  rw [copyLens_behind (scattered_length.symm ▸ behind), Option.map_none]

theorem readBurst_some (queue : t.waiting = frame :: rest) (some_ : 0 < bytesTaken c.maxLen c.maxMsgMun frame)
    (within : bytesTaken c.maxLen c.maxMsgMun frame ≤ c.maxMsgMun) :
    ∃ r, c.burst t = some r ∧ r.ret = bytesTaken c.maxLen c.maxMsgMun frame ∧ r.tap.waiting = rest ∧
      r.dataLen.getD 0 0 = c.maxLen ∧ r.buf.getD 0 [] = fill c.maxLen (c.buf.getD 0 []) frame := by
  have positive : ¬((bytesTaken c.maxLen c.maxMsgMun frame : Nat) : Int) ≤ 0 := by omega
  have cells := c.lens
  simp only [ReadCall.burst, readDataFromTuntapBurst, readv_cons queue, positive, if_false, Int.toNat_natCast]
  rw [copyLens_within (by rwa [scattered_length]) (by rwa [scattered_length]), Option.map_some, scattered_lens]
  refine ⟨_, rfl, rfl, rfl, ?_, scattered_head c.some_ _⟩
  obtain ⟨k, bytes⟩ := Nat.exists_eq_add_one.mpr some_
  obtain ⟨n, messages⟩ := Nat.exists_eq_add_one.mpr c.some_
  rw [bytes, messages]
  rfl

theorem receiveEach_head (queue : t.waiting = frame :: rest) :
    (t.receiveEach c.maxLen c.buf)[0]? = some (readDataFromTuntap c.maxLen (c.buf.getD 0 []) frame) := by
  have bufs := c.bufs
  have some_ := c.some_
  cases cells : c.buf with
  | nil =>
    rw [cells, List.length_nil] at bufs
    omega
  | cons buf more => simp [Tap.receiveEach, Tap.receive, queue]

theorem readInto_some (some_ : 0 < min frame.length maxLen) (buf : List Byte) :
    readInto maxLen buf frame = (((min frame.length maxLen : Nat) : Int), fill maxLen buf frame) := by
  have bytes : (frame.take maxLen).length = min frame.length maxLen := by
    rw [List.length_take, Nat.min_comm]
  have positive : ¬((min frame.length maxLen : Nat) : Int) ≤ 0 := by omega
  simp only [readInto, bytes, positive, if_false]

end Read

/-- Where a burst is a plain call, told by the first frame that waits. -/
def ReadFits (waiting : List (List Byte)) (c : ReadCall) : Prop :=
  match waiting with
  | [] => True
  | frame :: _ => frame = [] ∨ c.maxLen = 0 ∨ c.maxLen = 1 ∧ (frame.length = 1 ∨ c.maxMsgMun = 1)

theorem bytesTaken_zero (some_ : 0 < n) (maxLen : Nat) (frame : List Byte) :
    bytesTaken maxLen n frame = 0 ↔ frame = [] ∨ maxLen = 0 := by
  rw [bytesTaken, Nat.min_eq_zero_iff, List.length_eq_zero_iff, Nat.mul_eq_zero]
  constructor
  · rintro (empty | none_ | none_)
    · exact Or.inl empty
    · omega
    · exact Or.inr none_
  · rintro (empty | none_)
    · exact Or.inl empty
    · exact Or.inr (Or.inr none_)

theorem bytesTaken_one (some_ : 0 < n) (bytes : 0 < bytesTaken maxLen n frame) :
    (bytesTaken maxLen n frame = 1 ∧ maxLen ≤ frame.length) ↔ maxLen = 1 ∧ (frame.length = 1 ∨ n = 1) := by
  have room : maxLen ≤ n * maxLen := Nat.le_mul_of_pos_left maxLen some_
  unfold bytesTaken at bytes ⊢
  constructor
  · rintro ⟨one, fits⟩
    have single : maxLen = 1 := by
      rcases Nat.eq_zero_or_pos maxLen with none_ | some_
      · simp [none_] at bytes
      · omega
    subst single
    omega
  · rintro ⟨rfl, single⟩
    omega

/-- On success the burst takes one frame, so it has to return 1 and to report one plain call. -/
theorem read_agrees_one (queue : t.waiting = frame :: rest) (c : ReadCall)
    (some_ : 0 < bytesTaken c.maxLen c.maxMsgMun frame)
    (within : bytesTaken c.maxLen c.maxMsgMun frame ≤ c.maxMsgMun) :
    ReadAgrees t c ↔ bytesTaken c.maxLen c.maxMsgMun frame = 1 ∧ c.maxLen ≤ frame.length := by
  obtain ⟨r, answer, ret, left, lens, bufs⟩ := readBurst_some queue some_ within
  have plain := receiveEach_head queue (c := c)
  have bytes : 0 < min frame.length c.maxLen := by
    rcases Nat.eq_zero_or_pos c.maxLen with none_ | more
    · simp [bytesTaken, none_] at some_
    · unfold bytesTaken at some_
      omega
  rw [readDataFromTuntap, readInto_some bytes] at plain
  constructor
  · rintro ⟨r', answer', agrees⟩
    obtain rfl : r = r' := Option.some.inj (answer.symm.trans answer')
    obtain ⟨_, _, number, each⟩ := agrees (by omega)
    rw [left, queue, List.length_cons, ret] at number
    obtain ⟨first, found, same⟩ := each 0 (by omega)
    obtain rfl := Option.some.inj (plain.symm.trans found)
    have length := congrArg Prod.fst same
    simp only [report, lens] at length
    omega
  · rintro ⟨one, fits⟩
    refine ⟨r, answer, fun _ => ⟨by omega, by omega, ?_, ?_⟩⟩
    · rw [left, queue, List.length_cons, ret, one]
      rfl
    · intro i below
      obtain rfl : i = 0 := by omega
      refine ⟨_, plain, ?_⟩
      rw [lens, bufs, Nat.min_eq_right fits]

theorem read_agrees_iff (t : Tap) (c : ReadCall) : ReadAgrees t c ↔ ReadFits t.waiting c := by
  have fails (answer : ∃ r, c.burst t = some r ∧ r.ret = -1) : ReadAgrees t c := by
    obtain ⟨r, answer, failed⟩ := answer
    exact ⟨r, answer, fun success => absurd failed success⟩
  cases queue : t.waiting with
  | nil =>
    simp only [ReadFits, iff_true]
    exact fails (readBurst_none queue)
  | cons frame rest =>
    have zero := bytesTaken_zero c.some_ c.maxLen frame
    rw [ReadFits]
    rcases Nat.eq_zero_or_pos (bytesTaken c.maxLen c.maxMsgMun frame) with nothing | some_
    · have empty := zero.mp nothing
      simp only [fails (readBurst_empty queue nothing), true_iff]
      rcases empty with empty | empty
      · exact Or.inl empty
      · exact Or.inr (Or.inl empty)
    · have bytes : ¬(frame = [] ∨ c.maxLen = 0) := fun empty => Nat.ne_of_gt some_ (zero.mpr empty)
      rw [← or_assoc, or_iff_right bytes, ← bytesTaken_one c.some_ some_]
      rcases Nat.lt_or_ge c.maxMsgMun (bytesTaken c.maxLen c.maxMsgMun frame) with behind | within
      · constructor
        · rintro ⟨r, answer, _⟩
          rw [readBurst_behind queue behind] at answer
          exact absurd answer (Option.some_ne_none r).symm
        · rintro ⟨one, _⟩
          have messages := c.some_
          omega
      · exact read_agrees_one queue c some_ within

/-- The burst functions agree with the plain ones exactly where a single frame of one byte
is sent, and where nothing is there to read or one byte is read into buffers of one. -/
theorem tuntap_bursts_agree_iff (t : Tap) (send : SendCall) (read : ReadCall) :
    (SendAgrees t send ↔ send.msgMun = 1 ∧ send.dataLen.getD 0 0 = 1) ∧
    (ReadAgrees t read ↔ ReadFits t.waiting read) :=
  ⟨send_agrees_iff t send, read_agrees_iff t read⟩

def bareHeader (src : Byte) : List Byte := [255, 255, 255, 255, 255, 255, src, 0, 0, 0, 0, 0, 8, 0]

def twoHeaders : SendCall where
  dataLen := [14, 14]
  buf := [bareHeader 2, bareHeader 4]
  msgMun := 2
  some_ := by decide
  lens := by decide
  held := by decide

def twoBuffers : ReadCall where
  maxLen := 16
  dataLen := [0, 0]
  buf := [List.replicate 16 0, List.replicate 16 0]
  maxMsgMun := 2
  some_ := by decide
  lens := by decide
  bufs := by decide
  room := by decide

/-- Two frames leave as one, reported as a failure; a frame of 14 bytes is read as 14 frames,
behind the two cells of the arrays. -/
theorem tuntap_bursts_disagree :
    (twoHeaders.burst ⟨[], []⟩ = (-1, ⟨[], [bareHeader 2 ++ bareHeader 4]⟩) ∧
      ¬SendAgrees ⟨[], []⟩ twoHeaders) ∧
    (twoBuffers.burst ⟨[bareHeader 2], []⟩ = none ∧
      ¬ReadAgrees ⟨[bareHeader 2], []⟩ twoBuffers) := by
  have sent : twoHeaders.burst ⟨[], []⟩ = (-1, ⟨[], [bareHeader 2 ++ bareHeader 4]⟩) := by decide
  have behind : twoBuffers.burst ⟨[bareHeader 2], []⟩ = none := by decide
  refine ⟨⟨sent, ?_⟩, behind, ?_⟩
  · rintro ⟨_, number⟩
    rw [sent] at number
    exact absurd number (by decide)
  · rintro ⟨r, answer, _⟩
    exact absurd (behind.symm.trans answer) (Option.some_ne_none r).symm

end WlanBridge
