import WlanBridge.Udp

/-! `send_data_to_udp_client_burst` call by call: the prefix that the first `sendmmsg`
sends, the batch of the second, and what the return value says about both. An unsent
message is told from a sent one by its `msg_len` alone, and an empty one looks sent. -/
namespace WlanBridge

def Datagram.nonempty (d : Datagram) : Bool := d.data.length ≠ 0

/-- The buffers of a batch hold as many bytes as are to be sent from them. -/
def Holds (buf : List Buf) (dataLen : List Nat) (msgNum : Nat) : Prop :=
  ∀ i < msgNum, dataLen[i]! ≤ (buf[i]!).mem.length

def MmsgOutcome.count (outcome : MmsgOutcome) (n : Nat) : Nat :=
  match outcome with
  | .sent count => min count n
  | .failed _ => 0

def MmsgOutcome.retval (outcome : MmsgOutcome) (n : Nat) : Int :=
  match outcome with
  | .sent count => (min count n : Nat)
  | .failed _ => -1

def MmsgOutcome.errno (outcome : MmsgOutcome) (before : Int) : Int :=
  match outcome with
  | .sent _ => before
  | .failed errno => errno

/-- The batch of the second call: the nonempty datagrams that the first one left. -/
def leftOver (k : Kernel) (u : Udp) (batch : List Datagram) : List Datagram :=
  (batch.drop ((k.sendmmsg u.calls batch).count batch.length)).filter Datagram.nonempty

def resentCount (k : Kernel) (u : Udp) (batch : List Datagram) : Nat :=
  (k.sendmmsg (u.calls + 1) (leftOver k u batch)).count (leftOver k u batch).length

/-- What the kernel takes of a batch. -/
def burstSent (k : Kernel) (u : Udp) (batch : List Datagram) : List Datagram :=
  let first := k.sendmmsg u.calls batch
  batch.take (first.count batch.length) ++
    if first.errno u.errno = EAGAIN then (leftOver k u batch).take (resentCount k u batch) else []

/-- The first call leaves an empty datagram and others, and the second sends all of the others. -/
def PassedOver (k : Kernel) (u : Udp) (batch : List Datagram) : Prop :=
  let first := k.sendmmsg u.calls batch
  first.errno u.errno = EAGAIN ∧ leftOver k u batch ≠ [] ∧
    resentCount k u batch = (leftOver k u batch).length ∧
    ∃ d ∈ batch.drop (first.count batch.length), d.nonempty = false

theorem MmsgOutcome.retval_eq (outcome : MmsgOutcome) (some_ : 0 < n) :
    outcome.retval n = n ↔ outcome.count n = n := by
  cases outcome <;> simp only [MmsgOutcome.retval, MmsgOutcome.count] <;> omega

theorem MmsgOutcome.count_of_retval (outcome : MmsgOutcome) (whole : outcome.retval n = n) :
    outcome.count n = n := by
  cases outcome <;> simp only [MmsgOutcome.retval, MmsgOutcome.count] at whole ⊢ <;> omega

theorem sendmmsg_eq (k : Kernel) (u : Udp) (mmsg : List Mmsghdr) :
    let batch := mmsg.map Mmsghdr.datagram
    let outcome := k.sendmmsg u.calls batch
    let done := outcome.count mmsg.length
    sendmmsg k u mmsg = (outcome.retval mmsg.length, (mmsg.take done).map Mmsghdr.sent ++ mmsg.drop done,
      Udp.record ⟨outcome.errno u.errno, u.calls + 1, u.trace⟩ (.sendmmsg batch done)) := by
  intro batch outcome done
  simp only [sendmmsg, done, outcome, batch]
  cases k.sendmmsg u.calls (mmsg.map Mmsghdr.datagram) with
  | sent count => rfl
  | failed errno => rfl

def Mmsghdr.Fresh (m : Mmsghdr) : Prop := m.msgLen = 0 ∧ m.iovLen = m.datagram.data.length

theorem mmsgOf_fresh (buf : List Buf) (dataLen : List Nat) (peerAddr : List SockaddrIn) (msgNum : Nat)
    (holds : Holds buf dataLen msgNum) : ∀ m ∈ mmsgOf buf dataLen peerAddr msgNum, m.Fresh := by
  intro m member
  obtain ⟨i, inside, rfl⟩ := List.mem_map.mp member
  have room := holds i (List.mem_range.mp inside)
  exact ⟨rfl, by simp only [Mmsghdr.datagram, Buf.datagram, List.length_take, Nat.min_eq_left room]⟩

theorem resend_datagrams (mmsg : List Mmsghdr) (fresh : ∀ m ∈ mmsg, m.Fresh) (done : Nat) :
    (((mmsg.take done).map Mmsghdr.sent ++ mmsg.drop done).filter
      (fun m => m.msgLen ≠ m.iovLen)).map Mmsghdr.datagram =
      ((mmsg.map Mmsghdr.datagram).drop done).filter Datagram.nonempty := by
  have kept : (mmsg.drop done).filter (fun m => m.msgLen ≠ m.iovLen) =
      (mmsg.drop done).filter (Datagram.nonempty ∘ Mmsghdr.datagram) := by
    apply List.filter_congr
    intro m member
    obtain ⟨zero, len⟩ := fresh m (List.mem_of_mem_drop member)
    rw [zero, len, Function.comp_apply, Datagram.nonempty]
    simp [eq_comm]
  rw [List.filter_append, sent_not_resent, kept, List.nil_append, ← List.filter_map, List.map_drop]

theorem burstSent_complete (k : Kernel) (u : Udp) (batch : List Datagram)
    (complete : (k.sendmmsg u.calls batch).count batch.length = batch.length) :
    leftOver k u batch = [] ∧ burstSent k u batch = batch := by
  have none_ : leftOver k u batch = [] := by simp [leftOver, complete]
  exact ⟨none_, by simp [burstSent, none_, complete]⟩

/-- The branch of the source that sends the headers `resendMmsg` again. -/
def resendBurst (k : Kernel) (u : Udp) (resendMmsg : List Mmsghdr) : Int × Udp :=
  if resendMmsg.length > 0 then
    let (retval, _, u) := sendmmsg k u resendMmsg
    if retval = resendMmsg.length then (retval, u) else (-1, u)
  else (-1, u)

theorem resendBurst_spec (k : Kernel) (u : Udp) (resendMmsg : List Mmsghdr) :
    let batch := resendMmsg.map Mmsghdr.datagram
    let done := (k.sendmmsg u.calls batch).count batch.length
    let r := resendBurst k u resendMmsg
    transmitted r.2.trace = transmitted u.trace ++ batch.take done ∧
    (0 ≤ r.1 ↔ batch ≠ [] ∧ done = batch.length) := by
  intro batch done r
  have one := sendmmsg_eq k u resendMmsg
  have length : batch.length = resendMmsg.length := List.length_map ..
  by_cases some_ : resendMmsg.length > 0
  · have member : batch ≠ [] := List.ne_nil_of_length_pos (by omega)
    have whole : r = if (k.sendmmsg u.calls batch).retval batch.length = batch.length
        then ((k.sendmmsg u.calls batch).retval batch.length,
          Udp.record ⟨(k.sendmmsg u.calls batch).errno u.errno, u.calls + 1, u.trace⟩ (.sendmmsg batch done))
        else (-1,
          Udp.record ⟨(k.sendmmsg u.calls batch).errno u.errno, u.calls + 1, u.trace⟩ (.sendmmsg batch done)) := by
      simp only [r, resendBurst, some_, if_true, one, length, done]
      rfl
    have complete := MmsgOutcome.retval_eq (n := batch.length) (k.sendmmsg u.calls batch) (by omega)
    by_cases all : done = batch.length
    · have retval := complete.mpr all
      rw [whole, if_pos retval, retval]
      refine ⟨by rw [transmitted_record]; rfl, ?_⟩
      simp [member, all]
    · rw [whole, if_neg fun same => all (complete.mp same)]
      refine ⟨by rw [transmitted_record]; rfl, ?_⟩
      simp [all]
  · have none_ : batch = [] := List.length_eq_zero_iff.mp (by omega)
    have whole : r = (-1, u) := if_neg some_
    rw [whole, none_]
    simp

theorem sendDataToUdpClientBurst_first (k : Kernel) (u : Udp) (buf : List Buf) (dataLen : List Nat)
    (peerAddr : List SockaddrIn) (msgNum : Nat) (holds : Holds buf dataLen msgNum) :
    let batch := (mmsgOf buf dataLen peerAddr msgNum).map Mmsghdr.datagram
    let first := k.sendmmsg u.calls batch
    ∃ w again, w.calls = u.calls + 1 ∧
      transmitted w.trace = transmitted u.trace ++ batch.take (first.count batch.length) ∧
      again.map Mmsghdr.datagram = leftOver k u batch ∧
      sendDataToUdpClientBurst k u buf dataLen peerAddr msgNum =
        if first.retval batch.length ≠ batch.length
        then if first.errno u.errno = EAGAIN then resendBurst k w again else (-1, w)
        else (first.retval batch.length, w) := by
  intro batch first
  let mmsg := mmsgOf buf dataLen peerAddr msgNum
  let done := first.count batch.length
  let headers := (mmsg.take done).map Mmsghdr.sent ++ mmsg.drop done
  let w := Udp.record ⟨first.errno u.errno, u.calls + 1, u.trace ++ [.burst batch]⟩ (.sendmmsg batch done)
  let again := headers.filter (fun m => m.msgLen ≠ m.iovLen)
  have length : mmsg.length = msgNum := mmsgOf_length ..
  have size : batch.length = msgNum := (List.length_map ..).trans length
  have one : sendmmsg k (u.record (.burst batch)) mmsg = (first.retval batch.length, headers, w) := by
    have general := sendmmsg_eq k (u.record (.burst batch)) mmsg
    simp only [length] at general
    simp only [headers, w, done, size]
    exact general
  have unfolded : sendDataToUdpClientBurst k u buf dataLen peerAddr msgNum =
      match sendmmsg k (u.record (.burst batch)) mmsg with
      | (retval, mmsg, u) => if retval ≠ msgNum
        then if u.errno = EAGAIN then resendBurst k u (mmsg.filter (fun m => m.msgLen ≠ m.iovLen)) else (-1, u)
        else (retval, u) := rfl
  refine ⟨w, again, rfl, ?_, resend_datagrams mmsg (mmsgOf_fresh buf dataLen peerAddr msgNum holds) done, ?_⟩
  · simp [w, done, Udp.record, UdpEvent.transmitted, transmitted]
  · rw [unfolded, one, size]
    rfl

/-- The two calls, what they transmit and what is returned for them. -/
theorem sendDataToUdpClientBurst_spec (k : Kernel) (u : Udp) (buf : List Buf) (dataLen : List Nat)
    (peerAddr : List SockaddrIn) (msgNum : Nat) (holds : Holds buf dataLen msgNum) :
    let batch := (mmsgOf buf dataLen peerAddr msgNum).map Mmsghdr.datagram
    let first := k.sendmmsg u.calls batch
    let r := sendDataToUdpClientBurst k u buf dataLen peerAddr msgNum
    transmitted r.2.trace = transmitted u.trace ++ burstSent k u batch ∧
    (0 < msgNum → (0 ≤ r.1 ↔ first.count batch.length = batch.length ∨
      first.errno u.errno = EAGAIN ∧ leftOver k u batch ≠ [] ∧
        resentCount k u batch = (leftOver k u batch).length)) := by
  intro batch first r
  obtain ⟨w, again, calls, traced, left, whole⟩ :=
    sendDataToUdpClientBurst_first k u buf dataLen peerAddr msgNum holds
  have size : batch.length = msgNum := (List.length_map ..).trans (mmsgOf_length ..)
  have sent : burstSent k u batch = batch.take (first.count batch.length) ++ if first.errno u.errno = EAGAIN
      then (leftOver k u batch).take (resentCount k u batch) else [] := rfl
  simp only [r, whole]
  by_cases retval : first.retval batch.length = batch.length
  · have complete : first.count batch.length = batch.length := first.count_of_retval retval
    rw [if_neg (Decidable.not_not.mpr retval), retval, (burstSent_complete k u batch complete).2, traced,
      complete, List.take_length]
    exact ⟨rfl, fun _ => ⟨fun _ => Or.inl rfl, fun _ => by omega⟩⟩
  · have part (some_ : 0 < msgNum) : first.count batch.length ≠ batch.length := fun same =>
      retval ((first.retval_eq (by omega)).mpr same)
    rw [if_pos retval]
    by_cases eagain : first.errno u.errno = EAGAIN
    · obtain ⟨second, reported⟩ := resendBurst_spec k w again
      rw [if_pos eagain, sent, if_pos eagain]
      rw [left, calls] at second reported
      refine ⟨by rw [second, traced, List.append_assoc]; rfl, fun some_ => ?_⟩
      rw [reported]
      exact ⟨fun both => Or.inr ⟨eagain, both⟩, fun either => (either.resolve_left (part some_)).2⟩
    · rw [if_neg eagain, sent, if_neg eagain]
      refine ⟨by rw [traced, List.append_nil], fun some_ => ?_⟩
      constructor
      · intro negative
        simp only at negative
        omega
      · rintro (all | ⟨other, _⟩)
        · exact absurd all (part some_)
        · exact absurd other eagain

theorem burstSent_sublist (k : Kernel) (u : Udp) (batch : List Datagram) :
    (burstSent k u batch).Sublist batch := by
  let done := (k.sendmmsg u.calls batch).count batch.length
  have behind : (leftOver k u batch).Sublist (batch.drop done) := List.filter_sublist
  have second : (if (k.sendmmsg u.calls batch).errno u.errno = EAGAIN
      then (leftOver k u batch).take (resentCount k u batch) else []).Sublist (batch.drop done) := by
    split
    · exact (List.take_sublist _ _).trans behind
    · exact List.nil_sublist _
  have whole := (List.Sublist.refl (batch.take done)).append second
  rwa [List.take_append_drop] at whole

theorem burstSent_resent (eagain : (k.sendmmsg u.calls batch).errno u.errno = EAGAIN)
    (all : resentCount k u batch = (leftOver k u batch).length) :
    burstSent k u batch = batch ↔
      ∀ d ∈ batch.drop ((k.sendmmsg u.calls batch).count batch.length), d.nonempty = true := by
  let done := (k.sendmmsg u.calls batch).count batch.length
  have sent : burstSent k u batch = batch.take done ++ leftOver k u batch := by
    rw [burstSent, if_pos eagain, all, List.take_length]
  have cut : burstSent k u batch = batch ↔ leftOver k u batch = batch.drop done := by
    rw [sent]
    constructor
    · intro same
      exact List.append_cancel_left (same.trans (List.take_append_drop done batch).symm)
    · intro same
      rw [same, List.take_append_drop]
  rw [cut, leftOver, List.filter_eq_self]

/-- The datagrams go out in order and none twice; and success is reported for a batch that
was not sent whole exactly when the resend passes over an empty datagram and sends the rest. -/
theorem burst_reported_iff (k : Kernel) (u : Udp) (buf : List Buf) (dataLen : List Nat)
    (peerAddr : List SockaddrIn) (msgNum : Nat) (some_ : 0 < msgNum) (holds : Holds buf dataLen msgNum) :
    let batch := (mmsgOf buf dataLen peerAddr msgNum).map Mmsghdr.datagram
    let r := sendDataToUdpClientBurst k u buf dataLen peerAddr msgNum
    let sent := transmittedSince u r.2
    (sent.Sublist batch ∧ (0 ≤ r.1 → sent = batch)) ↔ ¬PassedOver k u batch := by
  intro batch r sent
  obtain ⟨traced, reported⟩ := sendDataToUdpClientBurst_spec k u buf dataLen peerAddr msgNum holds
  have whole : sent = burstSent k u batch := by
    simp only [sent, transmittedSince, r]
    rw [traced, List.drop_left]
  rw [whole, and_iff_right (burstSent_sublist k u batch), reported some_]
  constructor
  · rintro whole ⟨eagain, left, all, d, member, empty⟩
    have nonempty := (burstSent_resent eagain all).mp (whole (Or.inr ⟨eagain, left, all⟩)) d member
    rw [empty] at nonempty
    exact Bool.false_ne_true nonempty
  · rintro kept (complete | ⟨eagain, left, all⟩)
    · exact (burstSent_complete k u batch complete).2
    · apply (burstSent_resent eagain all).mpr
      intro d member
      cases nonempty : d.nonempty with
      | true => rfl
      | false => exact absurd ⟨eagain, left, all, d, member, nonempty⟩ kept

def busyOnce : Kernel where
  sendto := fun _ _ => none
  sendmmsg := fun n batch => if n = 0 then .failed EAGAIN else .sent batch.length

/-- Nonempty datagrams are all resent. -/
theorem burst_reported_sample :
    let r := sendDataToUdpClientBurst busyOnce ⟨0, 0, []⟩ [⟨0, [1]⟩, ⟨1, [2]⟩] [1, 1] [⟨1, 100⟩, ⟨1, 200⟩] 2
    0 ≤ r.1 ∧ transmittedSince ⟨0, 0, []⟩ r.2 = [⟨0, [1], ⟨1, 100⟩⟩, ⟨1, [2], ⟨1, 200⟩⟩] := by
  refine ⟨by decide, ?_⟩
  refine ((burst_reported_iff busyOnce ⟨0, 0, []⟩ [⟨0, [1]⟩, ⟨1, [2]⟩] [1, 1] [⟨1, 100⟩, ⟨1, 200⟩] 2 (by decide)
    (by unfold Holds; decide)).mpr ?_).2 (by decide)
  rintro ⟨_, _, _, d, member, empty⟩
  revert d
  decide

/-- The empty datagram is never sent, and 1 is returned for the two. -/
theorem empty_passed_over :
    let r := sendDataToUdpClientBurst busyOnce ⟨0, 0, []⟩ [⟨0, []⟩, ⟨1, [2]⟩] [0, 1] [⟨1, 100⟩, ⟨1, 200⟩] 2
    r.1 = 1 ∧ transmittedSince ⟨0, 0, []⟩ r.2 = [⟨1, [2], ⟨1, 200⟩⟩] := by
  decide

end WlanBridge
