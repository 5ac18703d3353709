import WlanBridge.Resend
import WlanBridge.Batch

/-! `send_data_to_udp_client_burst` over a kernel that rejects some datagrams for
good. `sendmmsg` stops at the first of them; the rest of the batch gets a second try
only when `errno` happens to be `EAGAIN`. -/
namespace WlanBridge

/-- The error number with which datagrams of some destination and length are rejected. -/
abbrev Policy := SockaddrIn → Nat → Option Int

def Policy.rejects (policy : Policy) (d : Datagram) : Option Int := policy d.dest d.data.length

def Policy.accepts (policy : Policy) (d : Datagram) : Bool := (policy.rejects d).isNone

/-- `sendmmsg` as documented: the error of the first datagram, or else the number of
datagrams before the first rejected one. -/
def Policy.kernel (policy : Policy) : Kernel where
  sendto := fun _ d => policy.rejects d
  sendmmsg := fun _ batch =>
    match batch.head?.bind policy.rejects with
    | some errno => .failed errno
    | none => .sent (batch.takeWhile policy.accepts).length

def sendEach (k : Kernel) (u : Udp) (mmsg : List Mmsghdr) : Udp :=
  mmsg.foldl (fun u m => (sendDataToUdpClient k u m.iovLen m.iovBase m.msgName).2) u

def Policy.errnoAfter (policy : Policy) (errno : Int) (batch : List Datagram) : Int :=
  (batch.head?.bind policy.rejects).getD errno

theorem sendEach_transmitted (policy : Policy) (u : Udp) (mmsg : List Mmsghdr) :
    transmitted (sendEach policy.kernel u mmsg).trace =
      transmitted u.trace ++ (mmsg.map Mmsghdr.datagram).filter policy.accepts := by
  induction mmsg generalizing u with
  | nil => simp [sendEach]
  | cons m rest ih =>
    have one : transmitted (sendDataToUdpClient policy.kernel u m.iovLen m.iovBase m.msgName).2.trace =
        transmitted u.trace ++ [m.datagram].filter policy.accepts := by
      simp only [sendDataToUdpClient, sendto, Policy.kernel, Mmsghdr.datagram]
      cases rejected : policy.rejects (m.iovBase.datagram m.iovLen m.msgName) <;>
        simp [UdpEvent.transmitted, Policy.accepts, rejected]
    have unfolded : sendEach policy.kernel u (m :: rest) =
        sendEach policy.kernel (sendDataToUdpClient policy.kernel u m.iovLen m.iovBase m.msgName).2 rest := rfl
    rw [unfolded, ih, one, List.append_assoc, ← List.filter_append, List.map_cons]
    rfl

theorem Policy.kernel_sendmmsg (policy : Policy) (calls : Nat) (errno : Int) (batch : List Datagram) :
    let outcome := policy.kernel.sendmmsg calls batch
    outcome.count batch.length = (Batch.stopped policy.accepts batch).length ∧
    outcome.errno errno = policy.errnoAfter errno batch := by
  intro outcome
  have bound : (Batch.stopped policy.accepts batch).length ≤ batch.length :=
    (List.takeWhile_sublist _).length_le
  cases first : batch.head?.bind policy.rejects with
  | none =>
    have sent : outcome = .sent (Batch.stopped policy.accepts batch).length := by
      simp only [outcome, Policy.kernel]
      rw [first]
      rfl
    rw [sent]
    exact ⟨Nat.min_eq_left bound, by simp [MmsgOutcome.errno, Policy.errnoAfter, first]⟩
  | some rejection =>
    have failed : outcome = .failed rejection := by
      simp only [outcome, Policy.kernel]
      rw [first]
    rw [failed]
    refine ⟨?_, by simp [MmsgOutcome.errno, Policy.errnoAfter, first]⟩
    cases batch with
    | nil => rfl
    | cons d rest =>
      have rejected : policy.rejects d = some rejection := by simpa using first
      have refused : ¬policy.accepts d = true := by simp [Policy.accepts, rejected]
      rw [Batch.stopped, List.takeWhile_cons_of_neg refused]
      rfl

/-- The whole batch: a prefix, and with `EAGAIN` a prefix of the nonempty rest. -/
theorem burstSent_policy (policy : Policy) (u : Udp) (batch : List Datagram) :
    burstSent policy.kernel u batch = Batch.stopped policy.accepts batch ++
      if policy.errnoAfter u.errno batch = EAGAIN then Batch.resent policy.accepts Datagram.nonempty batch
      else [] := by
  obtain ⟨count, errno⟩ := policy.kernel_sendmmsg u.calls u.errno batch
  have left : leftOver policy.kernel u batch =
      (batch.dropWhile policy.accepts).filter Datagram.nonempty := by
    rw [leftOver, count, Batch.drop_stopped]
  have second := (policy.kernel_sendmmsg (u.calls + 1) 0 (leftOver policy.kernel u batch)).1
  simp only [burstSent, resentCount]
  rw [second, count, errno, left, Batch.take_stopped, Batch.take_stopped]
  rfl

/-- No rejected datagram stands before `d`, or the batch is resent, `d` with it, and the
rejected ones before `d` are empty and left out of that. -/
def Spared (policy : Policy) (errno : Int) (batch : List Datagram) (d : Datagram) : Prop :=
  ∃ before after, batch = before ++ d :: after ∧
    ((∀ e ∈ before, policy.accepts e = true) ∨
      (policy.errnoAfter errno batch = EAGAIN ∧ d.nonempty = true ∧
        ∀ e ∈ before, policy.accepts e = false → e.nonempty = false))

theorem mem_burst_iff (policy : Policy) (u : Udp) (buf : List Buf) (dataLen : List Nat)
    (peerAddr : List SockaddrIn) (msgNum : Nat) (holds : Holds buf dataLen msgNum) (d : Datagram) :
    d ∈ transmittedSince u (sendDataToUdpClientBurst policy.kernel u buf dataLen peerAddr msgNum).2 ↔
      policy.accepts d = true ∧
        Spared policy u.errno ((mmsgOf buf dataLen peerAddr msgNum).map Mmsghdr.datagram) d := by
  generalize whole : (mmsgOf buf dataLen peerAddr msgNum).map Mmsghdr.datagram = batch
  rw [transmittedSince, (sendDataToUdpClientBurst_spec policy.kernel u buf dataLen peerAddr msgNum holds).1,
    whole, List.drop_left, burstSent_policy]
  by_cases again : policy.errnoAfter u.errno batch = EAGAIN
  · rw [if_pos again, List.mem_append, Batch.mem_resent]
    constructor
    · rintro ⟨before, after, split, self, clear | ⟨some_, all⟩⟩
      · exact ⟨self, before, after, split, Or.inl clear⟩
      · exact ⟨self, before, after, split, Or.inr ⟨again, some_, all⟩⟩
    · rintro ⟨self, before, after, split, clear | ⟨_, some_, all⟩⟩
      · exact ⟨before, after, split, self, Or.inl clear⟩
      · exact ⟨before, after, split, self, Or.inr ⟨some_, all⟩⟩
  · rw [if_neg again, List.append_nil, Batch.mem_stopped]
    constructor
    · rintro ⟨before, after, split, self, clear⟩
      exact ⟨self, before, after, split, Or.inl clear⟩
    · rintro ⟨self, before, after, split, clear | ⟨resend, _⟩⟩
      · exact ⟨before, after, split, self, clear⟩
      · exact absurd resend again

/-- A burst sends what individual calls send exactly when every accepted datagram of
the batch is spared. -/
theorem burst_loses_nothing_iff (policy : Policy) (u u' : Udp) (buf : List Buf) (dataLen : List Nat)
    (peerAddr : List SockaddrIn) (msgNum : Nat) (holds : Holds buf dataLen msgNum) :
    let mmsg := mmsgOf buf dataLen peerAddr msgNum
    let batch := mmsg.map Mmsghdr.datagram
    (∀ d, d ∈ transmittedSince u (sendDataToUdpClientBurst policy.kernel u buf dataLen peerAddr msgNum).2 ↔
      d ∈ transmittedSince u' (sendEach policy.kernel u' mmsg)) ↔
    (∀ d ∈ batch, policy.accepts d = true → Spared policy u.errno batch d) := by
  intro mmsg batch
  have each (d : Datagram) : d ∈ transmittedSince u' (sendEach policy.kernel u' mmsg) ↔
      d ∈ batch ∧ policy.accepts d = true := by
    rw [transmittedSince, sendEach_transmitted, List.drop_left, List.mem_filter]
  have burst := mem_burst_iff policy u buf dataLen peerAddr msgNum holds
  constructor
  · intro same d member taken
    exact ((burst d).mp ((same d).mpr ((each d).mpr ⟨member, taken⟩))).2
  · intro spared d
    rw [burst, each]
    constructor
    · rintro ⟨taken, before, after, split, _⟩
      refine ⟨?_, taken⟩
      simp only [batch, mmsg, split]
      simp
    · rintro ⟨member, taken⟩
      exact ⟨taken, spared d member taken⟩

def port7Unreachable : Policy := fun dest _ => if dest.sinPort = 7 then some 101 else none

theorem burst_loses_nothing_sample :
    (⟨0, [1], ⟨1, 100⟩⟩ : Datagram) ∈ transmittedSince ⟨0, 0, []⟩ (sendDataToUdpClientBurst
        port7Unreachable.kernel ⟨0, 0, []⟩ [⟨0, [1]⟩, ⟨1, [2]⟩] [1, 1] [⟨1, 100⟩, ⟨1, 7⟩] 2).2 ↔
      ⟨0, [1], ⟨1, 100⟩⟩ ∈ transmittedSince ⟨0, 0, []⟩ (sendEach port7Unreachable.kernel ⟨0, 0, []⟩
        (mmsgOf [⟨0, [1]⟩, ⟨1, [2]⟩] [1, 1] [⟨1, 100⟩, ⟨1, 7⟩] 2)) := by
  refine (burst_loses_nothing_iff port7Unreachable ⟨0, 0, []⟩ ⟨0, 0, []⟩ _ _ _ 2 ?_).mpr ?_ _
  · unfold Holds
    decide
  · intro d member taken
    have first : d = ⟨0, [1], ⟨1, 100⟩⟩ := by
      revert d
      decide
    exact ⟨[], [⟨1, [2], ⟨1, 7⟩⟩], by rw [first]; rfl, Or.inl (by simp)⟩

/-- With the rejected datagram first, the other one is never sent. -/
theorem burst_drops_accepted :
    let buf : List Buf := [⟨0, [1]⟩, ⟨1, [2]⟩]
    let peerAddr : List SockaddrIn := [⟨1, 7⟩, ⟨1, 100⟩]
    transmittedSince ⟨0, 0, []⟩
      (sendDataToUdpClientBurst port7Unreachable.kernel ⟨0, 0, []⟩ buf [1, 1] peerAddr 2).2 = [] ∧
    transmittedSince ⟨0, 0, []⟩
      (sendEach port7Unreachable.kernel ⟨0, 0, []⟩ (mmsgOf buf [1, 1] peerAddr 2)) =
        [⟨1, [2], ⟨1, 100⟩⟩] := by
  decide

end WlanBridge
