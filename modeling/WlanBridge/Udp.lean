import WlanBridge.Ethernet
import Mathlib.Tactic.SplitIfs

/-! The sending half of `udp.c` over a kernel that decides every system call. The
trace records the calls; what the bridge handed to the socket layer and what the
kernel accepted are projections of it. -/
namespace WlanBridge

/-- The compared and copied part of `struct sockaddr_in`, in network byte order. -/
structure SockaddrIn where
  sinAddr : U32
  sinPort : U16
  deriving DecidableEq, Repr, Inhabited

/-- A receive buffer: its pointer, as a number, and the bytes it holds. -/
structure Buf where
  ptr : Nat
  mem : List Byte
  deriving DecidableEq, Repr, Inhabited

/-- A message for the socket: the buffer it is sent from, its bytes and destination. -/
structure Datagram where
  buf : Nat
  data : List Byte
  dest : SockaddrIn
  deriving DecidableEq, Repr

def Datagram.payload (d : Datagram) : List Byte × SockaddrIn := (d.data, d.dest)

def Buf.datagram (buf : Buf) (len : Nat) (dest : SockaddrIn) : Datagram :=
  ⟨buf.ptr, buf.mem.take len, dest⟩

def EAGAIN : Int := 11

/-- `sendmmsg` sends a number of leading messages or fails before the first. -/
inductive MmsgOutcome where
  | sent (count : Nat)
  | failed (errno : Int)
  deriving DecidableEq, Repr

/-- Outcomes of the send calls; the first argument counts the calls made before.
For `sendto`, `none` is success and `some` carries the error number. -/
structure Kernel where
  sendto : Nat → Datagram → Option Int
  sendmmsg : Nat → List Datagram → MmsgOutcome

inductive UdpEvent where
  | sendto (d : Datagram) (accepted : Bool)
  /-- `send_data_to_udp_client_burst` is entered with this batch. -/
  | burst (batch : List Datagram)
  | sendmmsg (batch : List Datagram) (accepted : Nat)
  deriving DecidableEq, Repr

/-- The socket side of the process: `errno`, the number of send calls, the trace. -/
structure Udp where
  errno : Int
  calls : Nat
  trace : List UdpEvent
  deriving DecidableEq, Repr

def UdpEvent.attempted : UdpEvent → List Datagram
  | .sendto d _ => [d]
  | .burst batch => batch
  | .sendmmsg _ _ => []

def UdpEvent.transmitted : UdpEvent → List Datagram
  | .sendto d accepted => if accepted then [d] else []
  | .burst _ => []
  | .sendmmsg batch accepted => batch.take accepted

/-- The datagrams handed over for sending, in order. -/
def attempted (trace : List UdpEvent) : List Datagram := trace.flatMap UdpEvent.attempted

/-- The datagrams that the kernel accepted, in order. -/
def transmitted (trace : List UdpEvent) : List Datagram := trace.flatMap UdpEvent.transmitted

def transmittedSince (u v : Udp) : List Datagram :=
  (transmitted v.trace).drop (transmitted u.trace).length

@[simp] theorem attempted_append (earlier later : List UdpEvent) :
    attempted (earlier ++ later) = attempted earlier ++ attempted later := by
  simp [attempted]

@[simp] theorem transmitted_append (earlier later : List UdpEvent) :
    transmitted (earlier ++ later) = transmitted earlier ++ transmitted later := by
  simp [transmitted]

def Udp.record (u : Udp) (event : UdpEvent) : Udp := { u with trace := u.trace ++ [event] }

/-- A successful call leaves `errno` as it was. -/
def sendto (k : Kernel) (u : Udp) (buf : Buf) (len : Nat) (dest : SockaddrIn) : Int × Udp :=
  let d := buf.datagram len dest
  match k.sendto u.calls d with
  | none => (len, { u with calls := u.calls + 1 }.record (.sendto d true))
  | some errno => (-1, { u with errno := errno, calls := u.calls + 1 }.record (.sendto d false))

/-- Both branches of the source return `sendlen`; the failing one also logs. -/
def sendDataToUdpClient (k : Kernel) (u : Udp) (len : Nat) (buf : Buf) (peerAddr : SockaddrIn) :
    Int × Udp :=
  sendto k u buf len peerAddr

/-- `struct mmsghdr` with its one-element vector and its destination. -/
structure Mmsghdr where
  iovBase : Buf
  iovLen : Nat
  msgName : SockaddrIn
  msgLen : Nat
  deriving DecidableEq, Repr

def Mmsghdr.datagram (m : Mmsghdr) : Datagram := m.iovBase.datagram m.iovLen m.msgName

def Mmsghdr.sent (m : Mmsghdr) : Mmsghdr := { m with msgLen := m.iovLen }

/-- The kernel writes `msg_len` of the messages it sent and of no other. -/
def sendmmsg (k : Kernel) (u : Udp) (mmsg : List Mmsghdr) : Int × List Mmsghdr × Udp :=
  let batch := mmsg.map Mmsghdr.datagram
  match k.sendmmsg u.calls batch with
  | .sent count =>
    let done := min count mmsg.length
    (done, (mmsg.take done).map Mmsghdr.sent ++ mmsg.drop done,
      { u with calls := u.calls + 1 }.record (.sendmmsg batch done))
  | .failed errno =>
    (-1, mmsg, { u with errno := errno, calls := u.calls + 1 }.record (.sendmmsg batch 0))

/-- The headers that the first loop of `send_data_to_udp_client_burst` fills in. -/
def mmsgOf (buf : List Buf) (dataLen : List Nat) (peerAddr : List SockaddrIn) (msgNum : Nat) :
    List Mmsghdr :=
  (List.range msgNum).map fun i => ⟨buf[i]!, dataLen[i]!, peerAddr[i]!, 0⟩

def sendDataToUdpClientBurst (k : Kernel) (u : Udp) (buf : List Buf) (dataLen : List Nat)
    (peerAddr : List SockaddrIn) (msgNum : Nat) : Int × Udp :=
  let mmsg := mmsgOf buf dataLen peerAddr msgNum
  let (retval, mmsg, u) := sendmmsg k (u.record (.burst (mmsg.map Mmsghdr.datagram))) mmsg
  if retval ≠ msgNum then
    if u.errno = EAGAIN then
      let resendMmsg := mmsg.filter (fun m => m.msgLen ≠ m.iovLen)
      if resendMmsg.length > 0 then
        let (retval, _, u) := sendmmsg k u resendMmsg
        if retval = resendMmsg.length then (retval, u) else (-1, u)
      else (-1, u)
    else (-1, u)
  else (retval, u)

theorem sent_not_resent (mmsg : List Mmsghdr) :
    (mmsg.map Mmsghdr.sent).filter (fun m => m.msgLen ≠ m.iovLen) = [] := by
  rw [List.filter_eq_nil_iff]
  intro m member
  obtain ⟨m', _, rfl⟩ := List.mem_map.mp member
  simp [Mmsghdr.sent]

@[simp] theorem mmsgOf_length (buf : List Buf) (dataLen : List Nat) (peerAddr : List SockaddrIn)
    (msgNum : Nat) : (mmsgOf buf dataLen peerAddr msgNum).length = msgNum := by
  simp [mmsgOf]

@[simp] theorem attempted_record (u : Udp) (event : UdpEvent) :
    attempted (u.record event).trace = attempted u.trace ++ event.attempted := by
  simp [Udp.record, attempted]

@[simp] theorem transmitted_record (u : Udp) (event : UdpEvent) :
    transmitted (u.record event).trace = transmitted u.trace ++ event.transmitted := by
  simp [Udp.record, transmitted]

theorem sendDataToUdpClient_attempted (k : Kernel) (u : Udp) (len : Nat) (buf : Buf)
    (peerAddr : SockaddrIn) :
    attempted (sendDataToUdpClient k u len buf peerAddr).2.trace =
      attempted u.trace ++ [buf.datagram len peerAddr] := by
  simp only [sendDataToUdpClient, sendto]
  cases k.sendto u.calls (buf.datagram len peerAddr) <;> simp [UdpEvent.attempted]

theorem sendmmsg_attempted (k : Kernel) (u : Udp) (mmsg : List Mmsghdr) :
    attempted (sendmmsg k u mmsg).2.2.trace = attempted u.trace := by
  simp only [sendmmsg]
  cases k.sendmmsg u.calls (mmsg.map Mmsghdr.datagram) <;> simp [UdpEvent.attempted]

theorem sendDataToUdpClientBurst_attempted (k : Kernel) (u : Udp) (buf : List Buf)
    (dataLen : List Nat) (peerAddr : List SockaddrIn) (msgNum : Nat) :
    attempted (sendDataToUdpClientBurst k u buf dataLen peerAddr msgNum).2.trace =
      attempted u.trace ++ (mmsgOf buf dataLen peerAddr msgNum).map Mmsghdr.datagram := by
  simp only [sendDataToUdpClientBurst]
  split_ifs <;> simp [sendmmsg_attempted, UdpEvent.attempted]

end WlanBridge
