import WlanBridge.Ethernet

/-! The client's event loop: a frame read from the TAP goes to the server, a datagram
received goes to the TAP. The plain functions are modelled, which `runing` uses; the
device and the socket hand over one frame or datagram at a time, cut to the buffer. -/
namespace WlanBridge

structure Client where
  tuntapBuf : List Byte
  udpBuf : List Byte
  deriving DecidableEq, Repr

def CLIENT_BUF_LEN : Nat := 1518

def Client.init : Client := ⟨List.replicate CLIENT_BUF_LEN 0, List.replicate CLIENT_BUF_LEN 0⟩

/-- `read` and `recvfrom` overwrite the head of the buffer. -/
def fill (maxLen : Nat) (buf data : List Byte) : List Byte :=
  data.take maxLen ++ buf.drop (data.take maxLen).length

def readInto (maxLen : Nat) (buf data : List Byte) : Int × List Byte :=
  let len : Int := (data.take maxLen).length
  if len ≤ 0 then (-1, fill maxLen buf data) else (len, fill maxLen buf data)

def readDataFromTuntap (maxLen : Nat) (buf frame : List Byte) : Int × List Byte := readInto maxLen buf frame

def readDataFromUdp (maxLen : Nat) (buf data : List Byte) : Int × List Byte := readInto maxLen buf data

/-- The second component is what went out, when the call was accepted. -/
def putOut (accepted : Bool) (len : Int) (buf : List Byte) : Int × Option (List Byte) :=
  if accepted then (len, some (buf.take len.toNat)) else (-1, none)

def sendDataUseUdp (accepted : Bool) (len : Int) (buf : List Byte) : Int × Option (List Byte) :=
  putOut accepted len buf

def sendDataUseTuntap (accepted : Bool) (len : Int) (buf : List Byte) : Int × Option (List Byte) :=
  putOut accepted len buf

/-- The branch of `runing` for the TAP, with the datagram sent. -/
def runingTuntap (accepted : Bool) (c : Client) (frame : List Byte) : Client × Option (List Byte) :=
  let (len, buf) := readDataFromTuntap CLIENT_BUF_LEN c.tuntapBuf frame
  let c := { c with tuntapBuf := buf }
  if len ≤ 0 then (c, none) else (c, (sendDataUseUdp accepted len buf).2)

/-- The branch of `runing` for the socket, with the frame written. -/
def runingUdp (accepted : Bool) (c : Client) (data : List Byte) : Client × Option (List Byte) :=
  let (recvLen, buf) := readDataFromUdp CLIENT_BUF_LEN c.udpBuf data
  let c := { c with udpBuf := buf }
  if recvLen ≤ 0 then (c, none) else (c, (sendDataUseTuntap accepted recvLen buf).2)

theorem putOut_readInto (fits : data.length ≤ maxLen)
    (out : (putOut accepted (readInto maxLen buf data).1 (readInto maxLen buf data).2).2 = some sent)
    (some_ : ¬(readInto maxLen buf data).1 ≤ 0) : sent = data := by
  have whole : data.take maxLen = data := List.take_of_length_le fits
  have filled : (fill maxLen buf data).take data.length = data := by
    rw [fill, whole, List.take_left]
  by_cases empty : ((data.length : Nat) : Int) ≤ 0
  · simp only [readInto, whole, empty, if_true] at some_
    omega
  · simp only [readInto, whole, empty, if_false, putOut] at out
    cases accepted with
    | false => simp at out
    | true =>
      simp only [if_true, Int.toNat_natCast, filled, Option.some.injEq] at out
      exact out.symm

theorem runingTuntap_sent (fits : frame.length ≤ CLIENT_BUF_LEN)
    (sent : (runingTuntap accepted c frame).2 = some data) : data = frame := by
  by_cases none_ : (readInto CLIENT_BUF_LEN c.tuntapBuf frame).1 ≤ 0
  · simp [runingTuntap, readDataFromTuntap, none_] at sent
  · rw [runingTuntap, readDataFromTuntap] at sent
    simp only [none_, if_false, sendDataUseUdp] at sent
    exact putOut_readInto fits sent none_

theorem runingUdp_written (fits : data.length ≤ CLIENT_BUF_LEN)
    (written : (runingUdp accepted c data).2 = some frame) : frame = data := by
  by_cases none_ : (readInto CLIENT_BUF_LEN c.udpBuf data).1 ≤ 0
  · simp [runingUdp, readDataFromUdp, none_] at written
  · rw [runingUdp, readDataFromUdp] at written
    simp only [none_, if_false, sendDataUseTuntap] at written
    exact putOut_readInto fits written none_

end WlanBridge
