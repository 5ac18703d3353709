/-! The Ethernet header as the server reads it: a cast of the first bytes of a
receive buffer, whatever the length of the datagram that was put there. -/
namespace WlanBridge

abbrev Byte := BitVec 8
abbrev U16 := BitVec 16
abbrev U32 := BitVec 32
abbrev U64 := BitVec 64

/-- `unsigned char[ETH_ALEN]`, in memory order. -/
structure EtherAddr where
  b0 : Byte
  b1 : Byte
  b2 : Byte
  b3 : Byte
  b4 : Byte
  b5 : Byte
  deriving DecidableEq, Repr, Inhabited

/-- The six bytes at an offset. Receive buffers have room for a header, so the
bytes that `getD` supplies behind the buffer stand for no read of the program. -/
def EtherAddr.load (mem : List Byte) (offset : Nat) : EtherAddr :=
  ⟨mem.getD offset 0, mem.getD (offset + 1) 0, mem.getD (offset + 2) 0,
    mem.getD (offset + 3) 0, mem.getD (offset + 4) 0, mem.getD (offset + 5) 0⟩

/-- `struct ethhdr`; the protocol field is only logged. -/
structure Ethhdr where
  hDest : EtherAddr
  hSource : EtherAddr
  deriving DecidableEq, Repr

def ethhdr (mem : List Byte) : Ethhdr := ⟨.load mem 0, .load mem 6⟩

/-- `*(const u16 *)addr` on a little-endian host. -/
def EtherAddr.loadU16 (addr : EtherAddr) : U16 := addr.b1 ++ addr.b0

def isMulticastEtherAddr (addr : EtherAddr) : Bool := (addr.loadU16 &&& 1#16) != 0#16

/-- The group bit is the least significant bit of the first octet. -/
def EtherAddr.group (addr : EtherAddr) : Bool := addr.b0.getLsbD 0

theorem isMulticastEtherAddr_eq (addr : EtherAddr) : isMulticastEtherAddr addr = addr.group := by
  rw [isMulticastEtherAddr, BitVec.and_one_eq_setWidth_ofBool_getLsbD]
  have low : addr.loadU16.getLsbD 0 = addr.group := by
    rw [EtherAddr.loadU16, BitVec.getLsbD_append]
    simp [EtherAddr.group]
  rw [low]
  cases addr.group <;> decide

theorem load_append (data residue : List Byte) (fits : offset + 6 ≤ data.length) :
    EtherAddr.load (data ++ residue) offset = EtherAddr.load data offset := by
  have within (i : Nat) (h : i < data.length) : (data ++ residue).getD i 0 = data.getD i 0 := by
    simp [List.getD_eq_getElem?_getD, List.getElem?_append_left h]
  simp only [EtherAddr.load]
  rw [within offset (by omega), within (offset + 1) (by omega), within (offset + 2) (by omega),
    within (offset + 3) (by omega), within (offset + 4) (by omega), within (offset + 5) (by omega)]

theorem ethhdr_append (data residue : List Byte) (long : 12 ≤ data.length) :
    ethhdr (data ++ residue) = ethhdr data := by
  simp only [ethhdr]
  rw [load_append data residue (by omega), load_append data residue (by omega)]

end WlanBridge
