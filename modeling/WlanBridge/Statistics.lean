import WlanBridge.Keyed
import WlanBridge.Udp

/-! `statistics.c`: counters for each IPv4 address, created on first use. The
environment of the process is the kernel's send calls and the allocator. -/
namespace WlanBridge

/-- The allocation sites, told apart by what they allocate. -/
inductive Calloc where
  | fdbEntry
  | listEntry
  | peerAddrInfo
  | ipStatistics
  deriving DecidableEq, Repr

/-- `calloc site n` tells whether the allocation after `n` earlier ones at the site succeeds. -/
structure Env where
  calloc : Calloc → Nat → Bool
  kernel : Kernel

/-- `tatistics_t` without the error counters, which the program never touches. -/
structure Tatistics where
  rxPackets : U64
  rxBytes : U64
  txPackets : U64
  txBytes : U64
  timeNs : U64
  deriving DecidableEq, Repr

def Tatistics.zero : Tatistics := ⟨0, 0, 0, 0, 0⟩

structure WlanIpStatistics where
  keyIp4Addr : U32
  currStat : Tatistics
  prevStat : Tatistics
  deriving DecidableEq, Repr

structure Stats where
  hIpStatHead : List WlanIpStatistics
  callocs : Nat
  deriving DecidableEq, Repr

def wlanIpStaticFind (st : Stats) (ip4Addr : U32) : Option WlanIpStatistics :=
  Keyed.find WlanIpStatistics.keyIp4Addr st.hIpStatHead ip4Addr

/-- The body that the two update functions share; `count` is the change of `curr_stat`. -/
def wlanIpStaticUpdate (env : Env) (st : Stats) (ip4Addr : U32) (count : Tatistics → Tatistics) :
    Stats :=
  match wlanIpStaticFind st ip4Addr with
  | some _ =>
    let counted (e : WlanIpStatistics) := { e with currStat := count e.currStat }
    { st with hIpStatHead := Keyed.adjust WlanIpStatistics.keyIp4Addr st.hIpStatHead ip4Addr counted }
  | none =>
    if env.calloc .ipStatistics st.callocs then
      ⟨Keyed.add st.hIpStatHead ⟨ip4Addr, count .zero, .zero⟩, st.callocs + 1⟩
    else { st with callocs := st.callocs + 1 }

def wlanIpStaticUpdateRx (env : Env) (st : Stats) (ip4Addr rxPacket rxByte : U32) : Stats :=
  wlanIpStaticUpdate env st ip4Addr fun s =>
    { s with rxPackets := s.rxPackets + rxPacket.setWidth 64, rxBytes := s.rxBytes + rxByte.setWidth 64 }

def wlanIpStaticUpdateTx (env : Env) (st : Stats) (ip4Addr txPacket txByte : U32) : Stats :=
  wlanIpStaticUpdate env st ip4Addr fun s =>
    { s with txPackets := s.txPackets + txPacket.setWidth 64, txBytes := s.txBytes + txByte.setWidth 64 }

end WlanBridge
