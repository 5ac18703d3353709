import WlanBridge.Throughput
import WlanBridge.Uthash
import WlanBridge.Utlist

/-! The server as it works on its memory: hashes of `uthash.h`, the ring of `utlist.h`,
records behind pointers. A pointer of a store is the number of earlier allocations at its
site; there is no result when the process dies or a loop is not left within `fuel` turns. -/
namespace WlanBridge.Pointers

structure Bridge where
  hHead : UTHash EtherAddr
  fdb : Nat → WlanFdbEntry
  lHead : Cdl
  list : Nat → WlanListEntry
  peers : List PeerAddrInfo
  fdbCallocs : Nat
  listCallocs : Nat
  peerCallocs : Nat

structure Stats where
  hIpStatHead : UTHash U32
  ipStat : Nat → WlanIpStatistics
  callocs : Nat

structure Server where
  bridge : Bridge
  stats : Stats
  udp : Udp

def Bridge.init : Bridge where
  hHead := .empty
  fdb := fun _ => ⟨default, default⟩
  lHead := .empty
  list := fun _ => ⟨default, none⟩
  peers := []
  fdbCallocs := 0
  listCallocs := 0
  peerCallocs := 0

def Server.init : Server := ⟨.init, ⟨.empty, fun _ => ⟨0, .zero, .zero⟩, 0⟩, ⟨0, 0, []⟩⟩

/-- The bytes of a hardware address as `HASH_FIND` and `HASH_ADD` hash them. -/
def macHash (mac : EtherAddr) : U32 := hashJen [mac.b0, mac.b1, mac.b2, mac.b3, mac.b4, mac.b5]

/-- The bytes of an address as `HASH_FIND_INT` and `HASH_ADD_INT` hash them. -/
def ipHash (ip4Addr : U32) : U32 :=
  hashJen [addrByte ip4Addr 0, addrByte ip4Addr 1, addrByte ip4Addr 2, addrByte ip4Addr 3]

section Code
variable (env : Env) (fuel : Nat)

def wlanIpStaticUpdate (st : Stats) (ip4Addr : U32) (count : Tatistics → Tatistics) : Option Stats :=
  (hashFind ipHash fuel st.hIpStatHead ip4Addr).bind fun found =>
    match found with
    | some e =>
      let entry := st.ipStat e
      some { st with ipStat := Function.update st.ipStat e { entry with currStat := count entry.currStat } }
    | none =>
      let e := st.callocs
      if env.calloc .ipStatistics e then
        (hashAdd ipHash fuel st.hIpStatHead e ip4Addr).map fun h =>
          ⟨h, Function.update st.ipStat e ⟨ip4Addr, count .zero, .zero⟩, e + 1⟩
      else some { st with callocs := e + 1 }

def wlanIpStaticUpdateRx (st : Stats) (ip4Addr rxPacket rxByte : U32) : Option Stats :=
  wlanIpStaticUpdate env fuel st ip4Addr fun s =>
    { s with rxPackets := s.rxPackets + rxPacket.setWidth 64, rxBytes := s.rxBytes + rxByte.setWidth 64 }

def wlanIpStaticUpdateTx (st : Stats) (ip4Addr txPacket txByte : U32) : Option Stats :=
  wlanIpStaticUpdate env fuel st ip4Addr fun s =>
    { s with txPackets := s.txPackets + txPacket.setWidth 64, txBytes := s.txBytes + txByte.setWidth 64 }

/-- The loop of `wlan_ip_dump_static` follows the links of the application order. -/
def dumpStaticTurn (clock : U32 → Option (U64 × U64)) (ce : Nat) (s : Stats × List StatReport) :
    Option (Option Nat × Stats × List StatReport) :=
  let (st, out) := s
  let entry := st.ipStat ce
  let (shown, entry') := showThrouthput entry (clock entry.keyIp4Addr)
  some ((st.hIpStatHead.app ce).next, { st with ipStat := Function.update st.ipStat ce entry' },
    out ++ [⟨entry.keyIp4Addr, statLine entry, shown⟩])

def wlanIpDumpStatic (st : Stats) (clock : U32 → Option (U64 × U64)) : Option (Stats × List StatReport) :=
  Links.walk (dumpStaticTurn clock) fuel st.hIpStatHead.head (st, [])

def wlanBrFind (b : Bridge) (remoteMac : EtherAddr) : Option (Option Nat) := hashFind macHash fuel b.hHead remoteMac

def wlanFdbUpdate (b : Bridge) (peerAddr : SockaddrIn) (remoteMac : EtherAddr) : Option (Int × Bridge) :=
  (wlanBrFind fuel b remoteMac).bind fun found =>
    match found with
    | some _ => some (0, b)
    | none =>
      let entry := b.fdbCallocs
      if env.calloc .fdbEntry entry then
        (hashAdd macHash fuel b.hHead entry remoteMac).map fun h =>
          (1, { b with hHead := h, fdb := Function.update b.fdb entry ⟨remoteMac, peerAddr⟩, fdbCallocs := entry + 1 })
      else some (-1, { b with fdbCallocs := entry + 1 })

/-- The body of the search loop of `wlan_list_update`; a null record is dereferenced. -/
def searchTurn (peerAddr : SockaddrIn) (entry : Nat) (s : Bridge × Option Nat) : Option (Bool × Bridge × Option Nat) :=
  let (b, _) := s
  (b.list entry).peerAddr.map fun p =>
    if (b.peers[p]!).addr.same peerAddr then
      let peers := b.peers.modify p fun pa => { pa with count := pa.count + 1, floodFlag := 0 }
      (false, { b with peers := peers }, some p)
    else (true, s)

/-- The last statements of `wlan_list_update`. -/
def linkElem (b : Bridge) (elem p : Nat) : Option (Int × Bridge) :=
  (cdlPrepend b.lHead elem).map fun lHead =>
    (1, { b with list := Function.update b.list elem { b.list elem with peerAddr := some p }, lHead := lHead })

/-- What follows the search: a record is allocated if none was found. -/
def attachElem (b : Bridge) (peerAddr : SockaddrIn) (elem : Nat) : Option Nat → Option (Int × Bridge)
  | some p => linkElem b elem p
  | none =>
    if env.calloc .peerAddrInfo b.peerCallocs then
      linkElem { b with peers := b.peers ++ [⟨peerAddr, 1, 0⟩], peerCallocs := b.peerCallocs + 1 } elem b.peers.length
    else some (0, { b with peerCallocs := b.peerCallocs + 1 })

def wlanListUpdate (b : Bridge) (peerAddr : SockaddrIn) (remoteMac : EtherAddr) : Option (Int × Bridge) :=
  let elem := b.listCallocs
  if env.calloc .listEntry elem then
    let b := { b with list := Function.update b.list elem ⟨remoteMac, none⟩, listCallocs := elem + 1 }
    (cdlForeachSafe (fun s => s.1.lHead) (searchTurn peerAddr) fuel (b, none)).bind fun (b, pa) =>
      attachElem env b peerAddr elem pa
  else some (0, { b with listCallocs := elem + 1 })

def learn (b : Bridge) (peerAddr : SockaddrIn) (remoteMac : EtherAddr) : Option Bridge :=
  (wlanFdbUpdate env fuel b peerAddr remoteMac).bind fun (ret, b) =>
    if ret = 1 then (wlanListUpdate env fuel b peerAddr remoteMac).map Prod.snd else some b

def floodTurn (len : Nat) (buf : Buf) (currAddr : SockaddrIn) (entry : Nat) (s : Server) : Option (Bool × Server) :=
  match (s.bridge.list entry).peerAddr with
  | none => some (true, s)
  | some p =>
    let pa := s.bridge.peers[p]!
    if pa.floodFlag == 1 || pa.addr.same currAddr then some (true, s)
    else
      let marked := s.bridge.peers.modify p fun pa => { pa with floodFlag := 1 }
      let (sendLen, udp) := sendDataToUdpClient env.kernel s.udp len buf pa.addr
      let s := { s with bridge := { s.bridge with peers := marked }, udp := udp }
      if sendLen ≠ len then some (true, s)
      else (wlanIpStaticUpdateTx env fuel s.stats pa.addr.sinAddr 1 (BitVec.ofNat 32 len)).map fun stats =>
        (true, { s with stats := stats })

def clearTurn (entry : Nat) (s : Server) : Option (Bool × Server) :=
  match (s.bridge.list entry).peerAddr with
  | none => some (true, s)
  | some p =>
    let cleared := s.bridge.peers.modify p fun pa => { pa with floodFlag := 0 }
    some (true, { s with bridge := { s.bridge with peers := cleared } })

def wlanBrFlood (s : Server) (len : Nat) (buf : Buf) (currAddr : SockaddrIn) : Option Server :=
  (wlanIpStaticUpdateRx env fuel s.stats currAddr.sinAddr 1 (BitVec.ofNat 32 len)).bind fun stats =>
    (cdlForeachSafe (fun s => s.bridge.lHead) (floodTurn env fuel len buf currAddr) fuel { s with stats := stats }).bind
      (cdlForeachSafe (fun s => s.bridge.lHead) clearTurn fuel)

def wlanBrForward (s : Server) (len : Nat) (buf : Buf) (destMac : EtherAddr) (currAddr : SockaddrIn) :
    Option (Int × Server) :=
  (wlanBrFind fuel s.bridge destMac).map fun found =>
    match found with
    | some e =>
      let entry := s.bridge.fdb e
      if entry.peerAddr.same currAddr then (0, s)
      else
        let (sendLen, udp) := sendDataToUdpClient env.kernel s.udp len buf entry.peerAddr
        if sendLen ≠ len then (-2, { s with udp := udp }) else (sendLen, { s with udp := udp })
    | none => (-1, s)

def wlanBrForwardToArray (s : Server) (len : Nat) (buf : Buf) (destMac : EtherAddr) (currAddr : SockaddrIn) :
    Option (Int × Option ToArray × Server) :=
  (wlanBrFind fuel s.bridge destMac).bind fun found =>
    match found with
    | some e =>
      let entry := s.bridge.fdb e
      (wlanIpStaticUpdateRx env fuel s.stats currAddr.sinAddr 1 (BitVec.ofNat 32 len)).bind fun stats =>
        if entry.peerAddr.same currAddr then some (0, none, { s with stats := stats })
        else (wlanIpStaticUpdateTx env fuel stats entry.peerAddr.sinAddr 1 (BitVec.ofNat 32 len)).map fun stats =>
          (1, some ⟨len, buf, entry.peerAddr⟩, { s with stats := stats })
    | none => some (-1, none, s)

def wlanBrHandle (s : Server) (len : Nat) (buf : Buf) (peerAddr : SockaddrIn) : Option Server :=
  let ether := ethhdr buf.mem
  (learn env fuel s.bridge peerAddr ether.hSource).bind fun b =>
    let s := { s with bridge := b }
    if isMulticastEtherAddr ether.hDest then wlanBrFlood env fuel s len buf peerAddr
    else (wlanBrForward env fuel s len buf ether.hDest peerAddr).bind fun (ret, s) =>
      if ret = -1 then wlanBrFlood env fuel s len buf peerAddr else some s

structure BurstLocals where
  server : Server
  j : Nat
  toDataLen : List Nat
  toBuf : List Buf
  toPeerAddr : List SockaddrIn

def BurstLocals.start (s : Server) (recvCount : Nat) : BurstLocals :=
  ⟨s, 0, List.replicate recvCount default, List.replicate recvCount default, List.replicate recvCount default⟩

def BurstLocals.store (l : BurstLocals) (entry : ToArray) : BurstLocals :=
  { l with
    toDataLen := l.toDataLen.set l.j entry.dataLen
    toBuf := l.toBuf.set l.j entry.buf
    toPeerAddr := l.toPeerAddr.set l.j entry.peerAddr }

def burstBody (l : BurstLocals) (slot : Slot) (i : Nat) : Option BurstLocals :=
  let buf : Buf := ⟨i, slot.mem⟩
  let len := slot.data.length
  let ether := ethhdr buf.mem
  (learn env fuel l.server.bridge slot.peerAddr ether.hSource).bind fun b =>
    let s := { l.server with bridge := b }
    if isMulticastEtherAddr ether.hDest then
      (wlanBrFlood env fuel s len buf slot.peerAddr).map fun s => { l with server := s }
    else (wlanBrForwardToArray env fuel s len buf ether.hDest slot.peerAddr).bind fun (ret, written, s) =>
      let l := { (written.elim l l.store) with server := s }
      if ret = 1 then some { l with j := l.j + 1 }
      else if ret = -1 then (wlanBrFlood env fuel s len buf slot.peerAddr).map fun s => { l with server := s }
      else some l

def wlanBrHandleBurst (s : Server) (slots : List Slot) : Option Server :=
  (slots.zipIdx.foldlM (fun l a => burstBody env fuel l a.1 a.2) (.start s slots.length)).map fun l =>
    if l.j > 0 then
      let sent := sendDataToUdpClientBurst env.kernel l.server.udp l.toBuf l.toDataLen l.toPeerAddr l.j
      { l.server with udp := sent.2 }
    else l.server

/-- The loop body of `wlan_br_dump_fdb`; a null record is dereferenced. -/
def dumpFdbTurn (entry : Nat) (s : Bridge × List (List Char)) : Option (Bool × Bridge × List (List Char)) :=
  let (b, out) := s
  (b.list entry).peerAddr.map fun p => (true, b, out ++ [dumpLine (b.peers[p]!).addr (b.list entry).keyRemoteMac])

def wlanBrDumpFdb (b : Bridge) : Option (List (List Char)) :=
  (cdlForeachSafe (fun s => s.1.lHead) dumpFdbTurn fuel (b, [])).map Prod.snd

end Code

end WlanBridge.Pointers
