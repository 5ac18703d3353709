import WlanBridge.Statistics

/-! `wlan_fdb.c` and `wlan_br_forward.c`: learning, flooding, unicast forwarding and
the two handlers. Peer records are heap cells shared between list entries; a pointer
is the index of its cell, and cells are never freed. -/
namespace WlanBridge

/-- `wlan_fdb_entry_t` without the two id strings, which the program never touches. -/
structure WlanFdbEntry where
  keyRemoteMac : EtherAddr
  peerAddr : SockaddrIn
  deriving DecidableEq, Repr

structure PeerAddrInfo where
  addr : SockaddrIn
  count : U16
  floodFlag : U16
  deriving DecidableEq, Repr, Inhabited

/-- The list links are the order of `lHead`; `none` is the null pointer. -/
structure WlanListEntry where
  keyRemoteMac : EtherAddr
  peerAddr : Option Nat
  deriving DecidableEq, Repr

/-- The forwarding stores with the peer records behind them. `fault` is set by a
dereference of a null record pointer, where the process would die. -/
structure Bridge where
  hHead : List WlanFdbEntry
  lHead : List WlanListEntry
  peers : List PeerAddrInfo
  fdbCallocs : Nat
  listCallocs : Nat
  peerCallocs : Nat
  fault : Bool
  deriving DecidableEq, Repr

structure Server where
  bridge : Bridge
  stats : Stats
  udp : Udp
  deriving DecidableEq, Repr

def Bridge.init : Bridge := ⟨[], [], [], 0, 0, 0, false⟩

def Server.init : Server := ⟨.init, ⟨[], 0⟩, ⟨0, 0, []⟩⟩

/-- The comparison of address and port that the source spells out at each use. -/
def SockaddrIn.same (a b : SockaddrIn) : Bool := a.sinAddr == b.sinAddr && a.sinPort == b.sinPort

def wlanBrFind (b : Bridge) (remoteMac : EtherAddr) : Option WlanFdbEntry :=
  Keyed.find WlanFdbEntry.keyRemoteMac b.hHead remoteMac

def wlanFdbUpdate (env : Env) (b : Bridge) (peerAddr : SockaddrIn) (remoteMac : EtherAddr) :
    Int × Bridge :=
  match wlanBrFind b remoteMac with
  | some _ => (0, b) -- "update time", and nothing is updated
  | none =>
    if env.calloc .fdbEntry b.fdbCallocs then
      (1, { b with hHead := Keyed.add b.hHead ⟨remoteMac, peerAddr⟩, fdbCallocs := b.fdbCallocs + 1 })
    else (-1, { b with fdbCallocs := b.fdbCallocs + 1 })

/-- The search loop of `wlan_list_update`; it follows every record pointer unchecked. -/
def searchPeer (peers : List PeerAddrInfo) (peerAddr : SockaddrIn) :
    List WlanListEntry → Except Unit (Option Nat)
  | [] => .ok none
  | entry :: rest =>
    match entry.peerAddr with
    | none => .error ()
    | some p => if (peers[p]!).addr.same peerAddr then .ok (some p) else searchPeer peers peerAddr rest

def wlanListUpdate (env : Env) (b : Bridge) (peerAddr : SockaddrIn) (remoteMac : EtherAddr) :
    Int × Bridge :=
  if env.calloc .listEntry b.listCallocs then
    let b := { b with listCallocs := b.listCallocs + 1 }
    match searchPeer b.peers peerAddr b.lHead with
    | .error _ => (0, { b with fault := true })
    | .ok (some p) =>
      (1, { b with
        peers := b.peers.modify p (fun pa => { pa with count := pa.count + 1, floodFlag := 0 })
        lHead := ⟨remoteMac, some p⟩ :: b.lHead })
    | .ok none =>
      if env.calloc .peerAddrInfo b.peerCallocs then
        (1, { b with
          peers := b.peers ++ [⟨peerAddr, 1, 0⟩]
          lHead := ⟨remoteMac, some b.peers.length⟩ :: b.lHead
          peerCallocs := b.peerCallocs + 1 })
      else (0, { b with peerCallocs := b.peerCallocs + 1 })
  else (0, { b with listCallocs := b.listCallocs + 1 })

/-- The statement that opens the handling of a frame in both handlers. -/
def learn (env : Env) (b : Bridge) (peerAddr : SockaddrIn) (remoteMac : EtherAddr) : Bridge :=
  let (ret, b) := wlanFdbUpdate env b peerAddr remoteMac
  if ret = 1 then (wlanListUpdate env b peerAddr remoteMac).2 else b

/-- A send with its accounting: only a complete one is counted. -/
def floodSend (env : Env) (len : Nat) (buf : Buf) (s : Server) (addr : SockaddrIn) : Server :=
  let (sendLen, udp) := sendDataToUdpClient env.kernel s.udp len buf addr
  if sendLen ≠ len then { s with udp := udp }
  else { s with
    udp := udp
    stats := wlanIpStaticUpdateTx env s.stats addr.sinAddr 1 (BitVec.ofNat 32 len) }

/-- The body of the first loop of `wlan_br_flood`. -/
def floodEntry (env : Env) (len : Nat) (buf : Buf) (currAddr : SockaddrIn) (s : Server)
    (entry : WlanListEntry) : Server :=
  match entry.peerAddr with
  | none => s
  | some p =>
    let pa := s.bridge.peers[p]!
    if pa.floodFlag == 1 || pa.addr.same currAddr then s
    else
      let marked := s.bridge.peers.modify p (fun pa => { pa with floodFlag := 1 })
      floodSend env len buf { s with bridge := { s.bridge with peers := marked } } pa.addr

/-- The body of the second loop of `wlan_br_flood`. -/
def clearEntry (s : Server) (entry : WlanListEntry) : Server :=
  match entry.peerAddr with
  | none => s
  | some p =>
    let cleared := s.bridge.peers.modify p (fun pa => { pa with floodFlag := 0 })
    { s with bridge := { s.bridge with peers := cleared } }

def wlanBrFlood (env : Env) (s : Server) (len : Nat) (buf : Buf) (currAddr : SockaddrIn) : Server :=
  let s := { s with
    stats := wlanIpStaticUpdateRx env s.stats currAddr.sinAddr 1 (BitVec.ofNat 32 len) }
  let s := s.bridge.lHead.foldl (floodEntry env len buf currAddr) s
  s.bridge.lHead.foldl clearEntry s

def wlanBrForward (env : Env) (s : Server) (len : Nat) (buf : Buf) (destMac : EtherAddr)
    (currAddr : SockaddrIn) : Int × Server :=
  match wlanBrFind s.bridge destMac with
  | some entry =>
    if entry.peerAddr.same currAddr then (0, s)
    else
      let (sendLen, udp) := sendDataToUdpClient env.kernel s.udp len buf entry.peerAddr
      if sendLen ≠ len then (-2, { s with udp := udp }) else (sendLen, { s with udp := udp })
  | none => (-1, s)

/-- What `wlan_br_forward_to_array` writes through its last three arguments. -/
structure ToArray where
  dataLen : Nat
  buf : Buf
  peerAddr : SockaddrIn
  deriving DecidableEq, Repr

def wlanBrForwardToArray (env : Env) (s : Server) (len : Nat) (buf : Buf) (destMac : EtherAddr)
    (currAddr : SockaddrIn) : Int × Option ToArray × Server :=
  match wlanBrFind s.bridge destMac with
  | some entry =>
    let s := { s with
      stats := wlanIpStaticUpdateRx env s.stats currAddr.sinAddr 1 (BitVec.ofNat 32 len) }
    if entry.peerAddr.same currAddr then (0, none, s)
    else (1, some ⟨len, buf, entry.peerAddr⟩,
      { s with stats := wlanIpStaticUpdateTx env s.stats entry.peerAddr.sinAddr 1 (BitVec.ofNat 32 len) })
  | none => (-1, none, s)

def wlanBrHandle (env : Env) (s : Server) (len : Nat) (buf : Buf) (peerAddr : SockaddrIn) : Server :=
  let ether := ethhdr buf.mem
  let s := { s with bridge := learn env s.bridge peerAddr ether.hSource }
  if isMulticastEtherAddr ether.hDest then wlanBrFlood env s len buf peerAddr
  else
    let (ret, s) := wlanBrForward env s len buf ether.hDest peerAddr
    if ret = -1 then wlanBrFlood env s len buf peerAddr else s

/-- One element of the arrays that the receive loop passes to `wlan_br_handle_burst`:
the received bytes, what the buffer holds behind them, and the sender. -/
structure Slot where
  data : List Byte
  residue : List Byte
  peerAddr : SockaddrIn
  deriving DecidableEq, Repr

def Slot.mem (slot : Slot) : List Byte := slot.data ++ slot.residue

/-- The locals of `wlan_br_handle_burst`. The arrays have one cell for each frame and
start uninitialised, which `default` stands for. -/
structure BurstLocals where
  server : Server
  j : Nat
  toDataLen : List Nat
  toBuf : List Buf
  toPeerAddr : List SockaddrIn
  deriving DecidableEq, Repr

def BurstLocals.start (s : Server) (recvCount : Nat) : BurstLocals :=
  ⟨s, 0, List.replicate recvCount default, List.replicate recvCount default,
    List.replicate recvCount default⟩

def BurstLocals.store (l : BurstLocals) (entry : ToArray) : BurstLocals :=
  { l with
    toDataLen := l.toDataLen.set l.j entry.dataLen
    toBuf := l.toBuf.set l.j entry.buf
    toPeerAddr := l.toPeerAddr.set l.j entry.peerAddr }

/-- The loop body of `wlan_br_handle_burst` on frame `i`; buffer `i` has pointer `i`. -/
def burstBody (env : Env) (l : BurstLocals) (slot : Slot) (i : Nat) : BurstLocals :=
  let buf : Buf := ⟨i, slot.mem⟩
  let len := slot.data.length
  let ether := ethhdr buf.mem
  let s := { l.server with bridge := learn env l.server.bridge slot.peerAddr ether.hSource }
  if isMulticastEtherAddr ether.hDest then
    { l with server := wlanBrFlood env s len buf slot.peerAddr }
  else
    let (ret, written, s) := wlanBrForwardToArray env s len buf ether.hDest slot.peerAddr
    let l := { (written.elim l l.store) with server := s }
    if ret = 1 then { l with j := l.j + 1 }
    else if ret = -1 then { l with server := wlanBrFlood env s len buf slot.peerAddr }
    else l

def burstLoop (env : Env) (l : BurstLocals) (slots : List Slot) : BurstLocals :=
  slots.zipIdx.foldl (fun l a => burstBody env l a.1 a.2) l

def wlanBrHandleBurst (env : Env) (s : Server) (slots : List Slot) : Server :=
  let l := burstLoop env (.start s slots.length) slots
  if l.j > 0 then
    let sent := sendDataToUdpClientBurst env.kernel l.server.udp l.toBuf l.toDataLen l.toPeerAddr l.j
    { l.server with udp := sent.2 }
  else l.server

end WlanBridge
