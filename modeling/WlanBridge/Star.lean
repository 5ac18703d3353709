import WlanBridge.Client
import WlanBridge.Receive
import WlanBridge.Transmission
import Mathlib.Logic.Relation

/-! One server and its clients over a network that loses, delays, reorders and
duplicates. Every frame that reaches a TAP was read from the TAP of another client. -/
namespace WlanBridge

/-- The parties; their addresses are fixed and pairwise distinct. -/
structure Star (ι : Type) where
  serverAddr : SockaddrIn
  addr : ι → SockaddrIn
  distinct : Function.Injective addr
  apart : ∀ c, addr c ≠ serverAddr

/-- A datagram on the wire. -/
structure Flight where
  src : SockaddrIn
  dst : SockaddrIn
  data : List Byte
  deriving DecidableEq, Repr

inductive TapEvent (ι : Type) where
  | read (c : ι) (frame : List Byte)
  | wrote (c : ι) (frame : List Byte)
  deriving DecidableEq, Repr

/-- `net` holds every datagram ever sent: one that is never delivered was lost, one
delivered again was duplicated. `log` records the frames at the TAPs in order. -/
structure World (ι : Type) where
  clients : ι → Client
  server : Server
  net : List Flight
  log : List (TapEvent ι)

def World.init (ι : Type) : World ι := ⟨fun _ => .init, .init, [], []⟩

section Steps
variable {ι : Type} [DecidableEq ι] (star : Star ι)

def Star.tapRead (w : World ι) (c : ι) (frame : List Byte) (accepted : Bool) : World ι :=
  let (client, sent) := runingTuntap accepted (w.clients c) frame
  { w with
    clients := Function.update w.clients c client
    net := w.net ++ sent.toList.map fun data => ⟨star.addr c, star.serverAddr, data⟩
    log := w.log ++ [.read c frame] }

/-- The slots of a batch: each datagram in a buffer of some former contents. -/
def batchSlots (batch : List (Flight × List Byte)) : List Slot :=
  batch.map fun a => (Packet.mk a.1.data a.1.src).into MAX_DATA_LEN a.2

/-- The server receives a batch and runs the burst handler on it. -/
def Star.serverRecv (env : Env) (w : World ι) (batch : List (Flight × List Byte)) : World ι :=
  let server := wlanBrHandleBurst env w.server (batchSlots batch)
  { w with
    server := server
    net := w.net ++ (transmittedSince w.server.udp server.udp).map fun d => ⟨star.serverAddr, d.dest, d.data⟩ }

def World.clientRecv (w : World ι) (c : ι) (flight : Flight) (accepted : Bool) : World ι :=
  let (client, written) := runingUdp accepted (w.clients c) flight.data
  { w with
    clients := Function.update w.clients c client
    log := w.log ++ written.toList.map fun frame => .wrote c frame }

inductive Star.Step : World ι → World ι → Prop
  | tapRead (c : ι) (frame : List Byte) (accepted : Bool) (fits : frame.length ≤ CLIENT_BUF_LEN) :
      Star.Step w (star.tapRead w c frame accepted)
  | serverRecv (env : Env) (batch : List (Flight × List Byte))
      (inNet : ∀ a ∈ batch, a.1 ∈ w.net ∧ a.1.dst = star.serverAddr) :
      Star.Step w (star.serverRecv env w batch)
  | clientRecv (c : ι) (flight : Flight) (accepted : Bool) (inNet : flight ∈ w.net)
      (mine : flight.dst = star.addr c) : Star.Step w (w.clientRecv c flight accepted)

def Star.Reachable (w : World ι) : Prop := Relation.ReflTransGen star.Step (World.init ι) w

/-- What holds of every reachable world: datagrams to the server are frames of their
sender, datagrams to a client are frames of another one. -/
structure Star.Safe (w : World ι) : Prop where
  wf : w.server.bridge.Wf
  known : ∀ entry ∈ w.server.bridge.hHead, ∃ c, star.addr c = entry.peerAddr
  upward : ∀ p ∈ w.net, p.dst = star.serverAddr → ∃ c, p.src = star.addr c ∧
    p.data.length ≤ MAX_DATA_LEN ∧ TapEvent.read c p.data ∈ w.log
  downward : ∀ p ∈ w.net, ∀ c, p.dst = star.addr c → p.data.length ≤ MAX_DATA_LEN ∧
    ∃ c', c' ≠ c ∧ TapEvent.read c' p.data ∈ w.log
  written : ∀ before c frame after, w.log = before ++ .wrote c frame :: after →
    ∃ c', c' ≠ c ∧ TapEvent.read c' frame ∈ before

end Steps

theorem learn_entries (member : entry ∈ (learn env b peerAddr mac).hHead) :
    entry ∈ b.hHead ∨ entry.peerAddr = peerAddr := by
  rcases learn_hHead env b peerAddr mac with same | added
  · rw [same] at member
    exact Or.inl member
  · rw [added, Keyed.add, List.mem_append, List.mem_singleton] at member
    rcases member with old | rfl
    · exact Or.inl old
    · exact Or.inr rfl

theorem learnAll_entries (env : Env) (b : Bridge) (slots : List Slot)
    (member : entry ∈ (learnAll env b slots).hHead) :
    entry ∈ b.hHead ∨ ∃ slot ∈ slots, slot.peerAddr = entry.peerAddr := by
  induction slots generalizing b with
  | nil => exact Or.inl member
  | cons slot rest ih =>
    rcases ih _ member with held | ⟨other, inRest, same⟩
    · rcases learn_entries held with old | new
      · exact Or.inl old
      · exact Or.inr ⟨slot, by simp, new.symm⟩
    · exact Or.inr ⟨other, List.mem_cons_of_mem _ inRest, same⟩

/-- A datagram of a batch carries the bytes of one slot to an address of the FDB that
is not the sender's. -/
theorem burst_sent (env : Env) (s : Server) (wf : s.bridge.Wf) (slots : List Slot)
    (member : d ∈ transmittedSince s.udp (wlanBrHandleBurst env s slots).udp) :
    ∃ slot, slots[d.buf]? = some slot ∧ d.data = slot.data ∧ d.dest ≠ slot.peerAddr ∧
      ((∃ entry ∈ s.bridge.hHead, entry.peerAddr = d.dest) ∨ ∃ other ∈ slots, other.peerAddr = d.dest) := by
  obtain ⟨i, slot, q, at_i, inDests, rfl⟩ :=
    (mem_attempts env s wf (.burst slots) _).mp ((burst_transmitted env s slots).subset member)
  refine ⟨slot, at_i, rfl, ?_, ?_⟩
  · rintro rfl
    exact origin_not_dest _ _ _ inDests
  · obtain ⟨entry, inTable, rfl⟩ := dest_known (learnAll_wf env wf _) inDests
    rcases learnAll_entries env _ _ inTable with old | ⟨other, inSlots, same⟩
    · exact Or.inl ⟨entry, old, rfl⟩
    · exact Or.inr ⟨other, List.mem_of_mem_take inSlots, same⟩

theorem burst_once (env : Env) (s : Server) (wf : s.bridge.Wf) (slots : List Slot) :
    ((transmittedSince s.udp (wlanBrHandleBurst env s slots).udp).map fun d => (d.buf, d.dest)).Nodup := by
  apply ((burst_transmitted env s slots).map _).nodup
  rw [List.nodup_map_iff_inj_on (attempts_nodup env s wf _)]
  intro d inD e inE same
  obtain ⟨i, slot, q, at_i, _, rfl⟩ := (mem_attempts env s wf (.burst slots) _).mp inD
  obtain ⟨j, other, r, at_j, _, rfl⟩ := (mem_attempts env s wf (.burst slots) _).mp inE
  obtain ⟨rfl, rfl⟩ := Prod.mk.inj same
  obtain rfl := Option.some.inj (at_i.symm.trans at_j)
  rfl

theorem batchSlots_getElem {batch : List (Flight × List Byte)} {i : Nat} {slot : Slot}
    (at_i : (batchSlots batch)[i]? = some slot) :
    ∃ a, batch[i]? = some a ∧ slot = (Packet.mk a.1.data a.1.src).into MAX_DATA_LEN a.2 := by
  rw [batchSlots, List.getElem?_map] at at_i
  obtain ⟨a, at_a, rfl⟩ := Option.map_eq_some_iff.mp at_i
  exact ⟨a, at_a, rfl⟩

section Safety
variable {ι : Type} {star : Star ι} {w : World ι} {batch : List (Flight × List Byte)}

theorem written_append {log more : List (TapEvent ι)}
    (old : ∀ before c frame after, log = before ++ TapEvent.wrote c frame :: after →
      ∃ c', c' ≠ c ∧ TapEvent.read c' frame ∈ before)
    (new : ∀ c frame, TapEvent.wrote c frame ∈ more → ∃ c', c' ≠ c ∧ TapEvent.read c' frame ∈ log) :
    ∀ before c frame after, log ++ more = before ++ TapEvent.wrote c frame :: after →
      ∃ c', c' ≠ c ∧ TapEvent.read c' frame ∈ before := by
  intro before c frame after split
  rcases List.append_eq_append_iff.mp split with ⟨tail, grown, rest⟩ | ⟨tail, within, rest⟩
  · obtain ⟨c', apart, member⟩ := new c frame (by rw [rest]; simp)
    exact ⟨c', apart, by rw [grown]; exact List.mem_append_left _ member⟩
  · cases tail with
    | nil =>
      obtain ⟨c', apart, member⟩ := new c frame (by rw [← List.nil_append more, ← rest]; simp)
      refine ⟨c', apart, ?_⟩
      rwa [within, List.append_nil] at member
    | cons e tail =>
      obtain ⟨rfl, _⟩ := List.cons.inj rest
      exact old before c frame tail within

theorem safe_init : star.Safe (World.init ι) where
  wf := init_wf
  known := by simp [World.init, Server.init, Bridge.init]
  upward := by simp [World.init]
  downward := by simp [World.init]
  written := by simp [World.init]

theorem Star.Safe.sender (safe : star.Safe w) (inNet : ∀ a ∈ batch, a.1 ∈ w.net ∧ a.1.dst = star.serverAddr)
    (member : slot ∈ batchSlots batch) :
    ∃ c, slot.peerAddr = star.addr c ∧ slot.data.length ≤ MAX_DATA_LEN ∧ TapEvent.read c slot.data ∈ w.log := by
  obtain ⟨a, inBatch, rfl⟩ := List.mem_map.mp member
  obtain ⟨flying, toServer⟩ := inNet a inBatch
  obtain ⟨c, src, short, read⟩ := safe.upward a.1 flying toServer
  have whole : a.1.data.take MAX_DATA_LEN = a.1.data := List.take_of_length_le short
  exact ⟨c, src, by simpa [Packet.into, whole] using short, by simpa [Packet.into, whole] using read⟩

theorem Star.Safe.relayed (safe : star.Safe w) (inNet : ∀ a ∈ batch, a.1 ∈ w.net ∧ a.1.dst = star.serverAddr)
    (sent : d ∈ transmittedSince w.server.udp (wlanBrHandleBurst env w.server (batchSlots batch)).udp) :
    d.data.length ≤ MAX_DATA_LEN ∧
      ∃ c c', c' ≠ c ∧ d.dest = star.addr c ∧ TapEvent.read c' d.data ∈ w.log := by
  obtain ⟨slot, at_i, bytes, away, target⟩ := burst_sent env w.server safe.wf _ sent
  obtain ⟨c', src, short, read⟩ := safe.sender inNet (List.mem_of_getElem? at_i)
  obtain ⟨c, dst⟩ : ∃ c, star.addr c = d.dest := by
    rcases target with ⟨entry, inTable, same⟩ | ⟨other, inBatch, same⟩
    · obtain ⟨c, addr⟩ := safe.known entry inTable
      exact ⟨c, addr.trans same⟩
    · obtain ⟨c, addr, _⟩ := safe.sender inNet inBatch
      exact ⟨c, addr.symm.trans same⟩
  rw [bytes]
  refine ⟨short, c, c', ?_, dst.symm, read⟩
  rintro rfl
  exact away (dst.symm.trans src.symm)

theorem Star.Safe.serverRecv (safe : star.Safe w) (env : Env)
    (inNet : ∀ a ∈ batch, a.1 ∈ w.net ∧ a.1.dst = star.serverAddr) :
    star.Safe (star.serverRecv env w batch) := by
  have stores : (wlanBrHandleBurst env w.server (batchSlots batch)).bridge =
      learnAll env w.server.bridge (batchSlots batch) := (wlanBrHandleBurst_spec env w.server safe.wf _).1
  constructor
  · simp only [Star.serverRecv, stores]
    exact learnAll_wf env safe.wf _
  · intro entry member
    simp only [Star.serverRecv, stores] at member
    rcases learnAll_entries env _ _ member with old | ⟨slot, inBatch, same⟩
    · exact safe.known entry old
    · obtain ⟨c, addr, _⟩ := safe.sender inNet inBatch
      exact ⟨c, addr.symm.trans same⟩
  · intro p member toServer
    rcases List.mem_append.mp member with old | new
    · exact safe.upward p old toServer
    · obtain ⟨d, sent, rfl⟩ := List.mem_map.mp new
      obtain ⟨_, c, _, _, dst, _⟩ := safe.relayed inNet sent
      exact absurd (dst.symm.trans toServer) (star.apart c)
  · intro p member c toClient
    rcases List.mem_append.mp member with old | new
    · exact safe.downward p old c toClient
    · obtain ⟨d, sent, rfl⟩ := List.mem_map.mp new
      obtain ⟨short, c₁, c', apart, dst, read⟩ := safe.relayed inNet sent
      obtain rfl := star.distinct (dst.symm.trans toClient)
      exact ⟨short, c', apart, read⟩
  · exact safe.written

variable [DecidableEq ι]

theorem Star.Safe.tapRead (safe : star.Safe w) (c : ι) (frame : List Byte) (accepted : Bool)
    (fits : frame.length ≤ CLIENT_BUF_LEN) : star.Safe (star.tapRead w c frame accepted) := by
  have own (p : Flight) (new : p ∈ (runingTuntap accepted (w.clients c) frame).2.toList.map fun data =>
      (⟨star.addr c, star.serverAddr, data⟩ : Flight)) : p = ⟨star.addr c, star.serverAddr, frame⟩ := by
    obtain ⟨data, sent, rfl⟩ := List.mem_map.mp new
    rw [runingTuntap_sent fits (Option.mem_toList.mp sent)]
  constructor
  · exact safe.wf
  · exact safe.known
  · intro p member toServer
    rcases List.mem_append.mp member with old | new
    · obtain ⟨c', src, short, read⟩ := safe.upward p old toServer
      exact ⟨c', src, short, List.mem_append_left _ read⟩
    · obtain rfl := own p new
      exact ⟨c, rfl, fits, by simp [Star.tapRead]⟩
  · intro p member c' toClient
    rcases List.mem_append.mp member with old | new
    · obtain ⟨short, other, apart, read⟩ := safe.downward p old c' toClient
      exact ⟨short, other, apart, List.mem_append_left _ read⟩
    · obtain rfl := own p new
      exact absurd toClient.symm (star.apart c')
  · exact written_append safe.written (by simp)

theorem Star.Safe.clientRecv (safe : star.Safe w) (c : ι) (flight : Flight) (accepted : Bool)
    (inNet : flight ∈ w.net) (mine : flight.dst = star.addr c) : star.Safe (w.clientRecv c flight accepted) := by
  obtain ⟨short, c', apart, read⟩ := safe.downward flight inNet c mine
  constructor
  · exact safe.wf
  · exact safe.known
  · intro p member toServer
    obtain ⟨other, src, fits, was⟩ := safe.upward p member toServer
    exact ⟨other, src, fits, List.mem_append_left _ was⟩
  · intro p member other toClient
    obtain ⟨fits, sender, away, was⟩ := safe.downward p member other toClient
    exact ⟨fits, sender, away, List.mem_append_left _ was⟩
  · refine written_append safe.written ?_
    intro other frame new
    obtain ⟨out, written, same⟩ := List.mem_map.mp new
    obtain ⟨rfl, rfl⟩ := TapEvent.wrote.inj same
    rw [runingUdp_written short (Option.mem_toList.mp written)]
    exact ⟨c', apart, read⟩

theorem safe_reachable (reachable : star.Reachable w) : star.Safe w := by
  induction reachable with
  | refl => exact safe_init
  | tail _ step ih =>
    cases step with
    | tapRead c frame accepted fits => exact ih.tapRead c frame accepted fits
    | serverRecv env batch inNet => exact ih.serverRecv env inNet
    | clientRecv c flight accepted inNet mine => exact ih.clientRecv c flight accepted inNet mine

end Safety

/-- Every frame written to a TAP was read before from the TAP of another client; a
datagram received by the server causes at most one for each address, with its own bytes,
and none to its sender. -/
theorem star_safe {ι : Type} [DecidableEq ι] (star : Star ι) (w : World ι) (reachable : star.Reachable w) :
    (∀ before c frame after, w.log = before ++ .wrote c frame :: after →
      ∃ c', c' ≠ c ∧ TapEvent.read c' frame ∈ before) ∧
    (∀ env batch, (∀ a ∈ batch, a.1 ∈ w.net ∧ a.1.dst = star.serverAddr) →
      let sent := transmittedSince w.server.udp (star.serverRecv env w batch).server.udp
      (sent.map fun d => (d.buf, d.dest)).Nodup ∧
      ∀ d ∈ sent, ∃ a, batch[d.buf]? = some a ∧ d.data = a.1.data ∧ d.dest ≠ a.1.src) := by
  have safe := safe_reachable reachable
  refine ⟨safe.written, fun env batch inNet => ⟨burst_once env w.server safe.wf _, fun d sent => ?_⟩⟩
  obtain ⟨slot, at_i, bytes, away, _⟩ := burst_sent env w.server safe.wf _ sent
  obtain ⟨a, at_a, rfl⟩ := batchSlots_getElem at_i
  obtain ⟨flying, toServer⟩ := inNet a (List.mem_of_getElem? at_a)
  obtain ⟨_, _, short, _⟩ := safe.upward a.1 flying toServer
  refine ⟨a, at_a, ?_, away⟩
  rw [bytes, Packet.into, List.take_of_length_le short]

/-- Two clients, behind ports 100 and 200. -/
def pairStar : Star Bool where
  serverAddr := ⟨9, 9⟩
  addr := fun c => ⟨1, if c then 200 else 100⟩
  distinct := by intro c d; revert c d; decide
  apart := by decide

def hello (src : Byte) : List Byte := (sampleFrame 255 src 0).data

def pairSent : World Bool :=
  pairStar.tapRead (pairStar.tapRead (World.init Bool) false (hello 2) true) true (hello 4) true

def pairDone : World Bool :=
  (pairStar.serverRecv .calm pairSent [(⟨⟨1, 100⟩, ⟨9, 9⟩, hello 2⟩, []), (⟨⟨1, 200⟩, ⟨9, 9⟩, hello 4⟩, [])]).clientRecv
    false ⟨⟨9, 9⟩, ⟨1, 100⟩, hello 4⟩ true

theorem pairDone_reachable : pairStar.Reachable pairDone := by
  have first : pairStar.Reachable (pairStar.tapRead (World.init Bool) false (hello 2) true) :=
    Relation.ReflTransGen.refl.tail (.tapRead false (hello 2) true (by decide))
  have second : pairStar.Reachable pairSent := first.tail (.tapRead true (hello 4) true (by decide))
  have third := second.tail (.serverRecv .calm
    [(⟨⟨1, 100⟩, ⟨9, 9⟩, hello 2⟩, []), (⟨⟨1, 200⟩, ⟨9, 9⟩, hello 4⟩, [])] (by decide))
  exact third.tail (.clientRecv false ⟨⟨9, 9⟩, ⟨1, 100⟩, hello 4⟩ true (by decide) rfl)

/-- What the first client wrote came from the second. -/
theorem star_safe_pair : ∃ c', c' ≠ false ∧
    TapEvent.read c' (hello 4) ∈ [TapEvent.read false (hello 2), .read true (hello 4)] :=
  (star_safe pairStar pairDone pairDone_reachable).1 _ false (hello 4) [] rfl

end WlanBridge
