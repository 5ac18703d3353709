import WlanBridge.BooksAgree
import WlanBridge.Star
import WlanBridge.Learning

/-! The server and its clients as one switch. Over a network that delays and reorders but
neither loses nor duplicates, every interleaving of the parties gives each TAP the frames
that an ideal learning switch gives its port, for the order in which the server took them. -/
namespace WlanBridge

/-- What the ideal switch gives a port for some frames and the addresses they came from. -/
noncomputable def switched (handled : List (SockaddrIn × List Byte)) (port : SockaddrIn) : List (List Byte) :=
  Switch.delivered IsGroup (fun f => (ethhdr f).hSource) (fun f => (ethhdr f).hDest) [] handled port

/-- A frame as the switch sees it. -/
def Slot.arrival (slot : Slot) : SockaddrIn × List Byte := (slot.peerAddr, slot.data)

/-- A world whose `net` holds the datagrams in flight, with the frames that the server has
taken, in order. -/
structure Lan (ι : Type) where
  world : World ι
  handled : List (SockaddrIn × List Byte)

def Lan.init (ι : Type) : Lan ι := ⟨World.init ι, []⟩

def carried (select : Flight → Bool) (net : List Flight) : List (List Byte) := (net.filter select).map Flight.data

section Worlds
variable {ι : Type} [DecidableEq ι] (star : Star ι)

/-- The steps of `Star.Step` on whole frames, with every send accepted; what is received
has left the network. -/
inductive Star.Delivers : Lan ι → Lan ι → Prop
  | tapRead (c : ι) (frame : List Byte) (framed : 14 ≤ frame.length) (fits : frame.length ≤ CLIENT_BUF_LEN) :
      Star.Delivers l ⟨star.tapRead l.world c frame true, l.handled⟩
  | serverRecv (batch : List (Flight × List Byte)) (rest : List Flight)
      (inNet : l.world.net.Perm (batch.map Prod.fst ++ rest)) (mine : ∀ a ∈ batch, a.1.dst = star.serverAddr) :
      Star.Delivers l ⟨star.serverRecv .calm { l.world with net := rest } batch,
        l.handled ++ batch.map fun a => (a.1.src, a.1.data)⟩
  | clientRecv (c : ι) (flight : Flight) (rest : List Flight) (inNet : l.world.net.Perm (flight :: rest))
      (mine : flight.dst = star.addr c) :
      Star.Delivers l ⟨{ l.world with net := rest }.clientRecv c flight true, l.handled⟩

def Star.Delivered (l : Lan ι) : Prop := Relation.ReflTransGen star.Delivers (Lan.init ι) l

def framesRead (log : List (TapEvent ι)) (c : ι) : List (List Byte) :=
  log.filterMap fun
    | .read other frame => if other = c then some frame else none
    | .wrote .. => none

def framesWritten (log : List (TapEvent ι)) (c : ι) : List (List Byte) :=
  log.filterMap fun
    | .wrote other frame => if other = c then some frame else none
    | .read .. => none

def Star.toServer (c : ι) (p : Flight) : Bool := p.dst = star.serverAddr ∧ p.src = star.addr c

def Star.toClient (c : ι) (p : Flight) : Bool := p.dst = star.addr c

def takenFrom (handled : List (SockaddrIn × List Byte)) (addr : SockaddrIn) : List (List Byte) :=
  (handled.filter fun a => a.1 = addr).map Prod.snd

/-- What holds of every world of a run: the server is a run of its bursts, what is in
flight is whole and between a client and the server, and nothing is missing. -/
structure Star.Whole (l : Lan ι) : Prop where
  server : ∃ calls, l.world.server = run .calm .init calls ∧ (frames calls).map Slot.arrival = l.handled ∧
    ∀ slot ∈ frames calls, slot.Framed
  short : ∀ p ∈ l.world.net, 14 ≤ p.data.length ∧ p.data.length ≤ MAX_DATA_LEN
  client : ∀ p ∈ l.world.net, p.dst = star.serverAddr → ∃ c, p.src = star.addr c
  known : ∀ a ∈ l.handled, ∃ c, a.1 = star.addr c
  upward : ∀ c, (framesRead l.world.log c).Perm
    (takenFrom l.handled (star.addr c) ++ carried (star.toServer c) l.world.net)
  downward : ∀ c, (switched l.handled (star.addr c)).Perm
    (framesWritten l.world.log c ++ carried (star.toClient c) l.world.net)

end Worlds

theorem calm_transmitted (s : Server) (wf : s.bridge.Wf) (slots : List Slot) :
    transmittedSince s.udp (wlanBrHandleBurst .calm s slots).udp = (Call.burst slots).attempts .calm s := by
  have room : s.stats.Counts .calm (0 : U32) := Or.inr fun _ => rfl
  have whole (u : Udp) (batch : List Datagram) : burstSent Env.calm.kernel u batch = batch :=
    (burstSent_complete _ u batch (Nat.min_self _)).2
  rw [wlanBrHandleBurst_transmitted .calm s wf room, whole, floodsTaken, taken_all _ (fun _ _ => rfl),
    Call.attempts_eq .calm s wf]
  rfl

def payloadsTo (q : SockaddrIn) (payloads : List (List Byte × SockaddrIn)) : List (List Byte) :=
  (payloads.filter fun a => a.2 = q).map Prod.fst

theorem payloadsTo_append (q : SockaddrIn) (a b : List (List Byte × SockaddrIn)) :
    payloadsTo q (a ++ b) = payloadsTo q a ++ payloadsTo q b := by
  simp [payloadsTo]

theorem payloadsTo_copies (data : List Byte) (dests : List SockaddrIn) (distinct : dests.Nodup) (q : SockaddrIn) :
    payloadsTo q (dests.map fun r => (data, r)) = if q ∈ dests then [data] else [] := by
  induction dests with
  | nil => rfl
  | cons r rest ih =>
    obtain ⟨fresh, later⟩ := List.nodup_cons.mp distinct
    have tail := ih later
    rw [payloadsTo] at tail ⊢
    by_cases same : r = q
    · subst same
      simp [tail, fresh]
    · have apart : ¬q = r := fun h => same h.symm
      simp [tail, same, apart]

/-- What a batch sends toward an address, in the order of its frames, is what the ideal
switch delivers there. -/
theorem visits_switched {b : Bridge} (wf : b.Wf) (synced : b.Synced) (before : List (SockaddrIn × List Byte))
    (table : b.table = Switch.table (fun f => (ethhdr f).hSource) before) (index : Nat) (slots : List Slot)
    (framed : ∀ slot ∈ slots, slot.Framed) (q : SockaddrIn) :
    payloadsTo q (Deferred.inOrder Visit.payloads (visits .calm b index slots)) =
      Switch.delivered IsGroup (fun f => (ethhdr f).hSource) (fun f => (ethhdr f).hDest) before
        (slots.map Slot.arrival) q := by
  induction slots generalizing b before index with
  | nil => rfl
  | cons slot rest ih =>
    have own : slot.Framed := framed slot (by simp)
    have kept := learn_wf .calm wf slot.peerAddr slot.src
    have still := learn_synced .calm calm_allocates wf synced slot.peerAddr slot.src
    have learned : (learn .calm b slot.peerAddr slot.src).table =
        Switch.table (fun f => (ethhdr f).hSource) (before ++ [slot.arrival]) := by
      rw [learn_table .calm calm_allocates wf, Switch.table_concat, table, own.src]
      rfl
    have later := ih kept still (before ++ [slot.arrival]) learned (index + 1)
      (fun other member => framed other (List.mem_cons_of_mem _ member))
    have here := mem_dests kept still slot.dst slot.peerAddr q
    rw [learned] at here
    rw [visits, Deferred.inOrder, List.flatMap_cons, payloadsTo_append, List.map_cons, Switch.delivered, ← later,
      Visit.payloads_eq, payloadsTo_copies _ _ (dests_nodup _ _ _)]
    congr 1
    rw [Switch.copies]
    by_cases member : q ∈ (learn .calm b slot.peerAddr slot.src).dests slot.dst slot.peerAddr
    · have directed := here.mp member
      rw [own.dst] at directed
      exact (if_pos member).trans (if_pos directed).symm
    · have directed := mt here.mpr member
      rw [own.dst] at directed
      exact (if_neg member).trans (if_neg directed).symm

@[simp] theorem carried_append (select : Flight → Bool) (net more : List Flight) :
    carried select (net ++ more) = carried select net ++ carried select more := by
  simp [carried]

theorem carried_none {select : Flight → Bool} {net : List Flight} (none_ : ∀ p ∈ net, select p = false) :
    carried select net = [] := by
  rw [carried, List.filter_eq_nil_iff.mpr (by simpa using none_), List.map_nil]

theorem carried_perm (select : Flight → Bool) {net net' : List Flight} (perm : net.Perm net') :
    (carried select net).Perm (carried select net') :=
  (perm.filter select).map Flight.data

theorem attempts_payloads (s : Server) (wf : s.bridge.Wf) (slots : List Slot) (q : SockaddrIn) :
    (payloadsTo q (((Call.burst slots).attempts .calm s).map Datagram.payload)).Perm
      (payloadsTo q (Deferred.inOrder Visit.payloads (visits .calm s.bridge 0 slots))) := by
  rw [Call.attempts_eq .calm s wf, Deferred.deferred_map]
  exact ((Deferred.deferred_perm _ _ _).filter _).map _

section Runs
variable {ι : Type} {star : Star ι}

theorem carried_sent (star : Star ι) (c : ι) (sent : List Datagram) :
    carried (star.toClient c) (sent.map fun d => ⟨star.serverAddr, d.dest, d.data⟩) =
      payloadsTo (star.addr c) (sent.map Datagram.payload) := by
  rw [carried, payloadsTo, List.filter_map, List.filter_map, List.map_map, List.map_map]
  rfl

theorem carried_batch {batch : List (Flight × List Byte)} (mine : ∀ a ∈ batch, a.1.dst = star.serverAddr) (c : ι) :
    carried (star.toServer c) (batch.map Prod.fst) =
      takenFrom (batch.map fun a => (a.1.src, a.1.data)) (star.addr c) := by
  induction batch with
  | nil => rfl
  | cons a rest ih =>
    have later := ih fun b member => mine b (List.mem_cons_of_mem _ member)
    have own : star.toServer c a.1 = decide (a.1.src = star.addr c) := by simp [Star.toServer, mine a (by simp)]
    rw [carried, takenFrom] at later ⊢
    by_cases same : a.1.src = star.addr c <;> simp [own, same, later]

variable [DecidableEq ι] {l : Lan ι}

@[simp] theorem framesRead_append (log more : List (TapEvent ι)) (c : ι) :
    framesRead (log ++ more) c = framesRead log c ++ framesRead more c := by
  simp [framesRead]

@[simp] theorem framesWritten_append (log more : List (TapEvent ι)) (c : ι) :
    framesWritten (log ++ more) c = framesWritten log c ++ framesWritten more c := by
  simp [framesWritten]

@[simp] theorem framesRead_read (c other : ι) (frame : List Byte) :
    framesRead [.read other frame] c = if other = c then [frame] else [] := by
  by_cases same : other = c <;> simp [framesRead, same]

@[simp] theorem framesWritten_read (c other : ι) (frame : List Byte) :
    framesWritten [.read other frame] c = [] := rfl

@[simp] theorem framesRead_wrote (c other : ι) (frame : List Byte) : framesRead [.wrote other frame] c = [] := rfl

@[simp] theorem framesWritten_wrote (c other : ι) (frame : List Byte) :
    framesWritten [.wrote other frame] c = if other = c then [frame] else [] := by
  by_cases same : other = c <;> simp [framesWritten, same]

theorem takenFrom_append (handled more : List (SockaddrIn × List Byte)) (addr : SockaddrIn) :
    takenFrom (handled ++ more) addr = takenFrom handled addr ++ takenFrom more addr := by
  simp [takenFrom]

theorem putOut_whole (buf : List Byte) (some_ : 0 < data.length) (fits : data.length ≤ maxLen) :
    (readInto maxLen buf data).1 = data.length ∧
      putOut true (readInto maxLen buf data).1 (readInto maxLen buf data).2 = ((data.length : Int), some data) := by
  have whole : data.take maxLen = data := List.take_of_length_le fits
  have filled : (fill maxLen buf data).take data.length = data := by
    rw [fill, whole, List.take_left]
  have positive : ¬((data.length : Nat) : Int) ≤ 0 := by omega
  simp only [readInto, whole, positive, if_false, putOut, if_true, Int.toNat_natCast, filled, and_self]

theorem runingTuntap_whole (c : Client) (some_ : 0 < frame.length) (fits : frame.length ≤ CLIENT_BUF_LEN) :
    (runingTuntap true c frame).2 = some frame := by
  obtain ⟨len, out⟩ := putOut_whole c.tuntapBuf some_ fits
  have positive : ¬(readInto CLIENT_BUF_LEN c.tuntapBuf frame).1 ≤ 0 := by omega
  rw [runingTuntap, readDataFromTuntap]
  simp only [positive, if_false, sendDataUseUdp, out]

theorem runingUdp_whole (c : Client) (some_ : 0 < data.length) (fits : data.length ≤ CLIENT_BUF_LEN) :
    (runingUdp true c data).2 = some data := by
  obtain ⟨len, out⟩ := putOut_whole c.udpBuf some_ fits
  have positive : ¬(readInto CLIENT_BUF_LEN c.udpBuf data).1 ≤ 0 := by omega
  rw [runingUdp, readDataFromUdp]
  simp only [positive, if_false, sendDataUseTuntap, out]

theorem whole_init : star.Whole (Lan.init ι) where
  server := ⟨[], rfl, rfl, by simp [frames]⟩
  short := by simp [Lan.init, World.init]
  client := by simp [Lan.init, World.init]
  known := by simp [Lan.init]
  upward := by simp [Lan.init, World.init, framesRead, takenFrom, carried]
  downward := by simp [Lan.init, World.init, framesWritten, switched, Switch.delivered, carried]

theorem Star.Whole.tapRead (whole : star.Whole l) (c : ι) (frame : List Byte) (framed : 14 ≤ frame.length)
    (fits : frame.length ≤ CLIENT_BUF_LEN) :
    star.Whole ⟨star.tapRead l.world c frame true, l.handled⟩ := by
  let sent : Flight := ⟨star.addr c, star.serverAddr, frame⟩
  have net : (star.tapRead l.world c frame true).net = l.world.net ++ [sent] := by
    simp [Star.tapRead, runingTuntap_whole (l.world.clients c) (by omega) fits, sent]
  have log : (star.tapRead l.world c frame true).log = l.world.log ++ [.read c frame] := rfl
  refine ⟨whole.server, ?_, ?_, whole.known, ?_, ?_⟩
  · rw [net]
    intro p member
    rcases List.mem_append.mp member with old | new
    · exact whole.short p old
    · obtain rfl := List.mem_singleton.mp new
      exact ⟨framed, fits⟩
  · rw [net]
    intro p member toServer
    rcases List.mem_append.mp member with old | new
    · exact whole.client p old toServer
    · obtain rfl := List.mem_singleton.mp new
      exact ⟨c, rfl⟩
  · intro other
    rw [net, log, framesRead_append, carried_append, framesRead_read, ← List.append_assoc]
    refine (whole.upward other).append ?_
    by_cases same : c = other
    · subst same
      simp [carried, Star.toServer, sent]
    · have apart : star.addr c ≠ star.addr other := fun h => same (star.distinct h)
      simp [carried, Star.toServer, sent, same, apart]
  · intro other
    have away : carried (star.toClient other) [sent] = [] := by
      simp [carried, Star.toClient, sent, (star.apart other).symm]
    rw [net, log, framesWritten_append, carried_append, away, framesWritten_read, List.append_nil, List.append_nil]
    exact whole.downward other

theorem Star.Whole.clientRecv (whole : star.Whole l) (c : ι) (flight : Flight) (rest : List Flight)
    (inNet : l.world.net.Perm (flight :: rest)) (mine : flight.dst = star.addr c) :
    star.Whole ⟨{ l.world with net := rest }.clientRecv c flight true, l.handled⟩ := by
  have within {p : Flight} (member : p ∈ rest) : p ∈ l.world.net := inNet.mem_iff.mpr (List.mem_cons_of_mem _ member)
  obtain ⟨long, fits⟩ := whole.short flight (inNet.mem_iff.mpr List.mem_cons_self)
  have log : ({ l.world with net := rest }.clientRecv c flight true).log = l.world.log ++ [.wrote c flight.data] := by
    simp [World.clientRecv, runingUdp_whole (l.world.clients c) (by omega) fits]
  have net : ({ l.world with net := rest }.clientRecv c flight true).net = rest := rfl
  refine ⟨whole.server, fun p member => whole.short p (within member), fun p member => whole.client p (within member),
    whole.known, ?_, ?_⟩
  · intro other
    have flying := carried_perm (star.toServer other) inNet
    have away : star.toServer other flight = false := by simp [Star.toServer, mine, star.apart c]
    simp only [carried, List.filter_cons, away, Bool.false_eq_true, if_false] at flying
    rw [log, framesRead_append, framesRead_wrote, List.append_nil]
    exact (whole.upward other).trans (flying.append_left _)
  · intro other
    have flying := carried_perm (star.toClient other) inNet
    rw [net, log, framesWritten_append, framesWritten_wrote]
    refine (whole.downward other).trans ?_
    by_cases same : c = other
    · subst same
      have own : star.toClient c flight = true := by simp [Star.toClient, mine]
      simp only [carried, List.filter_cons, own, if_true, List.map_cons] at flying
      simpa [carried] using flying.append_left (framesWritten l.world.log c)
    · have apart : star.addr c ≠ star.addr other := fun h => same (star.distinct h)
      have away : star.toClient other flight = false := by simp [Star.toClient, mine, apart]
      simp only [carried, List.filter_cons, away, Bool.false_eq_true, if_false] at flying
      simpa [carried, same] using flying.append_left (framesWritten l.world.log other)

theorem batchSlots_arrival {batch : List (Flight × List Byte)} (short : ∀ a ∈ batch, a.1.data.length ≤ MAX_DATA_LEN) :
    (batchSlots batch).map Slot.arrival = batch.map fun a => (a.1.src, a.1.data) := by
  rw [batchSlots, List.map_map]
  apply List.map_congr_left
  intro a member
  simp [Slot.arrival, Packet.into, List.take_of_length_le (short a member)]

theorem Star.Whole.listed (whole : star.Whole l) (member : entry ∈ l.world.server.bridge.hHead) :
    ∃ c, entry.peerAddr = star.addr c := by
  obtain ⟨calls, server, handled, _⟩ := whole.server
  rw [server, run_bridge .calm _ init_wf] at member
  rcases learnAll_entries .calm _ _ member with old | ⟨slot, inFrames, same⟩
  · exact absurd old (by simp [Server.init, Bridge.init])
  · have inHandled : slot.arrival ∈ l.handled := by
      rw [← handled]
      exact List.mem_map_of_mem inFrames
    obtain ⟨c, addr⟩ := whole.known _ inHandled
    exact ⟨c, same.symm.trans addr⟩

theorem Star.Whole.wf (whole : star.Whole l) : l.world.server.bridge.Wf := by
  obtain ⟨calls, server, _⟩ := whole.server
  rw [server]
  exact run_wf .calm _ init_wf calls

theorem Star.Whole.synced (whole : star.Whole l) : l.world.server.bridge.Synced := by
  obtain ⟨calls, server, _⟩ := whole.server
  rw [server]
  exact run_synced .calm calm_allocates calls

theorem Star.Whole.table (whole : star.Whole l) :
    l.world.server.bridge.table = Switch.table (fun f => (ethhdr f).hSource) l.handled := by
  obtain ⟨calls, server, handled, framed⟩ := whole.server
  rw [server, run_table .calm calm_allocates calls framed, ← handled, Switch.table, sightings, List.map_map]
  rfl

section Batches
variable {batch : List (Flight × List Byte)}

theorem Star.Whole.arrivals (whole : star.Whole l) (inNet : ∀ a ∈ batch, a.1 ∈ l.world.net) :
    (batchSlots batch).map Slot.arrival = batch.map fun a => (a.1.src, a.1.data) :=
  batchSlots_arrival fun a member => (whole.short a.1 (inNet a member)).2

theorem Star.Whole.framed (whole : star.Whole l) (inNet : ∀ a ∈ batch, a.1 ∈ l.world.net) :
    ∀ slot ∈ batchSlots batch, slot.Framed := by
  intro slot member
  obtain ⟨a, inside, rfl⟩ := List.mem_map.mp member
  obtain ⟨long, fits⟩ := whole.short a.1 (inNet a inside)
  simpa [Slot.Framed, Packet.into, List.take_of_length_le fits] using long

theorem Star.Whole.relayed (whole : star.Whole l) (inNet : ∀ a ∈ batch, a.1 ∈ l.world.net)
    (mine : ∀ a ∈ batch, a.1.dst = star.serverAddr) :
    ∀ d ∈ (Call.burst (batchSlots batch)).attempts .calm l.world.server,
      14 ≤ d.data.length ∧ d.data.length ≤ MAX_DATA_LEN ∧ ∃ c, d.dest = star.addr c := by
  intro d inSent
  have transmitted : d ∈ transmittedSince l.world.server.udp
      (wlanBrHandleBurst .calm l.world.server (batchSlots batch)).udp := by
    rw [calm_transmitted l.world.server whole.wf]
    exact inSent
  obtain ⟨slot, at_i, bytes, _, target⟩ :=
    burst_sent .calm l.world.server whole.wf (batchSlots batch) transmitted
  obtain ⟨a, inside, rfl⟩ := List.mem_map.mp (List.mem_of_getElem? at_i)
  obtain ⟨long, fits⟩ := whole.short a.1 (inNet a inside)
  have same : d.data = a.1.data := by rw [bytes, Packet.into, List.take_of_length_le fits]
  refine ⟨by rw [same]; exact long, by rw [same]; exact fits, ?_⟩
  rcases target with ⟨entry, inTable, dest⟩ | ⟨other, inSlots, dest⟩
  · obtain ⟨c, addr⟩ := whole.listed inTable
    exact ⟨c, dest.symm.trans addr⟩
  · obtain ⟨b, member, rfl⟩ := List.mem_map.mp inSlots
    obtain ⟨c, addr⟩ := whole.client b.1 (inNet b member) (mine b member)
    exact ⟨c, dest.symm.trans addr⟩

/-- The server sends toward a client what the ideal switch outputs at its port. -/
theorem Star.Whole.switches (whole : star.Whole l) (inNet : ∀ a ∈ batch, a.1 ∈ l.world.net) (c : ι) :
    (switched (l.handled ++ batch.map fun a => (a.1.src, a.1.data)) (star.addr c)).Perm
      (switched l.handled (star.addr c) ++ payloadsTo (star.addr c)
        (((Call.burst (batchSlots batch)).attempts .calm l.world.server).map Datagram.payload)) := by
  have outputs := visits_switched whole.wf whole.synced l.handled whole.table 0 (batchSlots batch)
    (whole.framed inNet) (star.addr c)
  rw [whole.arrivals inNet] at outputs
  rw [switched, Switch.delivered_append, List.nil_append, ← outputs]
  exact (attempts_payloads l.world.server whole.wf (batchSlots batch) (star.addr c)).symm.append_left _

end Batches

theorem Star.Whole.serverRecv (whole : star.Whole l) (batch : List (Flight × List Byte)) (rest : List Flight)
    (inNet : l.world.net.Perm (batch.map Prod.fst ++ rest)) (mine : ∀ a ∈ batch, a.1.dst = star.serverAddr) :
    star.Whole ⟨star.serverRecv .calm { l.world with net := rest } batch,
      l.handled ++ batch.map fun a => (a.1.src, a.1.data)⟩ := by
  obtain ⟨calls, server, handled, framed⟩ := whole.server
  let sent := (Call.burst (batchSlots batch)).attempts .calm l.world.server
  have inBatch : ∀ a ∈ batch, a.1 ∈ l.world.net := fun a member =>
    inNet.mem_iff.mpr (List.mem_append_left _ (List.mem_map_of_mem member))
  have within {p : Flight} (member : p ∈ rest) : p ∈ l.world.net := inNet.mem_iff.mpr (List.mem_append_right _ member)
  have net : (star.serverRecv .calm { l.world with net := rest } batch).net =
      rest ++ sent.map fun d => ⟨star.serverAddr, d.dest, d.data⟩ := by
    simp only [Star.serverRecv, sent]
    rw [← calm_transmitted l.world.server whole.wf]
  have relayed := whole.relayed inBatch mine
  refine ⟨⟨calls ++ [.burst (batchSlots batch)], ?_, ?_, ?_⟩, ?_, ?_, ?_, ?_, ?_⟩
  · have more : run .calm .init (calls ++ [.burst (batchSlots batch)]) =
        wlanBrHandleBurst .calm l.world.server (batchSlots batch) := by
      rw [server, run, List.foldl_append]
      rfl
    exact more.symm
  · rw [← handled, ← whole.arrivals inBatch]
    simp [frames, Call.slots]
  · intro slot member
    rw [frames, List.flatMap_append, List.mem_append] at member
    rcases member with old | new
    · exact framed slot old
    · exact whole.framed inBatch slot (by simpa [Call.slots] using new)
  · rw [net]
    intro p member
    rcases List.mem_append.mp member with old | new
    · exact whole.short p (within old)
    · obtain ⟨d, inSent, rfl⟩ := List.mem_map.mp new
      obtain ⟨long, fits, _⟩ := relayed d inSent
      exact ⟨long, fits⟩
  · rw [net]
    intro p member toServer
    rcases List.mem_append.mp member with old | new
    · exact whole.client p (within old) toServer
    · obtain ⟨d, inSent, rfl⟩ := List.mem_map.mp new
      obtain ⟨_, _, c, dest⟩ := relayed d inSent
      exact absurd (dest.symm.trans toServer) (star.apart c)
  · intro a member
    rcases List.mem_append.mp member with old | new
    · exact whole.known a old
    · obtain ⟨b, inside, rfl⟩ := List.mem_map.mp new
      exact whole.client b.1 (inBatch b inside) (mine b inside)
  · intro c
    have away : carried (star.toServer c) (sent.map fun d => ⟨star.serverAddr, d.dest, d.data⟩) = [] := by
      apply carried_none
      intro p member
      obtain ⟨d, inSent, rfl⟩ := List.mem_map.mp member
      obtain ⟨_, _, c', dest⟩ := relayed d inSent
      simp [Star.toServer, dest, star.apart c']
    have flying := carried_perm (star.toServer c) inNet
    rw [carried_append, carried_batch mine] at flying
    rw [net, carried_append, away, List.append_nil, takenFrom_append, List.append_assoc]
    exact (whole.upward c).trans (flying.append_left _)
  · intro c
    have away : carried (star.toClient c) (batch.map Prod.fst) = [] := by
      apply carried_none
      intro p member
      obtain ⟨a, inside, rfl⟩ := List.mem_map.mp member
      simp [Star.toClient, mine a inside, (star.apart c).symm]
    have flying := carried_perm (star.toClient c) inNet
    rw [carried_append, away, List.nil_append] at flying
    rw [net, carried_append, carried_sent, ← List.append_assoc]
    exact (whole.switches inBatch c).trans (((whole.downward c).trans (flying.append_left _)).append_right _)

theorem whole_delivered (reachable : star.Delivered l) : star.Whole l := by
  induction reachable with
  | refl => exact whole_init
  | tail _ step ih =>
    cases step with
    | tapRead c frame framed fits => exact ih.tapRead c frame framed fits
    | serverRecv batch rest inNet mine => exact ih.serverRecv batch rest inNet mine
    | clientRecv c flight rest inNet mine => exact ih.clientRecv c flight rest inNet mine

end Runs

/-- In every interleaving, the frames read from a TAP are those that the server took from
its client and those on their way there; and what an ideal switch gives the client's port,
for the frames in the order in which the server took them, has been written to the TAP or
is on its way. -/
theorem star_is_switch {ι : Type} [DecidableEq ι] (star : Star ι) (l : Lan ι) (reachable : star.Delivered l) (c : ι) :
    (framesRead l.world.log c).Perm
      (takenFrom l.handled (star.addr c) ++ carried (star.toServer c) l.world.net) ∧
    (switched l.handled (star.addr c)).Perm
      (framesWritten l.world.log c ++ carried (star.toClient c) l.world.net) :=
  ⟨(whole_delivered reachable).upward c, (whole_delivered reachable).downward c⟩

/-- Both clients send a broadcast, the server takes both, the first client gets its frame. -/
def pairLan : Lan Bool :=
  let sent : Lan Bool :=
    ⟨pairStar.tapRead (pairStar.tapRead (World.init Bool) false (hello 2) true) true (hello 4) true, []⟩
  let relayed := pairStar.serverRecv .calm { sent.world with net := [] }
    [(⟨⟨1, 100⟩, ⟨9, 9⟩, hello 2⟩, []), (⟨⟨1, 200⟩, ⟨9, 9⟩, hello 4⟩, [])]
  ⟨{ relayed with net := [] }.clientRecv false ⟨⟨9, 9⟩, ⟨1, 100⟩, hello 4⟩ true,
    [(⟨1, 100⟩, hello 2), (⟨1, 200⟩, hello 4)]⟩

theorem pairLan_delivered : pairStar.Delivered pairLan := by
  have read : pairStar.Delivers (Lan.init Bool) ⟨pairStar.tapRead (World.init Bool) false (hello 2) true, []⟩ :=
    .tapRead false (hello 2) (by decide) (by decide)
  have first := Relation.ReflTransGen.refl.tail read
  have second := first.tail (.tapRead true (hello 4) (by decide) (by decide))
  have third := second.tail (.serverRecv
    [(⟨⟨1, 100⟩, ⟨9, 9⟩, hello 2⟩, []), (⟨⟨1, 200⟩, ⟨9, 9⟩, hello 4⟩, [])] [] (.of_eq (by decide)) (by decide))
  exact third.tail (.clientRecv false ⟨⟨9, 9⟩, ⟨1, 100⟩, hello 4⟩ [] (.of_eq (by decide)) rfl)

/-- The port of the first client gets the frame of the second. -/
theorem star_is_switch_pair :
    (switched [(⟨1, 100⟩, hello 2), (⟨1, 200⟩, hello 4)] ⟨1, 100⟩).Perm [hello 4] :=
  (star_is_switch pairStar pairLan pairLan_delivered false).2

end WlanBridge
