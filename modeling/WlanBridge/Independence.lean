import WlanBridge.BurstBooks
import WlanBridge.Counts
import WlanBridge.Receive

/-! Two runs over the same frames, interleaved differently. The stores of a run are
determined by its table up to the order of the list, and the table by the order of the
frames of each source. -/
namespace WlanBridge

/-- The frames of each source come in the same order; in which buffers they lay, and what
else these held, is left open. -/
def SameBySource (slots slots' : List Slot) : Prop :=
  ∀ mac, (slots.filter fun slot => slot.source = mac).map Slot.bare =
    (slots'.filter fun slot => slot.source = mac).map Slot.bare

def Bridge.row (b : Bridge) (entry : WlanListEntry) : EtherAddr × Option SockaddrIn :=
  (entry.keyRemoteMac, b.addrOf entry)

theorem wlanBrFind_eq (b : Bridge) (mac : EtherAddr) :
    wlanBrFind b mac = (b.table mac).map (WlanFdbEntry.mk mac) := by
  cases found : wlanBrFind b mac with
  | none => simp [Bridge.table, found]
  | some known =>
    have key : known.keyRemoteMac = mac := Keyed.find_key found
    rw [Bridge.table, found, ← key]
    rfl

theorem Bridge.Wf.pointer_iff (wf : Bridge.Wf b) (cell : b.peers[p]? = some pa) (member : entry ∈ b.lHead) :
    entry.peerAddr = some p ↔ b.addrOf entry = some pa.addr := by
  obtain ⟨q, pointer, bound⟩ := wf.pointers entry member
  have at_p : (b.peers.map PeerAddrInfo.addr)[p]? = some pa.addr := by simp [cell]
  rw [addrOf_eq, pointer, Option.bind_some, Option.some.injEq]
  constructor
  · rintro rfl
    exact at_p
  · intro at_q
    exact (List.getElem?_inj (by simpa using bound) wf.records).mp (at_q.trans at_p.symm)

theorem Bridge.Wf.users_eq (wf : Bridge.Wf b) (cell : b.peers[p]? = some pa) :
    b.users p = (b.lHead.map b.row).countP fun row => row.2 = some pa.addr := by
  rw [Bridge.users, List.countP_map]
  apply List.countP_congr
  intro entry member
  rw [Function.comp_apply, decide_eq_true_iff, decide_eq_true_iff]
  exact wf.pointer_iff cell member

theorem Bridge.Wf.rows_table (wf : Bridge.Wf b) :
    b.lHead.map b.row = b.listKeys.map fun mac => (mac, b.table mac) := by
  rw [Bridge.listKeys, List.map_map]
  apply List.map_congr_left
  intro entry member
  rw [Function.comp_apply, Bridge.row, wf.addrOf_table member]

section Determined
variable {b b' : Bridge}

theorem rows_perm (wf : b.Wf) (wf' : b'.Wf) (synced : b.Synced) (synced' : b'.Synced)
    (same : b.table = b'.table) : (b.lHead.map b.row).Perm (b'.lHead.map b'.row) := by
  have keys : b.listKeys.Perm b'.listKeys := by
    apply (List.perm_ext_iff_of_nodup wf.listDistinct wf'.listDistinct).mpr
    intro mac
    rw [wf.listed_iff synced, wf'.listed_iff synced', same]
  rw [wf.rows_table, wf'.rows_table, same]
  exact keys.map _

theorem record_determined (wf : b.Wf) (wf' : b'.Wf) (counted : b.Counted) (counted' : b'.Counted)
    (rows : (b.lHead.map b.row).Perm (b'.lHead.map b'.row)) (member : pa ∈ b.peers) : pa ∈ b'.peers := by
  obtain ⟨p, bound, here⟩ := List.getElem_of_mem member
  have cell : b.peers[p]? = some pa := List.getElem?_eq_some_iff.mpr ⟨bound, here⟩
  obtain ⟨entry, inList, pointer⟩ := wf.used p bound
  have address := (wf.pointer_iff cell inList).mp pointer
  obtain ⟨entry', inList', row⟩ := List.mem_map.mp (rows.mem_iff.mp (List.mem_map_of_mem inList))
  have address' : b'.addrOf entry' = some pa.addr := (congrArg Prod.snd row).trans address
  obtain ⟨p', pointer', bound'⟩ := wf'.pointers entry' inList'
  have cell' : b'.peers[p']? = some b'.peers[p'] := List.getElem?_eq_getElem bound'
  have addr : b'.peers[p'].addr = pa.addr :=
    Option.some.inj (((wf'.pointer_iff cell' inList').mp pointer').symm.trans address')
  have users : b.users p = b'.users p' := by
    rw [wf.users_eq cell, wf'.users_eq cell', rows.countP_eq, addr]
  have count : b'.peers[p'].count = pa.count := by
    rw [counted' p' _ cell', counted p pa cell, users]
  have flag : b'.peers[p'].floodFlag = pa.floodFlag := by
    rw [wf'.flags _ (List.getElem_mem bound'), wf.flags pa member]
  have equal : b'.peers[p'] = pa := by
    calc b'.peers[p'] = ⟨b'.peers[p'].addr, b'.peers[p'].count, b'.peers[p'].floodFlag⟩ := rfl
      _ = pa := by rw [addr, count, flag]
  exact equal ▸ List.getElem_mem bound'

theorem sharing_determined (wf : b.Wf) (wf' : b'.Wf) (same : b.table = b'.table) (inX : x ∈ b.lHead)
    (inY : y ∈ b.lHead) (inX' : x' ∈ b'.lHead) (inY' : y' ∈ b'.lHead)
    (macX : x.keyRemoteMac = x'.keyRemoteMac) (macY : y.keyRemoteMac = y'.keyRemoteMac) :
    x.peerAddr = y.peerAddr ↔ x'.peerAddr = y'.peerAddr := by
  rw [wf.sharing inX inY, wf'.sharing inX' inY', wf.addrOf_table inX, wf.addrOf_table inY,
    wf'.addrOf_table inX', wf'.addrOf_table inY', macX, macY, same]

theorem flood_determined (wf : b.Wf) (wf' : b'.Wf) (synced : b.Synced) (synced' : b'.Synced)
    (same : b.table = b'.table) (origin q : SockaddrIn) : q ∈ b.floodOrder origin ↔ q ∈ b'.floodOrder origin := by
  rw [mem_floodOrder, mem_floodOrder, mem_addrs wf synced, mem_addrs wf' synced', same]

end Determined

theorem wlanBrFlood_emitted (env : Env) (s : Server) (wf : s.bridge.Wf) (len : Nat) (buf : Buf)
    (origin : SockaddrIn) :
    emittedSince s (wlanBrFlood env s len buf origin) = (s.bridge.floodOrder origin).map (buf.datagram len) := by
  rw [emittedSince, wlanBrFlood_attempted env s wf, List.drop_left]

section Interleaved
variable {slots slots' : List Slot}

theorem filter_bare (slots : List Slot) (mac : EtherAddr) :
    (slots.map Slot.bare).filter (fun slot => slot.source = mac) =
      (slots.filter fun slot => slot.source = mac).map Slot.bare := by
  rw [List.filter_map]
  rfl

theorem SameBySource.perm (same : SameBySource slots slots') :
    (slots.map Slot.bare).Perm (slots'.map Slot.bare) := by
  rw [List.perm_iff_count]
  intro slot
  have own : decide (slot.source = slot.source) = true := decide_eq_true rfl
  have count (l : List Slot) := @List.count_filter _ _ _ (fun other => other.source = slot.source) slot l own
  rw [← count, ← count (slots'.map Slot.bare), filter_bare, filter_bare, same]

theorem SameBySource.firstSeen (same : SameBySource slots slots') :
    Learning.firstSeen (sightings slots) = Learning.firstSeen (sightings slots') := by
  apply Learning.firstSeen_congr
  intro mac
  have own (l : List Slot) : (sightings l).filter (fun a => a.1 = mac) =
      ((l.filter fun slot => slot.source = mac).map Slot.bare).map sighting := by
    rw [sightings, List.filter_map, List.map_map]
    rfl
  rw [own, own, same]

theorem SameBySource.lengths (same : SameBySource slots slots') (ip4Addr : U32) :
    ((slots.filter fun slot => slot.peerAddr.sinAddr = ip4Addr).map fun slot => slot.data.length).Perm
      ((slots'.filter fun slot => slot.peerAddr.sinAddr = ip4Addr).map fun slot => slot.data.length) := by
  have own (l : List Slot) : (l.filter fun slot => slot.peerAddr.sinAddr = ip4Addr).map (fun slot => slot.data.length) =
      ((l.map Slot.bare).filter fun slot => slot.peerAddr.sinAddr = ip4Addr).map fun slot => slot.data.length := by
    rw [List.filter_map, List.map_map]
    rfl
  rw [own slots, own slots']
  exact (same.perm.filter _).map _

theorem SameBySource.all (same : SameBySource slots slots') (p : List Byte → Prop)
    (each : ∀ slot ∈ slots, p slot.data) : ∀ slot ∈ slots', p slot.data := by
  intro slot member
  have inBare : slot.bare ∈ slots.map Slot.bare := same.perm.mem_iff.mpr (List.mem_map_of_mem member)
  obtain ⟨other, inSlots, equal⟩ := List.mem_map.mp inBare
  have data : other.bare.data = slot.bare.data := congrArg Slot.data equal
  exact data ▸ each other inSlots

theorem SameBySource.swap (before after : List Slot) (first second : Slot) (apart : first.source ≠ second.source) :
    SameBySource (before ++ first :: second :: after) (before ++ second :: first :: after) := by
  intro mac
  congr 1
  simp only [List.filter_append, List.filter_cons]
  by_cases own : first.source = mac
  · have other : ¬second.source = mac := fun same => apart (own.trans same.symm)
    simp [own, other]
  · simp [own]

end Interleaved

/-- Runs of bursts over the same frames, interleaved differently and cut into other batches,
end with the same FDB, list, sharing, records and counts; floods reach the same peers,
and the rx counters agree. -/
theorem learning_order_independent (env env' : Env) (ok : env.Allocates) (ok' : env'.Allocates)
    (batches batches' : List (List Slot)) (same : SameBySource batches.flatten batches'.flatten)
    (framed : ∀ slot ∈ batches.flatten, slot.Framed)
    (fits : ∀ slot ∈ batches.flatten, slot.data.length ≤ UINT_MAX) :
    let s := run env .init (batches.map .burst)
    let s' := run env' .init (batches'.map .burst)
    (∀ mac, wlanBrFind s.bridge mac = wlanBrFind s'.bridge mac) ∧
    (∀ row, row ∈ s.bridge.lHead.map s.bridge.row ↔ row ∈ s'.bridge.lHead.map s'.bridge.row) ∧
    (∀ x ∈ s.bridge.lHead, ∀ y ∈ s.bridge.lHead, ∀ x' ∈ s'.bridge.lHead, ∀ y' ∈ s'.bridge.lHead,
      x.keyRemoteMac = x'.keyRemoteMac → y.keyRemoteMac = y'.keyRemoteMac →
        (x.peerAddr = y.peerAddr ↔ x'.peerAddr = y'.peerAddr)) ∧
    (∀ pa, pa ∈ s.bridge.peers ↔ pa ∈ s'.bridge.peers) ∧
    (∀ (env : Env) (len : Nat) (buf : Buf) (origin : SockaddrIn) (d : Datagram),
      d ∈ emittedSince s (wlanBrFlood env s len buf origin) ↔
        d ∈ emittedSince s' (wlanBrFlood env s' len buf origin)) ∧
    (∀ ip4Addr, (s.stats.account ip4Addr).rxPackets = (s'.stats.account ip4Addr).rxPackets ∧
      (s.stats.account ip4Addr).rxBytes = (s'.stats.account ip4Addr).rxBytes) := by
  intro s s'
  have framed' := same.all (fun data => 14 ≤ data.length) framed
  have fits' := same.all (fun data => data.length ≤ UINT_MAX) fits
  have wf : s.bridge.Wf := run_wf env .init init_wf _
  have wf' : s'.bridge.Wf := run_wf env' .init init_wf _
  have synced : s.bridge.Synced := run_synced env ok _
  have synced' : s'.bridge.Synced := run_synced env' ok' _
  have table : s.bridge.table = s'.bridge.table := by
    have left := run_table env ok (batches.map .burst) (by rwa [frames_burst])
    have right := run_table env' ok' (batches'.map .burst) (by rwa [frames_burst])
    rw [frames_burst] at left right
    exact left.trans (same.firstSeen.trans right.symm)
  have rows := rows_perm wf wf' synced synced' table
  refine ⟨fun mac => ?_, fun row => rows.mem_iff, ?_, fun pa => ⟨?_, ?_⟩, ?_, fun ip4Addr => ?_⟩
  · rw [wlanBrFind_eq, wlanBrFind_eq, table]
  · intro x inX y inY x' inX' y' inY'
    exact sharing_determined wf wf' table inX inY inX' inY'
  · exact record_determined wf wf' (run_counted env _) (run_counted env' _) rows
  · exact record_determined wf' wf (run_counted env' _) (run_counted env _) rows.symm
  · intro env len buf origin d
    rw [wlanBrFlood_emitted env s wf, wlanBrFlood_emitted env s' wf', List.mem_map, List.mem_map]
    simp only [flood_determined wf wf' synced synced' table]
  · obtain ⟨packets, bytes, _⟩ := received_exact env (ok .ipStatistics) batches fits ip4Addr
    obtain ⟨packets', bytes', _⟩ := received_exact env' (ok' .ipStatistics) batches' fits' ip4Addr
    have lengths := same.lengths ip4Addr
    have number := lengths.length_eq
    rw [List.length_map, List.length_map] at number
    exact ⟨by rw [packets, packets', number], by rw [bytes, bytes', lengths.sum_eq]⟩

/-- Two stations of one peer, the other way round and in two batches. -/
theorem learning_order_independent_sample :
    let s := run .calm .init ([[sampleFrame 255 2 100, sampleFrame 2 4 100]].map .burst)
    let s' := run .calm .init ([[sampleFrame 2 4 100], [sampleFrame 255 2 100]].map .burst)
    (∀ mac, wlanBrFind s.bridge mac = wlanBrFind s'.bridge mac) ∧
    (∀ row, row ∈ s.bridge.lHead.map s.bridge.row ↔ row ∈ s'.bridge.lHead.map s'.bridge.row) := by
  intro s s'
  have same := learning_order_independent .calm .calm calm_allocates calm_allocates
    [[sampleFrame 255 2 100, sampleFrame 2 4 100]] [[sampleFrame 2 4 100], [sampleFrame 255 2 100]]
    (SameBySource.swap [] [] (sampleFrame 255 2 100) (sampleFrame 2 4 100) (by decide)) (by decide) (by decide)
  exact ⟨same.1, same.2.1⟩

end WlanBridge
