import WlanBridge.BurstPath

/-! When a batch keeps the arrival order of two frames toward one peer: unless the
first is queued, as a unicast to a known station, and the second is flooded. -/
namespace WlanBridge

def fdbAfter (env : Env) (b : Bridge) (slots : List Slot) : Bridge :=
  slots.foldl (fun b slot => (wlanFdbUpdate env b slot.peerAddr slot.src).2) b

/-- Frame `i` has a station as its destination, and the FDB holds it when the frame is reached. -/
def Queued (env : Env) (b : Bridge) (slots : List Slot) (i : Nat) (dst : EtherAddr) : Prop :=
  ¬IsGroup dst ∧ (wlanBrFind (fdbAfter env b (slots.take (i + 1))) dst).isSome

theorem learn_fdb (env : Env) (table : b.hHead = c.hHead) (callocs : b.fdbCallocs = c.fdbCallocs)
    (peerAddr : SockaddrIn) (mac : EtherAddr) :
    (learn env b peerAddr mac).hHead = (wlanFdbUpdate env c peerAddr mac).2.hHead ∧
    (learn env b peerAddr mac).fdbCallocs = (wlanFdbUpdate env c peerAddr mac).2.fdbCallocs := by
  have lookup : wlanBrFind c mac = wlanBrFind b mac := by rw [wlanBrFind, wlanBrFind, table]
  cases found : wlanBrFind b mac with
  | some entry =>
    rw [learn_known found]
    rw [found] at lookup
    simp [wlanFdbUpdate, lookup, table, callocs]
  | none =>
    rw [found] at lookup
    cases first : env.calloc .fdbEntry b.fdbCallocs with
    | false =>
      rw [learn_fdbFull found first]
      rw [callocs] at first
      simp [wlanFdbUpdate, lookup, first, table, callocs]
    | true =>
      rw [learn_new found first, (wlanListUpdate_fdb ..).1, (wlanListUpdate_fdb ..).2]
      rw [callocs] at first
      simp [wlanFdbUpdate, lookup, first, table, callocs]

theorem fdbAfter_find (env : Env) (b : Bridge) (slots : List Slot) :
    wlanBrFind (fdbAfter env b slots) = wlanBrFind (learnAll env b slots) := by
  suffices same : (learnAll env b slots).hHead = (fdbAfter env b slots).hHead ∧
      (learnAll env b slots).fdbCallocs = (fdbAfter env b slots).fdbCallocs by
    funext mac
    rw [wlanBrFind, wlanBrFind, same.1]
  induction slots using List.reverseRecOn with
  | nil => exact ⟨rfl, rfl⟩
  | append_singleton done slot ih =>
    simpa [fdbAfter, learnAll] using learn_fdb env ih.1 ih.2 slot.peerAddr slot.src

theorem visits_getElem (env : Env) (b : Bridge) (index : Nat) {i : Nat} {slots : List Slot} {slot : Slot}
    (at_i : slots[i]? = some slot) :
    (visits env b index slots)[i]? =
      some ⟨learnAll env b (slots.take (i + 1)), index + i, slot⟩ := by
  induction slots generalizing b index i with
  | nil => simp at at_i
  | cons first rest ih =>
    cases i with
    | zero =>
      obtain rfl := Option.some.inj at_i
      rfl
    | succ i =>
      have later := ih (learn env b first.peerAddr first.src) (index + 1) at_i
      rw [visits, List.getElem?_cons_succ, later, List.take_succ_cons, learnAll_cons, Nat.add_assoc,
        Nat.add_comm 1]

theorem late_iff (env : Env) (b : Bridge) (slots : List Slot) (i : Nat) (slot : Slot) :
    Visit.late ⟨learnAll env b (slots.take (i + 1)), i, slot⟩ = true ↔ Queued env b slots i slot.dst := by
  rw [Visit.late, Queued, fdbAfter_find, Bridge.unicast, isMulticastEtherAddr_eq, IsGroup]
  cases slot.dst.group <;> simp

/-- One by one, the frames keep their order toward `q`; a batch keeps it exactly
unless the first frame is queued and the second is flooded. -/
theorem burst_keeps_order_iff (env : Env) (s : Server) (reachable : Reachable s) (slots : List Slot)
    (i j : Nat) (first second : Slot) (q : SockaddrIn) (lt : i < j) (at_i : slots[i]? = some first)
    (at_j : slots[j]? = some second)
    (sent_i : first.datagram i q ∈ (Call.burst slots).attempts env s)
    (sent_j : second.datagram j q ∈ (Call.burst slots).attempts env s) :
    Deferred.Before ((emittedSince s (run env s (slots.map .handle))).map Datagram.payload)
      (first.data, q) (second.data, q) ∧
    (Deferred.Before ((Call.burst slots).attempts env s) (first.datagram i q) (second.datagram j q) ↔
      ¬(Queued env s.bridge slots i first.dst ∧ ¬Queued env s.bridge slots j second.dst)) := by
  have wf := reachable.wf
  let visit (n : Nat) (slot : Slot) : Visit := ⟨learnAll env s.bridge (slots.take (n + 1)), n, slot⟩
  have place {n : Nat} {slot : Slot} (at_n : slots[n]? = some slot) :
      (visits env s.bridge 0 slots)[n]? = some (visit n slot) := by
    rw [visits_getElem env s.bridge 0 at_n, Nat.zero_add]
  have mine {n : Nat} {slot : Slot} (at_n : slots[n]? = some slot)
      (sent : slot.datagram n q ∈ (Call.burst slots).attempts env s) :
      slot.datagram n q ∈ (visit n slot).out := by
    have inDests := (datagram_mem_attempts env s wf (.burst slots) n slot at_n q).mp sent
    exact List.mem_map_of_mem inDests
  have whole := (Call.burst slots).attempts_eq env s wf
  have distinct := attempts_nodup env s wf (.burst slots)
  rw [whole] at distinct ⊢
  have order : Deferred.Before (visits env s.bridge 0 slots) (visit i first) (visit j second) :=
    Deferred.before_of_lt lt (place at_i) (place at_j)
  refine ⟨?_, ?_⟩
  · rw [emittedSince_run env s wf, emission_handle]
    exact Deferred.inOrder_before order (List.mem_map_of_mem (mine at_i sent_i))
      (List.mem_map_of_mem (mine at_j sent_j))
  rw [← late_iff, ← late_iff, Bool.not_eq_true]
  constructor
  · rintro kept ⟨lateFirst, earlySecond⟩
    exact Deferred.deferred_overtakes distinct (List.mem_of_getElem? (place at_i))
      (List.mem_of_getElem? (place at_j)) (mine at_i sent_i) (mine at_j sent_j) lateFirst earlySecond kept
  · exact Deferred.deferred_before order (mine at_i sent_i) (mine at_j sent_j)

theorem burst_keeps_order_sample :
    Deferred.Before ((Call.burst [sampleFrame 255 4 200, sampleFrame 2 4 200]).attempts .calm
        (run .calm .init [.handle (sampleFrame 255 2 100)]))
      ((sampleFrame 255 4 200).datagram 0 ⟨1, 100⟩) ((sampleFrame 2 4 200).datagram 1 ⟨1, 100⟩) :=
  (burst_keeps_order_iff .calm _ ⟨.calm, [.handle (sampleFrame 255 2 100)], rfl⟩
    [sampleFrame 255 4 200, sampleFrame 2 4 200] 0 1 _ _ ⟨1, 100⟩ (by decide) rfl rfl (by decide)
    (by decide)).2.mpr (fun h => h.1.1 (by decide))

/-- The other way round the broadcast overtakes the unicast. -/
theorem burst_overtakes : ∃ (env : Env) (s : Server) (slots : List Slot) (i j : Nat) (first second : Slot)
    (q : SockaddrIn), Reachable s ∧ i < j ∧ slots[i]? = some first ∧ slots[j]? = some second ∧ first.peerAddr = second.peerAddr ∧
    first.datagram i q ∈ (Call.burst slots).attempts env s ∧
    second.datagram j q ∈ (Call.burst slots).attempts env s ∧
    ¬Deferred.Before ((Call.burst slots).attempts env s) (first.datagram i q) (second.datagram j q) :=
  ⟨.calm, run .calm .init [.handle (sampleFrame 255 2 100)],
    [sampleFrame 2 4 200, sampleFrame 255 4 200], 0, 1, sampleFrame 2 4 200, sampleFrame 255 4 200,
    ⟨1, 100⟩, ⟨.calm, _, rfl⟩, by decide, rfl, rfl, rfl, by decide, by decide, by
      unfold Deferred.Before
      decide⟩

end WlanBridge
