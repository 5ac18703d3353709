import WlanBridge.Books

/-! What the counters say after bursts. What was received is counted exactly, frame by
frame; of what was sent, the queued unicasts are counted whether or not they left. -/
namespace WlanBridge

def INT_MAX : Nat := 2147483647

theorem sentCharge_received (ds : List Datagram) (ip4Addr : U32) :
    (Ledger.total (ds.map sentCharge) ip4Addr).rxPackets = 0 ∧
    (Ledger.total (ds.map sentCharge) ip4Addr).rxBytes = 0 := by
  induction ds with
  | nil => exact ⟨rfl, rfl⟩
  | cons d rest ih =>
    rw [List.map_cons, Ledger.total_cons]
    by_cases here : (sentCharge d).1 = ip4Addr
    · rw [if_pos here]
      simp [Tatistics.add_def, ih, sentCharge, txCharge, Tatistics.tx]
    · simpa [here] using ih

theorem run_burst_books (env : Env) (ok : env.StatsAllocate) (s : Server) (wf : s.bridge.Wf)
    (batches : List (List Slot)) (ip4Addr : U32) :
    ∃ sent : List Datagram, s.stats.Booked ip4Addr (run env s (batches.map .burst)).stats
      (batches.flatten.map frameCharge ++ sent.map sentCharge) := by
  induction batches generalizing s with
  | nil => exact ⟨[], .refl _ _⟩
  | cons slots rest ih =>
    have booked : s.stats.Booked ip4Addr _ _ := wlanBrHandleBurst_books env s wf (Or.inr ok) slots
    have kept : (wlanBrHandleBurst env s slots).bridge.Wf := by
      rw [(wlanBrHandleBurst_spec env s wf slots).1]
      exact learnAll_wf env wf slots
    obtain ⟨more, later⟩ := ih (wlanBrHandleBurst env s slots) kept
    refine ⟨floodsTaken env s.bridge s.udp slots ++ backlog env s.bridge slots ++ more, ?_⟩
    apply (booked.trans later).perm
    rw [List.perm_iff_count]
    intro c
    simp only [List.flatten_cons, List.map_append, List.count_append]
    omega

/-- The rx counters of an address are the number and the bytes of the frames received from
it so far, and its entry is there from the first of them on. -/
theorem received_exact (env : Env) (ok : env.StatsAllocate) (batches : List (List Slot))
    (fits : ∀ slot ∈ batches.flatten, slot.data.length ≤ UINT_MAX) (ip4Addr : U32) :
    let st := (run env .init (batches.map .burst)).stats
    let own := batches.flatten.filter fun slot => slot.peerAddr.sinAddr = ip4Addr
    (st.account ip4Addr).rxPackets = BitVec.ofNat 64 own.length ∧
    (st.account ip4Addr).rxBytes = BitVec.ofNat 64 (own.map fun slot => slot.data.length).sum ∧
    (own ≠ [] → st.Holds ip4Addr) := by
  intro st own
  obtain ⟨sent, booked⟩ := run_burst_books env ok .init init_wf batches ip4Addr
  have received : Ledger.total (batches.flatten.map frameCharge) ip4Addr =
      ⟨BitVec.ofNat 64 own.length, BitVec.ofNat 64 (own.map fun slot => slot.data.length).sum, 0, 0, 0⟩ :=
    rxCharge_total batches.flatten Slot.peerAddr (fun slot => slot.data.length) fits ip4Addr
  have others := sentCharge_received sent ip4Addr
  have account := booked.account
  have start : Server.init.stats.account ip4Addr = 0 := rfl
  rw [Ledger.total_append, Pi.add_apply, received, start, zero_add] at account
  refine ⟨?_, ?_, ?_⟩
  · rw [account]
    simp [Tatistics.add_def, others.1]
  · rw [account]
    simp [Tatistics.add_def, others.2]
  · intro some_
    obtain ⟨slot, member⟩ := List.exists_mem_of_ne_nil own some_
    obtain ⟨inRun, home⟩ := List.mem_filter.mp member
    apply booked.holds.mpr
    refine Or.inr (List.mem_map.mpr ⟨frameCharge slot, ?_, of_decide_eq_true home⟩)
    exact List.mem_append_left _ (List.mem_map_of_mem inRun)

/-- Two frames of one address, the second on a port of its own; every send fails. -/
theorem received_exact_sample :
    let env : Env := ⟨fun _ _ => true, ⟨fun _ _ => some 111, fun _ _ => .failed 111⟩⟩
    let st := (run env .init ([[sampleFrame 255 2 100, sampleFrame 2 4 200]].map .burst)).stats
    (st.account 1).rxPackets = 2 ∧ (st.account 1).rxBytes = 28 ∧ st.Holds 1 := by
  intro env st
  obtain ⟨packets, bytes, held⟩ := received_exact env (fun _ => rfl)
    [[sampleFrame 255 2 100, sampleFrame 2 4 200]] (by decide) 1
  exact ⟨packets.trans (by decide), bytes.trans (by decide), held (by decide)⟩

section Sent
variable {env : Env} {s : Server} {slots : List Slot}

theorem backlog_nodup (env : Env) (b : Bridge) (slots : List Slot) : (backlog env b slots).Nodup :=
  (List.filter_sublist.flatMap Visit.out).nodup (visits_out_nodup env b 0 slots)

theorem backlog_length (wf : s.bridge.Wf) : (backlog env s.bridge slots).length ≤ slots.length := by
  have valid := burstLoop_invariant env s wf slots.length slots (Nat.le_refl _)
  have queued : _ = backlog env s.bridge slots := valid.queued
  rw [← queued, List.length_map, mmsgOf_length]
  exact valid.index

theorem out_length (fits : ∀ slot ∈ slots, slot.data.length ≤ UINT_MAX) (member : v ∈ visits env b 0 slots)
    (inOut : d ∈ v.out) : d.data.length ≤ UINT_MAX := by
  obtain ⟨i, slot, at_i, rfl⟩ := (mem_visits ..).mp member
  obtain ⟨q, _, rfl⟩ := List.mem_map.mp inOut
  exact fits slot (List.mem_of_getElem? at_i)

theorem counted_length (fits : ∀ slot ∈ slots, slot.data.length ≤ UINT_MAX) :
    ∀ d ∈ floodsTaken env b u slots ++ backlog env b slots, d.data.length ≤ UINT_MAX := by
  intro d member
  rcases List.mem_append.mp member with early | late
  · obtain ⟨v, inVisits, inOut⟩ := List.mem_flatMap.mp (mem_taken early)
    exact out_length fits (List.mem_filter.mp inVisits).1 inOut
  · obtain ⟨v, inVisits, inOut⟩ := List.mem_flatMap.mp late
    exact out_length fits (List.mem_filter.mp inVisits).1 inOut

theorem filter_eq_iff [DecidableEq α] {part whole : List α} (sub : part.Sublist whole) (distinct : whole.Nodup)
    (p : α → Bool) : part.filter p = whole.filter p ↔ ∀ a ∈ whole, p a = true → a ∈ part := by
  constructor
  · intro same a member meets
    have inWhole : a ∈ whole.filter p := List.mem_filter.mpr ⟨member, meets⟩
    rw [← same] at inWhole
    exact (List.mem_filter.mp inWhole).1
  · intro all
    have inside : whole.filter p ⊆ part.filter p := by
      intro a member
      obtain ⟨inWhole, meets⟩ := List.mem_filter.mp member
      exact List.mem_filter.mpr ⟨all a inWhole meets, meets⟩
    exact (sub.filter p).eq_of_length_le ((distinct.filter _).subperm inside).length_le

theorem burst_tx (env : Env) (s : Server) (wf : s.bridge.Wf) (ip4Addr : U32) (room : s.stats.Counts env ip4Addr)
    (slots : List Slot) (fits : ∀ slot ∈ slots, slot.data.length ≤ UINT_MAX) :
    let account := (wlanBrHandleBurst env s slots).stats.account ip4Addr
    let own := (floodsTaken env s.bridge s.udp slots ++ backlog env s.bridge slots).filter
      fun d => d.dest.sinAddr = ip4Addr
    account.txPackets = (s.stats.account ip4Addr).txPackets + BitVec.ofNat 64 own.length ∧
    account.txBytes = (s.stats.account ip4Addr).txBytes +
      BitVec.ofNat 64 (own.map fun d => d.data.length).sum := by
  intro account own
  have booked := (wlanBrHandleBurst_books env s wf room slots).account
  have frames : Ledger.total (slots.map frameCharge) ip4Addr = ⟨_, _, 0, 0, 0⟩ :=
    rxCharge_total slots Slot.peerAddr (fun slot => slot.data.length) fits ip4Addr
  have counted : Ledger.total ((floodsTaken env s.bridge s.udp slots ++ backlog env s.bridge slots).map sentCharge)
      ip4Addr = ⟨0, 0, BitVec.ofNat 64 own.length, BitVec.ofNat 64 (own.map fun d => d.data.length).sum, 0⟩ :=
    txCharge_total _ (fun d => d.data.length) (counted_length fits) ip4Addr
  rw [Ledger.total_append, Pi.add_apply, frames, counted] at booked
  simp only [account, booked]
  simp [Tatistics.add_def]

end Sent

theorem ofNat_cancel (t : Nat) (small : p ≤ INT_MAX) (also : q ≤ INT_MAX)
    (same : BitVec.ofNat 64 (t + p) = BitVec.ofNat 64 (t + q)) : p = q := by
  rw [BitVec.ofNat_add, BitVec.ofNat_add] at same
  have cut := congrArg BitVec.toNat (add_left_cancel same)
  rw [INT_MAX] at small also
  simp only [BitVec.toNat_ofNat] at cut
  omega

/-- The tx counters of an address grow by what the kernel took for it exactly when the one
or two calls at the end of the batch get every queued unicast for that address through. -/
theorem sent_counted_iff (env : Env) (s : Server) (wf : s.bridge.Wf) (ip4Addr : U32)
    (room : s.stats.Counts env ip4Addr) (slots : List Slot) (recvCount : slots.length ≤ INT_MAX)
    (fits : ∀ slot ∈ slots, slot.data.length ≤ UINT_MAX) :
    let s' := wlanBrHandleBurst env s slots
    let accepted := (transmittedSince s.udp s'.udp).filter fun d => d.dest.sinAddr = ip4Addr
    let queued := backlog env s.bridge slots
    ((s'.stats.account ip4Addr).txPackets =
        (s.stats.account ip4Addr).txPackets + BitVec.ofNat 64 accepted.length ∧
      (s'.stats.account ip4Addr).txBytes = (s.stats.account ip4Addr).txBytes +
        BitVec.ofNat 64 (accepted.map fun d => d.data.length).sum) ↔
    ∀ d ∈ queued, d.dest.sinAddr = ip4Addr →
      d ∈ burstSent env.kernel (s.udp.flooded env s.bridge slots) queued := by
  intro s' accepted queued
  let own (ds : List Datagram) := ds.filter fun d => d.dest.sinAddr = ip4Addr
  let sent := burstSent env.kernel (s.udp.flooded env s.bridge slots) queued
  let early := floodsTaken env s.bridge s.udp slots
  obtain ⟨packets, bytes⟩ := burst_tx env s wf ip4Addr room slots fits
  have took : accepted = own early ++ own sent := by
    simp only [accepted, s', wlanBrHandleBurst_transmitted env s wf room slots, List.filter_append]
    rfl
  have part : sent.Sublist queued := burstSent_sublist _ _ _
  have ownPart : (own sent).Sublist (own queued) := part.filter _
  have through : own sent = own queued ↔ ∀ d ∈ queued, d.dest.sinAddr = ip4Addr → d ∈ sent := by
    have general := filter_eq_iff part (backlog_nodup env s.bridge slots) fun d => d.dest.sinAddr = ip4Addr
    simpa only [decide_eq_true_iff] using general
  rw [← through, packets, bytes, took, List.filter_append]
  constructor
  · rintro ⟨same, _⟩
    have most : (own queued).length ≤ INT_MAX :=
      (List.length_filter_le ..).trans ((backlog_length wf).trans recvCount)
    have equal := add_left_cancel same
    rw [List.length_append, List.length_append] at equal
    exact ownPart.eq_of_length (ofNat_cancel _ most (ownPart.length_le.trans most) equal).symm
  · intro same
    rw [same]
    exact ⟨rfl, rfl⟩

/-- A unicast that the kernel takes. -/
theorem sent_counted_sample :
    let s := run .calm .init [.handle (sampleFrame 255 2 100)]
    let s' := wlanBrHandleBurst .calm s [sampleFrame 2 4 200]
    (s'.stats.account 1).txPackets = (s.stats.account 1).txPackets + 1 := by
  intro s s'
  have wf : s.bridge.Wf := run_wf .calm .init init_wf _
  have counted := ((sent_counted_iff .calm s wf 1 (Or.inr fun _ => rfl) [sampleFrame 2 4 200] (by decide)
    (by decide)).mpr (by decide)).1
  exact counted.trans (by decide)

/-- A unicast that the kernel refuses is counted all the same. -/
theorem refused_unicast_counted :
    let s := run .calm .init [.handle (sampleFrame 255 2 100)]
    let env : Env := ⟨fun _ _ => true, ⟨fun _ _ => none, fun _ _ => .failed 111⟩⟩
    let s' := wlanBrHandleBurst env s [sampleFrame 2 4 200]
    transmittedSince s.udp s'.udp = [] ∧
    (s'.stats.account 1).txPackets = (s.stats.account 1).txPackets + 1 ∧
    (s'.stats.account 1).txPackets ≠ (s.stats.account 1).txPackets + BitVec.ofNat 64
      ((transmittedSince s.udp s'.udp).filter fun d => d.dest.sinAddr = 1).length := by
  decide

end WlanBridge
