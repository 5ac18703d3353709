import WlanBridge.Emission

/-! The burst path against the single-frame path: the same stores and the same
datagrams however the frames are cut into batches, and the exact order that holding
the unicasts back keeps. -/
namespace WlanBridge

theorem learnAll_kernel (calloc : Calloc → Nat → Bool) (k k' : Kernel) (b : Bridge) (slots : List Slot) :
    learnAll ⟨calloc, k⟩ b slots = learnAll ⟨calloc, k'⟩ b slots := rfl

theorem visits_kernel (calloc : Calloc → Nat → Bool) (k k' : Kernel) (b : Bridge) (index : Nat)
    (slots : List Slot) : visits ⟨calloc, k⟩ b index slots = visits ⟨calloc, k'⟩ b index slots := by
  induction slots generalizing b index with
  | nil => rfl
  | cons slot rest ih =>
    have later := ih (learn ⟨calloc, k⟩ b slot.peerAddr slot.src) (index + 1)
    simp only [visits, later]
    rfl

theorem frames_burst (batches : List (List Slot)) : frames (batches.map .burst) = batches.flatten := by
  induction batches with
  | nil => rfl
  | cons batch rest ih =>
    simp only [frames, List.map_cons, List.flatMap_cons, List.flatten_cons] at ih ⊢
    rw [ih]
    rfl

theorem emission_burst_cons (env : Env) (b : Bridge) (batch : List Slot) (rest : List (List Slot)) :
    (emission env b ((batch :: rest).map .burst)).map Datagram.payload =
      Deferred.deferred Visit.late Visit.payloads (visits env b 0 batch) ++
        (emission env (learnAll env b batch) (rest.map .burst)).map Datagram.payload := by
  simp only [List.map_cons, emission, Call.slots, List.map_append, Deferred.deferred_map]
  rfl

theorem inOrder_batches (env : Env) (b : Bridge) (batch more : List Slot) :
    Deferred.inOrder Visit.payloads (visits env b 0 (batch ++ more)) =
      Deferred.inOrder Visit.payloads (visits env b 0 batch) ++
        Deferred.inOrder Visit.payloads (visits env (learnAll env b batch) 0 more) := by
  rw [visits_append, Deferred.inOrder_append, visits_payloads env (learnAll env b batch) _ 0]

/-- Every way of cutting the frames into batches sends the same datagrams. -/
theorem emission_burst_perm (env : Env) (b : Bridge) (batches : List (List Slot)) :
    ((emission env b (batches.map .burst)).map Datagram.payload).Perm
      (Deferred.inOrder Visit.payloads (visits env b 0 batches.flatten)) := by
  induction batches generalizing b with
  | nil => exact List.Perm.refl _
  | cons batch rest ih =>
    rw [emission_burst_cons, List.flatten_cons, inOrder_batches]
    exact (Deferred.deferred_perm _ _ _).append (ih (learnAll env b batch))

/-- Selects the datagrams of frames addressed to `mac` that go to `q`. -/
def toward (mac : EtherAddr) (q : SockaddrIn) (sent : List Byte × SockaddrIn) : Bool :=
  (ethhdr sent.1).hDest == mac && sent.2 == q

theorem toward_dst (framed : v.slot.Framed) (some_ : (Visit.payloads v).filter (toward mac q) ≠ []) :
    v.slot.dst = mac := by
  obtain ⟨sent, member⟩ := List.exists_mem_of_ne_nil _ some_
  obtain ⟨inOut, chosen⟩ := List.mem_filter.mp member
  rw [Visit.payloads_eq] at inOut
  obtain ⟨r, _, rfl⟩ := List.mem_map.mp inOut
  simp only [toward, Bool.and_eq_true, beq_iff_eq] at chosen
  exact framed.dst.trans chosen.1

/-- A destination once known is never flooded again, so the datagrams for one
destination and one peer leave in arrival order. -/
theorem emission_burst_toward (env : Env) (b : Bridge) (batches : List (List Slot))
    (framed : ∀ batch ∈ batches, ∀ slot ∈ batch, slot.Framed) (mac : EtherAddr) (q : SockaddrIn) :
    ((emission env b (batches.map .burst)).map Datagram.payload).filter (toward mac q) =
      (Deferred.inOrder Visit.payloads (visits env b 0 batches.flatten)).filter (toward mac q) := by
  induction batches generalizing b with
  | nil => rfl
  | cons batch rest ih =>
    have later := ih (learnAll env b batch) (fun c member => framed c (List.mem_cons_of_mem _ member))
    rw [emission_burst_cons, List.flatten_cons, inOrder_batches, List.filter_append, List.filter_append, later]
    congr 1
    apply Deferred.deferred_filter
    refine (visits_grow env b 0 batch).imp_of_mem ?_
    intro x y inX inY grown late early
    have whole (v : Visit) (member : v ∈ visits env b 0 batch) : v.slot.Framed := by
      obtain ⟨i, slot, at_i, rfl⟩ := (mem_visits ..).mp member
      exact framed batch (by simp) slot (List.mem_of_getElem? at_i)
    by_cases silent : x.payloads.filter (toward mac q) = []
    · exact Or.inl silent
    · right
      by_contra loud
      have same : x.slot.dst = y.slot.dst :=
        (toward_dst (whole x inX) silent).trans (toward_dst (whole y inY) loud).symm
      have known := grown.unicast x.slot.dst late
      rw [same] at known
      simp only [Visit.late] at early
      rw [known] at early
      exact absurd early (by decide)

theorem payloads_toward (v : Visit) (mac : EtherAddr) (q : SockaddrIn) :
    ((v.payloads.filter (toward mac q)).map Prod.fst).Sublist [v.slot.data] := by
  rw [Visit.payloads_eq, List.filter_map, List.map_map]
  have once : ((v.bridge.dests v.slot.dst v.slot.peerAddr).filter
      (toward mac q ∘ fun r => (v.slot.data, r))).length ≤ 1 := by
    have count := List.nodup_iff_count_le_one.mp (dests_nodup v.bridge v.slot.dst v.slot.peerAddr) q
    rw [← List.countP_eq_length_filter]
    refine Nat.le_trans (List.countP_mono_left ?_) count
    intro r _ chosen
    simp only [Function.comp_apply, toward, Bool.and_eq_true] at chosen
    exact chosen.2
  match hl : (v.bridge.dests v.slot.dst v.slot.peerAddr).filter
      (toward mac q ∘ fun r => (v.slot.data, r)), once with
  | [], _ => simp
  | [r], _ => simp
  | _ :: _ :: _, once => simp at once

theorem inOrder_toward (env : Env) (b : Bridge) (index : Nat) (slots : List Slot) (mac : EtherAddr)
    (q : SockaddrIn) :
    (((Deferred.inOrder Visit.payloads (visits env b index slots)).filter (toward mac q)).map
      Prod.fst).Sublist (slots.map Slot.data) := by
  induction slots generalizing b index with
  | nil => exact List.Sublist.refl _
  | cons slot rest ih =>
    simp only [visits, Deferred.inOrder, List.flatMap_cons, List.filter_append, List.map_append,
      List.map_cons]
    exact (payloads_toward _ mac q).append (ih _ _)

/-- One batch handed to the burst handler or frame by frame: the stores, what is sent,
the order toward every peer for every destination, and the bounds of the array writes. -/
theorem burst_agrees_with_single (calloc : Calloc → Nat → Bool) (k k' : Kernel) (s : Server)
    (reachable : Reachable s) (batches : List (List Slot))
    (framed : ∀ batch ∈ batches, ∀ slot ∈ batch, slot.Framed) :
    let burst := run ⟨calloc, k⟩ s (batches.map .burst)
    let single := run ⟨calloc, k'⟩ s (batches.flatten.map .handle)
    let sent := (emittedSince s burst).map Datagram.payload
    let sentSingly := (emittedSince s single).map Datagram.payload
    burst.bridge = single.bridge ∧ sent.Perm sentSingly ∧
    (∀ mac q, sent.filter (toward mac q) = sentSingly.filter (toward mac q) ∧
      ((sent.filter (toward mac q)).map Prod.fst).Sublist (batches.flatten.map Slot.data)) ∧
    (∀ before batch after i, batches = before ++ batch :: after → i ≤ batch.length →
      let l := burstLoop ⟨calloc, k⟩
        (.start (run ⟨calloc, k⟩ s (before.map .burst)) batch.length) (batch.take i)
      l.j ≤ i ∧ (i < batch.length →
        l.j < l.toDataLen.length ∧ l.j < l.toBuf.length ∧ l.j < l.toPeerAddr.length)) := by
  intro burst single sent sentSingly
  have wf := reachable.wf
  have burstSent : sent = (emission ⟨calloc, k⟩ s.bridge (batches.map .burst)).map Datagram.payload := by
    simp only [sent, burst, emittedSince_run _ s wf]
  have singleSent : sentSingly =
      Deferred.inOrder Visit.payloads (visits ⟨calloc, k⟩ s.bridge 0 batches.flatten) := by
    simp only [sentSingly, single, emittedSince_run _ s wf, emission_handle]
    rw [visits_kernel calloc k' k]
  refine ⟨?_, ?_, ?_, ?_⟩
  · simp only [burst, single, run_bridge _ s wf, frames_burst, frames_handle]
    exact learnAll_kernel calloc k k' _ _
  · rw [burstSent, singleSent]
    exact emission_burst_perm _ _ _
  · intro mac q
    have same : sent.filter (toward mac q) = sentSingly.filter (toward mac q) := by
      rw [burstSent, singleSent]
      exact emission_burst_toward _ _ batches framed mac q
    refine ⟨same, ?_⟩
    rw [same, singleSent]
    exact inOrder_toward _ _ _ _ _ _
  · intro before batch after i _ bound
    have length : (batch.take i).length = i := by simp [bound]
    have valid := burstLoop_invariant ⟨calloc, k⟩ (run ⟨calloc, k⟩ s (before.map .burst))
      (run_wf _ s wf _) batch.length (batch.take i) (by omega)
    have index := valid.index
    rw [length] at index
    refine ⟨index, fun room => ?_⟩
    rw [valid.lenCells, valid.bufCells, valid.addrCells]
    omega

/-- Two frames, cut into one batch or two singles. -/
theorem burst_agrees_pair :
    ((emittedSince .init (run .calm .init ([[sampleFrame 255 2 100, sampleFrame 2 4 200]].map .burst))).map
      Datagram.payload).Perm
    ((emittedSince .init (run .calm .init ([sampleFrame 255 2 100, sampleFrame 2 4 200].map .handle))).map
      Datagram.payload) :=
  (burst_agrees_with_single Env.calm.calloc Env.calm.kernel Env.calm.kernel .init ⟨.calm, [], rfl⟩
    [[sampleFrame 255 2 100, sampleFrame 2 4 200]] (by decide)).2.1

end WlanBridge
