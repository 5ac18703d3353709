import WlanBridge.BurstBooks

/-! The books of the two handlers. Both count a flooded frame and its datagrams; a frame
for a known station is counted by the burst handler only. -/
namespace WlanBridge

def Visit.charges (v : Visit) : List Charge := frameCharge v.slot :: v.out.map sentCharge

theorem taken_all (k : Kernel) (takes : ∀ n d, k.sendto n d = none) (calls : Nat) (ds : List Datagram) :
    taken (answers k calls ds) = ds := by
  induction ds generalizing calls with
  | nil => rfl
  | cons d rest ih =>
    have later := ih (calls + 1)
    simp only [taken] at later
    simp [answers, taken, takes, later]

section Agree
variable {env : Env} {ip4Addr : U32}

theorem wlanBrHandle_books (takes : ∀ n d, env.kernel.sendto n d = none) (s : Server) (wf : s.bridge.Wf)
    (room : s.stats.Counts env ip4Addr) (slot : Slot) (index : Nat) :
    let v : Visit := ⟨learn env s.bridge slot.peerAddr slot.src, index, slot⟩
    s.stats.Booked ip4Addr ((Call.handle slot).run env s).stats (if v.late then [] else v.charges) := by
  intro v
  have learned : (learn env s.bridge slot.peerAddr slot.src).Wf := learn_wf env wf _ _
  rcases wlanBrHandle_cases env s slot.data.length ⟨0, slot.mem⟩ slot.peerAddr with
    ⟨everyone, whole⟩ | ⟨home, whole⟩ | ⟨q, known, away, whole⟩
  · have early : v.late = false := by
      rw [Visit.late, Option.isSome_eq_false_iff, Option.isNone_iff_eq_none]
      exact everyone
    have booked := (wlanBrFlood_books ip4Addr env { s with bridge := learn env s.bridge slot.peerAddr slot.src }
      room learned.shared slot.data.length ⟨0, slot.mem⟩ slot.peerAddr).2.2
    have out : v.charges = rxCharge slot.peerAddr slot.data.length ::
        (((learn env s.bridge slot.peerAddr slot.src).floodOrder slot.peerAddr).map
          ((⟨0, slot.mem⟩ : Buf).datagram slot.data.length)).map (txCharge slot.data.length) := by
      have none_ : v.bridge.unicast v.slot.dst = none := everyone
      have peers : v.bridge.dests v.slot.dst v.slot.peerAddr = v.bridge.floodOrder slot.peerAddr := by
        rw [Bridge.dests, none_]
      simp only [Visit.charges, Visit.out, peers, List.map_map]
      rfl
    rw [taken_all env.kernel takes, ← out] at booked
    rw [early, Call.run, whole]
    exact booked
  · have late : v.late = true := by
      rw [Visit.late, Option.isSome_iff_exists]
      exact ⟨_, home⟩
    rw [late, Call.run, whole]
    exact .refl _ _
  · have late : v.late = true := by
      rw [Visit.late, Option.isSome_iff_exists]
      exact ⟨_, known⟩
    rw [late, Call.run, whole]
    exact .refl _ _

theorem run_handle_books (ip4Addr : U32) (takes : ∀ n d, env.kernel.sendto n d = none) (s : Server)
    (wf : s.bridge.Wf) (room : s.stats.Counts env ip4Addr) (slots : List Slot) (index : Nat) :
    s.stats.Booked ip4Addr (run env s (slots.map .handle)).stats
      (((visits env s.bridge index slots).filter (fun v => !v.late)).flatMap Visit.charges) := by
  induction slots generalizing s index with
  | nil => exact .refl _ _
  | cons slot rest ih =>
    have booked := wlanBrHandle_books takes s wf room slot index
    have stores : ((Call.handle slot).run env s).bridge = learn env s.bridge slot.peerAddr slot.src :=
      ((Call.handle slot).run_spec env s wf).1
    have later := ih ((Call.handle slot).run env s) (by rw [stores]; exact learn_wf env wf _ _)
      (booked.counts room) (index + 1)
    rw [stores] at later
    have whole := booked.trans later
    rw [visits, List.filter_cons]
    cases lateness : Visit.late ⟨learn env s.bridge slot.peerAddr slot.src, index, slot⟩ with
    | false =>
      rw [lateness] at whole
      exact whole
    | true =>
      rw [lateness] at whole
      exact whole

theorem visits_slot (env : Env) (b : Bridge) (index : Nat) (slots : List Slot) :
    (visits env b index slots).map Visit.slot = slots := by
  induction slots generalizing b index with
  | nil => rfl
  | cons slot rest ih => rw [visits, List.map_cons, ih]

theorem burst_charges (ip4Addr : U32) (takes : ∀ n d, env.kernel.sendto n d = none) (s : Server)
    (wf : s.bridge.Wf) (room : s.stats.Counts env ip4Addr) (slots : List Slot) :
    s.stats.Booked ip4Addr (wlanBrHandleBurst env s slots).stats
      ((visits env s.bridge 0 slots).flatMap Visit.charges) := by
  have booked := wlanBrHandleBurst_books env s wf room slots
  apply booked.perm
  have sent : (floodsTaken env s.bridge s.udp slots ++ backlog env s.bridge slots).Perm
      ((visits env s.bridge 0 slots).flatMap Visit.out) := by
    rw [floodsTaken, taken_all env.kernel takes]
    exact Deferred.deferred_perm Visit.late Visit.out _
  have frames : slots.map frameCharge = (visits env s.bridge 0 slots).map fun v => frameCharge v.slot := by
    rw [← visits_slot env s.bridge 0 slots, List.map_map, visits_slot]
    rfl
  have counted := sent.map sentCharge
  rw [List.map_flatMap] at counted
  rw [frames]
  exact (counted.append_left _).trans (List.map_append_flatMap_perm _ _ _)

theorem charges_received (vs : List Visit) (fits : ∀ v ∈ vs, v.slot.data.length ≤ UINT_MAX) (ip4Addr : U32) :
    (Ledger.total (vs.flatMap Visit.charges) ip4Addr).rxPackets =
      BitVec.ofNat 64 (vs.filter fun v => v.slot.peerAddr.sinAddr = ip4Addr).length := by
  have perm := List.map_append_flatMap_perm vs (fun v => frameCharge v.slot) fun v => v.out.map sentCharge
  have frames : Ledger.total (vs.map fun v => frameCharge v.slot) ip4Addr = ⟨_, _, 0, 0, 0⟩ :=
    rxCharge_total vs (fun v => v.slot.peerAddr) (fun v => v.slot.data.length) fits ip4Addr
  have others := (sentCharge_received (vs.flatMap Visit.out) ip4Addr).1
  rw [List.map_flatMap] at others
  have whole : Ledger.total (vs.flatMap Visit.charges) ip4Addr = _ :=
    congrFun (Ledger.total_perm perm.symm) ip4Addr
  rw [whole, Ledger.total_append, Pi.add_apply, frames]
  simp [Tatistics.add_def, others]

theorem charges_split (vs : List Visit) (ip4Addr : U32) :
    Ledger.total (vs.flatMap Visit.charges) ip4Addr =
      Ledger.total ((vs.filter fun v => !v.late).flatMap Visit.charges) ip4Addr +
        Ledger.total ((vs.filter Visit.late).flatMap Visit.charges) ip4Addr := by
  have perm := (List.filter_append_perm Visit.late vs).flatMap_right Visit.charges
  rw [List.flatMap_append] at perm
  have sides : Ledger.total (vs.flatMap Visit.charges) ip4Addr = _ :=
    congrFun (Ledger.total_perm (perm.symm.trans List.perm_append_comm)) ip4Addr
  rw [sides, Ledger.total_append]
  rfl

theorem charges_zero (vs : List Visit) (fits : ∀ v ∈ vs, v.slot.data.length ≤ UINT_MAX)
    (few : vs.length ≤ INT_MAX) (zero : ∀ ip4Addr, Ledger.total (vs.flatMap Visit.charges) ip4Addr = 0) :
    vs = [] := by
  by_contra some_
  obtain ⟨v, member⟩ := List.exists_mem_of_ne_nil vs some_
  let own := vs.filter fun w => w.slot.peerAddr.sinAddr = v.slot.peerAddr.sinAddr
  have received := charges_received vs fits v.slot.peerAddr.sinAddr
  rw [zero] at received
  have nothing : BitVec.ofNat 64 (0 + own.length) = BitVec.ofNat 64 (0 + 0) := by
    rw [Nat.zero_add]
    exact received.symm
  have empty : own.length = 0 := ofNat_cancel 0 ((List.length_filter_le ..).trans few) (Nat.zero_le _) nothing
  have inOwn : v ∈ own := List.mem_filter.mpr ⟨member, decide_eq_true rfl⟩
  rw [List.length_eq_zero_iff.mp empty] at inOwn
  exact List.not_mem_nil inOwn

theorem none_late (env : Env) (b : Bridge) (slots : List Slot) :
    (visits env b 0 slots).filter Visit.late = [] ↔
      ∀ i slot, slots[i]? = some slot → ¬Queued env b slots i slot.dst := by
  rw [List.filter_eq_nil_iff]
  constructor
  · intro none_ i slot at_i queued
    refine none_ _ ((mem_visits ..).mpr ⟨i, slot, at_i, rfl⟩) ?_
    rw [Nat.zero_add]
    exact (late_iff ..).mpr queued
  · intro none_ v member lateness
    obtain ⟨i, slot, at_i, rfl⟩ := (mem_visits ..).mp member
    rw [Nat.zero_add] at lateness
    exact none_ i slot at_i ((late_iff ..).mp lateness)

end Agree

/-- With every send taken, the two handlers leave the same counters exactly when no frame
of the list is for a station that the FDB holds when the frame is reached. -/
theorem books_agree_iff (env : Env) (ok : env.StatsAllocate) (takes : ∀ n d, env.kernel.sendto n d = none)
    (s : Server) (wf : s.bridge.Wf) (slots : List Slot) (recvCount : slots.length ≤ INT_MAX)
    (fits : ∀ slot ∈ slots, slot.data.length ≤ UINT_MAX) :
    (∀ ip4Addr, (run env s (slots.map .handle)).stats.account ip4Addr =
      (wlanBrHandleBurst env s slots).stats.account ip4Addr) ↔
    ∀ i slot, slots[i]? = some slot → ¬Queued env s.bridge slots i slot.dst := by
  let vs := visits env s.bridge 0 slots
  let late := vs.filter Visit.late
  have visited : vs.map Visit.slot = slots := visits_slot ..
  have balance (ip4Addr : U32) : (run env s (slots.map .handle)).stats.account ip4Addr =
      (wlanBrHandleBurst env s slots).stats.account ip4Addr ↔
      Ledger.total (late.flatMap Visit.charges) ip4Addr = 0 := by
    rw [(burst_charges ip4Addr takes s wf (Or.inr ok) slots).account,
      (run_handle_books ip4Addr takes s wf (Or.inr ok) slots 0).account, charges_split vs, ← add_assoc,
      left_eq_add]
  rw [← none_late]
  constructor
  · intro same
    refine charges_zero late (fun v member => fits _ ?_) ?_ fun ip4Addr => (balance ip4Addr).mp (same ip4Addr)
    · rw [← visited]
      exact List.mem_map_of_mem (List.mem_filter.mp member).1
    · have length := congrArg List.length visited
      rw [List.length_map] at length
      exact (List.length_filter_le ..).trans (length ▸ recvCount)
  · intro empty ip4Addr
    rw [balance, show late = [] from empty, List.flatMap_nil, Ledger.total_nil, Pi.zero_apply]

/-- A broadcast and a frame for a station not seen yet. -/
theorem books_agree_sample :
    (run .calm .init ([sampleFrame 255 2 100, sampleFrame 6 4 200].map .handle)).stats.account 1 =
      (wlanBrHandleBurst .calm .init [sampleFrame 255 2 100, sampleFrame 6 4 200]).stats.account 1 := by
  refine (books_agree_iff .calm (fun _ => rfl) (fun _ _ => rfl) .init init_wf
    [sampleFrame 255 2 100, sampleFrame 6 4 200] (by decide) (by decide)).mpr ?_ 1
  intro i slot at_i
  match i with
  | 0 => obtain rfl := Option.some.inj at_i; exact fun queued => queued.1 (by decide)
  | 1 => obtain rfl := Option.some.inj at_i; exact fun queued => absurd queued.2 (by decide)
  | i + 2 => simp at at_i

/-- One frame for a known station: the single-frame handler forwards it and counts nothing. -/
theorem unicast_uncounted :
    let s := run .calm .init [.handle (sampleFrame 255 2 100)]
    (run .calm s ([sampleFrame 2 4 200].map .handle)).stats.account 1 = s.stats.account 1 ∧
    (wlanBrHandleBurst .calm s [sampleFrame 2 4 200]).stats.account 1 =
      s.stats.account 1 + ⟨1, 14, 1, 14, 0⟩ ∧
    (run .calm s ([sampleFrame 2 4 200].map .handle)).stats.account 1 ≠
      (wlanBrHandleBurst .calm s [sampleFrame 2 4 200]).stats.account 1 := by
  decide

end WlanBridge
