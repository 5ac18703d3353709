import WlanBridge.Runs

/-! Learning under failed allocations. The FDB entry is committed before the list
entry and its record are allocated, and nothing takes it back; the stores stay in
step in exactly those runs in which no allocation fails behind a successful one. -/
namespace WlanBridge

structure Handled where
  before : Bridge
  slot : Slot
  after : Bridge

/-- Frame by frame; inside a batch the stores are read between the turns of the loop. -/
def Call.handled (env : Env) (s : Server) : Call → List Handled
  | .handle slot => [⟨s.bridge, slot, ((Call.handle slot).run env s).bridge⟩]
  | .burst slots =>
    let reached (i : Nat) : Bridge :=
      (burstLoop env (.start s slots.length) (slots.take i)).server.bridge
    slots.zipIdx.map fun a => ⟨reached a.2, a.1, reached (a.2 + 1)⟩

def handledFrames (env : Env) (s : Server) : List Call → List Handled
  | [] => []
  | call :: rest => call.handled env s ++ handledFrames env (call.run env s) rest

def AllocationFails (env : Env) (b : Bridge) (slot : Slot) : Prop :=
  wlanBrFind b slot.src = none ∧ (env.calloc .fdbEntry b.fdbCallocs = false ∨
    env.calloc .listEntry b.listCallocs = false ∨
    slot.peerAddr ∉ b.addrs ∧ env.calloc .peerAddrInfo b.peerCallocs = false)

/-- No allocation fails behind the successful one of the FDB entry. -/
def LearnOk (env : Env) (b : Bridge) (slot : Slot) : Prop :=
  (wlanBrFind b slot.src).isSome ∨ env.calloc .fdbEntry b.fdbCallocs = false ∨
    (env.calloc .listEntry b.listCallocs = true ∧
      (slot.peerAddr ∈ b.addrs ∨ env.calloc .peerAddrInfo b.peerCallocs = true))

/-- All or nothing: the same stations in both stores, no trace of a failure, and with
memory enough the source of the frame in both. -/
structure Atomic (env : Env) (h : Handled) : Prop where
  keys : ∀ mac, mac ∈ h.after.fdbKeys ↔ mac ∈ h.after.listKeys
  untouched : AllocationFails env h.before h.slot → h.after.hHead = h.before.hHead ∧
    h.after.lHead = h.before.lHead ∧ h.after.peers = h.before.peers
  learned : ¬AllocationFails env h.before h.slot →
    h.slot.src ∈ h.after.fdbKeys ∧ h.slot.src ∈ h.after.listKeys

theorem mem_addrs_iff (wf : Bridge.Wf b) (q : SockaddrIn) : q ∈ b.addrs ↔ q ∈ b.peers.map PeerAddrInfo.addr := by
  constructor
  · intro member
    obtain ⟨entry, _, address⟩ := List.mem_filterMap.mp member
    rw [addrOf_eq] at address
    obtain ⟨p, _, at_p⟩ := Option.bind_eq_some_iff.mp address
    exact List.mem_of_getElem? at_p
  · intro member
    obtain ⟨p, at_p⟩ := List.mem_iff_getElem?.mp member
    have bound : p < b.peers.length := by simpa using (List.getElem?_eq_some_iff.mp at_p).1
    obtain ⟨entry, inList, pointer⟩ := wf.used p bound
    exact List.mem_filterMap.mpr ⟨entry, inList, by rw [addrOf_eq, pointer, Option.bind_some, at_p]⟩

theorem learn_synced_of_ok (env : Env) (wf : Bridge.Wf b) (synced : b.Synced) (slot : Slot)
    (ok : LearnOk env b slot) : (learn env b slot.peerAddr slot.src).Synced := by
  generalize next : learn env b slot.peerAddr slot.src = b'
  have step := learn_spec env b slot.peerAddr slot.src wf
  rw [next] at step
  cases step with
  | known _ => exact synced
  | fdbFull _ _ => exact synced
  | shared _ _ _ _ _ _ _ => exact synced.add rfl rfl
  | fresh _ _ _ _ _ => exact synced.add rfl rfl
  | listFull unknown first failed => simp [LearnOk, unknown, first, failed] at ok
  | peerFull unknown first _ absent failed =>
    rw [← mem_addrs_iff wf] at absent
    simp [LearnOk, unknown, first, absent, failed] at ok

/-- Otherwise the source is committed to the FDB and not to the list. -/
theorem learn_torn (env : Env) (wf : Bridge.Wf b) (slot : Slot) (torn : ¬LearnOk env b slot) :
    slot.src ∈ (learn env b slot.peerAddr slot.src).fdbKeys ∧
      slot.src ∉ (learn env b slot.peerAddr slot.src).listKeys := by
  have unlisted (unknown : wlanBrFind b slot.src = none) : slot.src ∉ b.listKeys := fun member =>
    Keyed.find_eq_none.mp unknown (wf.listed_known member)
  have committed {b' : Bridge} (added : b'.hHead = Keyed.add b.hHead ⟨slot.src, slot.peerAddr⟩) :
      slot.src ∈ b'.fdbKeys := by
    rw [Bridge.fdbKeys, added]
    simp [Keyed.add]
  generalize next : learn env b slot.peerAddr slot.src = b'
  have step := learn_spec env b slot.peerAddr slot.src wf
  rw [next] at step
  cases step with
  | known found => simp [LearnOk, found] at torn
  | fdbFull _ failed => simp [LearnOk, failed] at torn
  | listFull unknown _ _ => exact ⟨committed rfl, unlisted unknown⟩
  | peerFull unknown _ _ _ _ => exact ⟨committed rfl, unlisted unknown⟩
  | shared p pa _ _ second cell same =>
    have record : slot.peerAddr ∈ b.addrs :=
      (mem_addrs_iff wf _).mpr (List.mem_map.mpr ⟨pa, List.mem_of_getElem? cell, same⟩)
    simp [LearnOk, second, record] at torn
  | fresh _ _ second _ third => simp [LearnOk, second, third] at torn

theorem learn_atomic (env : Env) (wf : Bridge.Wf b) (synced : b.Synced) (slot : Slot)
    (ok : LearnOk env b slot) : Atomic env ⟨b, slot, learn env b slot.peerAddr slot.src⟩ := by
  have kept := learn_wf env wf slot.peerAddr slot.src
  have step := learn_synced_of_ok env wf synced slot ok
  have keys (mac : EtherAddr) : mac ∈ (learn env b slot.peerAddr slot.src).fdbKeys ↔
      mac ∈ (learn env b slot.peerAddr slot.src).listKeys := ⟨step mac, kept.listed_known⟩
  refine ⟨keys, ?_, ?_⟩
  · -- of the failures, only that of the first allocation is left
    rintro ⟨unknown, fails⟩
    cases first : env.calloc .fdbEntry b.fdbCallocs with
    | false =>
      rw [learn_fdbFull unknown first]
      exact ⟨rfl, rfl, rfl⟩
    | true =>
      simp only [LearnOk, unknown, first, Option.isSome_none, Bool.false_eq_true, Bool.true_eq_false,
        false_or] at ok
      rcases fails with failed | failed | ⟨absent, failed⟩
      · exact absurd (first.symm.trans failed) (by decide)
      · exact absurd (ok.1.symm.trans failed) (by decide)
      · rcases ok.2 with record | third
        · exact absurd record absent
        · exact absurd (third.symm.trans failed) (by decide)
  · intro succeeds
    suffices held : slot.src ∈ (learn env b slot.peerAddr slot.src).fdbKeys from ⟨held, (keys _).mp held⟩
    cases found : wlanBrFind b slot.src with
    | some entry =>
      rw [learn_known found, Bridge.fdbKeys, ← Keyed.find_isSome]
      exact Option.isSome_iff_exists.mpr ⟨entry, found⟩
    | none =>
      have first : env.calloc .fdbEntry b.fdbCallocs = true := by
        cases first : env.calloc .fdbEntry b.fdbCallocs with
        | true => rfl
        | false => exact absurd ⟨found, Or.inl first⟩ succeeds
      rw [learn_new found first, Bridge.fdbKeys, (wlanListUpdate_fdb ..).1]
      simp [Keyed.add]

def learnSteps (env : Env) (b : Bridge) : List Slot → List Handled
  | [] => []
  | slot :: rest =>
    let next := learn env b slot.peerAddr slot.src
    ⟨b, slot, next⟩ :: learnSteps env next rest

theorem learnSteps_append (env : Env) (b : Bridge) (slots more : List Slot) :
    learnSteps env b (slots ++ more) = learnSteps env b slots ++ learnSteps env (learnAll env b slots) more := by
  induction slots generalizing b with
  | nil => rfl
  | cons slot rest ih => simp [learnSteps, ih]

theorem learnSteps_zipIdx (env : Env) (b : Bridge) (slots : List Slot) :
    learnSteps env b slots = slots.zipIdx.map fun a =>
      ⟨learnAll env b (slots.take a.2), a.1, learnAll env b (slots.take (a.2 + 1))⟩ := by
  induction slots using List.reverseRecOn with
  | nil => rfl
  | append_singleton done slot ih =>
    rw [learnSteps_append, ih, List.zipIdx_append, List.map_append]
    congr 1
    · apply List.map_congr_left
      rintro ⟨other, i⟩ member
      have within : i < done.length := by
        have := (List.mem_zipIdx member).2.1
        omega
      rw [List.take_append_of_le_length (by omega), List.take_append_of_le_length (by omega)]
    · have whole : (done ++ [slot]).take (done.length + 1) = done ++ [slot] :=
        List.take_of_length_le (by simp)
      have last : learn env (learnAll env b done) slot.peerAddr slot.src = learnAll env b (done ++ [slot]) := by
        rw [learnAll_append]
        rfl
      simp only [learnSteps, Nat.zero_add, List.zipIdx_cons, List.zipIdx_nil, List.map_cons, List.map_nil,
        List.take_left, whole, last]

theorem Call.handled_eq (env : Env) (s : Server) (wf : s.bridge.Wf) (call : Call) :
    call.handled env s = learnSteps env s.bridge call.slots := by
  cases call with
  | handle slot =>
    have stores := ((Call.handle slot).run_spec env s wf).1
    rw [Call.handled, stores]
    rfl
  | burst slots =>
    have reached (i : Nat) : (burstLoop env (.start s slots.length) (slots.take i)).server.bridge =
        learnAll env s.bridge (slots.take i) :=
      (burstLoop_invariant env s wf slots.length (slots.take i) (by simp)).bridge
    simp only [Call.handled, Call.slots, reached, learnSteps_zipIdx]

theorem handledFrames_eq (env : Env) (s : Server) (wf : s.bridge.Wf) (calls : List Call) :
    handledFrames env s calls = learnSteps env s.bridge (frames calls) := by
  induction calls generalizing s with
  | nil => rfl
  | cons call rest ih =>
    have stores := (call.run_spec env s wf).1
    have kept : (call.run env s).bridge.Wf := by
      rw [stores]
      exact learnAll_wf env wf _
    have all : frames (call :: rest) = call.slots ++ frames rest := rfl
    rw [handledFrames, call.handled_eq env s wf, ih _ kept, stores, all, learnSteps_append]

theorem learnSteps_atomic_iff (env : Env) (wf : Bridge.Wf b) (synced : b.Synced) (slots : List Slot) :
    (∀ h ∈ learnSteps env b slots, Atomic env h) ↔
      (∀ h ∈ learnSteps env b slots, LearnOk env h.before h.slot) := by
  induction slots generalizing b with
  | nil => simp [learnSteps]
  | cons slot rest ih =>
    have kept := learn_wf env wf slot.peerAddr slot.src
    simp only [learnSteps, List.forall_mem_cons]
    constructor
    · rintro ⟨here, later⟩
      exact ⟨by_contra fun torn => (learn_torn env wf slot torn).2 ((here.keys _).mp (learn_torn env wf slot torn).1),
        (ih kept fun mac => (here.keys mac).mp).mp later⟩
    · rintro ⟨here, later⟩
      exact ⟨learn_atomic env wf synced slot here,
        (ih kept (learn_synced_of_ok env wf synced slot here)).mpr later⟩

/-- Learning is atomic in a run exactly when, at every frame of it, no allocation
fails behind that of the FDB entry. -/
theorem learning_atomic_iff (env : Env) (calls : List Call) :
    (∀ h ∈ handledFrames env .init calls, Atomic env h) ↔
      (∀ h ∈ handledFrames env .init calls, LearnOk env h.before h.slot) := by
  rw [handledFrames_eq env .init init_wf]
  exact learnSteps_atomic_iff env init_wf init_synced (frames calls)

def Env.tight : Env where
  calloc := fun site n => !(site == .listEntry && n == 0)
  kernel := Env.calm.kernel

/-- The station stays out of the list, also when its next frame finds memory enough. -/
theorem station_never_listed :
    let first := run .tight .init [.handle (sampleFrame 255 2 100)]
    let second := run .tight .init [.handle (sampleFrame 255 2 100), .handle (sampleFrame 255 2 100)]
    first.bridge.fdbKeys = [⟨2, 0, 0, 0, 0, 0⟩] ∧ first.bridge.listKeys = [] ∧
    second.bridge.fdbKeys = [⟨2, 0, 0, 0, 0, 0⟩] ∧ second.bridge.listKeys = [] ∧
    ∀ site n, 0 < n → Env.tight.calloc site n = true := by
  refine ⟨by decide, by decide, by decide, by decide, ?_⟩
  intro site n later
  have apart : (n == 0) = false := by
    rw [beq_eq_false_iff_ne]
    omega
  simp [Env.tight, apart]

end WlanBridge
