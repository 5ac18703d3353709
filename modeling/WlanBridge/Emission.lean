import WlanBridge.Runs

/-! What whole runs hand to the socket, frame by frame. A frame's datagrams depend
on the stores after its own source has been learned, on nothing behind it. -/
namespace WlanBridge

/-- Lookups that succeed keep their answer. -/
def Bridge.Extends (b b' : Bridge) : Prop :=
  ∀ mac entry, wlanBrFind b mac = some entry → wlanBrFind b' mac = some entry

theorem Bridge.Extends.refl (b : Bridge) : b.Extends b := fun _ _ found => found

theorem Bridge.Extends.trans {b c d : Bridge} (first : b.Extends c) (second : c.Extends d) :
    b.Extends d := fun mac entry found => second mac entry (first mac entry found)

theorem learn_extends (env : Env) (b : Bridge) (peerAddr : SockaddrIn) (mac : EtherAddr) :
    b.Extends (learn env b peerAddr mac) := by
  intro other entry found
  rw [wlanBrFind] at found ⊢
  rcases learn_hHead env b peerAddr mac with same | added
  · rw [same, found]
  · rw [added, Keyed.find_add, found, Option.some_or]

theorem learnAll_extends (env : Env) (b : Bridge) (slots : List Slot) :
    b.Extends (learnAll env b slots) := by
  induction slots generalizing b with
  | nil => exact .refl b
  | cons slot rest ih => exact (learn_extends env b _ _).trans (ih _)

theorem Bridge.Extends.unicast {b b' : Bridge} (extends_ : b.Extends b') (dst : EtherAddr)
    (known : (b.unicast dst).isSome) : (b'.unicast dst).isSome := by
  unfold Bridge.unicast at known ⊢
  split at known
  · simp at known
  · rename_i alone
    rw [if_neg alone]
    rw [Option.isSome_map] at known ⊢
    obtain ⟨entry, found⟩ := Option.isSome_iff_exists.mp known
    rw [extends_ dst entry found]
    rfl

theorem mem_visits (env : Env) (b : Bridge) (index : Nat) (slots : List Slot) (v : Visit) :
    v ∈ visits env b index slots ↔ ∃ i slot, slots[i]? = some slot ∧
      v = ⟨learnAll env b (slots.take (i + 1)), index + i, slot⟩ := by
  induction slots generalizing b index with
  | nil => simp [visits]
  | cons slot rest ih =>
    rw [visits, List.mem_cons, ih]
    constructor
    · rintro (rfl | ⟨i, later, at_i, rfl⟩)
      · exact ⟨0, slot, rfl, rfl⟩
      · refine ⟨i + 1, later, at_i, ?_⟩
        rw [List.take_succ_cons, learnAll_cons, Nat.add_assoc, Nat.add_comm 1]
    · rintro ⟨i, found, at_i, rfl⟩
      cases i with
      | zero =>
        obtain rfl := Option.some.inj at_i
        exact Or.inl rfl
      | succ i =>
        refine Or.inr ⟨i, found, at_i, ?_⟩
        rw [List.take_succ_cons, learnAll_cons, Nat.add_assoc, Nat.add_comm 1]

theorem visits_grow (env : Env) (b : Bridge) (index : Nat) (slots : List Slot) :
    (visits env b index slots).Pairwise (fun x y => x.bridge.Extends y.bridge) := by
  induction slots generalizing b index with
  | nil => exact List.Pairwise.nil
  | cons slot rest ih =>
    refine List.pairwise_cons.mpr ⟨?_, ih _ _⟩
    intro v member
    obtain ⟨i, later, _, rfl⟩ := (mem_visits ..).mp member
    exact learnAll_extends env _ _

theorem visits_index (env : Env) (b : Bridge) (index : Nat) (slots : List Slot) :
    (visits env b index slots).map Visit.index = List.range' index slots.length := by
  induction slots generalizing b index with
  | nil => rfl
  | cons slot rest ih => simp [visits, ih, List.range'_succ]

/-- No datagram is emitted twice for a batch: those of one frame differ in their
destination, those of two frames in their buffer. -/
theorem visits_out_nodup (env : Env) (b : Bridge) (index : Nat) (slots : List Slot) :
    (Deferred.inOrder Visit.out (visits env b index slots)).Nodup := by
  rw [Deferred.inOrder, List.nodup_flatMap]
  refine ⟨?_, ?_⟩
  · intro v _
    apply (dests_nodup _ _ _).map
    intro q r same
    exact congrArg Datagram.dest same
  · have distinct : ((visits env b index slots).map Visit.index).Nodup := by
      rw [visits_index]
      exact List.nodup_range'
    rw [List.nodup_iff_pairwise_ne, List.pairwise_map] at distinct
    apply distinct.imp
    intro v w apart d inV inW
    obtain ⟨q, _, rfl⟩ := List.mem_map.mp inV
    obtain ⟨r, _, same⟩ := List.mem_map.mp inW
    exact apart (congrArg Datagram.buf same).symm

theorem mem_attempts (env : Env) (s : Server) (wf : s.bridge.Wf) (call : Call) (d : Datagram) :
    d ∈ call.attempts env s ↔ ∃ i slot q, call.slots[i]? = some slot ∧
      q ∈ (learnAll env s.bridge (call.slots.take (i + 1))).dests slot.dst slot.peerAddr ∧
      d = slot.datagram i q := by
  rw [call.attempts_eq env s wf, Deferred.mem_deferred]
  constructor
  · rintro ⟨v, member, inOut⟩
    obtain ⟨i, slot, at_i, rfl⟩ := (mem_visits ..).mp member
    obtain ⟨q, inDests, rfl⟩ := List.mem_map.mp inOut
    exact ⟨i, slot, q, at_i, inDests, by rw [Nat.zero_add]⟩
  · rintro ⟨i, slot, q, at_i, inDests, rfl⟩
    refine ⟨_, (mem_visits ..).mpr ⟨i, slot, at_i, rfl⟩, ?_⟩
    rw [Nat.zero_add]
    exact List.mem_map_of_mem inDests

theorem datagram_mem_attempts (env : Env) (s : Server) (wf : s.bridge.Wf) (call : Call) (i : Nat) (f : Slot)
    (at_i : call.slots[i]? = some f) (q : SockaddrIn) :
    f.datagram i q ∈ call.attempts env s ↔
      q ∈ (learnAll env s.bridge (call.slots.take (i + 1))).dests f.dst f.peerAddr := by
  rw [mem_attempts env s wf]
  constructor
  · rintro ⟨j, slot, r, at_j, inDests, same⟩
    obtain rfl : i = j := congrArg Datagram.buf same
    obtain rfl : q = r := congrArg Datagram.dest same
    obtain rfl := Option.some.inj (at_i.symm.trans at_j)
    exact inDests
  · intro inDests
    exact ⟨i, f, q, at_i, inDests, rfl⟩

theorem attempts_nodup (env : Env) (s : Server) (wf : s.bridge.Wf) (call : Call) :
    (call.attempts env s).Nodup := by
  rw [call.attempts_eq env s wf, (Deferred.deferred_perm _ _ _).nodup_iff]
  exact visits_out_nodup ..

theorem handle_attempts (env : Env) (s : Server) (wf : s.bridge.Wf) (slot : Slot) :
    (Call.handle slot).attempts env s =
      ((learn env s.bridge slot.peerAddr slot.src).dests slot.dst slot.peerAddr).map (slot.datagram 0) := by
  rw [Call.attempts_eq env s wf]
  simp only [Call.slots, visits]
  cases lateness : Visit.late ⟨learn env s.bridge slot.peerAddr slot.src, 0, slot⟩ <;>
    simp [Deferred.deferred, lateness, Visit.out]

theorem frames_handle (slots : List Slot) : frames (slots.map .handle) = slots := by
  induction slots with
  | nil => rfl
  | cons slot rest ih =>
    simp only [frames, List.map_cons, List.flatMap_cons] at ih ⊢
    rw [ih]
    rfl

/-- What a sequence of calls hands over, from the stores it starts with. -/
def emission (env : Env) (b : Bridge) : List Call → List Datagram
  | [] => []
  | call :: rest => Deferred.deferred Visit.late Visit.out (visits env b 0 call.slots) ++
      emission env (learnAll env b call.slots) rest

def emittedSince (s t : Server) : List Datagram :=
  (attempted t.udp.trace).drop (attempted s.udp.trace).length

theorem run_attempted (env : Env) (s : Server) (wf : s.bridge.Wf) (calls : List Call) :
    attempted (run env s calls).udp.trace = attempted s.udp.trace ++ emission env s.bridge calls := by
  induction calls generalizing s with
  | nil => simp [run, emission]
  | cons call rest ih =>
    obtain ⟨stores, sent⟩ := call.run_spec env s wf
    have kept : (call.run env s).bridge.Wf := by
      rw [stores]; exact learnAll_wf env wf _
    have later := ih (call.run env s) kept
    rw [stores, sent, List.append_assoc] at later
    exact later

theorem emittedSince_run (env : Env) (s : Server) (wf : s.bridge.Wf) (calls : List Call) :
    emittedSince s (run env s calls) = emission env s.bridge calls := by
  rw [emittedSince, run_attempted env s wf, List.drop_left]

def Visit.payloads (v : Visit) : List (List Byte × SockaddrIn) := v.out.map Datagram.payload

theorem Visit.payloads_eq (v : Visit) :
    v.payloads = (v.bridge.dests v.slot.dst v.slot.peerAddr).map fun q => (v.slot.data, q) := by
  simp [Visit.payloads, Visit.out, Slot.datagram, Datagram.payload]

theorem visits_payloads (env : Env) (b : Bridge) (index other : Nat) (slots : List Slot) :
    Deferred.inOrder Visit.payloads (visits env b index slots) =
      Deferred.inOrder Visit.payloads (visits env b other slots) := by
  induction slots generalizing b index other with
  | nil => rfl
  | cons slot rest ih =>
    have later := ih (learn env b slot.peerAddr slot.src) (index + 1) (other + 1)
    simp only [Deferred.inOrder, visits, List.flatMap_cons, Visit.payloads_eq] at later ⊢
    rw [later]

theorem emission_handle (env : Env) (b : Bridge) (slots : List Slot) :
    (emission env b (slots.map .handle)).map Datagram.payload =
      Deferred.inOrder Visit.payloads (visits env b 0 slots) := by
  induction slots generalizing b with
  | nil => rfl
  | cons slot rest ih =>
    have single (v : Visit) : Deferred.deferred Visit.late Visit.out [v] = v.out := by
      cases lateness : v.late <;> simp [Deferred.deferred, lateness]
    have later := ih (learn env b slot.peerAddr slot.src)
    rw [visits_payloads env _ 0 1] at later
    simp only [List.map_cons, emission, Call.slots, visits, single, List.map_append]
    rw [learnAll_cons, learnAll, List.foldl_nil, later]
    rfl

end WlanBridge
