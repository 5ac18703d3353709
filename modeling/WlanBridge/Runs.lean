import WlanBridge.Handle
import WlanBridge.Learning

/-! Runs of the server: handler calls in any order, from the empty stores. The
stores of a run abstract to the table that the first-seen rule learns. -/
namespace WlanBridge

/-- One call of the receive loop into the bridge. -/
inductive Call where
  | handle (slot : Slot)
  | burst (slots : List Slot)
  deriving DecidableEq, Repr

def Call.slots : Call → List Slot
  | .handle slot => [slot]
  | .burst slots => slots

/-- The single-frame loop has one buffer, which gets pointer 0. -/
def Call.run (env : Env) (s : Server) : Call → Server
  | .handle slot => wlanBrHandle env s slot.data.length ⟨0, slot.mem⟩ slot.peerAddr
  | .burst slots => wlanBrHandleBurst env s slots

def run (env : Env) (s : Server) (calls : List Call) : Server := calls.foldl (Call.run env) s

def Call.attempts (env : Env) (s : Server) (call : Call) : List Datagram :=
  (attempted (call.run env s).udp.trace).drop (attempted s.udp.trace).length

def frames (calls : List Call) : List Slot := calls.flatMap Call.slots

def Reachable (s : Server) : Prop := ∃ env calls, s = run env .init calls

/-- Every allocation succeeds. -/
def Env.Allocates (env : Env) : Prop := ∀ site n, env.calloc site n = true

/-- The datagram holds a whole Ethernet header. -/
def Slot.Framed (slot : Slot) : Prop := 14 ≤ slot.data.length

/-- The addresses in the received bytes themselves. -/
def Slot.source (slot : Slot) : EtherAddr := (ethhdr slot.data).hSource

def Slot.destination (slot : Slot) : EtherAddr := (ethhdr slot.data).hDest

def sighting (slot : Slot) : EtherAddr × SockaddrIn := (slot.source, slot.peerAddr)

def sightings (slots : List Slot) : List (EtherAddr × SockaddrIn) := slots.map sighting

/-- The source as the server reads it, behind a short datagram in the rest of the buffer. -/
def reading (slot : Slot) : EtherAddr × SockaddrIn := (slot.src, slot.peerAddr)

def readings (slots : List Slot) : List (EtherAddr × SockaddrIn) := slots.map reading

theorem src_eq (slot : Slot) (long : 12 ≤ slot.data.length) : slot.src = slot.source := by
  rw [Slot.src, Slot.source, Slot.mem, ethhdr_append _ _ long]

theorem dst_eq (slot : Slot) (long : 12 ≤ slot.data.length) : slot.dst = slot.destination := by
  rw [Slot.dst, Slot.destination, Slot.mem, ethhdr_append _ _ long]

theorem Slot.Framed.src {slot : Slot} (framed : slot.Framed) : slot.src = slot.source :=
  src_eq slot (by unfold Slot.Framed at framed; omega)

theorem Slot.Framed.dst {slot : Slot} (framed : slot.Framed) : slot.dst = slot.destination :=
  dst_eq slot (by unfold Slot.Framed at framed; omega)

theorem readings_framed (framed : ∀ slot ∈ slots, slot.Framed) : readings slots = sightings slots := by
  apply List.map_congr_left
  intro slot member
  rw [reading, sighting, (framed slot member).src]

def Env.calm : Env where
  calloc := fun _ _ => true
  kernel := ⟨fun _ _ => none, fun _ batch => .sent batch.length⟩

theorem calm_allocates : Env.calm.Allocates := fun _ _ => rfl

/-- A minimal frame; addresses are told apart by their first byte, senders by their port. -/
def sampleFrame (dst src : Byte) (sinPort : U16) : Slot :=
  ⟨[dst, 0, 0, 0, 0, 0, src, 0, 0, 0, 0, 0, 8, 0], [], ⟨1, sinPort⟩⟩

instance (slot : Slot) : Decidable slot.Framed := inferInstanceAs (Decidable (14 ≤ slot.data.length))

theorem Call.run_spec (env : Env) (s : Server) (wf : s.bridge.Wf) (call : Call) :
    (call.run env s).bridge = learnAll env s.bridge call.slots ∧
    attempted (call.run env s).udp.trace = attempted s.udp.trace ++
      Deferred.deferred Visit.late Visit.out (visits env s.bridge 0 call.slots) := by
  cases call with
  | burst slots => exact wlanBrHandleBurst_spec env s wf slots
  | handle slot =>
    obtain ⟨stores, sent⟩ := wlanBrHandle_spec env s wf slot.data.length ⟨0, slot.mem⟩ slot.peerAddr
    refine ⟨stores, ?_⟩
    have single (v : Visit) : Deferred.deferred Visit.late Visit.out [v] = v.out := by
      cases lateness : v.late <;> simp [Deferred.deferred, lateness]
    simp only [Call.slots, visits, single]
    rw [Call.run, sent]
    simp [Visit.out, Slot.src, Slot.dst]

theorem Call.attempts_eq (env : Env) (s : Server) (wf : s.bridge.Wf) (call : Call) :
    call.attempts env s = Deferred.deferred Visit.late Visit.out (visits env s.bridge 0 call.slots) := by
  rw [Call.attempts, (call.run_spec env s wf).2, List.drop_left]

theorem run_bridge (env : Env) (s : Server) (wf : s.bridge.Wf) (calls : List Call) :
    (run env s calls).bridge = learnAll env s.bridge (frames calls) := by
  induction calls generalizing s with
  | nil => rfl
  | cons call rest ih =>
    obtain ⟨stores, _⟩ := call.run_spec env s wf
    have kept : (call.run env s).bridge.Wf := by
      rw [stores]; exact learnAll_wf env wf _
    have later := ih (call.run env s) kept
    rw [stores, ← learnAll_append] at later
    exact later

theorem run_wf (env : Env) (s : Server) (wf : s.bridge.Wf) (calls : List Call) :
    (run env s calls).bridge.Wf := by
  rw [run_bridge env s wf]
  exact learnAll_wf env wf _

theorem Reachable.wf {s : Server} (reachable : Reachable s) : s.bridge.Wf := by
  obtain ⟨env, calls, rfl⟩ := reachable
  exact run_wf env _ init_wf calls

def Bridge.table (b : Bridge) : Learning.Table EtherAddr SockaddrIn :=
  fun mac => (wlanBrFind b mac).map WlanFdbEntry.peerAddr

theorem init_table : Bridge.init.table = Learning.empty := rfl

theorem add_table (b : Bridge) (mac : EtherAddr) (peerAddr : SockaddrIn) (other : EtherAddr) :
    (Keyed.find WlanFdbEntry.keyRemoteMac (Keyed.add b.hHead ⟨mac, peerAddr⟩) other).map
      WlanFdbEntry.peerAddr = (b.table other).or (if other = mac then some peerAddr else none) := by
  rw [Keyed.find_add, Bridge.table, wlanBrFind]
  cases Keyed.find WlanFdbEntry.keyRemoteMac b.hHead other <;> by_cases same : other = mac <;> simp [same]

theorem learn_allocated (env : Env) (ok : env.Allocates) (wf : Bridge.Wf b) (peerAddr : SockaddrIn)
    (mac : EtherAddr) :
    (∃ entry, wlanBrFind b mac = some entry ∧ learn env b peerAddr mac = b) ∨
    ((learn env b peerAddr mac).hHead = Keyed.add b.hHead ⟨mac, peerAddr⟩ ∧
      ∃ p, (learn env b peerAddr mac).lHead = ⟨mac, some p⟩ :: b.lHead) := by
  generalize next : learn env b peerAddr mac = b'
  have step := learn_spec env b peerAddr mac wf
  rw [next] at step
  cases step with
  | known found => exact Or.inl ⟨_, found, rfl⟩
  | fdbFull _ failed => exact Bool.noConfusion ((ok _ _).symm.trans failed)
  | listFull _ _ failed => exact Bool.noConfusion ((ok _ _).symm.trans failed)
  | peerFull _ _ _ _ failed => exact Bool.noConfusion ((ok _ _).symm.trans failed)
  | shared p _ _ _ _ _ _ => exact Or.inr ⟨rfl, p, rfl⟩
  | fresh _ _ _ _ _ => exact Or.inr ⟨rfl, _, rfl⟩

theorem learn_table (env : Env) (ok : env.Allocates) (wf : Bridge.Wf b) (peerAddr : SockaddrIn)
    (mac : EtherAddr) : (learn env b peerAddr mac).table = Learning.learn b.table mac peerAddr := by
  rcases learn_allocated env ok wf peerAddr mac with ⟨entry, found, same⟩ | ⟨stored, _⟩
  · have held : b.table mac = some entry.peerAddr := by rw [Bridge.table, found, Option.map_some]
    rw [same, Learning.learn_known _ _ held]
  · funext other
    rw [Learning.learn_apply, ← add_table, Bridge.table, wlanBrFind, stored]

theorem learnAll_readings (env : Env) (ok : env.Allocates) (wf : Bridge.Wf b) (slots : List Slot) :
    (learnAll env b slots).table = Learning.learnAll b.table (readings slots) := by
  induction slots generalizing b with
  | nil => rfl
  | cons slot rest ih =>
    rw [learnAll_cons, ih (learn_wf env wf _ _), learn_table env ok wf]
    rfl

theorem learnAll_table (env : Env) (ok : env.Allocates) (wf : Bridge.Wf b) (slots : List Slot)
    (framed : ∀ slot ∈ slots, slot.Framed) :
    (learnAll env b slots).table = Learning.learnAll b.table (sightings slots) := by
  rw [learnAll_readings env ok wf, readings_framed framed]

/-- The list has an entry for every key of the table. -/
def Bridge.Synced (b : Bridge) : Prop := ∀ mac ∈ b.fdbKeys, mac ∈ b.listKeys

theorem init_synced : Bridge.init.Synced := by simp [Bridge.Synced, Bridge.init, Bridge.fdbKeys]

theorem Bridge.Synced.add {b b' : Bridge} (synced : b.Synced)
    (stored : b'.hHead = Keyed.add b.hHead ⟨mac, peerAddr⟩) (listed : b'.listKeys = mac :: b.listKeys) :
    b'.Synced := by
  intro other member
  rw [Bridge.fdbKeys, stored, Keyed.add, List.map_append, List.map_cons, List.map_nil, List.mem_append,
    List.mem_singleton] at member
  rw [listed]
  rcases member with held | rfl
  · exact List.mem_cons_of_mem _ (synced other held)
  · exact List.mem_cons_self

theorem learn_synced (env : Env) (ok : env.Allocates) (wf : Bridge.Wf b) (synced : b.Synced)
    (peerAddr : SockaddrIn) (mac : EtherAddr) : (learn env b peerAddr mac).Synced := by
  rcases learn_allocated env ok wf peerAddr mac with ⟨_, _, same⟩ | ⟨stored, p, linked⟩
  · rw [same]
    exact synced
  · refine synced.add stored ?_
    rw [Bridge.listKeys, linked]
    rfl

theorem learnAll_synced (env : Env) (ok : env.Allocates) (wf : Bridge.Wf b) (synced : b.Synced)
    (slots : List Slot) : (learnAll env b slots).Synced := by
  induction slots generalizing b with
  | nil => exact synced
  | cons slot rest ih => exact ih (learn_wf env wf _ _) (learn_synced env ok wf synced _ _)

theorem run_readings (env : Env) (ok : env.Allocates) (calls : List Call) :
    (run env .init calls).bridge.table = Learning.firstSeen (readings (frames calls)) := by
  have learned := learnAll_readings env ok init_wf (frames calls)
  rw [init_table, Learning.learnAll_empty] at learned
  rw [run_bridge env _ init_wf]
  exact learned

theorem run_table (env : Env) (ok : env.Allocates) (calls : List Call)
    (framed : ∀ slot ∈ frames calls, slot.Framed) :
    (run env .init calls).bridge.table = Learning.firstSeen (sightings (frames calls)) := by
  rw [run_readings env ok, readings_framed framed]

theorem run_synced (env : Env) (ok : env.Allocates) (calls : List Call) :
    (run env .init calls).bridge.Synced := by
  rw [run_bridge env _ init_wf]
  exact learnAll_synced env ok init_wf init_synced _

theorem Bridge.Wf.addrOf_table (wf : Bridge.Wf b) (member : entry ∈ b.lHead) :
    b.addrOf entry = b.table entry.keyRemoteMac := by
  obtain ⟨known, inTable, key, address⟩ := wf.agree entry member
  rw [address, Bridge.table, wlanBrFind, ← key, Keyed.find_of_mem wf.fdbDistinct inTable, Option.map_some]

theorem Bridge.Wf.listed_iff (wf : Bridge.Wf b) (synced : b.Synced) (mac : EtherAddr) :
    mac ∈ b.listKeys ↔ (b.table mac).isSome := by
  rw [Bridge.table, Option.isSome_map, wlanBrFind, Keyed.find_isSome]
  exact ⟨wf.listed_known, synced mac⟩

theorem mem_addrs (wf : Bridge.Wf b) (synced : b.Synced) (q : SockaddrIn) :
    q ∈ b.addrs ↔ q ∈ Learning.range b.table := by
  constructor
  · intro member
    obtain ⟨entry, inList, address⟩ := List.mem_filterMap.mp member
    exact ⟨entry.keyRemoteMac, wf.addrOf_table inList ▸ address⟩
  · rintro ⟨mac, held⟩
    have listed : mac ∈ b.listKeys := (wf.listed_iff synced mac).mpr (by rw [held]; rfl)
    obtain ⟨entry, inList, rfl⟩ := List.mem_map.mp listed
    exact List.mem_filterMap.mpr ⟨entry, inList, (wf.addrOf_table inList).trans held⟩

def IsGroup (mac : EtherAddr) : Prop := mac.group = true

instance (mac : EtherAddr) : Decidable (IsGroup mac) := inferInstanceAs (Decidable (mac.group = true))

/-- The faithful decision is the one of the first-seen table. -/
theorem mem_dests (wf : Bridge.Wf b) (synced : b.Synced) (dst : EtherAddr) (origin q : SockaddrIn) :
    q ∈ b.dests dst origin ↔ q ∈ Learning.targets IsGroup b.table dst origin := by
  have domain := mem_addrs wf synced q
  have flood : q ∈ b.floodOrder origin ↔ q ≠ origin ∧ q ∈ Learning.range b.table := by
    rw [mem_floodOrder, domain]
  by_cases group : IsGroup dst
  · have multicast : dst.group = true := group
    have unicast : b.unicast dst = none := by simp [Bridge.unicast, isMulticastEtherAddr_eq, multicast]
    rw [Bridge.dests, unicast, Learning.targets_flood (Or.inl group)]
    rw [flood]
    exact and_comm
  · have alone : dst.group = false := by simpa [IsGroup] using group
    have unicast : b.unicast dst = b.table dst := by
      simp [Bridge.unicast, isMulticastEtherAddr_eq, alone, Bridge.table]
    cases held : b.table dst with
    | none =>
      rw [Bridge.dests, unicast, held, Learning.targets_flood (Or.inr held)]
      rw [flood]
      exact and_comm
    | some r =>
      rw [Bridge.dests, unicast, held]
      by_cases home : r = origin
      · subst home
        rw [Learning.targets_home group held]
        simp
      · rw [Learning.targets_known group held home]
        simp [home]

end WlanBridge
