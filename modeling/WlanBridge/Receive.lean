import WlanBridge.BurstPath

/-! The receive side of the burst loop: `recvmmsg` overlays the reused buffers, and
the header is read from a buffer without a look at the length. A run is a sequence
of outcomes of `recvmmsg`, which decides how many datagrams it takes at a time. -/
namespace WlanBridge

def MAX_DATA_LEN : Nat := 1518

def MAX_NUM : Nat := 32

structure Packet where
  data : List Byte
  peerAddr : SockaddrIn
  deriving DecidableEq, Repr

inductive RecvOutcome where
  | received (packets : List Packet)
  | failed (errno : Int)
  deriving DecidableEq, Repr

/-- A datagram overlays the head of a buffer and is cut off at the buffer's length. -/
def Packet.into (p : Packet) (maxLen : Nat) (buf : List Byte) : Slot :=
  ⟨p.data.take maxLen, buf.drop (p.data.take maxLen).length, p.peerAddr⟩

/-- The slots are the filled elements of the arrays; the buffers behind them keep their bytes. -/
def recvmmsg (u : Udp) (maxLen : Nat) (buf : List (List Byte)) (maxNum : Nat) (outcome : RecvOutcome) :
    Int × List Slot × List (List Byte) × Udp :=
  match outcome with
  | .failed errno => (-1, [], buf, { u with errno := errno })
  | .received packets =>
    let slots := List.zipWith (fun b p => p.into maxLen b) buf (packets.take maxNum)
    (slots.length, slots, slots.map Slot.mem ++ buf.drop slots.length, u)

def readDataFromUdpClientBurst (u : Udp) (maxLen : Nat) (buf : List (List Byte)) (maxNum : Nat)
    (outcome : RecvOutcome) : Int × List Slot × List (List Byte) × Udp :=
  let (recvLen, slots, buf, u) := recvmmsg u maxLen buf maxNum outcome
  if recvLen ≤ 0 then if u.errno = EAGAIN then (-2, [], buf, u) else (-1, [], buf, u)
  else (recvLen, slots, buf, u)

/-- The state of `server_runing_burst`: the bridge process and `udp_buf`. -/
structure Receiver where
  server : Server
  udpBuf : List (List Byte)
  deriving DecidableEq, Repr

/-- One turn of the inner loop; both negative results leave it for `epoll_wait`. -/
def serverRuningBurstStep (env : Env) (r : Receiver) (outcome : RecvOutcome) : Receiver :=
  let (recvLen, slots, buf, udp) :=
    readDataFromUdpClientBurst r.server.udp MAX_DATA_LEN r.udpBuf MAX_NUM outcome
  let s := { r.server with udp := udp }
  if recvLen ≤ 0 then ⟨s, buf⟩ else ⟨wlanBrHandleBurst env s slots, buf⟩

def serverRuningBurst (env : Env) (r : Receiver) (outcomes : List RecvOutcome) : Receiver :=
  outcomes.foldl (serverRuningBurstStep env) r

/-- What `malloc` returned: 32 buffers of 1518 bytes that nothing has initialised. -/
def IsPool (buf : List (List Byte)) : Prop := buf.length = MAX_NUM ∧ ∀ b ∈ buf, b.length = MAX_DATA_LEN

def RecvOutcome.packets : RecvOutcome → List Packet
  | .received packets => packets.take MAX_NUM
  | .failed _ => []

def arrivals (outcomes : List RecvOutcome) : List Packet := outcomes.flatMap RecvOutcome.packets

/-- The slot without what its buffer held before. -/
def Slot.bare (slot : Slot) : Slot := { slot with residue := [] }

def Packet.slot (p : Packet) : Slot := ⟨p.data.take MAX_DATA_LEN, [], p.peerAddr⟩

theorem zipWith_into_bare (buf : List (List Byte)) (packets : List Packet) (room : packets.length ≤ buf.length) :
    (List.zipWith (fun b p => Packet.into p MAX_DATA_LEN b) buf packets).map Slot.bare =
      packets.map Packet.slot := by
  induction packets generalizing buf with
  | nil => simp
  | cons p rest ih =>
    match buf, room with
    | b :: more, room =>
      have later := ih more (by simpa using room)
      simp only [List.zipWith_cons_cons, List.map_cons, later]
      rfl

theorem into_length (p : Packet) (b : List Byte) (full : b.length = MAX_DATA_LEN) :
    (p.into MAX_DATA_LEN b).mem.length = MAX_DATA_LEN := by
  simp only [Packet.into, Slot.mem, List.length_append, List.length_drop, full, List.length_take]
  omega

theorem zipWith_into_length (buf : List (List Byte)) (packets : List Packet)
    (full : ∀ b ∈ buf, b.length = MAX_DATA_LEN) (slot : Slot)
    (member : slot ∈ List.zipWith (fun b p => Packet.into p MAX_DATA_LEN b) buf packets) :
    slot.mem.length = MAX_DATA_LEN := by
  obtain ⟨i, bound, rfl⟩ := List.getElem_of_mem member
  rw [List.getElem_zipWith]
  exact into_length _ _ (full _ (List.getElem_mem _))

theorem step_eq (env : Env) (r : Receiver) (outcome : RecvOutcome) :
    let recv := recvmmsg r.server.udp MAX_DATA_LEN r.udpBuf MAX_NUM outcome
    let s := { r.server with udp := recv.2.2.2 }
    serverRuningBurstStep env r outcome =
      ⟨if recv.1 ≤ 0 then s else wlanBrHandleBurst env s recv.2.1, recv.2.2.1⟩ := by
  intro recv s
  have read : readDataFromUdpClientBurst r.server.udp MAX_DATA_LEN r.udpBuf MAX_NUM outcome =
      if recv.1 ≤ 0 then if recv.2.2.2.errno = EAGAIN then (-2, [], recv.2.2) else (-1, [], recv.2.2)
      else recv := rfl
  simp only [serverRuningBurstStep, read]
  by_cases empty : recv.1 ≤ 0
  · by_cases again : recv.2.2.2.errno = EAGAIN <;> simp [empty, again, s]
  · simp [empty, s]

theorem step_cases (env : Env) (r : Receiver) (pool : IsPool r.udpBuf) (outcome : RecvOutcome) :
    ∃ (slots : List Slot) (udp : Udp) (buf : List (List Byte)), IsPool buf ∧
      slots.map Slot.bare = outcome.packets.map Packet.slot ∧
      attempted udp.trace = attempted r.server.udp.trace ∧
      serverRuningBurstStep env r outcome =
        ⟨(Call.burst slots).run env { r.server with udp := udp }, buf⟩ := by
  cases outcome with
  | failed errno =>
    refine ⟨[], { r.server.udp with errno := errno }, r.udpBuf, pool, rfl, rfl, ?_⟩
    rw [step_eq]
    rfl
  | received packets =>
    let group := packets.take MAX_NUM
    let slots := List.zipWith (fun b p => Packet.into p MAX_DATA_LEN b) r.udpBuf group
    have room : group.length ≤ r.udpBuf.length := by
      rw [pool.1]
      exact List.length_take_le ..
    have filled : slots.length ≤ r.udpBuf.length := by
      simp only [slots, List.length_zipWith]
      omega
    refine ⟨slots, r.server.udp, slots.map Slot.mem ++ r.udpBuf.drop slots.length, ⟨?_, ?_⟩,
      zipWith_into_bare _ _ room, rfl, ?_⟩
    · rw [← pool.1, List.length_append, List.length_map, List.length_drop]
      omega
    · intro b member
      rcases List.mem_append.mp member with new | old
      · obtain ⟨slot, inSlots, rfl⟩ := List.mem_map.mp new
        exact zipWith_into_length _ _ pool.2 slot inSlots
      · exact pool.2 b (List.mem_of_mem_drop old)
    · have recv : recvmmsg r.server.udp MAX_DATA_LEN r.udpBuf MAX_NUM (.received packets) =
          ((slots.length : Int), slots, slots.map Slot.mem ++ r.udpBuf.drop slots.length, r.server.udp) := rfl
      rw [step_eq, recv]
      match slots with
      | [] => rfl
      | slot :: rest =>
        rw [if_neg (by simp only [List.length_cons]; omega)]
        rfl

/-- A run handles the arriving datagrams in order, in some batches. -/
theorem serverRuningBurst_spec (env : Env) (r : Receiver) (wf : r.server.bridge.Wf) (pool : IsPool r.udpBuf)
    (outcomes : List RecvOutcome) :
    ∃ batches : List (List Slot),
      batches.flatten.map Slot.bare = (arrivals outcomes).map Packet.slot ∧
      (serverRuningBurst env r outcomes).server.bridge = learnAll env r.server.bridge batches.flatten ∧
      attempted (serverRuningBurst env r outcomes).server.udp.trace =
        attempted r.server.udp.trace ++ emission env r.server.bridge (batches.map .burst) := by
  induction outcomes generalizing r with
  | nil => exact ⟨[], rfl, rfl, by simp [serverRuningBurst, emission]⟩
  | cons outcome rest ih =>
    obtain ⟨slots, udp, buf, kept, same, silent, turn⟩ := step_cases env r pool outcome
    obtain ⟨stores, sent⟩ := (Call.burst slots).run_spec env { r.server with udp := udp } wf
    have next : ((Call.burst slots).run env { r.server with udp := udp }).bridge.Wf := by
      rw [stores]
      exact learnAll_wf env wf _
    obtain ⟨batches, later, after, more⟩ :=
      ih ⟨(Call.burst slots).run env { r.server with udp := udp }, buf⟩ next kept
    have unfolded : serverRuningBurst env r (outcome :: rest) = serverRuningBurst env
        ⟨(Call.burst slots).run env { r.server with udp := udp }, buf⟩ rest := by
      rw [← turn]
      rfl
    refine ⟨slots :: batches, ?_, ?_, ?_⟩
    · rw [List.flatten_cons, List.map_append, same, later, arrivals, arrivals, List.flatMap_cons, List.map_append]
    · rw [unfolded, after, stores, List.flatten_cons, learnAll_append]
      rfl
    · rw [unfolded, more, sent, stores, silent, List.append_assoc]
      rfl

theorem bare_src (slot : Slot) (long : 12 ≤ slot.data.length) : slot.bare.src = slot.src := by
  rw [src_eq slot long, src_eq slot.bare long]
  rfl

theorem bare_dst (slot : Slot) (long : 12 ≤ slot.data.length) : slot.bare.dst = slot.dst := by
  rw [dst_eq slot long, dst_eq slot.bare long]
  rfl

theorem learnAll_bare (env : Env) (b : Bridge) (slots : List Slot)
    (long : ∀ slot ∈ slots, 12 ≤ slot.data.length) :
    learnAll env b (slots.map Slot.bare) = learnAll env b slots := by
  induction slots generalizing b with
  | nil => rfl
  | cons slot rest ih =>
    rw [List.map_cons, learnAll_cons, learnAll_cons, bare_src slot (long slot (by simp))]
    exact ih _ fun s member => long s (List.mem_cons_of_mem _ member)

theorem visits_bare (env : Env) (b : Bridge) (index : Nat) (slots : List Slot)
    (long : ∀ slot ∈ slots, 12 ≤ slot.data.length) :
    Deferred.inOrder Visit.payloads (visits env b index (slots.map Slot.bare)) =
      Deferred.inOrder Visit.payloads (visits env b index slots) := by
  induction slots generalizing b index with
  | nil => rfl
  | cons slot rest ih =>
    have here := long slot (by simp)
    have later := ih (learn env b slot.peerAddr slot.src) (index + 1)
      fun s member => long s (List.mem_cons_of_mem _ member)
    simp only [Deferred.inOrder, List.map_cons, visits, List.flatMap_cons, Visit.payloads_eq] at later ⊢
    rw [bare_src slot here, bare_dst slot here]
    exact congrArg _ later

theorem serverRuningBurst_long (env : Env) (buf : List (List Byte)) (pool : IsPool buf)
    (outcomes : List RecvOutcome) (long : ∀ p ∈ arrivals outcomes, 12 ≤ p.data.length) :
    let slots := (arrivals outcomes).map Packet.slot
    let r := serverRuningBurst env ⟨.init, buf⟩ outcomes
    r.server.bridge = learnAll env .init slots ∧
    ((attempted r.server.udp.trace).map Datagram.payload).Perm
      (Deferred.inOrder Visit.payloads (visits env .init 0 slots)) := by
  intro slots r
  obtain ⟨batches, same, stores, sent⟩ := serverRuningBurst_spec env ⟨.init, buf⟩ init_wf pool outcomes
  have cells : ∀ slot ∈ batches.flatten, 12 ≤ slot.data.length := by
    intro slot member
    have inSlots : slot.bare ∈ slots := by
      simp only [slots, ← same]
      exact List.mem_map_of_mem member
    obtain ⟨p, arrived, equal⟩ := List.mem_map.mp inSlots
    have bytes : p.data.take MAX_DATA_LEN = slot.data := congrArg Slot.data equal
    have enough := long p arrived
    rw [← bytes, List.length_take, MAX_DATA_LEN]
    omega
  refine ⟨?_, ?_⟩
  · simp only [r, slots, stores, ← same, learnAll_bare env _ _ cells]
    rfl
  · have perm := emission_burst_perm env .init batches
    rw [← visits_bare env .init 0 _ cells, same] at perm
    simp only [r, sent]
    exact perm

/-- Two runs over the same datagrams end alike, whatever the buffers held before and
however the datagrams are taken from the queue. -/
def ResidueFree (D : List Packet) : Prop :=
  ∀ (calloc : Calloc → Nat → Bool) (k k' : Kernel) (buf buf' : List (List Byte))
    (outcomes outcomes' : List RecvOutcome), IsPool buf → IsPool buf' →
    arrivals outcomes = D → arrivals outcomes' = D →
    let r := (serverRuningBurst ⟨calloc, k⟩ ⟨.init, buf⟩ outcomes).server
    let r' := (serverRuningBurst ⟨calloc, k'⟩ ⟨.init, buf'⟩ outcomes').server
    (∀ mac, wlanBrFind r.bridge mac = wlanBrFind r'.bridge mac) ∧
    (∀ row, row ∈ (r.bridge.lHead.map fun entry => (entry.keyRemoteMac, r.bridge.addrOf entry)) ↔
      row ∈ (r'.bridge.lHead.map fun entry => (entry.keyRemoteMac, r'.bridge.addrOf entry))) ∧
    ((attempted r.udp.trace).map Datagram.payload).Perm ((attempted r'.udp.trace).map Datagram.payload)

def uniformPool (x : Byte) : List (List Byte) := List.replicate MAX_NUM (List.replicate MAX_DATA_LEN x)

theorem uniformPool_isPool (x : Byte) : IsPool (uniformPool x) := by
  refine ⟨List.length_replicate, fun b member => ?_⟩
  rw [List.eq_of_mem_replicate member, List.length_replicate]

/-- A source address that was not received whole ends in a byte of the buffer. -/
theorem into_src (p : Packet) (x : Byte) (short : p.data.length < 12) :
    (p.into MAX_DATA_LEN (List.replicate MAX_DATA_LEN x)).src.b5 = x := by
  have whole : p.data.take MAX_DATA_LEN = p.data := List.take_of_length_le (by rw [MAX_DATA_LEN]; omega)
  have behind : p.data.length ≤ 11 := by omega
  simp only [Slot.src, ethhdr, EtherAddr.load, Packet.into, whole, Slot.mem, List.drop_replicate,
    List.getD_eq_getElem?_getD, List.getElem?_append_right behind]
  rw [List.getElem?_replicate_of_lt (by rw [MAX_DATA_LEN]; omega), Option.getD_some]

theorem uniformPool_find (p : Packet) (x : Byte) (mac : EtherAddr) :
    (wlanBrFind (serverRuningBurst .calm ⟨.init, uniformPool x⟩ [.received [p]]).server.bridge mac).isSome ↔
      mac = (p.into MAX_DATA_LEN (List.replicate MAX_DATA_LEN x)).src := by
  generalize completed : p.into MAX_DATA_LEN (List.replicate MAX_DATA_LEN x) = slot
  have turn : (serverRuningBurst .calm ⟨.init, uniformPool x⟩ [.received [p]]).server =
      (Call.burst [slot]).run .calm .init := by
    simp only [serverRuningBurst, List.foldl_cons, List.foldl_nil, step_eq, ← completed]
    rfl
  have stores : ((Call.burst [slot]).run .calm .init).bridge = learn .calm .init slot.peerAddr slot.src :=
    ((Call.burst [slot]).run_spec .calm .init init_wf).1
  have held := congrFun (learn_table .calm calm_allocates init_wf slot.peerAddr slot.src) mac
  rw [Learning.learn_apply, init_table, Learning.empty_apply, Option.none_or, Bridge.table] at held
  rw [turn, stores, ← Option.isSome_map (f := WlanFdbEntry.peerAddr), held]
  split_ifs with same <;> simp [same]

theorem residueFree_long (D : List Packet) (long : ∀ p ∈ D, 12 ≤ p.data.length) : ResidueFree D := by
  intro calloc k k' buf buf' outcomes outcomes' pool pool' arrived arrived' r r'
  obtain ⟨stores, sent⟩ := serverRuningBurst_long ⟨calloc, k⟩ buf pool outcomes (by rwa [arrived])
  obtain ⟨stores', sent'⟩ := serverRuningBurst_long ⟨calloc, k'⟩ buf' pool' outcomes' (by rwa [arrived'])
  rw [arrived] at stores sent
  rw [arrived', learnAll_kernel calloc k' k] at stores'
  rw [arrived', visits_kernel calloc k' k] at sent'
  have same : r.bridge = r'.bridge := stores.trans stores'.symm
  exact ⟨fun mac => by rw [same], fun row => by rw [same], sent.trans sent'.symm⟩

theorem residueFree_short (p : Packet) (short : p.data.length < 12) : ¬ResidueFree [p] := by
  intro free
  have agree := (free Env.calm.calloc Env.calm.kernel Env.calm.kernel (uniformPool 0) (uniformPool 1)
    [.received [p]] [.received [p]] (uniformPool_isPool 0) (uniformPool_isPool 1) rfl rfl).1
  have mine := (uniformPool_find p 0 _).mpr rfl
  have other := (uniformPool_find p 1 _).mp ((congrArg Option.isSome (agree _)).symm.trans mine)
  have byte := congrArg EtherAddr.b5 other
  rw [into_src p 0 short, into_src p 1 short] at byte
  exact absurd byte (by decide)

/-- Stale bytes show in no run over some traffic exactly when each of its datagrams
holds both addresses. -/
theorem residueFree_iff (traffic : Packet → Prop) :
    (∀ D : List Packet, (∀ p ∈ D, traffic p) → ResidueFree D) ↔ ∀ p, traffic p → 12 ≤ p.data.length := by
  constructor
  · intro free p comes
    by_contra short
    exact residueFree_short p (by omega) (free [p] (by simpa using comes))
  · intro long D drawn
    exact residueFree_long D fun p member => long p (drawn p member)

theorem residueFree_sample : ResidueFree [⟨[255, 0, 0, 0, 0, 0, 2, 0, 0, 0, 0, 0], ⟨1, 100⟩⟩,
    ⟨[2, 0, 0, 0, 0, 0, 4, 0, 0, 0, 0, 0, 8, 0], ⟨1, 200⟩⟩] :=
  (residueFree_iff fun p => 12 ≤ p.data.length).mpr (fun _ long => long) _ (by decide)

/-- The empty datagram is learned from, under whatever address its buffer holds. -/
theorem residue_learned : ¬ResidueFree [⟨[], ⟨1, 100⟩⟩] := residueFree_short _ (by decide)

end WlanBridge
