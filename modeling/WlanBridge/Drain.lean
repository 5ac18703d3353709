import WlanBridge.Histories
import WlanBridge.Receive
import Mathlib.Data.List.TakeWhile

/-! The two receive loops at one wake-up of the edge-triggered socket. They read until
the socket is empty, as far as they can tell: a result of 0 or less ends both, and for
`recvfrom` 0 is the length of an empty datagram. -/
namespace WlanBridge

/-- One datagram, into the one buffer; `errno` is set on failure only. -/
def recvfrom (u : Udp) (maxLen : Nat) (buf : List Byte) (queue : List Packet) :
    Int × Option Slot × List Byte × List Packet × Udp :=
  match queue with
  | [] => (-1, none, buf, [], { u with errno := EAGAIN })
  | p :: queue =>
    let slot := p.into maxLen buf
    (slot.data.length, some slot, slot.mem, queue, u)

/-- The slot is what the caller finds in its buffer and `peer_addr` after a positive result. -/
def readDataFromUdpClient (u : Udp) (maxLen : Nat) (buf : List Byte) (queue : List Packet) :
    Int × Option Slot × List Byte × List Packet × Udp :=
  let (recvLen, slot, buf, queue, u) := recvfrom u maxLen buf queue
  if recvLen ≤ 0 then if u.errno = EAGAIN then (-2, none, buf, queue, u) else (-1, none, buf, queue, u)
  else (recvLen, slot, buf, queue, u)

structure SingleLoop where
  server : Server
  udpBuf : List Byte
  queue : List Packet
  calls : List Call
  deriving DecidableEq, Repr

/-- One turn of `while (1)`; both negative results break. -/
def serverRuningTurn (env : Env) (l : SingleLoop) : Bool × SingleLoop :=
  let (recvLen, slot, udpBuf, queue, udp) := readDataFromUdpClient l.server.udp MAX_DATA_LEN l.udpBuf l.queue
  let l := { l with server := { l.server with udp := udp }, udpBuf := udpBuf, queue := queue }
  if recvLen ≤ 0 then (false, l)
  else (true, slot.elim l fun slot => { l with
    server := wlanBrHandle env l.server recvLen.toNat ⟨0, udpBuf⟩ slot.peerAddr
    calls := l.calls ++ [.handle slot] })

def serverRuning (env : Env) (s : Server) (udpBuf : List Byte) (queue : List Packet) (fuel : Nat) :
    Option SingleLoop :=
  Loop.run (serverRuningTurn env) fuel ⟨s, udpBuf, queue, []⟩

/-- What `recvmmsg` takes: one datagram at least and 32 at most, or `EAGAIN`. -/
def takeSome (choice : Nat) (queue : List Packet) : RecvOutcome × List Packet :=
  match queue with
  | [] => (.failed EAGAIN, [])
  | p :: rest =>
    let count := max 1 (min choice MAX_NUM)
    (.received ((p :: rest).take count), (p :: rest).drop count)

/-- The loop of `server_runing_burst`; `reads` counts the calls of `recvmmsg`. -/
structure BurstLoop where
  receiver : Receiver
  queue : List Packet
  reads : Nat
  calls : List Call
  deriving DecidableEq, Repr

/-- `choose n` is the number of datagrams that call `n` of `recvmmsg` would take. -/
def serverRuningBurstTurn (env : Env) (choose : Nat → Nat) (l : BurstLoop) : Bool × BurstLoop :=
  let (outcome, queue) := takeSome (choose l.reads) l.queue
  let read := readDataFromUdpClientBurst l.receiver.server.udp MAX_DATA_LEN l.receiver.udpBuf MAX_NUM outcome
  let receiver := serverRuningBurstStep env l.receiver outcome
  if read.1 ≤ 0 then (false, { l with receiver := receiver, queue := queue, reads := l.reads + 1 })
  else (true, ⟨receiver, queue, l.reads + 1, l.calls ++ [.burst read.2.1]⟩)

def serverRuningBurstLoop (env : Env) (choose : Nat → Nat) (r : Receiver) (queue : List Packet) (fuel : Nat) :
    Option BurstLoop :=
  Loop.run (serverRuningBurstTurn env choose) fuel ⟨r, queue, 0, []⟩

def Packet.nonempty (p : Packet) : Bool := !p.data.isEmpty

/-- The queue is empty, and every datagram with data has been handed over once, in order. -/
def Drained (queue left : List Packet) (calls : List Call) : Prop :=
  left = [] ∧ ((frames calls).map Slot.bare).filter (fun slot => !slot.data.isEmpty) =
    (queue.filter Packet.nonempty).map Packet.slot

theorem slot_empty (p : Packet) : p.slot.data.isEmpty = p.data.isEmpty := by
  cases p with
  | mk data peerAddr => cases data <;> rfl

theorem serverRuningTurn_nil (env : Env) (l : SingleLoop) (none_ : l.queue = []) :
    serverRuningTurn env l =
      (false, { l with server := { l.server with udp := { l.server.udp with errno := EAGAIN } }, queue := [] }) := by
  simp [serverRuningTurn, readDataFromUdpClient, recvfrom, none_]

theorem serverRuningTurn_empty (env : Env) (l : SingleLoop) (first : l.queue = p :: rest)
    (empty : p.nonempty = false) :
    ∃ udpBuf, serverRuningTurn env l = (false, { l with udpBuf := udpBuf, queue := rest }) := by
  have data : p.data = [] := by simpa [Packet.nonempty] using empty
  have len : (p.into MAX_DATA_LEN l.udpBuf).data.length = 0 := by simp [Packet.into, data]
  refine ⟨(p.into MAX_DATA_LEN l.udpBuf).mem, ?_⟩
  simp only [serverRuningTurn, readDataFromUdpClient, recvfrom, first, len]
  by_cases again : l.server.udp.errno = EAGAIN <;> simp [again]

theorem serverRuningTurn_next (env : Env) (l : SingleLoop) (first : l.queue = p :: rest)
    (some_ : p.nonempty = true) :
    let slot := p.into MAX_DATA_LEN l.udpBuf
    serverRuningTurn env l = (true,
      ⟨(Call.handle slot).run env l.server, slot.mem, rest, l.calls ++ [.handle slot]⟩) := by
  intro slot
  have positive : 0 < slot.data.length := by
    have data : p.data ≠ [] := by simpa [Packet.nonempty] using some_
    have length := List.length_pos_iff.mpr data
    simp only [slot, Packet.into, List.length_take, MAX_DATA_LEN]
    omega
  have more : ¬((slot.data.length : Nat) : Int) ≤ 0 := by omega
  simp only [slot] at more
  simp only [serverRuningTurn, readDataFromUdpClient, recvfrom, first, more, if_false]
  rfl

def Took (queue : List Packet) (l : SingleLoop) : Prop :=
  ∃ done, queue = done ++ l.queue ∧ (∀ p ∈ done, p.nonempty = true) ∧
    (frames l.calls).map Slot.bare = done.map Packet.slot

theorem Took.goes (took : Took queue l) (turn : serverRuningTurn env l = (true, l')) :
    Took queue l' ∧ l'.queue.length < l.queue.length := by
  obtain ⟨done, split, all, handed⟩ := took
  match first : l.queue with
  | [] =>
    rw [serverRuningTurn_nil env l first] at turn
    exact absurd (congrArg Prod.fst turn) (by simp)
  | p :: rest =>
    cases some_ : p.nonempty with
    | false =>
      obtain ⟨buf, empty⟩ := serverRuningTurn_empty env l first some_
      rw [empty] at turn
      exact absurd (congrArg Prod.fst turn) (by simp)
    | true =>
      rw [serverRuningTurn_next env l first some_] at turn
      obtain rfl := congrArg Prod.snd turn
      refine ⟨⟨done ++ [p], ?_, ?_, ?_⟩, ?_⟩
      · rw [split, first]
        simp
      · intro q member
        rcases List.mem_append.mp member with before | here
        · exact all q before
        · rw [List.mem_singleton.mp here]
          exact some_
      · simp only [frames, List.flatMap_append, List.map_append] at handed ⊢
        rw [handed]
        rfl
      · simp

theorem Took.stops (took : Took queue l) (turn : serverRuningTurn env l = (false, l')) :
    (frames l'.calls).map Slot.bare = (queue.takeWhile Packet.nonempty).map Packet.slot ∧
    l'.queue = (queue.dropWhile Packet.nonempty).tail := by
  obtain ⟨done, split, all, handed⟩ := took
  match first : l.queue with
  | [] =>
    rw [serverRuningTurn_nil env l first] at turn
    obtain rfl := congrArg Prod.snd turn
    rw [first, List.append_nil] at split
    rw [split, List.takeWhile_eq_self_iff.mpr all, List.dropWhile_eq_nil_iff.mpr all]
    exact ⟨handed, rfl⟩
  | p :: rest =>
    cases some_ : p.nonempty with
    | false =>
      obtain ⟨buf, empty⟩ := serverRuningTurn_empty env l first some_
      rw [empty] at turn
      obtain rfl := congrArg Prod.snd turn
      have refused : ¬p.nonempty = true := by simp [some_]
      rw [split, first, List.takeWhile_append_of_pos all, List.takeWhile_cons_of_neg refused,
        List.dropWhile_append_of_pos all, List.dropWhile_cons_of_neg refused, List.append_nil]
      exact ⟨handed, rfl⟩
    | true =>
      rw [serverRuningTurn_next env l first some_] at turn
      exact absurd (congrArg Prod.fst turn) (by simp)

/-- The loop gets as far as the first empty datagram. -/
theorem serverRuning_spec (env : Env) (s : Server) (udpBuf : List Byte) (queue : List Packet) (fuel : Nat)
    (enough : queue.length < fuel) :
    ∃ l, serverRuning env s udpBuf queue fuel = some l ∧
      (frames l.calls).map Slot.bare = (queue.takeWhile Packet.nonempty).map Packet.slot ∧
      l.queue = (queue.dropWhile Packet.nonempty).tail := by
  apply Loop.run_spec (serverRuningTurn env) (Took queue) _ (fun l => l.queue.length)
  · exact fun _ _ took turn => took.goes turn
  · exact fun _ _ took turn => took.stops turn
  · exact ⟨[], rfl, by simp, rfl⟩
  · exact enough

theorem serverRuningBurstTurn_nil (env : Env) (choose : Nat → Nat) (l : BurstLoop) (none_ : l.queue = []) :
    ∃ receiver, serverRuningBurstTurn env choose l = (false, ⟨receiver, [], l.reads + 1, l.calls⟩) := by
  refine ⟨serverRuningBurstStep env l.receiver (.failed EAGAIN), ?_⟩
  simp [serverRuningBurstTurn, takeSome, none_, readDataFromUdpClientBurst, recvmmsg]

theorem serverRuningBurstTurn_next (env : Env) (choose : Nat → Nat) (l : BurstLoop) (some_ : l.queue ≠ [])
    (pool : IsPool l.receiver.udpBuf) :
    ∃ receiver slots count, 0 < count ∧ IsPool receiver.udpBuf ∧
      slots.map Slot.bare = (l.queue.take count).map Packet.slot ∧
      serverRuningBurstTurn env choose l =
        (true, ⟨receiver, l.queue.drop count, l.reads + 1, l.calls ++ [.burst slots]⟩) := by
  let count := max 1 (min (choose l.reads) MAX_NUM)
  let packets := l.queue.take count
  let slots := List.zipWith (fun b p => Packet.into p MAX_DATA_LEN b) l.receiver.udpBuf (packets.take MAX_NUM)
  have few : packets.take MAX_NUM = packets := by
    apply List.take_of_length_le
    simp only [packets, count, List.length_take, MAX_NUM]
    omega
  have taken : takeSome (choose l.reads) l.queue = (.received packets, l.queue.drop count) := by
    match queue : l.queue with
    | [] => exact absurd queue some_
    | _ :: _ => simp only [takeSome, packets, count, queue]
  have room : packets.length ≤ l.receiver.udpBuf.length := by
    rw [pool.1, ← few]
    exact List.length_take_le ..
  have same : slots.map Slot.bare = packets.map Packet.slot := by
    have bare := zipWith_into_bare l.receiver.udpBuf packets room
    simp only [slots, few]
    exact bare
  have positive : ¬((slots.length : Nat) : Int) ≤ 0 := by
    have size := congrArg List.length same
    have length := List.length_pos_iff.mpr some_
    simp only [List.length_map, packets, count, List.length_take] at size
    omega
  obtain ⟨_, _, buf, kept, _, _, step⟩ := step_cases env l.receiver pool (.received packets)
  refine ⟨serverRuningBurstStep env l.receiver (.received packets), slots, count, by simp [count], ?_, same, ?_⟩
  · rw [step]
    exact kept
  · simp only [serverRuningBurstTurn, taken, readDataFromUdpClientBurst, recvmmsg]
    simp only [slots] at positive
    simp only [positive, if_false, slots]

theorem serverRuningBurstLoop_spec (env : Env) (choose : Nat → Nat) (r : Receiver) (pool : IsPool r.udpBuf)
    (queue : List Packet) (fuel : Nat) (enough : queue.length < fuel) :
    ∃ l, serverRuningBurstLoop env choose r queue fuel = some l ∧
      (frames l.calls).map Slot.bare = queue.map Packet.slot ∧ l.queue = [] := by
  let inv (l : BurstLoop) : Prop := IsPool l.receiver.udpBuf ∧
    (frames l.calls).map Slot.bare ++ l.queue.map Packet.slot = queue.map Packet.slot
  apply Loop.run_spec (serverRuningBurstTurn env choose) inv _ (fun l => l.queue.length)
  · rintro l l' ⟨kept, handed⟩ turn
    by_cases some_ : l.queue = []
    · obtain ⟨receiver, empty⟩ := serverRuningBurstTurn_nil env choose l some_
      rw [empty] at turn
      exact absurd (congrArg Prod.fst turn) (by simp)
    · obtain ⟨receiver, slots, count, positive, still, same, next⟩ :=
        serverRuningBurstTurn_next env choose l some_ kept
      rw [next] at turn
      obtain rfl := congrArg Prod.snd turn
      refine ⟨⟨still, ?_⟩, ?_⟩
      · rw [← handed]
        simp only [frames, List.flatMap_append, List.flatMap_cons, List.flatMap_nil, List.append_nil, Call.slots,
          List.map_append, same, List.append_assoc]
        rw [← List.map_append, List.take_append_drop]
      · have length := List.length_pos_iff.mpr some_
        simp only [List.length_drop]
        omega
  · rintro l l' ⟨kept, handed⟩ turn
    by_cases some_ : l.queue = []
    · obtain ⟨receiver, empty⟩ := serverRuningBurstTurn_nil env choose l some_
      rw [empty] at turn
      obtain rfl := congrArg Prod.snd turn
      rw [some_, List.map_nil, List.append_nil] at handed
      exact ⟨handed, rfl⟩
    · obtain ⟨receiver, slots, count, _, _, _, next⟩ := serverRuningBurstTurn_next env choose l some_ kept
      rw [next] at turn
      exact absurd (congrArg Prod.fst turn) (by simp)
  · exact ⟨pool, rfl⟩
  · exact enough

/-- Nothing is left behind the first item that stops a scan exactly when only the last
item may stop it. -/
theorem tail_dropWhile (p : α → Bool) (l : List α) :
    (l.dropWhile p).tail = [] ↔ ∀ a ∈ l.dropLast, p a = true := by
  induction l with
  | nil => simp
  | cons a rest ih =>
    cases rest with
    | nil => cases own : p a <;> simp [own]
    | cons b more =>
      cases own : p a with
      | true => simp [own, ih]
      | false => simp [own]

section Frames
variable {queue : List Packet} {calls : List Call}

theorem filter_slots (queue : List Packet) :
    (queue.map Packet.slot).filter (fun slot => !slot.data.isEmpty) =
      (queue.filter Packet.nonempty).map Packet.slot := by
  rw [List.filter_map]
  congr 1
  apply List.filter_congr
  intro p _
  rw [Function.comp_apply, slot_empty, Packet.nonempty]

theorem drained_all (handed : (frames calls).map Slot.bare = queue.map Packet.slot) : Drained queue [] calls :=
  ⟨rfl, by rw [handed, filter_slots]⟩

theorem drained_takeWhile
    (handed : (frames calls).map Slot.bare = (queue.takeWhile Packet.nonempty).map Packet.slot) :
    Drained queue (queue.dropWhile Packet.nonempty).tail calls ↔ ∀ p ∈ queue.dropLast, p.nonempty = true := by
  rw [← tail_dropWhile]
  constructor
  · exact fun drained => drained.1
  · intro nothing
    refine ⟨nothing, ?_⟩
    have kept : (queue.takeWhile Packet.nonempty).filter Packet.nonempty = queue.filter Packet.nonempty := by
      have rest : (queue.dropWhile Packet.nonempty).filter Packet.nonempty = [] := by
        match stop : queue.dropWhile Packet.nonempty with
        | [] => rfl
        | p :: more =>
          have refused := List.head?_dropWhile_not Packet.nonempty queue
          rw [stop] at refused nothing
          simp only [List.head?_cons, List.tail_cons] at refused nothing
          simp [refused, nothing]
      rw [← List.append_nil ((queue.takeWhile Packet.nonempty).filter Packet.nonempty), ← rest,
        ← List.filter_append, List.takeWhile_append_dropWhile]
    rw [handed, filter_slots, kept]

end Frames

/-- The burst loop always drains the socket; the single-frame loop does exactly if no
datagram before the last is empty; and the two hand over the same frames besides exactly
if none is empty at all. -/
theorem receive_loops_iff (env env' : Env) (s : Server) (udpBuf : List Byte) (r : Receiver)
    (pool : IsPool r.udpBuf) (choose : Nat → Nat) (queue : List Packet) (fuel : Nat)
    (enough : queue.length < fuel) :
    ∃ single burst, serverRuning env s udpBuf queue fuel = some single ∧
      serverRuningBurstLoop env' choose r queue fuel = some burst ∧
      Drained queue burst.queue burst.calls ∧
      (Drained queue single.queue single.calls ↔ ∀ p ∈ queue.dropLast, p.data ≠ []) ∧
      ((Drained queue single.queue single.calls ∧ Drained queue burst.queue burst.calls ∧
        (frames single.calls).map Slot.bare = (frames burst.calls).map Slot.bare) ↔
        ∀ p ∈ queue, p.data ≠ []) := by
  obtain ⟨single, left, handed, rest⟩ := serverRuning_spec env s udpBuf queue fuel enough
  obtain ⟨burst, alsoLeft, all, none_⟩ := serverRuningBurstLoop_spec env' choose r pool queue fuel enough
  have nonempty (p : Packet) : p.nonempty = true ↔ p.data ≠ [] := by simp [Packet.nonempty]
  have drained : Drained queue burst.queue burst.calls := by
    rw [none_]
    exact drained_all all
  have singly : Drained queue single.queue single.calls ↔ ∀ p ∈ queue.dropLast, p.data ≠ [] := by
    rw [rest, drained_takeWhile handed]
    simp only [nonempty]
  refine ⟨single, burst, left, alsoLeft, drained, singly, ?_⟩
  rw [singly, handed, all]
  constructor
  · rintro ⟨_, _, same⟩ p member
    have whole : queue.takeWhile Packet.nonempty = queue :=
      (List.takeWhile_prefix _).eq_of_length (by simpa using congrArg List.length same)
    exact (nonempty p).mp (List.takeWhile_eq_self_iff.mp whole p member)
  · intro each
    have whole : queue.takeWhile Packet.nonempty = queue :=
      List.takeWhile_eq_self_iff.mpr fun p member => (nonempty p).mpr (each p member)
    exact ⟨fun p member => each p ((List.dropLast_sublist queue).subset member), drained, by rw [whole]⟩

/-- Two datagrams with data, read one at a time or both at once. -/
theorem receive_loops_sample :
    let queue : List Packet := [⟨[255, 7], ⟨1, 100⟩⟩, ⟨[2], ⟨1, 200⟩⟩]
    ∃ single burst, serverRuning .calm .init (List.replicate MAX_DATA_LEN 0) queue 3 = some single ∧
      serverRuningBurstLoop .calm (fun _ => 2) ⟨.init, uniformPool 0⟩ queue 3 = some burst ∧
      Drained queue single.queue single.calls ∧ Drained queue burst.queue burst.calls ∧
      (frames single.calls).map Slot.bare = (frames burst.calls).map Slot.bare := by
  intro queue
  obtain ⟨single, burst, left, alsoLeft, _, _, same⟩ := receive_loops_iff .calm .calm .init
    (List.replicate MAX_DATA_LEN 0) ⟨.init, uniformPool 0⟩ (uniformPool_isPool 0) (fun _ => 2) queue 3 (by decide)
  exact ⟨single, burst, left, alsoLeft, same.mpr (by decide)⟩

/-- Behind an empty datagram the single-frame loop leaves the other one in the socket. -/
theorem datagram_stranded :
    let queue : List Packet := [⟨[], ⟨1, 100⟩⟩, ⟨[7], ⟨1, 200⟩⟩]
    ∃ l, serverRuning .calm .init (List.replicate MAX_DATA_LEN 0) queue 3 = some l ∧
      l.queue = [⟨[7], ⟨1, 200⟩⟩] ∧ l.calls = [] ∧ ¬Drained queue l.queue l.calls := by
  refine ⟨_, rfl, rfl, rfl, fun drained => ?_⟩
  exact absurd drained.1 (by decide)

end WlanBridge
