import WlanBridge.FloodBooks
import WlanBridge.Order
import WlanBridge.Resend

/-! The books of one call of a handler. A batch is counted frame by frame: what was
received, what its floods got through, and every queued unicast before it is sent. -/
namespace WlanBridge

def floods (env : Env) (b : Bridge) (slots : List Slot) : List Datagram :=
  ((visits env b 0 slots).filter (fun v => !v.late)).flatMap Visit.out

def backlog (env : Env) (b : Bridge) (slots : List Slot) : List Datagram :=
  ((visits env b 0 slots).filter Visit.late).flatMap Visit.out

def frameCharge (slot : Slot) : Charge := rxCharge slot.peerAddr slot.data.length

def sentCharge (d : Datagram) : Charge := txCharge d.data.length d

def Udp.flooded (env : Env) (b : Bridge) (u : Udp) (slots : List Slot) : Udp :=
  u.offers env.kernel (floods env b slots)

def floodsTaken (env : Env) (b : Bridge) (u : Udp) (slots : List Slot) : List Datagram :=
  taken (answers env.kernel u.calls (floods env b slots))

/-- The loop of `wlan_br_handle_burst` after the frames `done`. -/
structure BurstBooks (env : Env) (ip4Addr : U32) (s : Server) (done : List Slot) (l : BurstLocals) : Prop where
  udp : l.server.udp = s.udp.flooded env s.bridge done
  booked : s.stats.Booked ip4Addr l.server.stats
    (done.map frameCharge ++ (floodsTaken env s.bridge s.udp done ++ backlog env s.bridge done).map sentCharge)
  holds : Holds l.toBuf l.toDataLen l.j

theorem batch_perm (frames : List Slot) (slot : Slot) (sent held more also : List Datagram) :
    ((frames.map frameCharge ++ (sent ++ held).map sentCharge) ++
      frameCharge slot :: (more ++ also).map sentCharge).Perm
      ((frames ++ [slot]).map frameCharge ++ ((sent ++ more) ++ (held ++ also)).map sentCharge) := by
  rw [List.perm_iff_count]
  intro c
  simp only [List.map_append, List.map_cons, List.map_nil, List.count_append, List.count_cons, List.count_nil]
  omega

theorem sentCharge_slot (slot : Slot) (i : Nat) (qs : List SockaddrIn) (ds : List Datagram)
    (part : ∀ d ∈ ds, d ∈ qs.map (slot.datagram i)) :
    ds.map (txCharge slot.data.length) = ds.map sentCharge := by
  apply List.map_congr_left
  intro d member
  obtain ⟨q, _, rfl⟩ := List.mem_map.mp (part d member)
  rfl

section BurstStep
variable {env : Env} {s : Server} {n : Nat} {done : List Slot} {l : BurstLocals} {ip4Addr : U32}

theorem BurstInvariant.early (valid : BurstInvariant env s n done l) (slot : Slot)
    (everyone : (l.learned env slot).unicast slot.dst = none) :
    floods env s.bridge (done ++ [slot]) = floods env s.bridge done ++
      ((l.learned env slot).floodOrder slot.peerAddr).map (slot.datagram done.length) ∧
    backlog env s.bridge (done ++ [slot]) = backlog env s.bridge done := by
  have early : Visit.late ⟨l.learned env slot, done.length, slot⟩ = false := by simp [Visit.late, everyone]
  simp [floods, backlog, valid.visits_concat slot, List.filter_append, early, Visit.out, Bridge.dests, everyone]

theorem BurstInvariant.held (valid : BurstInvariant env s n done l) (slot : Slot)
    (known : (l.learned env slot).unicast slot.dst = some q) :
    floods env s.bridge (done ++ [slot]) = floods env s.bridge done ∧
    backlog env s.bridge (done ++ [slot]) = backlog env s.bridge done ++
      if q = slot.peerAddr then [] else [slot.datagram done.length q] := by
  have late : Visit.late ⟨l.learned env slot, done.length, slot⟩ = true := by simp [Visit.late, known]
  by_cases home : q = slot.peerAddr
  · simp [floods, backlog, valid.visits_concat slot, List.filter_append, late, Visit.out, Bridge.dests, known, home]
  · simp [floods, backlog, valid.visits_concat slot, List.filter_append, late, Visit.out, Bridge.dests, known, home]

theorem Holds.store (holds : Holds l.toBuf l.toDataLen l.j) (entry : ToArray) (inBuf : l.j < l.toBuf.length)
    (inLen : l.j < l.toDataLen.length) (fits : entry.dataLen ≤ entry.buf.mem.length) :
    Holds (l.store entry).toBuf (l.store entry).toDataLen (l.j + 1) := by
  intro i below
  by_cases last : i = l.j
  · subst last
    simpa [BurstLocals.store, inBuf, inLen] using fits
  · have before := holds i (by omega)
    simp only [List.getElem!_eq_getElem?_getD] at before
    simpa [BurstLocals.store, List.getElem?_set_ne (fun same : l.j = i => last same.symm)] using before

theorem BurstBooks.extend (books : BurstBooks env ip4Addr s done l) (slot : Slot) (fresh also : List Datagram)
    (more : floods env s.bridge (done ++ [slot]) = floods env s.bridge done ++ fresh)
    (behind : backlog env s.bridge (done ++ [slot]) = backlog env s.bridge done ++ also)
    (sent : l'.server.udp = l.server.udp.offers env.kernel fresh)
    (booked : l.server.stats.Booked ip4Addr l'.server.stats
      (frameCharge slot :: (taken (answers env.kernel l.server.udp.calls fresh) ++ also).map sentCharge))
    (holds : Holds l'.toBuf l'.toDataLen l'.j) : BurstBooks env ip4Addr s (done ++ [slot]) l' where
  udp := by rw [sent, books.udp, Udp.flooded, Udp.flooded, more, offers_append]
  booked := by
    have later : floodsTaken env s.bridge s.udp (done ++ [slot]) = floodsTaken env s.bridge s.udp done ++
        taken (answers env.kernel l.server.udp.calls fresh) := by
      rw [floodsTaken, floodsTaken, more, answers_append, taken_append, books.udp, Udp.flooded, offers_calls]
    rw [later, behind]
    exact (books.booked.trans booked).perm (batch_perm ..)
  holds := holds

theorem BurstBooks.step (wf : s.bridge.Wf) (room : s.stats.Counts env ip4Addr)
    (valid : BurstInvariant env s n done l) (books : BurstBooks env ip4Addr s done l) (slot : Slot)
    (inside : done.length < n) :
    BurstBooks env ip4Addr s (done ++ [slot]) (burstBody env l slot done.length) := by
  have stillRoom := books.booked.counts room
  have received := wlanIpStaticUpdateRx_booked env l.server.stats stillRoom slot.peerAddr.sinAddr 1
    (BitVec.ofNat 32 slot.data.length)
  rcases burstBody_cases env l slot done.length with
    ⟨everyone, turn⟩ | ⟨home, turn⟩ | ⟨q, known, away, turn⟩
  · obtain ⟨more, same⟩ := valid.early slot everyone
    obtain ⟨_, sent, booked⟩ := wlanBrFlood_books ip4Addr env { l.server with bridge := l.learned env slot }
      stillRoom (valid.learned_wf wf slot).shared slot.data.length ⟨done.length, slot.mem⟩ slot.peerAddr
    have cell : (⟨done.length, slot.mem⟩ : Buf).datagram slot.data.length = slot.datagram done.length :=
      funext (slot_datagram slot done.length)
    rw [cell] at sent booked
    rw [turn]
    refine books.extend slot _ [] more (by rw [same, List.append_nil]) sent ?_ books.holds
    rw [List.append_nil, ← sentCharge_slot slot done.length _ _ fun d member => mem_taken member]
    exact booked
  · obtain ⟨same, behind⟩ := valid.held slot home
    rw [if_pos rfl] at behind
    rw [turn]
    exact books.extend slot [] [] (by rw [same, List.append_nil]) behind rfl received books.holds
  · obtain ⟨same, behind⟩ := valid.held slot known
    rw [if_neg away] at behind
    have counted := received.trans (wlanIpStaticUpdateTx_booked env _ (received.counts stillRoom) q.sinAddr 1
      (BitVec.ofNat 32 slot.data.length))
    rw [turn]
    refine books.extend slot [] _ (by rw [same, List.append_nil]) behind rfl counted ?_
    have free : l.j < n := Nat.lt_of_le_of_lt valid.index inside
    refine books.holds.store ⟨slot.data.length, ⟨done.length, slot.mem⟩, q⟩ ?_ ?_ ?_
    · rw [valid.bufCells]
      exact free
    · rw [valid.lenCells]
      exact free
    · simp [Slot.mem]

end BurstStep

theorem burstLoop_books (env : Env) (s : Server) (wf : s.bridge.Wf) (room : s.stats.Counts env ip4Addr)
    (n : Nat) (done : List Slot) (within : done.length ≤ n) :
    BurstBooks env ip4Addr s done (burstLoop env (.start s n) done) := by
  induction done using List.reverseRecOn with
  | nil => exact ⟨rfl, .refl _ _, fun i below => absurd below (Nat.not_lt_zero i)⟩
  | append_singleton done slot ih =>
    simp only [List.length_append, List.length_cons, List.length_nil] at within
    rw [burstLoop_append]
    exact BurstBooks.step wf room (burstLoop_invariant env s wf n done (by omega)) (ih (by omega)) slot (by omega)

/-- A queued unicast is counted before the batch is sent, whatever the kernel does with it. -/
theorem wlanBrHandleBurst_books (env : Env) (s : Server) (wf : s.bridge.Wf) (room : s.stats.Counts env ip4Addr)
    (slots : List Slot) :
    s.stats.Booked ip4Addr (wlanBrHandleBurst env s slots).stats (slots.map frameCharge ++
      (floodsTaken env s.bridge s.udp slots ++ backlog env s.bridge slots).map sentCharge) := by
  have books := burstLoop_books env s wf room slots.length slots (Nat.le_refl _)
  simp only [wlanBrHandleBurst]
  split <;> exact books.booked

theorem burstSent_nil (k : Kernel) (u : Udp) : burstSent k u [] = [] := by
  simp [burstSent, leftOver]

theorem wlanBrHandleBurst_transmitted (env : Env) (s : Server) (wf : s.bridge.Wf)
    (room : s.stats.Counts env ip4Addr) (slots : List Slot) :
    transmittedSince s.udp (wlanBrHandleBurst env s slots).udp = floodsTaken env s.bridge s.udp slots ++
      burstSent env.kernel (s.udp.flooded env s.bridge slots) (backlog env s.bridge slots) := by
  have valid := burstLoop_invariant env s wf slots.length slots (Nat.le_refl _)
  have books := burstLoop_books env s wf room slots.length slots (Nat.le_refl _)
  have queued : (mmsgOf _ _ _ _).map Mmsghdr.datagram = backlog env s.bridge slots := valid.queued
  have flooded := transmitted_offers env.kernel s.udp (floods env s.bridge slots)
  have udp : _ = s.udp.offers env.kernel (floods env s.bridge slots) := books.udp
  rw [transmittedSince, wlanBrHandleBurst]
  by_cases some_ : (burstLoop env (.start s slots.length) slots).j > 0
  · obtain ⟨sent, _⟩ := sendDataToUdpClientBurst_spec env.kernel
      (burstLoop env (.start s slots.length) slots).server.udp _ _
      (burstLoop env (.start s slots.length) slots).toPeerAddr _ books.holds
    rw [queued] at sent
    simp only [some_, if_true, sent]
    rw [udp, flooded, List.append_assoc, List.drop_left]
    rfl
  · have empty : (burstLoop env (.start s slots.length) slots).j = 0 := by omega
    rw [empty] at queued
    have none_ : backlog env s.bridge slots = [] := by rw [← queued]; simp [mmsgOf]
    simp only [some_, if_false, none_, burstSent_nil, List.append_nil]
    rw [udp, flooded, List.drop_left]
    rfl

end WlanBridge
