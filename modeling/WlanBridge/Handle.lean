import WlanBridge.Flood
import WlanBridge.Deferred

/-! What the handlers do to the stores and what they hand to the socket. Both learn
each frame in turn and direct it by the stores as they are then; the burst handler
holds the unicasts back until the end of the batch. -/
namespace WlanBridge

def Slot.dst (slot : Slot) : EtherAddr := (ethhdr slot.mem).hDest

def Slot.src (slot : Slot) : EtherAddr := (ethhdr slot.mem).hSource

def Slot.datagram (slot : Slot) (index : Nat) (dest : SockaddrIn) : Datagram := ⟨index, slot.data, dest⟩

@[simp] theorem slot_datagram (slot : Slot) (index : Nat) (dest : SockaddrIn) :
    (⟨index, slot.mem⟩ : Buf).datagram slot.data.length dest = slot.datagram index dest := by
  simp [Buf.datagram, Slot.mem, Slot.datagram]

/-- The known peer that a frame with this destination is sent to alone. -/
def Bridge.unicast (b : Bridge) (dst : EtherAddr) : Option SockaddrIn :=
  if isMulticastEtherAddr dst then none else (wlanBrFind b dst).map WlanFdbEntry.peerAddr

def Bridge.dests (b : Bridge) (dst : EtherAddr) (origin : SockaddrIn) : List SockaddrIn :=
  match b.unicast dst with
  | some q => if q = origin then [] else [q]
  | none => b.floodOrder origin

theorem dests_nodup (b : Bridge) (dst : EtherAddr) (origin : SockaddrIn) : (b.dests dst origin).Nodup := by
  unfold Bridge.dests
  split
  · split <;> simp
  · exact order_nodup _ _ _

theorem origin_not_dest (b : Bridge) (dst : EtherAddr) (origin : SockaddrIn) :
    origin ∉ b.dests dst origin := by
  unfold Bridge.dests
  split
  · rename_i q _
    split
    · simp
    · rename_i apart
      simpa using fun same : origin = q => apart same.symm
  · simp [mem_floodOrder]

theorem dest_known (wf : Bridge.Wf b) (member : q ∈ b.dests dst origin) :
    ∃ known ∈ b.hHead, known.peerAddr = q := by
  unfold Bridge.dests at member
  split at member
  · rename_i r unicast
    split at member
    · simp at member
    · obtain rfl := List.mem_singleton.mp member
      unfold Bridge.unicast at unicast
      split at unicast
      · simp at unicast
      · obtain ⟨known, found, address⟩ := Option.map_eq_some_iff.mp unicast
        exact ⟨known, Keyed.find_mem found, address⟩
  · obtain ⟨entry, inList, address⟩ := List.mem_filterMap.mp ((mem_floodOrder _ _ _).mp member).2
    obtain ⟨known, inTable, _, same⟩ := wf.agree entry inList
    exact ⟨known, inTable, Option.some.inj (same.symm.trans address)⟩

theorem foldl_floodSend_attempted (env : Env) (len : Nat) (buf : Buf) (s : Server)
    (addrs : List SockaddrIn) :
    attempted (addrs.foldl (floodSend env len buf) s).udp.trace =
      attempted s.udp.trace ++ addrs.map (buf.datagram len) := by
  induction addrs generalizing s with
  | nil => simp
  | cons a rest ih =>
    have own : attempted (floodSend env len buf s a).udp.trace =
        attempted s.udp.trace ++ [buf.datagram len a] := by
      simp only [floodSend]
      split <;> exact sendDataToUdpClient_attempted ..
    rw [List.foldl_cons, ih, own]
    simp

theorem wlanBrFlood_bridge (env : Env) (s : Server) (wf : s.bridge.Wf) (len : Nat) (buf : Buf)
    (origin : SockaddrIn) : (wlanBrFlood env s len buf origin).bridge = s.bridge := by
  rw [wlanBrFlood_eq env s wf, foldl_floodSend_bridge]

theorem wlanBrFlood_attempted (env : Env) (s : Server) (wf : s.bridge.Wf) (len : Nat) (buf : Buf)
    (origin : SockaddrIn) :
    attempted (wlanBrFlood env s len buf origin).udp.trace =
      attempted s.udp.trace ++ (s.bridge.floodOrder origin).map (buf.datagram len) := by
  rw [wlanBrFlood_eq env s wf, foldl_floodSend_attempted]

/-- The three return codes: unknown, own peer, and sent, whether or not it failed. -/
theorem wlanBrForward_cases (env : Env) (s : Server) (len : Nat) (buf : Buf) (dst : EtherAddr)
    (origin : SockaddrIn) :
    (wlanBrFind s.bridge dst = none ∧ wlanBrForward env s len buf dst origin = (-1, s)) ∨
    (∃ known, wlanBrFind s.bridge dst = some known ∧ known.peerAddr = origin ∧
      wlanBrForward env s len buf dst origin = (0, s)) ∨
    (∃ known ret, wlanBrFind s.bridge dst = some known ∧ known.peerAddr ≠ origin ∧ ret ≠ -1 ∧
      wlanBrForward env s len buf dst origin =
        (ret, { s with udp := (sendDataToUdpClient env.kernel s.udp len buf known.peerAddr).2 })) := by
  cases found : wlanBrFind s.bridge dst with
  | none => exact Or.inl ⟨rfl, by simp [wlanBrForward, found]⟩
  | some known =>
    by_cases home : known.peerAddr = origin
    · refine Or.inr (Or.inl ⟨known, rfl, home, ?_⟩)
      simp [wlanBrForward, found, (SockaddrIn.same_iff _ _).mpr home]
    · have apart : known.peerAddr.same origin = false := by
        rw [Bool.eq_false_iff, ne_eq, SockaddrIn.same_iff]
        exact home
      simp only [wlanBrForward, found, apart, Bool.false_eq_true, if_false]
      by_cases short : (sendDataToUdpClient env.kernel s.udp len buf known.peerAddr).1 ≠ len
      · exact Or.inr (Or.inr ⟨known, -2, rfl, home, by decide, by rw [if_pos short]⟩)
      · refine Or.inr (Or.inr ⟨known, _, rfl, home, ?_, by rw [if_neg short]⟩)
        omega

theorem wlanBrHandle_cases (env : Env) (s : Server) (len : Nat) (buf : Buf) (peerAddr : SockaddrIn) :
    let b := learn env s.bridge peerAddr (ethhdr buf.mem).hSource
    let dst := (ethhdr buf.mem).hDest
    (b.unicast dst = none ∧
      wlanBrHandle env s len buf peerAddr = wlanBrFlood env { s with bridge := b } len buf peerAddr) ∨
    (b.unicast dst = some peerAddr ∧ wlanBrHandle env s len buf peerAddr = { s with bridge := b }) ∨
    (∃ q, b.unicast dst = some q ∧ q ≠ peerAddr ∧ wlanBrHandle env s len buf peerAddr =
      { s with bridge := b, udp := (sendDataToUdpClient env.kernel s.udp len buf q).2 }) := by
  intro b dst
  cases group : isMulticastEtherAddr dst with
  | true =>
    refine Or.inl ⟨by simp [Bridge.unicast, group], ?_⟩
    simp only [dst] at group
    simp only [wlanBrHandle, group, if_true]
    rfl
  | false =>
    have lookup : b.unicast dst = (wlanBrFind b dst).map WlanFdbEntry.peerAddr := by
      simp [Bridge.unicast, group]
    have whole : wlanBrHandle env s len buf peerAddr =
        let r := wlanBrForward env { s with bridge := b } len buf dst peerAddr
        if r.1 = -1 then wlanBrFlood env r.2 len buf peerAddr else r.2 := by
      simp only [dst] at group
      simp only [wlanBrHandle, group, Bool.false_eq_true, if_false]
      rfl
    rw [whole]
    rcases wlanBrForward_cases env { s with bridge := b } len buf dst peerAddr with
      ⟨found, result⟩ | ⟨known, found, home, result⟩ | ⟨known, ret, found, away, sent, result⟩
    all_goals
      simp only at found
      rw [found] at lookup
      rw [result]
    · exact Or.inl ⟨lookup, rfl⟩
    · rw [Option.map_some, home] at lookup
      exact Or.inr (Or.inl ⟨lookup, rfl⟩)
    · refine Or.inr (Or.inr ⟨_, lookup, away, ?_⟩)
      simp only [sent, if_false]

theorem wlanBrHandle_spec (env : Env) (s : Server) (wf : s.bridge.Wf) (len : Nat) (buf : Buf)
    (peerAddr : SockaddrIn) :
    let b := learn env s.bridge peerAddr (ethhdr buf.mem).hSource
    let s' := wlanBrHandle env s len buf peerAddr
    s'.bridge = b ∧ attempted s'.udp.trace = attempted s.udp.trace ++
      (b.dests (ethhdr buf.mem).hDest peerAddr).map (buf.datagram len) := by
  intro b s'
  have learned : b.Wf := learn_wf env wf _ _
  rcases wlanBrHandle_cases env s len buf peerAddr with
    ⟨everyone, whole⟩ | ⟨home, whole⟩ | ⟨q, known, away, whole⟩
  · have whole : s' = _ := whole
    rw [whole]
    refine ⟨wlanBrFlood_bridge env { s with bridge := b } learned len buf peerAddr, ?_⟩
    rw [wlanBrFlood_attempted env { s with bridge := b } learned len buf peerAddr]
    simp [Bridge.dests, everyone, b]
  · have whole : s' = _ := whole
    rw [whole]
    refine ⟨rfl, ?_⟩
    simp [Bridge.dests, home, b]
  · have whole : s' = _ := whole
    rw [whole]
    refine ⟨rfl, ?_⟩
    simp [Bridge.dests, known, away, b, sendDataToUdpClient_attempted]

/-- A frame of a batch with the stores it is directed by. -/
structure Visit where
  bridge : Bridge
  index : Nat
  slot : Slot

def visits (env : Env) (b : Bridge) (index : Nat) : List Slot → List Visit
  | [] => []
  | slot :: rest =>
    let b := learn env b slot.peerAddr slot.src
    ⟨b, index, slot⟩ :: visits env b (index + 1) rest

def learnAll (env : Env) (b : Bridge) (slots : List Slot) : Bridge :=
  slots.foldl (fun b slot => learn env b slot.peerAddr slot.src) b

def Visit.out (v : Visit) : List Datagram :=
  (v.bridge.dests v.slot.dst v.slot.peerAddr).map (v.slot.datagram v.index)

/-- A unicast to a known peer; the burst handler sends it at the end of the batch. -/
def Visit.late (v : Visit) : Bool := (v.bridge.unicast v.slot.dst).isSome

@[simp] theorem learnAll_append (env : Env) (b : Bridge) (slots more : List Slot) :
    learnAll env b (slots ++ more) = learnAll env (learnAll env b slots) more := by
  simp [learnAll]

@[simp] theorem learnAll_cons (env : Env) (b : Bridge) (slot : Slot) (rest : List Slot) :
    learnAll env b (slot :: rest) = learnAll env (learn env b slot.peerAddr slot.src) rest := rfl

theorem learnAll_wf (env : Env) (wf : Bridge.Wf b) (slots : List Slot) : (learnAll env b slots).Wf := by
  induction slots generalizing b with
  | nil => exact wf
  | cons slot rest ih => exact ih (learn_wf env wf _ _)

theorem visits_append (env : Env) (b : Bridge) (index : Nat) (slots more : List Slot) :
    visits env b index (slots ++ more) =
      visits env b index slots ++ visits env (learnAll env b slots) (index + slots.length) more := by
  induction slots generalizing b index with
  | nil => simp [visits, learnAll]
  | cons slot rest ih =>
    simp only [List.cons_append, visits, ih, learnAll_cons, List.length_cons]
    rw [Nat.add_assoc, Nat.add_comm 1]

theorem mmsgOf_store (buf : List Buf) (dataLen : List Nat) (peerAddr : List SockaddrIn) (j : Nat)
    (entry : ToArray) (inBuf : j < buf.length) (inLen : j < dataLen.length) (inAddr : j < peerAddr.length) :
    mmsgOf (buf.set j entry.buf) (dataLen.set j entry.dataLen) (peerAddr.set j entry.peerAddr) (j + 1) =
      mmsgOf buf dataLen peerAddr j ++ [⟨entry.buf, entry.dataLen, entry.peerAddr, 0⟩] := by
  simp only [mmsgOf, List.range_succ, List.map_append, List.map_cons, List.map_nil]
  congr 1
  · apply List.map_congr_left
    intro i member
    have below : i < j := List.mem_range.mp member
    simp only [List.getElem!_eq_getElem?_getD, List.getElem?_set_ne (by omega : j ≠ i)]
  · simp [inBuf, inLen, inAddr]

theorem wlanBrForwardToArray_cases (env : Env) (s : Server) (len : Nat) (buf : Buf) (dst : EtherAddr)
    (origin : SockaddrIn) :
    let rx := wlanIpStaticUpdateRx env s.stats origin.sinAddr 1 (BitVec.ofNat 32 len)
    (wlanBrFind s.bridge dst = none ∧ wlanBrForwardToArray env s len buf dst origin = (-1, none, s)) ∨
    (∃ known, wlanBrFind s.bridge dst = some known ∧ known.peerAddr = origin ∧
      wlanBrForwardToArray env s len buf dst origin = (0, none, { s with stats := rx })) ∨
    (∃ known, wlanBrFind s.bridge dst = some known ∧ known.peerAddr ≠ origin ∧
      wlanBrForwardToArray env s len buf dst origin = (1, some ⟨len, buf, known.peerAddr⟩, { s with
        stats := wlanIpStaticUpdateTx env rx known.peerAddr.sinAddr 1 (BitVec.ofNat 32 len) })) := by
  intro rx
  cases found : wlanBrFind s.bridge dst with
  | none => exact Or.inl ⟨rfl, by simp [wlanBrForwardToArray, found]⟩
  | some known =>
    by_cases home : known.peerAddr = origin
    · refine Or.inr (Or.inl ⟨known, rfl, home, ?_⟩)
      simp [wlanBrForwardToArray, found, (SockaddrIn.same_iff _ _).mpr home, rx]
    · have apart : known.peerAddr.same origin = false := by
        rw [Bool.eq_false_iff, ne_eq, SockaddrIn.same_iff]
        exact home
      refine Or.inr (Or.inr ⟨known, rfl, home, ?_⟩)
      simp [wlanBrForwardToArray, found, apart, rx]

/-- The loop of `wlan_br_handle_burst` after the frames `done` of a batch of `n`. -/
structure BurstInvariant (env : Env) (s : Server) (n : Nat) (done : List Slot) (l : BurstLocals) : Prop where
  bridge : l.server.bridge = learnAll env s.bridge done
  flooded : attempted l.server.udp.trace = attempted s.udp.trace ++
    ((visits env s.bridge 0 done).filter (fun v => !v.late)).flatMap Visit.out
  queued : (mmsgOf l.toBuf l.toDataLen l.toPeerAddr l.j).map Mmsghdr.datagram =
    ((visits env s.bridge 0 done).filter Visit.late).flatMap Visit.out
  index : l.j ≤ done.length
  bufCells : l.toBuf.length = n
  lenCells : l.toDataLen.length = n
  addrCells : l.toPeerAddr.length = n

theorem burstStart (env : Env) (s : Server) (n : Nat) : BurstInvariant env s n [] (.start s n) := by
  constructor <;> simp [BurstLocals.start, learnAll, visits, mmsgOf]

def BurstLocals.learned (env : Env) (l : BurstLocals) (slot : Slot) : Bridge :=
  learn env l.server.bridge slot.peerAddr slot.src

theorem burstBody_unicast (env : Env) (l : BurstLocals) (slot : Slot) (i : Nat)
    (alone : isMulticastEtherAddr slot.dst = false) :
    let t : Server := { l.server with bridge := learn env l.server.bridge slot.peerAddr slot.src }
    let buf : Buf := ⟨i, slot.mem⟩
    let r := wlanBrForwardToArray env t slot.data.length buf slot.dst slot.peerAddr
    let l' := { (r.2.1.elim l l.store) with server := r.2.2 }
    burstBody env l slot i =
      if r.1 = 1 then { l' with j := l'.j + 1 }
      else if r.1 = -1 then
        { l' with server := wlanBrFlood env r.2.2 slot.data.length buf slot.peerAddr }
      else l' := by
  intro t buf r l'
  simp only [burstBody, Slot.dst] at alone ⊢
  simp only [alone, Bool.false_eq_true, if_false]
  rfl

theorem burstBody_cases (env : Env) (l : BurstLocals) (slot : Slot) (i : Nat) :
    let b := l.learned env slot
    let len := slot.data.length
    let rx := wlanIpStaticUpdateRx env l.server.stats slot.peerAddr.sinAddr 1 (BitVec.ofNat 32 len)
    (b.unicast slot.dst = none ∧ burstBody env l slot i = { l with
      server := wlanBrFlood env { l.server with bridge := b } len ⟨i, slot.mem⟩ slot.peerAddr }) ∨
    (b.unicast slot.dst = some slot.peerAddr ∧
      burstBody env l slot i = { l with server := { l.server with bridge := b, stats := rx } }) ∨
    (∃ q, b.unicast slot.dst = some q ∧ q ≠ slot.peerAddr ∧
      burstBody env l slot i = { l.store ⟨len, ⟨i, slot.mem⟩, q⟩ with
        server := { l.server with
          bridge := b, stats := wlanIpStaticUpdateTx env rx q.sinAddr 1 (BitVec.ofNat 32 len) }
        j := l.j + 1 }) := by
  intro b len rx
  cases group : isMulticastEtherAddr slot.dst with
  | true =>
    refine Or.inl ⟨by simp [Bridge.unicast, group], ?_⟩
    simp only [burstBody, Slot.dst] at group ⊢
    simp only [group, if_true]
    rfl
  | false =>
    have lookup : b.unicast slot.dst = (wlanBrFind b slot.dst).map WlanFdbEntry.peerAddr := by
      simp [Bridge.unicast, group]
    rw [burstBody_unicast env l slot i group]
    rcases wlanBrForwardToArray_cases env { l.server with bridge := b } len ⟨i, slot.mem⟩ slot.dst
        slot.peerAddr with ⟨found, result⟩ | ⟨known, found, home, result⟩ | ⟨known, found, away, result⟩
    all_goals
      simp only at found
      rw [found] at lookup
      simp only [b, len, BurstLocals.learned] at result
      rw [result]
    · exact Or.inl ⟨lookup, rfl⟩
    · rw [Option.map_some, home] at lookup
      exact Or.inr (Or.inl ⟨lookup, rfl⟩)
    · exact Or.inr (Or.inr ⟨_, lookup, away, rfl⟩)

section BurstStep
variable {env : Env} {s : Server} {n : Nat} {done : List Slot} {l : BurstLocals}

theorem BurstInvariant.learned_eq (valid : BurstInvariant env s n done l) (slot : Slot) :
    l.learned env slot = learnAll env s.bridge (done ++ [slot]) := by
  rw [BurstLocals.learned, valid.bridge, learnAll_append]
  rfl

theorem BurstInvariant.learned_wf (wf : s.bridge.Wf) (valid : BurstInvariant env s n done l) (slot : Slot) :
    (l.learned env slot).Wf := by
  rw [valid.learned_eq slot]
  exact learnAll_wf env wf _

theorem BurstInvariant.visits_concat (valid : BurstInvariant env s n done l) (slot : Slot) :
    visits env s.bridge 0 (done ++ [slot]) =
      visits env s.bridge 0 done ++ [⟨l.learned env slot, done.length, slot⟩] := by
  simp [visits_append, visits, BurstLocals.learned, valid.bridge]

theorem BurstInvariant.flood (wf : s.bridge.Wf) (valid : BurstInvariant env s n done l) (slot : Slot)
    (everyone : (l.learned env slot).unicast slot.dst = none) :
    BurstInvariant env s n (done ++ [slot]) { l with
      server := wlanBrFlood env { l.server with bridge := l.learned env slot } slot.data.length
        ⟨done.length, slot.mem⟩ slot.peerAddr } := by
  have early : Visit.late ⟨l.learned env slot, done.length, slot⟩ = false := by
    simp [Visit.late, everyone]
  have learned := valid.learned_wf wf slot
  constructor
  · rw [← valid.learned_eq slot]
    exact wlanBrFlood_bridge env { l.server with bridge := l.learned env slot } learned ..
  · rw [wlanBrFlood_attempted env { l.server with bridge := l.learned env slot } learned, valid.flooded,
      valid.visits_concat slot]
    simp [List.filter_append, early, Visit.out, Bridge.dests, everyone]
  · rw [valid.visits_concat slot]
    simpa [List.filter_append, early] using valid.queued
  · simpa using Nat.le_succ_of_le valid.index
  · exact valid.bufCells
  · exact valid.lenCells
  · exact valid.addrCells

theorem BurstInvariant.drop (valid : BurstInvariant env s n done l) (slot : Slot)
    (home : (l.learned env slot).unicast slot.dst = some slot.peerAddr) (stats : Stats) :
    BurstInvariant env s n (done ++ [slot])
      { l with server := { l.server with bridge := l.learned env slot, stats := stats } } := by
  have late : Visit.late ⟨l.learned env slot, done.length, slot⟩ = true := by
    simp [Visit.late, home]
  have silent : Visit.out ⟨l.learned env slot, done.length, slot⟩ = [] := by
    simp [Visit.out, Bridge.dests, home]
  constructor
  · exact valid.learned_eq slot
  · rw [valid.visits_concat slot]
    simpa [List.filter_append, late] using valid.flooded
  · rw [valid.visits_concat slot]
    simpa [List.filter_append, late, silent] using valid.queued
  · simpa using Nat.le_succ_of_le valid.index
  · exact valid.bufCells
  · exact valid.lenCells
  · exact valid.addrCells

theorem BurstInvariant.queue (valid : BurstInvariant env s n done l) (slot : Slot) (room : done.length < n)
    (known : (l.learned env slot).unicast slot.dst = some q) (away : q ≠ slot.peerAddr) (stats : Stats) :
    BurstInvariant env s n (done ++ [slot])
      { l.store ⟨slot.data.length, ⟨done.length, slot.mem⟩, q⟩ with
        server := { l.server with bridge := l.learned env slot, stats := stats }, j := l.j + 1 } := by
  have late : Visit.late ⟨l.learned env slot, done.length, slot⟩ = true := by
    simp [Visit.late, known]
  have single : Visit.out ⟨l.learned env slot, done.length, slot⟩ = [slot.datagram done.length q] := by
    simp [Visit.out, Bridge.dests, known, away]
  have inside : l.j < n := Nat.lt_of_le_of_lt valid.index room
  constructor
  · exact valid.learned_eq slot
  · rw [valid.visits_concat slot]
    simpa [List.filter_append, late] using valid.flooded
  · have stored := mmsgOf_store l.toBuf l.toDataLen l.toPeerAddr l.j
      ⟨slot.data.length, ⟨done.length, slot.mem⟩, q⟩ (by rw [valid.bufCells]; exact inside)
      (by rw [valid.lenCells]; exact inside) (by rw [valid.addrCells]; exact inside)
    rw [valid.visits_concat slot]
    simp only [BurstLocals.store]
    rw [stored, List.map_append, valid.queued]
    simp [List.filter_append, late, single, Mmsghdr.datagram]
  · simpa using Nat.succ_le_succ valid.index
  · simpa [BurstLocals.store] using valid.bufCells
  · simpa [BurstLocals.store] using valid.lenCells
  · simpa [BurstLocals.store] using valid.addrCells

/-- One frame: learned at once, then flooded at once, dropped, or queued. -/
theorem burstBody_invariant (wf : s.bridge.Wf) (slot : Slot) (room : done.length < n)
    (valid : BurstInvariant env s n done l) :
    BurstInvariant env s n (done ++ [slot]) (burstBody env l slot done.length) := by
  rcases burstBody_cases env l slot done.length with
    ⟨everyone, turn⟩ | ⟨home, turn⟩ | ⟨q, known, away, turn⟩
  · rw [turn]
    exact valid.flood wf slot everyone
  · rw [turn]
    exact valid.drop slot home _
  · rw [turn]
    exact valid.queue slot room known away _

end BurstStep

theorem burstLoop_append (env : Env) (l : BurstLocals) (slots : List Slot) (slot : Slot) :
    burstLoop env l (slots ++ [slot]) = burstBody env (burstLoop env l slots) slot slots.length := by
  simp [burstLoop, List.zipIdx_append]

theorem burstLoop_invariant (env : Env) (s : Server) (wf : s.bridge.Wf) (n : Nat) (done : List Slot)
    (within : done.length ≤ n) : BurstInvariant env s n done (burstLoop env (.start s n) done) := by
  induction done using List.reverseRecOn with
  | nil => exact burstStart env s n
  | append_singleton done slot ih =>
    simp only [List.length_append, List.length_cons, List.length_nil] at within
    rw [burstLoop_append]
    exact burstBody_invariant wf slot (by omega) (ih (by omega))

theorem wlanBrHandleBurst_spec (env : Env) (s : Server) (wf : s.bridge.Wf) (slots : List Slot) :
    let s' := wlanBrHandleBurst env s slots
    s'.bridge = learnAll env s.bridge slots ∧ attempted s'.udp.trace = attempted s.udp.trace ++
      Deferred.deferred Visit.late Visit.out (visits env s.bridge 0 slots) := by
  intro s'
  have valid := burstLoop_invariant env s wf slots.length slots (Nat.le_refl _)
  simp only [s', wlanBrHandleBurst]
  split
  · refine ⟨valid.bridge, ?_⟩
    simp only [sendDataToUdpClientBurst_attempted, valid.flooded, valid.queued, Deferred.deferred,
      List.append_assoc]
  · rename_i empty
    have none : (burstLoop env (.start s slots.length) slots).j = 0 := by omega
    have queued := valid.queued
    rw [none] at queued
    refine ⟨valid.bridge, ?_⟩
    rw [valid.flooded, Deferred.deferred, ← queued]
    simp [mmsgOf]

end WlanBridge
