import WlanBridge.PointersRefine

/-! The handlers in memory, and whole runs of the server: frames in any order, cut into
batches in any way, with the dumps of the CLI between them. -/
namespace WlanBridge.Pointers

section Handlers
variable (env : Env) {fuel : Nat}

/-- A loop over the ring whose body does to the server what a step does to its abstraction. -/
theorem foreach_refines {body : Nat → Server → Option (Bool × Server)}
    {step : WlanBridge.Server → WlanListEntry → WlanBridge.Server} {p : Server} (rep : Rep p s)
    (turn : ∀ p s el, Rep p s → load (step s (p.bridge.list el)) ≤ fuel →
      ∃ p', body el p = some (true, p') ∧ Rep p' (step s (p.bridge.list el)) ∧
        p'.bridge.lHead = p.bridge.lHead ∧ p'.bridge.list = p.bridge.list)
    (grows : ∀ s entry, load s ≤ load (step s entry)) (enough : load (s.bridge.lHead.foldl step s) ≤ fuel) :
    ∃ p', cdlForeachSafe (fun s : Server => s.bridge.lHead) body fuel p = some p' ∧
      Rep p' (s.bridge.lHead.foldl step s) := by
  have few : p.bridge.listCallocs ≤ fuel := by
    have start := load_foldl grows s s.bridge.lHead
    have same := rep.bridge.listCallocs
    unfold load at start enough
    omega
  refine rep.bridge.list.foreach (fun done p' => Rep p' (done.foldl step s) ∧
    p'.bridge.lHead = p.bridge.lHead ∧ p'.bridge.list = p.bridge.list) _ (fun _ _ reached => reached.2.1) ?_
    (fun _ reached => reached.1) ⟨rep, rfl, rfl⟩ few
  rintro done el rest p₁ split ⟨rep₁, ring, cells⟩
  have before : load ((done ++ [p.bridge.list el]).foldl step s) ≤ fuel := by
    have later := load_foldl grows ((done ++ [p.bridge.list el]).foldl step s) rest
    rw [← List.foldl_append, List.append_assoc, List.singleton_append, ← split] at later
    exact Nat.le_trans later enough
  rw [List.foldl_append, List.foldl_cons, List.foldl_nil] at before ⊢
  obtain ⟨p₂, ran, rep₂, ring₂, cells₂⟩ := turn p₁ _ el rep₁ (cells ▸ before)
  exact ⟨true, p₂, ran, Or.inl ⟨rfl, cells ▸ rep₂, ring₂.trans ring, cells₂.trans cells⟩⟩

theorem floodSend_refines {p : Server} (bridge : BridgeRep p.bridge s.bridge) (stats : StatsRep p.stats s.stats)
    (len : Nat) (buf : Buf) (addr : SockaddrIn) (enough : load (WlanBridge.floodSend env len buf s addr) ≤ fuel) :
    let sent := sendDataToUdpClient env.kernel s.udp len buf addr
    ∃ p', (if sent.1 ≠ len then some (true, { p with udp := sent.2 })
        else (wlanIpStaticUpdateTx env fuel p.stats addr.sinAddr 1 (BitVec.ofNat 32 len)).map fun stats =>
          (true, { p with udp := sent.2, stats := stats })) = some (true, p') ∧
      Rep p' (WlanBridge.floodSend env len buf s addr) ∧ p'.bridge = p.bridge := by
  intro sent
  by_cases short : sent.1 ≠ len
  · have partly : WlanBridge.floodSend env len buf s addr = { s with udp := sent.2 } := if_pos short
    rw [partly]
    exact ⟨_, if_pos short, ⟨bridge, stats, rfl⟩, rfl⟩
  · have whole : WlanBridge.floodSend env len buf s addr = { s with
        udp := sent.2
        stats := WlanBridge.wlanIpStaticUpdateTx env s.stats addr.sinAddr 1 (BitVec.ofNat 32 len) } := if_neg short
    rw [whole] at enough ⊢
    obtain ⟨st, counted, stats'⟩ := wlanIpStaticUpdate_refines env stats addr.sinAddr _
      (Nat.le_trans (Nat.le_add_left _ _) enough)
    refine ⟨{ p with udp := sent.2, stats := st }, ?_, ⟨bridge, stats', rfl⟩, rfl⟩
    rw [if_neg short, wlanIpStaticUpdateTx, counted]
    rfl

theorem floodTurn_refines (len : Nat) (buf : Buf) (currAddr : SockaddrIn) (p : Server) (s : WlanBridge.Server) (el : Nat)
    (rep : Rep p s) (enough : load (WlanBridge.floodEntry env len buf currAddr s (p.bridge.list el)) ≤ fuel) :
    ∃ p', floodTurn env fuel len buf currAddr el p = some (true, p') ∧
      Rep p' (WlanBridge.floodEntry env len buf currAddr s (p.bridge.list el)) ∧
      p'.bridge.lHead = p.bridge.lHead ∧ p'.bridge.list = p.bridge.list := by
  cases pointer : (p.bridge.list el).peerAddr with
  | none =>
    refine ⟨p, by rw [floodTurn, pointer], ?_, rfl, rfl⟩
    rw [WlanBridge.floodEntry, pointer]
    exact rep
  | some q =>
    have peers := rep.bridge.peers
    let pa := s.bridge.peers[q]!
    cases skip : (pa.floodFlag == 1 || pa.addr.same currAddr) with
    | true =>
      have result : WlanBridge.floodEntry env len buf currAddr s (p.bridge.list el) = s := by
        rw [WlanBridge.floodEntry, pointer]
        exact if_pos skip
      rw [result]
      refine ⟨p, ?_, rep, rfl, rfl⟩
      rw [floodTurn, pointer, peers]
      exact if_pos skip
    | false =>
      let marked := s.bridge.peers.modify q fun pa => { pa with floodFlag := 1 }
      let s₁ : WlanBridge.Server := { s with bridge := { s.bridge with peers := marked } }
      let p₁ : Server := { p with bridge := { p.bridge with peers := marked } }
      have result : WlanBridge.floodEntry env len buf currAddr s (p.bridge.list el) =
          WlanBridge.floodSend env len buf s₁ pa.addr := by
        rw [WlanBridge.floodEntry, pointer]
        exact if_neg fun flag => Bool.false_ne_true (skip.symm.trans flag)
      rw [result] at enough ⊢
      have bridge : BridgeRep p₁.bridge s₁.bridge := { rep.bridge with peers := rfl }
      obtain ⟨p', sent, rep', same⟩ :=
        floodSend_refines (p := p₁) (s := s₁) env bridge rep.stats len buf pa.addr enough
      refine ⟨p', ?_, rep', by rw [same], by rw [same]⟩
      rw [← sent, floodTurn, pointer, peers, rep.udp]
      exact if_neg fun flag => Bool.false_ne_true (skip.symm.trans flag)

theorem clearTurn_refines (p : Server) (s : WlanBridge.Server) (el : Nat) (rep : Rep p s) :
    ∃ p', clearTurn el p = some (true, p') ∧ Rep p' (WlanBridge.clearEntry s (p.bridge.list el)) ∧
      p'.bridge.lHead = p.bridge.lHead ∧ p'.bridge.list = p.bridge.list := by
  cases pointer : (p.bridge.list el).peerAddr with
  | none =>
    refine ⟨p, by rw [clearTurn, pointer], ?_, rfl, rfl⟩
    rw [WlanBridge.clearEntry, pointer]
    exact rep
  | some q =>
    let cleared := p.bridge.peers.modify q fun pa => { pa with floodFlag := 0 }
    have result : WlanBridge.clearEntry s (p.bridge.list el) = { s with bridge := { s.bridge with peers := cleared } } := by
      simp only [cleared, rep.bridge.peers]
      rw [WlanBridge.clearEntry, pointer]
    rw [result]
    refine ⟨{ p with bridge := { p.bridge with peers := cleared } }, by rw [clearTurn, pointer], ?_, rfl, rfl⟩
    exact ⟨{ rep.bridge with peers := rfl }, rep.stats, rep.udp⟩

theorem wlanBrFlood_refines {p : Server} (rep : Rep p s) (len : Nat) (buf : Buf) (currAddr : SockaddrIn)
    (enough : load (WlanBridge.wlanBrFlood env s len buf currAddr) ≤ fuel) :
    ∃ p', wlanBrFlood env fuel p len buf currAddr = some p' ∧ Rep p' (WlanBridge.wlanBrFlood env s len buf currAddr) := by
  let s₁ : WlanBridge.Server := { s with
    stats := WlanBridge.wlanIpStaticUpdateRx env s.stats currAddr.sinAddr 1 (BitVec.ofNat 32 len) }
  let s₂ := s₁.bridge.lHead.foldl (WlanBridge.floodEntry env len buf currAddr) s₁
  have cleared : load s₂ ≤ fuel :=
    Nat.le_trans (load_foldl (fun s entry => (clearEntry_load s entry).ge) s₂ s₂.bridge.lHead) enough
  have counted : load s₁ ≤ fuel := Nat.le_trans (load_foldl (floodEntry_load env len buf currAddr) s₁ _) cleared
  obtain ⟨st, updated, stats⟩ := wlanIpStaticUpdate_refines env rep.stats currAddr.sinAddr _
    (Nat.le_trans (Nat.le_add_left _ _) counted)
  obtain ⟨p₂, flooded, rep₂⟩ := foreach_refines (show Rep { p with stats := st } s₁ from ⟨rep.bridge, stats, rep.udp⟩)
    (floodTurn_refines env len buf currAddr) (floodEntry_load env len buf currAddr) cleared
  obtain ⟨p₃, ended, rep₃⟩ := foreach_refines rep₂ (fun p s el rep _ => clearTurn_refines p s el rep)
    (fun s entry => (clearEntry_load s entry).ge) enough
  refine ⟨p₃, ?_, rep₃⟩
  rw [wlanBrFlood, wlanIpStaticUpdateRx, updated, Option.bind_some, flooded, Option.bind_some, ended]

theorem wlanBrForward_refines {p : Server} (rep : Rep p s) (len : Nat) (buf : Buf) (dst : EtherAddr) (currAddr : SockaddrIn)
    (enough : s.bridge.fdbCallocs ≤ fuel) :
    ∃ p', wlanBrForward env fuel p len buf dst currAddr =
        some ((WlanBridge.wlanBrForward env s len buf dst currAddr).1, p') ∧
      Rep p' (WlanBridge.wlanBrForward env s len buf dst currAddr).2 := by
  rcases rep.bridge.fdb.find dst (show p.bridge.fdbCallocs ≤ fuel from rep.bridge.fdbCallocs ▸ enough) with
    ⟨searched, missed⟩ | ⟨e, searched, found, _⟩
  · have result : WlanBridge.wlanBrForward env s len buf dst currAddr = (-1, s) := by
      simp [WlanBridge.wlanBrForward, WlanBridge.wlanBrFind, missed]
    rw [result]
    exact ⟨p, by rw [wlanBrForward, wlanBrFind, searched]; rfl, rep⟩
  · let entry := p.bridge.fdb e
    let sent := sendDataToUdpClient env.kernel s.udp len buf entry.peerAddr
    have abstract : WlanBridge.wlanBrForward env s len buf dst currAddr = if entry.peerAddr.same currAddr then (0, s)
        else if sent.1 ≠ len then (-2, { s with udp := sent.2 }) else (sent.1, { s with udp := sent.2 }) := by
      rw [WlanBridge.wlanBrForward, WlanBridge.wlanBrFind, found]
    have opened : wlanBrForward env fuel p len buf dst currAddr = some (if entry.peerAddr.same currAddr then (0, p)
        else if sent.1 ≠ len then (-2, { p with udp := sent.2 }) else (sent.1, { p with udp := sent.2 })) := by
      rw [wlanBrForward, wlanBrFind, searched, rep.udp]
      rfl
    rw [abstract, opened]
    by_cases home : entry.peerAddr.same currAddr = true
    · rw [if_pos home, if_pos home]
      exact ⟨p, rfl, rep⟩
    · rw [if_neg home, if_neg home]
      refine ⟨{ p with udp := sent.2 }, ?_, ?_⟩
      · split <;> rfl
      · split <;> exact ⟨rep.bridge, rep.stats, rfl⟩

theorem wlanBrForwardToArray_load (s : WlanBridge.Server) (len : Nat) (buf : Buf) (dst : EtherAddr)
    (currAddr : SockaddrIn) : load s ≤ load (WlanBridge.wlanBrForwardToArray env s len buf dst currAddr).2.2 := by
  rcases wlanBrForwardToArray_cases env s len buf dst currAddr with ⟨_, result⟩ | ⟨_, _, _, result⟩ | ⟨_, _, _, result⟩
  · rw [result]
  · rw [result]
    exact Nat.add_le_add_left (update_callocs env _ _ _) _
  · rw [result]
    exact Nat.add_le_add_left (Nat.le_trans (update_callocs env _ _ _) (update_callocs env _ _ _)) _

theorem wlanBrForwardToArray_refines {p : Server} (rep : Rep p s) (len : Nat) (buf : Buf) (dst : EtherAddr)
    (currAddr : SockaddrIn) (enough : load (WlanBridge.wlanBrForwardToArray env s len buf dst currAddr).2.2 ≤ fuel) :
    ∃ p', wlanBrForwardToArray env fuel p len buf dst currAddr =
        some ((WlanBridge.wlanBrForwardToArray env s len buf dst currAddr).1,
          (WlanBridge.wlanBrForwardToArray env s len buf dst currAddr).2.1, p') ∧
      Rep p' (WlanBridge.wlanBrForwardToArray env s len buf dst currAddr).2.2 := by
  have few : p.bridge.fdbCallocs ≤ fuel := by
    have same := rep.bridge.fdbCallocs
    have grown := wlanBrForwardToArray_load env s len buf dst currAddr
    unfold load at grown enough
    omega
  rcases rep.bridge.fdb.find dst few with ⟨searched, missed⟩ | ⟨e, searched, found, _⟩
  · have result : WlanBridge.wlanBrForwardToArray env s len buf dst currAddr = (-1, none, s) := by
      simp [WlanBridge.wlanBrForwardToArray, WlanBridge.wlanBrFind, missed]
    rw [result]
    exact ⟨p, by rw [wlanBrForwardToArray, wlanBrFind, searched]; rfl, rep⟩
  · let entry := p.bridge.fdb e
    let rx := WlanBridge.wlanIpStaticUpdateRx env s.stats currAddr.sinAddr 1 (BitVec.ofNat 32 len)
    let tx := WlanBridge.wlanIpStaticUpdateTx env rx entry.peerAddr.sinAddr 1 (BitVec.ofNat 32 len)
    have abstract : WlanBridge.wlanBrForwardToArray env s len buf dst currAddr =
        if entry.peerAddr.same currAddr then (0, none, { s with stats := rx })
        else (1, some ⟨len, buf, entry.peerAddr⟩, { s with stats := tx }) := by
      rw [WlanBridge.wlanBrForwardToArray, WlanBridge.wlanBrFind, found]
    have opened : wlanBrForwardToArray env fuel p len buf dst currAddr =
        (wlanIpStaticUpdateRx env fuel p.stats currAddr.sinAddr 1 (BitVec.ofNat 32 len)).bind fun stats =>
          if entry.peerAddr.same currAddr then some (0, none, { p with stats := stats })
          else (wlanIpStaticUpdateTx env fuel stats entry.peerAddr.sinAddr 1 (BitVec.ofNat 32 len)).map fun stats =>
            (1, some ⟨len, buf, entry.peerAddr⟩, { p with stats := stats }) := by
      rw [wlanBrForwardToArray, wlanBrFind, searched]
      rfl
    rw [abstract] at enough ⊢
    rw [opened]
    by_cases home : entry.peerAddr.same currAddr = true
    · rw [if_pos home] at enough ⊢
      obtain ⟨st, counted, stats⟩ := wlanIpStaticUpdate_refines env rep.stats currAddr.sinAddr _
        (Nat.le_trans (Nat.le_add_left _ _) enough)
      refine ⟨{ p with stats := st }, ?_, rep.bridge, stats, rep.udp⟩
      rw [wlanIpStaticUpdateRx, counted, Option.bind_some, if_pos home]
    · rw [if_neg home] at enough ⊢
      have second : tx.callocs ≤ fuel := Nat.le_trans (Nat.le_add_left _ _) enough
      have first : rx.callocs ≤ fuel := Nat.le_trans (update_callocs env rx entry.peerAddr.sinAddr _) second
      obtain ⟨st, counted, stats⟩ := wlanIpStaticUpdate_refines env rep.stats currAddr.sinAddr _ first
      obtain ⟨st', counted', stats'⟩ := wlanIpStaticUpdate_refines env stats entry.peerAddr.sinAddr _ second
      refine ⟨{ p with stats := st' }, ?_, rep.bridge, stats', rep.udp⟩
      rw [wlanIpStaticUpdateRx, counted, Option.bind_some, if_neg home, wlanIpStaticUpdateTx, counted']
      rfl

theorem learned_load (s : WlanBridge.Server) (peerAddr : SockaddrIn) (mac : EtherAddr) :
    load s ≤ load { s with bridge := WlanBridge.learn env s.bridge peerAddr mac } :=
  Nat.add_le_add_right (learn_callocs env s.bridge peerAddr mac) _

theorem learned_refines {p : Server} (rep : Rep p s) (wf : s.bridge.Wf) (peerAddr : SockaddrIn) (mac : EtherAddr)
    (enough : load { s with bridge := WlanBridge.learn env s.bridge peerAddr mac } ≤ fuel) :
    ∃ b, learn env fuel p.bridge peerAddr mac = some b ∧
      Rep { p with bridge := b } { s with bridge := WlanBridge.learn env s.bridge peerAddr mac } := by
  obtain ⟨b, learned, bridge⟩ := learn_refines env rep.bridge wf peerAddr mac (Nat.le_trans (Nat.le_add_right _ _) enough)
  exact ⟨b, learned, bridge, rep.stats, rep.udp⟩

theorem wlanBrHandle_eq (s : WlanBridge.Server) (len : Nat) (buf : Buf) (peerAddr : SockaddrIn) :
    let ether := ethhdr buf.mem
    let s₁ : WlanBridge.Server := { s with bridge := WlanBridge.learn env s.bridge peerAddr ether.hSource }
    let r := WlanBridge.wlanBrForward env s₁ len buf ether.hDest peerAddr
    WlanBridge.wlanBrHandle env s len buf peerAddr =
      if isMulticastEtherAddr ether.hDest then WlanBridge.wlanBrFlood env s₁ len buf peerAddr
      else if r.1 = -1 then WlanBridge.wlanBrFlood env r.2 len buf peerAddr else r.2 := rfl

theorem wlanBrHandle_load (s : WlanBridge.Server) (len : Nat) (buf : Buf) (peerAddr : SockaddrIn) :
    load { s with bridge := WlanBridge.learn env s.bridge peerAddr (ethhdr buf.mem).hSource } ≤
      load (WlanBridge.wlanBrHandle env s len buf peerAddr) := by
  rcases wlanBrHandle_cases env s len buf peerAddr with ⟨_, result⟩ | ⟨_, result⟩ | ⟨_, _, _, result⟩
  · rw [result]
    exact wlanBrFlood_load env _ len buf peerAddr
  · rw [result]
  · rw [result]
    exact Nat.le_refl _

theorem wlanBrHandle_refines {p : Server} (rep : Rep p s) (wf : s.bridge.Wf) (len : Nat) (buf : Buf) (peerAddr : SockaddrIn)
    (enough : load (WlanBridge.wlanBrHandle env s len buf peerAddr) ≤ fuel) :
    ∃ p', wlanBrHandle env fuel p len buf peerAddr = some p' ∧
      Rep p' (WlanBridge.wlanBrHandle env s len buf peerAddr) := by
  have bound := Nat.le_trans (wlanBrHandle_load env s len buf peerAddr) enough
  obtain ⟨b, opened, rep₁⟩ := learned_refines env rep wf peerAddr _ bound
  have shape := wlanBrHandle_eq env s len buf peerAddr
  dsimp only at shape
  rw [shape] at enough ⊢
  generalize ({ s with
    bridge := WlanBridge.learn env s.bridge peerAddr (ethhdr buf.mem).hSource } : WlanBridge.Server) = s₁ at *
  by_cases group : isMulticastEtherAddr (ethhdr buf.mem).hDest = true
  · rw [if_pos group] at enough ⊢
    obtain ⟨p', flooded, rep'⟩ := wlanBrFlood_refines env rep₁ len buf peerAddr enough
    refine ⟨p', ?_, rep'⟩
    rw [wlanBrHandle, opened, Option.bind_some, if_pos group, flooded]
  · rw [if_neg group] at enough ⊢
    obtain ⟨p₂, forwarded, rep₂⟩ := wlanBrForward_refines env rep₁ len buf (ethhdr buf.mem).hDest peerAddr
      (Nat.le_trans (Nat.le_trans (Nat.le_add_right _ _) (Nat.le_add_right _ _)) bound)
    by_cases unknown : (WlanBridge.wlanBrForward env s₁ len buf (ethhdr buf.mem).hDest peerAddr).1 = -1
    · rw [if_pos unknown] at enough ⊢
      obtain ⟨p', flooded, rep'⟩ := wlanBrFlood_refines env rep₂ len buf peerAddr enough
      refine ⟨p', ?_, rep'⟩
      rw [wlanBrHandle, opened, Option.bind_some, if_neg group, forwarded, Option.bind_some]
      exact (if_pos unknown).trans flooded
    · rw [if_neg unknown] at enough ⊢
      refine ⟨p₂, ?_, rep₂⟩
      rw [wlanBrHandle, opened, Option.bind_some, if_neg group, forwarded, Option.bind_some]
      exact if_neg unknown

structure LocalsRep (l : BurstLocals) (a : WlanBridge.BurstLocals) : Prop where
  server : Rep l.server a.server
  j : l.j = a.j
  toDataLen : l.toDataLen = a.toDataLen
  toBuf : l.toBuf = a.toBuf
  toPeerAddr : l.toPeerAddr = a.toPeerAddr

theorem LocalsRep.store {l : BurstLocals} (rep : LocalsRep l a) (written : Option ToArray) :
    LocalsRep (written.elim l l.store) (written.elim a a.store) := by
  cases written with
  | none => exact rep
  | some entry =>
    refine ⟨rep.server, rep.j, ?_, ?_, ?_⟩
    · simp only [Option.elim, BurstLocals.store, WlanBridge.BurstLocals.store, rep.j, rep.toDataLen]
    · simp only [Option.elim, BurstLocals.store, WlanBridge.BurstLocals.store, rep.j, rep.toBuf]
    · simp only [Option.elim, BurstLocals.store, WlanBridge.BurstLocals.store, rep.j, rep.toPeerAddr]

theorem burstBody_load (a : WlanBridge.BurstLocals) (slot : Slot) (i : Nat) :
    load { a.server with bridge := a.learned env slot } ≤ load (WlanBridge.burstBody env a slot i).server := by
  rcases burstBody_cases env a slot i with ⟨_, turn⟩ | ⟨_, turn⟩ | ⟨_, _, _, turn⟩
  · rw [turn]
    exact wlanBrFlood_load env _ _ _ _
  · rw [turn]
    exact Nat.add_le_add_left (update_callocs env _ _ _) _
  · rw [turn]
    exact Nat.add_le_add_left (Nat.le_trans (update_callocs env _ _ _) (update_callocs env _ _ _)) _

theorem burstBody_wf (a : WlanBridge.BurstLocals) (wf : a.server.bridge.Wf) (slot : Slot) (i : Nat) :
    (WlanBridge.burstBody env a slot i).server.bridge.Wf := by
  have learned : (a.learned env slot).Wf := learn_wf env wf _ _
  rcases burstBody_cases env a slot i with ⟨_, turn⟩ | ⟨_, turn⟩ | ⟨_, _, _, turn⟩
  · rw [turn, wlanBrFlood_bridge env { a.server with bridge := a.learned env slot } learned]
    exact learned
  · rw [turn]
    exact learned
  · rw [turn]
    exact learned

theorem burstBody_eq (a : WlanBridge.BurstLocals) (slot : Slot) (i : Nat) :
    let ether := ethhdr slot.mem
    let len := slot.data.length
    let s₁ : WlanBridge.Server := { a.server with bridge := a.learned env slot }
    let r := WlanBridge.wlanBrForwardToArray env s₁ len ⟨i, slot.mem⟩ ether.hDest slot.peerAddr
    let a' : WlanBridge.BurstLocals := { (r.2.1.elim a a.store) with server := r.2.2 }
    WlanBridge.burstBody env a slot i =
      if isMulticastEtherAddr ether.hDest then
        { a with server := WlanBridge.wlanBrFlood env s₁ len ⟨i, slot.mem⟩ slot.peerAddr }
      else if r.1 = 1 then { a' with j := a'.j + 1 }
      else if r.1 = -1 then { a' with server := WlanBridge.wlanBrFlood env r.2.2 len ⟨i, slot.mem⟩ slot.peerAddr }
      else a' := rfl

theorem burstBody_refines {l : BurstLocals} (rep : LocalsRep l a) (wf : a.server.bridge.Wf) (slot : Slot) (i : Nat)
    (enough : load (WlanBridge.burstBody env a slot i).server ≤ fuel) :
    ∃ l', burstBody env fuel l slot i = some l' ∧ LocalsRep l' (WlanBridge.burstBody env a slot i) := by
  have bound := Nat.le_trans (burstBody_load env a slot i) enough
  obtain ⟨b, opened, rep₁⟩ := learned_refines env rep.server wf slot.peerAddr _ bound
  have shape := burstBody_eq env a slot i
  dsimp only at shape
  rw [shape] at enough ⊢
  change learn env fuel l.server.bridge slot.peerAddr (ethhdr slot.mem).hSource = some b at opened
  change Rep _ { a.server with bridge := a.learned env slot } at rep₁
  generalize ({ a.server with bridge := a.learned env slot } : WlanBridge.Server) = s₁ at *
  by_cases group : isMulticastEtherAddr (ethhdr slot.mem).hDest = true
  · rw [if_pos group] at enough ⊢
    obtain ⟨p', flooded, rep'⟩ := wlanBrFlood_refines env rep₁ _ ⟨i, slot.mem⟩ slot.peerAddr enough
    refine ⟨{ l with server := p' }, ?_, rep', rep.j, rep.toDataLen, rep.toBuf, rep.toPeerAddr⟩
    dsimp only [burstBody]
    rw [opened, Option.bind_some, if_pos group, flooded]
    rfl
  · rw [if_neg group] at enough ⊢
    generalize result : WlanBridge.wlanBrForwardToArray env s₁ slot.data.length ⟨i, slot.mem⟩ (ethhdr slot.mem).hDest
      slot.peerAddr = r at enough ⊢
    have within : load r.2.2 ≤ fuel := by
      refine Nat.le_trans ?_ enough
      split
      · exact Nat.le_refl _
      · split
        · exact wlanBrFlood_load env _ _ _ _
        · exact Nat.le_refl _
    obtain ⟨p₂, forwarded, rep₂⟩ := wlanBrForwardToArray_refines env rep₁ slot.data.length ⟨i, slot.mem⟩
      (ethhdr slot.mem).hDest slot.peerAddr (result ▸ within)
    rw [result] at forwarded rep₂
    have stored := rep.store r.2.1
    have turn : burstBody env fuel l slot i =
        if r.1 = 1 then some { (r.2.1.elim l l.store) with server := p₂, j := (r.2.1.elim l l.store).j + 1 }
        else if r.1 = -1 then (wlanBrFlood env fuel p₂ slot.data.length ⟨i, slot.mem⟩ slot.peerAddr).map fun s =>
          { (r.2.1.elim l l.store) with server := s }
        else some { (r.2.1.elim l l.store) with server := p₂ } := by
      dsimp only [burstBody]
      rw [opened, Option.bind_some, if_neg group, forwarded]
      rfl
    rw [turn]
    by_cases queued : r.1 = 1
    · rw [if_pos queued, if_pos queued]
      exact ⟨_, rfl, rep₂, congrArg (· + 1) stored.j, stored.toDataLen, stored.toBuf, stored.toPeerAddr⟩
    · rw [if_neg queued] at enough
      rw [if_neg queued, if_neg queued]
      by_cases unknown : r.1 = -1
      · rw [if_pos unknown] at enough
        rw [if_pos unknown, if_pos unknown]
        obtain ⟨p', flooded, rep'⟩ := wlanBrFlood_refines env rep₂ _ ⟨i, slot.mem⟩ slot.peerAddr enough
        rw [flooded]
        exact ⟨_, rfl, rep', stored.j, stored.toDataLen, stored.toBuf, stored.toPeerAddr⟩
      · rw [if_neg unknown, if_neg unknown]
        exact ⟨_, rfl, rep₂, stored.j, stored.toDataLen, stored.toBuf, stored.toPeerAddr⟩

theorem burstLoop_load (a : WlanBridge.BurstLocals) (frames : List (Slot × Nat)) :
    load a.server ≤ load (frames.foldl (fun a f => WlanBridge.burstBody env a f.1 f.2) a).server := by
  induction frames generalizing a with
  | nil => exact Nat.le_refl _
  | cons f rest ih =>
    exact Nat.le_trans (learned_load env a.server _ _) (Nat.le_trans (burstBody_load env a f.1 f.2) (ih _))

theorem burstLoop_refines {l : BurstLocals} (rep : LocalsRep l a) (wf : a.server.bridge.Wf) (frames : List (Slot × Nat))
    (enough : load (frames.foldl (fun a f => WlanBridge.burstBody env a f.1 f.2) a).server ≤ fuel) :
    ∃ l', frames.foldlM (fun l f => burstBody env fuel l f.1 f.2) l = some l' ∧
      LocalsRep l' (frames.foldl (fun a f => WlanBridge.burstBody env a f.1 f.2) a) := by
  induction frames generalizing a l with
  | nil => exact ⟨l, rfl, rep⟩
  | cons f rest ih =>
    obtain ⟨l₁, turned, rep₁⟩ := burstBody_refines env rep wf f.1 f.2 (Nat.le_trans (burstLoop_load env _ rest) enough)
    obtain ⟨l₂, ran, rep₂⟩ := ih rep₁ (burstBody_wf env a wf f.1 f.2) enough
    exact ⟨l₂, by rw [List.foldlM_cons, turned]; exact ran, rep₂⟩

theorem wlanBrHandleBurst_load (s : WlanBridge.Server) (slots : List Slot) :
    load (burstLoop env (.start s slots.length) slots).server = load (WlanBridge.wlanBrHandleBurst env s slots) := by
  unfold WlanBridge.wlanBrHandleBurst
  dsimp only
  split <;> rfl

theorem wlanBrHandleBurst_refines {p : Server} (rep : Rep p s) (wf : s.bridge.Wf) (slots : List Slot)
    (enough : load (WlanBridge.wlanBrHandleBurst env s slots) ≤ fuel) :
    ∃ p', wlanBrHandleBurst env fuel p slots = some p' ∧ Rep p' (WlanBridge.wlanBrHandleBurst env s slots) := by
  have start : LocalsRep (.start p slots.length) (.start s slots.length) := ⟨rep, rfl, rfl, rfl, rfl⟩
  obtain ⟨l, ran, rep'⟩ := burstLoop_refines env start wf slots.zipIdx ((wlanBrHandleBurst_load env s slots).le.trans enough)
  rw [wlanBrHandleBurst, ran]
  refine ⟨_, rfl, ?_⟩
  change Rep _ (if (burstLoop env (.start s slots.length) slots).j > 0 then _ else _)
  change LocalsRep l (burstLoop env (.start s slots.length) slots) at rep'
  dsimp only
  rw [rep'.j, rep'.toDataLen, rep'.toBuf, rep'.toPeerAddr, rep'.server.udp]
  split
  · exact ⟨rep'.server.bridge, rep'.server.stats, rfl⟩
  · exact rep'.server

end Handlers

section Dumps
variable {fuel : Nat}

theorem wlanBrDumpFdb_refines {p : Bridge} (rep : BridgeRep p b) (wf : b.Wf) (enough : b.listCallocs ≤ fuel) :
    ∃ lines, WlanBridge.wlanBrDumpFdb b = some lines ∧ wlanBrDumpFdb fuel p = some lines := by
  let line (entry : WlanListEntry) : Option (List Char) :=
    entry.peerAddr.map fun q => dumpLine (b.peers[q]!).addr entry.keyRemoteMac
  have loop : ∃ s, cdlForeachSafe (fun s : Bridge × List (List Char) => s.1.lHead) dumpFdbTurn fuel (p, []) = some s ∧
      b.lHead.mapM line = some s.2 := by
    refine rep.list.foreach (fun done (s : Bridge × List (List Char)) => s.1 = p ∧ done.mapM line = some s.2) _
      (fun _ s reached => by rw [reached.1]) ?_ (fun s reached => reached.2) ⟨rfl, rfl⟩ (rep.listCallocs ▸ enough)
    rintro done el rest ⟨p', out⟩ split ⟨same, printed⟩
    dsimp only at same printed
    subst p'
    obtain ⟨q, pointer, _⟩ := wf.pointers _ (show p.list el ∈ b.lHead from split ▸ by simp)
    refine ⟨true, (p, out ++ [dumpLine (b.peers[q]!).addr (p.list el).keyRemoteMac]), ?_, Or.inl ⟨rfl, rfl, ?_⟩⟩
    · rw [dumpFdbTurn, pointer, rep.peers]
      rfl
    · rw [List.mapM_append, printed]
      simp [line, pointer]
  obtain ⟨s, ran, printed⟩ := loop
  exact ⟨s.2, printed, by rw [wlanBrDumpFdb, ran]; rfl⟩

theorem showThrouthput_key (stats : WlanIpStatistics) (clock : Option (U64 × U64)) :
    (showThrouthput stats clock).2.keyIp4Addr = stats.keyIp4Addr := by
  cases clock <;> rfl

theorem wlanIpDumpStatic_refines {p : Stats} (rep : StatsRep p st) (clock : U32 → Option (U64 × U64))
    (enough : st.callocs ≤ fuel) :
    ∃ p', wlanIpDumpStatic fuel p clock = some (p', (WlanBridge.wlanIpDumpStatic st clock).1) ∧
      StatsRep p' (WlanBridge.wlanIpDumpStatic st clock).2 := by
  obtain ⟨⟨⟨xs, holds, bound, own, cells⟩, keys⟩, same⟩ := rep
  let shown (e : WlanIpStatistics) := showThrouthput e (clock e.keyIp4Addr)
  let report (e : WlanIpStatistics) : StatReport := ⟨e.keyIp4Addr, statLine e, (shown e).1⟩
  have loop : ∃ s, Links.walk (dumpStaticTurn clock) fuel xs.head? (p, []) = some s ∧
      s.1.hIpStatHead = p.hIpStatHead ∧ s.1.callocs = p.callocs ∧ (∀ x ∈ xs, s.1.ipStat x = (shown (p.ipStat x)).2) ∧
      s.2 = xs.map fun x => report (p.ipStat x) := by
    refine Links.walk_spec (fun done (s : Stats × List StatReport) => s.1.hIpStatHead = p.hIpStatHead ∧
      s.1.callocs = p.callocs ∧ (∀ x, s.1.ipStat x = if x ∈ done then (shown (p.ipStat x)).2 else p.ipStat x) ∧
      s.2 = done.map fun x => report (p.ipStat x)) _ ?_ ?_ ⟨rfl, rfl, by simp, rfl⟩
      (Nat.le_trans (length_le_of_lt holds.distinct bound) (same ▸ enough))
    · rintro done a rest ⟨st', out⟩ split ⟨head, counted, values, printed⟩
      have linked := ((Links.chain_append _ _ done (a :: rest) _).mp (split ▸ holds.app)).2.2.1
      rw [Option.or_none] at linked
      have fresh : a ∉ done := fun member =>
        (List.nodup_append.mp (split ▸ holds.distinct)).2.2 a member a List.mem_cons_self rfl
      have old : st'.ipStat a = p.ipStat a := (values a).trans (if_neg fresh)
      refine ⟨rest.head?, ⟨{ st' with ipStat := Function.update st'.ipStat a (shown (p.ipStat a)).2 },
        out ++ [report (p.ipStat a)]⟩, ?_, Or.inl ⟨rfl, head, counted, fun x => ?_, ?_⟩⟩
      · dsimp only at head
        simp only [dumpStaticTurn, old, head, linked]
        rfl
      · by_cases here : x = a
        · simp [here]
        · simpa [here] using values x
      · dsimp only at printed
        simp [printed]
    · rintro s ⟨head, counted, values, printed⟩
      exact ⟨head, counted, fun x member => (values x).trans (if_pos member), printed⟩
  obtain ⟨⟨p', out⟩, ran, head, counted, values, printed⟩ := loop
  dsimp only at head counted values printed
  have reports : out = (WlanBridge.wlanIpDumpStatic st clock).1 := by
    rw [printed, WlanBridge.wlanIpDumpStatic, ← cells, List.map_map]
    rfl
  refine ⟨p', ?_, ⟨⟨xs, head ▸ holds, counted ▸ bound, fun x member => ?_, ?_⟩, ?_⟩, counted.trans same⟩
  · rw [wlanIpDumpStatic, holds.head, ran, reports]
  · rw [values x member, head, showThrouthput_key, own x member]
  · refine (List.map_congr_left values).trans ?_
    rw [WlanBridge.wlanIpDumpStatic, ← cells]
    dsimp only
    rw [List.map_map]
    rfl
  · rw [WlanBridge.wlanIpDumpStatic, List.map_map]
    refine (List.map_congr_left fun e _ => ?_) ▸ keys
    exact (showThrouthput_key e _).symm

end Dumps

/-- What the receive loop and the CLI ask of the bridge. -/
inductive Request where
  | call (c : Call)
  | showFdb
  | showIpStat (clock : U32 → Option (U64 × U64))

inductive Reply where
  | silent
  | fdb (lines : List (List Char))
  | ipStat (reports : List StatReport)

/-- The answers to some requests and the state behind them, by what answers one. -/
def answers {σ : Type} (answer : σ → Request → Option (Reply × σ)) : σ → List Request → Option (List Reply × σ)
  | s, [] => some ([], s)
  | s, request :: rest => (answer s request).bind fun (reply, s) =>
    (answers answer s rest).map fun (replies, s) => (reply :: replies, s)

def onLists (env : Env) (s : WlanBridge.Server) : Request → Option (Reply × WlanBridge.Server)
  | .call c => some (.silent, c.run env s)
  | .showFdb => (WlanBridge.wlanBrDumpFdb s.bridge).map fun lines => (.fdb lines, s)
  | .showIpStat clock =>
    let (reports, stats) := WlanBridge.wlanIpDumpStatic s.stats clock
    some (.ipStat reports, { s with stats := stats })

def inMemory (env : Env) (fuel : Nat) (p : Server) : Request → Option (Reply × Server)
  | .call (.handle slot) =>
    (wlanBrHandle env fuel p slot.data.length ⟨0, slot.mem⟩ slot.peerAddr).map fun p => (.silent, p)
  | .call (.burst slots) => (wlanBrHandleBurst env fuel p slots).map fun p => (.silent, p)
  | .showFdb => (wlanBrDumpFdb fuel p.bridge).map fun lines => (.fdb lines, p)
  | .showIpStat clock => (wlanIpDumpStatic fuel p.stats clock).map fun (stats, reports) =>
    (.ipStat reports, { p with stats := stats })

theorem onLists_spec (env : Env) (s : WlanBridge.Server) (wf : s.bridge.Wf) (request : Request) :
    ∃ reply s', onLists env s request = some (reply, s') ∧ s'.bridge.Wf ∧ load s ≤ load s' := by
  cases request with
  | call c =>
    refine ⟨_, _, rfl, run_wf env s wf [c], ?_⟩
    cases c with
    | handle slot => exact Nat.le_trans (learned_load env s _ _) (wlanBrHandle_load env s _ _ _)
    | burst slots =>
      exact Nat.le_trans (burstLoop_load env (.start s slots.length) slots.zipIdx) (wlanBrHandleBurst_load env s slots).le
  | showFdb =>
    obtain ⟨lines, printed⟩ : ∃ lines, WlanBridge.wlanBrDumpFdb s.bridge = some lines := by
      let line (entry : WlanListEntry) := dumpLine (s.bridge.peers[entry.peerAddr.getD 0]!).addr entry.keyRemoteMac
      refine ⟨_, mapM_some (g := line) fun entry member => ?_⟩
      obtain ⟨q, pointer, _⟩ := wf.pointers entry member
      simp only [line, pointer, Option.map_some, Option.getD_some]
    exact ⟨.fdb lines, s, by rw [onLists, printed]; rfl, wf, Nat.le_refl _⟩
  | showIpStat clock => exact ⟨_, _, rfl, wf, Nat.le_refl _⟩

theorem inMemory_refines (env : Env) {p : Server} (rep : Rep p s) (wf : s.bridge.Wf) (request : Request)
    (answered : onLists env s request = some (reply, s')) (enough : load s' ≤ fuel) :
    ∃ p', inMemory env fuel p request = some (reply, p') ∧ Rep p' s' := by
  cases request with
  | call c =>
    obtain ⟨rfl, rfl⟩ := Prod.mk.inj (Option.some.inj answered)
    cases c with
    | handle slot =>
      obtain ⟨p', handled, rep'⟩ := wlanBrHandle_refines env rep wf slot.data.length ⟨0, slot.mem⟩ slot.peerAddr enough
      exact ⟨p', by rw [inMemory, handled]; rfl, rep'⟩
    | burst slots =>
      obtain ⟨p', handled, rep'⟩ := wlanBrHandleBurst_refines env rep wf slots enough
      exact ⟨p', by rw [inMemory, handled]; rfl, rep'⟩
  | showFdb =>
    obtain ⟨lines, printed, same⟩ := Option.map_eq_some_iff.mp answered
    obtain ⟨rfl, rfl⟩ := Prod.mk.inj same
    obtain ⟨lines', printed', ran⟩ := wlanBrDumpFdb_refines rep.bridge wf
      (Nat.le_trans (Nat.le_trans (Nat.le_add_left _ _) (Nat.le_add_right _ _)) enough)
    obtain rfl := Option.some.inj (printed.symm.trans printed')
    exact ⟨p, by rw [inMemory, ran]; rfl, rep⟩
  | showIpStat clock =>
    obtain ⟨rfl, rfl⟩ := Prod.mk.inj (Option.some.inj answered)
    obtain ⟨stats, ran, kept⟩ := wlanIpDumpStatic_refines rep.stats clock (Nat.le_trans (Nat.le_add_left _ _) enough)
    exact ⟨{ p with stats := stats }, by rw [inMemory, ran]; rfl, rep.bridge, kept, rep.udp⟩

theorem answers_refine (env : Env) (requests : List Request) : ∀ s : WlanBridge.Server, s.bridge.Wf →
    ∃ replies s', answers (onLists env) s requests = some (replies, s') ∧ load s ≤ load s' ∧
      ∀ fuel p, Rep p s → load s' ≤ fuel → ∃ p', answers (inMemory env fuel) p requests = some (replies, p') ∧ Rep p' s' := by
  induction requests with
  | nil => exact fun s _ => ⟨[], s, rfl, Nat.le_refl _, fun _ p rep _ => ⟨p, rfl, rep⟩⟩
  | cons request rest ih =>
    intro s wf
    obtain ⟨reply, s₁, answered, wf₁, first⟩ := onLists_spec env s wf request
    obtain ⟨replies, s₂, others, later, below⟩ := ih s₁ wf₁
    refine ⟨reply :: replies, s₂, by simp [answers, answered, others], Nat.le_trans first later, ?_⟩
    intro fuel p rep enough
    obtain ⟨p₁, ran, rep₁⟩ := inMemory_refines env rep wf request answered (Nat.le_trans later enough)
    obtain ⟨p₂, all, rep₂⟩ := below fuel p₁ rep₁ enough
    exact ⟨p₂, by simp [answers, ran, all], rep₂⟩

/-- Whatever is received and asked for, the server in memory gives the answers and makes
the system calls of the server on lists, in loops of at most as many turns as allocations
were tried, and its tables pass the integrity check of their library. -/
theorem memory_refines_lists (env : Env) (requests : List Request) :
    ∃ replies s, answers (onLists env) .init requests = some (replies, s) ∧ ∀ extra : Nat,
      ∃ p, answers (inMemory env (load s + extra)) .init requests = some (replies, p) ∧ Rep p s ∧ p.udp = s.udp ∧
        hashFsck (load s + extra) p.bridge.hHead = some () ∧ hashFsck (load s + extra) p.stats.hIpStatHead = some () := by
  obtain ⟨replies, s, listed, _, below⟩ := answers_refine env requests .init init_wf
  refine ⟨replies, s, listed, fun extra => ?_⟩
  obtain ⟨p, ran, rep⟩ := below (load s + extra) .init init_rep (Nat.le_add_right _ _)
  refine ⟨p, ran, rep, rep.udp, ?_, ?_⟩
  · obtain ⟨xs, holds, bound, _⟩ := rep.bridge.fdb.elements
    have few := length_le_of_lt holds.distinct bound
    have same := rep.bridge.fdbCallocs
    exact hashFsck_ok holds (by unfold load; omega)
  · obtain ⟨xs, holds, bound, _⟩ := rep.stats.table.elements
    have few := length_le_of_lt holds.distinct bound
    have same := rep.stats.callocs
    exact hashFsck_ok holds (by unfold load; omega)

end WlanBridge.Pointers
