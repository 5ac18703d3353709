import WlanBridge.Pointers
import WlanBridge.Represents
import WlanBridge.Runs

/-! The server in memory refines the server on lists: with as many turns for each loop as
allocations were tried, every function ends with the result and in the stores that its
abstract counterpart has. -/
namespace WlanBridge.Pointers

structure BridgeRep (p : Bridge) (b : WlanBridge.Bridge) : Prop where
  fdb : Represents macHash WlanFdbEntry.keyRemoteMac p.hHead p.fdb p.fdbCallocs b.hHead
  list : Listed p.lHead p.list p.listCallocs b.lHead
  peers : p.peers = b.peers
  fdbCallocs : p.fdbCallocs = b.fdbCallocs
  listCallocs : p.listCallocs = b.listCallocs
  peerCallocs : p.peerCallocs = b.peerCallocs

structure StatsRep (p : Stats) (st : WlanBridge.Stats) : Prop where
  table : Represents ipHash WlanIpStatistics.keyIp4Addr p.hIpStatHead p.ipStat p.callocs st.hIpStatHead
  callocs : p.callocs = st.callocs

structure Rep (p : Server) (s : WlanBridge.Server) : Prop where
  bridge : BridgeRep p.bridge s.bridge
  stats : StatsRep p.stats s.stats
  udp : p.udp = s.udp

theorem init_rep : Rep .init .init :=
  ⟨⟨represents_empty _ _, listed_empty _ _, rfl, rfl, rfl, rfl⟩, ⟨represents_empty _ _, rfl⟩, rfl⟩

/-- No loop takes more turns than allocations were tried at the sites of the stores. -/
def load (s : WlanBridge.Server) : Nat := s.bridge.fdbCallocs + s.bridge.listCallocs + s.stats.callocs

section Load
variable (env : Env)

theorem load_foldl {α : Type} {f : WlanBridge.Server → α → WlanBridge.Server} (grows : ∀ s a, load s ≤ load (f s a))
    (s : WlanBridge.Server) (l : List α) : load s ≤ load (l.foldl f s) := by
  induction l generalizing s with
  | nil => exact Nat.le_refl _
  | cons a rest ih => exact Nat.le_trans (grows s a) (ih (f s a))

theorem update_callocs (st : WlanBridge.Stats) (ip4Addr : U32) (count : Tatistics → Tatistics) :
    st.callocs ≤ (WlanBridge.wlanIpStaticUpdate env st ip4Addr count).callocs := by
  unfold WlanBridge.wlanIpStaticUpdate
  split
  · exact Nat.le_refl _
  · split <;> exact Nat.le_succ _

theorem floodEntry_load (len : Nat) (buf : Buf) (currAddr : SockaddrIn) (s : WlanBridge.Server) (entry : WlanListEntry) :
    load s ≤ load (WlanBridge.floodEntry env len buf currAddr s entry) := by
  unfold WlanBridge.floodEntry
  split
  · exact Nat.le_refl _
  · dsimp only
    split
    · exact Nat.le_refl _
    · unfold WlanBridge.floodSend
      dsimp only
      split
      · exact Nat.le_refl _
      · exact Nat.add_le_add_left (update_callocs env _ _ _) _

theorem clearEntry_load (s : WlanBridge.Server) (entry : WlanListEntry) : load (WlanBridge.clearEntry s entry) = load s := by
  unfold WlanBridge.clearEntry
  split <;> rfl

theorem wlanBrFlood_load (s : WlanBridge.Server) (len : Nat) (buf : Buf) (currAddr : SockaddrIn) :
    load s ≤ load (WlanBridge.wlanBrFlood env s len buf currAddr) := by
  let counted : WlanBridge.Server := { s with
    stats := WlanBridge.wlanIpStaticUpdateRx env s.stats currAddr.sinAddr 1 (BitVec.ofNat 32 len) }
  have first : load s ≤ load counted := Nat.add_le_add_left (update_callocs env s.stats currAddr.sinAddr _) _
  have second := load_foldl (floodEntry_load env len buf currAddr) counted s.bridge.lHead
  have third := load_foldl (fun s entry => (clearEntry_load s entry).ge)
    (s.bridge.lHead.foldl (WlanBridge.floodEntry env len buf currAddr) counted)
  exact Nat.le_trans first (Nat.le_trans second (third _))

theorem wlanListUpdate_callocs (b : WlanBridge.Bridge) (peerAddr : SockaddrIn) (mac : EtherAddr) :
    b.listCallocs + 1 = (WlanBridge.wlanListUpdate env b peerAddr mac).2.listCallocs := by
  unfold WlanBridge.wlanListUpdate
  split
  · dsimp only
    split
    · rfl
    · rfl
    · split <;> rfl
  · rfl

theorem wlanFdbUpdate_callocs (b : WlanBridge.Bridge) (peerAddr : SockaddrIn) (mac : EtherAddr) :
    b.fdbCallocs ≤ (WlanBridge.wlanFdbUpdate env b peerAddr mac).2.fdbCallocs ∧
    b.listCallocs = (WlanBridge.wlanFdbUpdate env b peerAddr mac).2.listCallocs := by
  unfold WlanBridge.wlanFdbUpdate
  split
  · exact ⟨Nat.le_refl _, rfl⟩
  · split <;> exact ⟨Nat.le_succ _, rfl⟩

theorem learn_callocs (b : WlanBridge.Bridge) (peerAddr : SockaddrIn) (mac : EtherAddr) :
    b.fdbCallocs + b.listCallocs ≤
      (WlanBridge.learn env b peerAddr mac).fdbCallocs + (WlanBridge.learn env b peerAddr mac).listCallocs := by
  obtain ⟨fdb, list⟩ := wlanFdbUpdate_callocs env b peerAddr mac
  unfold WlanBridge.learn
  dsimp only
  split
  · have more := wlanListUpdate_callocs env (WlanBridge.wlanFdbUpdate env b peerAddr mac).2 peerAddr mac
    have same := (wlanListUpdate_fdb env (WlanBridge.wlanFdbUpdate env b peerAddr mac).2 peerAddr mac).2
    omega
  · omega

end Load

section Statistics
variable (env : Env) {fuel : Nat}

theorem wlanIpStaticUpdate_refines {p : Stats} (rep : StatsRep p st) (ip4Addr : U32) (count : Tatistics → Tatistics)
    (enough : (WlanBridge.wlanIpStaticUpdate env st ip4Addr count).callocs ≤ fuel) :
    ∃ p', wlanIpStaticUpdate env fuel p ip4Addr count = some p' ∧
      StatsRep p' (WlanBridge.wlanIpStaticUpdate env st ip4Addr count) := by
  have grown := update_callocs env st ip4Addr count
  have same := rep.callocs
  rcases rep.table.find ip4Addr (show p.callocs ≤ fuel by omega) with ⟨searched, missed⟩ | ⟨e, searched, found, stored⟩
  · by_cases room : env.calloc .ipStatistics st.callocs = true
    · have result : WlanBridge.wlanIpStaticUpdate env st ip4Addr count =
          ⟨Keyed.add st.hIpStatHead ⟨ip4Addr, count .zero, .zero⟩, st.callocs + 1⟩ := by
        simp [WlanBridge.wlanIpStaticUpdate, wlanIpStaticFind, missed, room]
      rw [result] at enough ⊢
      have bound : p.callocs < fuel := same ▸ enough
      obtain ⟨h, added, table⟩ := rep.table.add ⟨ip4Addr, count .zero, .zero⟩ missed bound
      rw [← same] at room
      let ipStat := Function.update p.ipStat p.callocs ⟨ip4Addr, count .zero, .zero⟩
      refine ⟨⟨h, ipStat, p.callocs + 1⟩, ?_, table, by rw [same]⟩
      simp only [wlanIpStaticUpdate, searched, room, if_true, Option.bind_some, added, Option.map_some, ipStat]
    · have result : WlanBridge.wlanIpStaticUpdate env st ip4Addr count = { st with callocs := st.callocs + 1 } := by
        simp [WlanBridge.wlanIpStaticUpdate, wlanIpStaticFind, missed, room]
      rw [result]
      rw [← same] at room
      refine ⟨{ p with callocs := p.callocs + 1 }, ?_, rep.table.later (Nat.le_succ _), by rw [same]⟩
      simp [wlanIpStaticUpdate, searched, room]
  · have result : WlanBridge.wlanIpStaticUpdate env st ip4Addr count =
        { st with
          hIpStatHead := Keyed.adjust WlanIpStatistics.keyIp4Addr st.hIpStatHead ip4Addr fun e =>
            { e with currStat := count e.currStat } } := by
      simp [WlanBridge.wlanIpStaticUpdate, wlanIpStaticFind, found]
    rw [result]
    have changed := stored (fun e => { e with currStat := count e.currStat }) fun _ => rfl
    let entry := p.ipStat e
    refine ⟨{ p with ipStat := Function.update p.ipStat e { entry with currStat := count entry.currStat } }, ?_, changed, same⟩
    rw [wlanIpStaticUpdate, searched]
    rfl

end Statistics

section Learning
variable (env : Env) {fuel : Nat}

theorem wlanFdbUpdate_refines {p : Bridge} (rep : BridgeRep p b) (peerAddr : SockaddrIn) (mac : EtherAddr)
    (enough : (WlanBridge.wlanFdbUpdate env b peerAddr mac).2.fdbCallocs ≤ fuel) :
    ∃ p', wlanFdbUpdate env fuel p peerAddr mac = some ((WlanBridge.wlanFdbUpdate env b peerAddr mac).1, p') ∧
      BridgeRep p' (WlanBridge.wlanFdbUpdate env b peerAddr mac).2 := by
  have grown := (wlanFdbUpdate_callocs env b peerAddr mac).1
  have same := rep.fdbCallocs
  rcases rep.fdb.find mac (show p.fdbCallocs ≤ fuel by omega) with ⟨searched, missed⟩ | ⟨e, searched, found, _⟩
  · by_cases room : env.calloc .fdbEntry b.fdbCallocs = true
    · have result : WlanBridge.wlanFdbUpdate env b peerAddr mac =
          (1, { b with hHead := Keyed.add b.hHead ⟨mac, peerAddr⟩, fdbCallocs := b.fdbCallocs + 1 }) := by
        simp [WlanBridge.wlanFdbUpdate, WlanBridge.wlanBrFind, missed, room]
      rw [result] at enough ⊢
      have bound : p.fdbCallocs < fuel := same ▸ enough
      obtain ⟨h, added, table⟩ := rep.fdb.add ⟨mac, peerAddr⟩ missed bound
      rw [← same] at room
      let fdb := Function.update p.fdb p.fdbCallocs ⟨mac, peerAddr⟩
      refine ⟨{ p with hHead := h, fdb := fdb, fdbCallocs := p.fdbCallocs + 1 }, ?_, table, rep.list, rep.peers,
        by rw [same], rep.listCallocs, rep.peerCallocs⟩
      simp only [wlanFdbUpdate, wlanBrFind, searched, room, if_true, Option.bind_some, added, Option.map_some, fdb]
    · have result : WlanBridge.wlanFdbUpdate env b peerAddr mac = (-1, { b with fdbCallocs := b.fdbCallocs + 1 }) := by
        simp [WlanBridge.wlanFdbUpdate, WlanBridge.wlanBrFind, missed, room]
      rw [result]
      rw [← same] at room
      refine ⟨{ p with fdbCallocs := p.fdbCallocs + 1 }, ?_, rep.fdb.later (Nat.le_succ _), rep.list, rep.peers,
        by rw [same], rep.listCallocs, rep.peerCallocs⟩
      simp [wlanFdbUpdate, wlanBrFind, searched, room]
  · have result : WlanBridge.wlanFdbUpdate env b peerAddr mac = (0, b) := by
      simp [WlanBridge.wlanFdbUpdate, WlanBridge.wlanBrFind, found]
    rw [result]
    exact ⟨p, by rw [wlanFdbUpdate, wlanBrFind, searched]; rfl, rep⟩

def searchResult (p : Bridge) (found : Option Nat) : Bridge × Option Nat :=
  (found.elim p fun q =>
    { p with peers := p.peers.modify q fun pa => { pa with count := pa.count + 1, floodFlag := 0 } }, found)

theorem search_refines {p : Bridge} (listed : Listed p.lHead p.list next entries)
    (valid : ∀ entry ∈ entries, entry.peerAddr ≠ none) (peerAddr : SockaddrIn) (enough : next ≤ fuel) :
    ∃ found, searchPeer p.peers peerAddr entries = .ok found ∧
      cdlForeachSafe (fun s : Bridge × Option Nat => s.1.lHead) (searchTurn peerAddr) fuel (p, none) =
        some (searchResult p found) := by
  have loop : ∃ s, cdlForeachSafe (fun s : Bridge × Option Nat => s.1.lHead) (searchTurn peerAddr) fuel (p, none) = some s ∧
      ∃ found, searchPeer p.peers peerAddr entries = .ok found ∧ s = searchResult p found := by
    refine listed.foreach (fun done s => s = (p, none) ∧
      ∀ rest, searchPeer p.peers peerAddr (done ++ rest) = searchPeer p.peers peerAddr rest) _ ?_ ?_ ?_ ⟨rfl, fun _ => rfl⟩ enough
    · rintro done _ ⟨rfl, _⟩
      rfl
    · rintro done el rest _ split ⟨rfl, skipped⟩
      obtain ⟨q, pointer⟩ := Option.ne_none_iff_exists'.mp (valid (p.list el) (split ▸ by simp))
      cases same : (p.peers[q]!).addr.same peerAddr with
      | true =>
        refine ⟨false, searchResult p (some q), ?_, Or.inr ⟨rfl, some q, ?_, rfl⟩⟩
        · simp only [searchTurn, pointer, Option.map_some, same, if_true]
          rfl
        · rw [split, skipped]
          simp only [searchPeer, pointer, same, if_true]
      | false =>
        refine ⟨true, (p, none), ?_, Or.inl ⟨rfl, rfl, fun more => ?_⟩⟩
        · simp only [searchTurn, pointer, Option.map_some, same, Bool.false_eq_true, if_false]
        · rw [List.append_assoc, skipped]
          simp only [List.singleton_append, searchPeer, pointer, same, Bool.false_eq_true, if_false]
    · rintro _ ⟨rfl, skipped⟩
      exact ⟨none, by simpa [searchPeer] using skipped [], rfl⟩
  obtain ⟨s, ran, found, searched, rfl⟩ := loop
  exact ⟨found, searched, ran⟩

theorem linkElem_refines {p : Bridge} (rep : BridgeRep p b) (mac : EtherAddr) (q : Nat)
    (own : p.list elem = ⟨mac, none⟩) (new : p.listCallocs = elem + 1) (listed : Listed p.lHead p.list elem b.lHead) :
    ∃ p', linkElem p elem q = some (1, p') ∧ BridgeRep p' { b with lHead := ⟨mac, some q⟩ :: b.lHead } := by
  obtain ⟨lHead, pushed, listed'⟩ := (listed.frame ⟨mac, some q⟩).prepend
  rw [Function.update_self, ← new] at listed'
  refine ⟨{ p with list := Function.update p.list elem ⟨mac, some q⟩, lHead := lHead }, ?_, rep.fdb, listed', rep.peers,
    rep.fdbCallocs, rep.listCallocs, rep.peerCallocs⟩
  rw [linkElem, pushed, Option.map_some, own]

theorem attachElem_refines (mac : EtherAddr) {p : Bridge} (rep : BridgeRep p { b with listCallocs := b.listCallocs + 1 })
    (own : p.list b.listCallocs = ⟨mac, none⟩) (listed : Listed p.lHead p.list b.listCallocs b.lHead)
    (room : env.calloc .listEntry b.listCallocs = true) (searched : searchPeer b.peers peerAddr b.lHead = .ok found) :
    ∃ p', attachElem env (searchResult p found).1 peerAddr b.listCallocs found =
        some ((WlanBridge.wlanListUpdate env b peerAddr mac).1, p') ∧
      BridgeRep p' (WlanBridge.wlanListUpdate env b peerAddr mac).2 := by
  have peers : p.peers = b.peers := rep.peers
  have records : p.peerCallocs = b.peerCallocs := rep.peerCallocs
  cases found with
  | some q =>
    have result : WlanBridge.wlanListUpdate env b peerAddr mac = (1, { b with
        peers := b.peers.modify q (fun pa => { pa with count := pa.count + 1, floodFlag := 0 })
        lHead := ⟨mac, some q⟩ :: b.lHead, listCallocs := b.listCallocs + 1 }) := by
      simp [WlanBridge.wlanListUpdate, room, searched]
    rw [result]
    have touched : BridgeRep (searchResult p (some q)).1 { b with
        peers := b.peers.modify q (fun pa => { pa with count := pa.count + 1, floodFlag := 0 })
        listCallocs := b.listCallocs + 1 } :=
      ⟨rep.fdb, rep.list, by rw [← peers]; rfl, rep.fdbCallocs, rep.listCallocs, rep.peerCallocs⟩
    exact linkElem_refines touched mac q own rep.listCallocs listed
  | none =>
    by_cases more : env.calloc .peerAddrInfo b.peerCallocs = true
    · have result : WlanBridge.wlanListUpdate env b peerAddr mac = (1, { b with
          peers := b.peers ++ [⟨peerAddr, 1, 0⟩], lHead := ⟨mac, some b.peers.length⟩ :: b.lHead
          listCallocs := b.listCallocs + 1, peerCallocs := b.peerCallocs + 1 }) := by
        simp [WlanBridge.wlanListUpdate, room, searched, more]
      rw [result]
      have grown : BridgeRep { p with peers := p.peers ++ [⟨peerAddr, 1, 0⟩], peerCallocs := p.peerCallocs + 1 } { b with
          peers := b.peers ++ [⟨peerAddr, 1, 0⟩], listCallocs := b.listCallocs + 1, peerCallocs := b.peerCallocs + 1 } :=
        ⟨rep.fdb, rep.list, by rw [peers], rep.fdbCallocs, rep.listCallocs, by rw [records]⟩
      obtain ⟨p', linked, rep'⟩ := linkElem_refines grown mac b.peers.length own rep.listCallocs listed
      refine ⟨p', ?_, rep'⟩
      rw [← linked, attachElem]
      simp [searchResult, records, more, peers]
    · have result : WlanBridge.wlanListUpdate env b peerAddr mac =
          (0, { b with listCallocs := b.listCallocs + 1, peerCallocs := b.peerCallocs + 1 }) := by
        simp [WlanBridge.wlanListUpdate, room, searched, more]
      rw [result]
      refine ⟨{ p with peerCallocs := p.peerCallocs + 1 }, ?_, rep.fdb, rep.list, rep.peers, rep.fdbCallocs,
        rep.listCallocs, by rw [records]⟩
      rw [attachElem]
      simp [searchResult, records, more]

theorem wlanListUpdate_refines {p : Bridge} (rep : BridgeRep p b) (valid : ∀ entry ∈ b.lHead, entry.peerAddr ≠ none)
    (peerAddr : SockaddrIn) (mac : EtherAddr) (enough : b.listCallocs ≤ fuel) :
    ∃ p', wlanListUpdate env fuel p peerAddr mac = some ((WlanBridge.wlanListUpdate env b peerAddr mac).1, p') ∧
      BridgeRep p' (WlanBridge.wlanListUpdate env b peerAddr mac).2 := by
  have same := rep.listCallocs
  by_cases room : env.calloc .listEntry b.listCallocs = true
  · let stored : Bridge := { p with
      list := Function.update p.list b.listCallocs ⟨mac, none⟩, listCallocs := b.listCallocs + 1 }
    have before : Listed p.lHead p.list b.listCallocs b.lHead := same ▸ rep.list
    have listed : Listed stored.lHead stored.list b.listCallocs b.lHead := before.frame _
    obtain ⟨found, searched, ran⟩ := search_refines listed valid peerAddr enough
    have counted : BridgeRep stored { b with listCallocs := b.listCallocs + 1 } :=
      ⟨rep.fdb, listed.later (Nat.le_succ _), rep.peers, rep.fdbCallocs, rfl, rep.peerCallocs⟩
    obtain ⟨p', attached, rep'⟩ := attachElem_refines env mac counted (Function.update_self ..) listed room
      (show searchPeer b.peers peerAddr b.lHead = .ok found from rep.peers ▸ searched)
    refine ⟨p', ?_, rep'⟩
    rw [wlanListUpdate, same, if_pos room, ← attached]
    exact congrArg (fun result => Option.bind result fun s => attachElem env s.1 peerAddr b.listCallocs s.2) ran
  · have result : WlanBridge.wlanListUpdate env b peerAddr mac = (0, { b with listCallocs := b.listCallocs + 1 }) := by
      simp [WlanBridge.wlanListUpdate, room]
    rw [result]
    refine ⟨{ p with listCallocs := p.listCallocs + 1 }, ?_, rep.fdb,
      rep.list.later (Nat.le_succ _), rep.peers, rep.fdbCallocs, by rw [same], rep.peerCallocs⟩
    rw [wlanListUpdate, same, if_neg room]

theorem learn_refines {p : Bridge} (rep : BridgeRep p b) (wf : b.Wf) (peerAddr : SockaddrIn) (mac : EtherAddr)
    (enough : (WlanBridge.learn env b peerAddr mac).fdbCallocs + (WlanBridge.learn env b peerAddr mac).listCallocs ≤ fuel) :
    ∃ p', learn env fuel p peerAddr mac = some p' ∧ BridgeRep p' (WlanBridge.learn env b peerAddr mac) := by
  obtain ⟨fdb, list⟩ := wlanFdbUpdate_callocs env b peerAddr mac
  have more := wlanListUpdate_callocs env (WlanBridge.wlanFdbUpdate env b peerAddr mac).2 peerAddr mac
  have kept := (wlanListUpdate_fdb env (WlanBridge.wlanFdbUpdate env b peerAddr mac).2 peerAddr mac).2
  have entries : (WlanBridge.wlanFdbUpdate env b peerAddr mac).2.lHead = b.lHead := by
    unfold WlanBridge.wlanFdbUpdate
    split
    · rfl
    · split <;> rfl
  have valid : ∀ entry ∈ (WlanBridge.wlanFdbUpdate env b peerAddr mac).2.lHead, entry.peerAddr ≠ none := by
    intro entry member
    obtain ⟨q, pointer, _⟩ := wf.pointers entry (entries ▸ member)
    simp [pointer]
  unfold WlanBridge.learn at enough ⊢
  dsimp only at enough ⊢
  by_cases entered : (WlanBridge.wlanFdbUpdate env b peerAddr mac).1 = 1
  · rw [if_pos entered] at enough ⊢
    obtain ⟨p₁, updated, rep₁⟩ := wlanFdbUpdate_refines env rep peerAddr mac (show _ ≤ fuel by omega)
    obtain ⟨p₂, linked, rep₂⟩ := wlanListUpdate_refines env rep₁ valid peerAddr mac (show _ ≤ fuel by omega)
    refine ⟨p₂, ?_, rep₂⟩
    rw [learn, updated, Option.bind_some]
    simp only [entered, if_true, linked, Option.map_some]
  · rw [if_neg entered] at enough ⊢
    obtain ⟨p₁, updated, rep₁⟩ := wlanFdbUpdate_refines env rep peerAddr mac (show _ ≤ fuel by omega)
    refine ⟨p₁, ?_, rep₁⟩
    simp only [learn, updated, Option.bind_some, entered, if_false]

end Learning

end WlanBridge.Pointers
