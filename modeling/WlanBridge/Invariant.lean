import WlanBridge.Forward
import Mathlib.Data.List.Nodup

/-! The representation invariant of the forwarding stores, kept by learning under
every pattern of failed allocations. What learning can do is said once, by `Learned`. -/
namespace WlanBridge

theorem SockaddrIn.same_iff (a b : SockaddrIn) : a.same b = true ↔ a = b := by
  cases a; cases b
  simp [SockaddrIn.same]

def Bridge.fdbKeys (b : Bridge) : List EtherAddr := b.hHead.map WlanFdbEntry.keyRemoteMac

def Bridge.listKeys (b : Bridge) : List EtherAddr := b.lHead.map WlanListEntry.keyRemoteMac

def Bridge.peerOf (b : Bridge) (entry : WlanListEntry) : Option PeerAddrInfo :=
  entry.peerAddr.bind fun p => b.peers[p]?

def Bridge.addrOf (b : Bridge) (entry : WlanListEntry) : Option SockaddrIn :=
  (b.peerOf entry).map PeerAddrInfo.addr

/-- Holds between handler calls in every run, failed allocations included. -/
structure Bridge.Wf (b : Bridge) : Prop where
  fdbDistinct : b.fdbKeys.Nodup
  listDistinct : b.listKeys.Nodup
  pointers : ∀ entry ∈ b.lHead, ∃ p, entry.peerAddr = some p ∧ p < b.peers.length
  used : ∀ p < b.peers.length, ∃ entry ∈ b.lHead, entry.peerAddr = some p
  records : (b.peers.map PeerAddrInfo.addr).Nodup
  flags : ∀ pa ∈ b.peers, pa.floodFlag = 0
  agree : ∀ entry ∈ b.lHead, ∃ known ∈ b.hHead,
    known.keyRemoteMac = entry.keyRemoteMac ∧ b.addrOf entry = some known.peerAddr
  alive : b.fault = false

theorem init_wf : Bridge.init.Wf := by
  constructor <;> simp [Bridge.init, Bridge.fdbKeys, Bridge.listKeys]

/-- Everything the opening statement of the handlers can do to the stores. -/
inductive Learned (env : Env) (b : Bridge) (peerAddr : SockaddrIn) (mac : EtherAddr) : Bridge → Prop
  | known (found : wlanBrFind b mac = some entry) : Learned env b peerAddr mac b
  | fdbFull (unknown : wlanBrFind b mac = none) (failed : env.calloc .fdbEntry b.fdbCallocs = false) :
      Learned env b peerAddr mac { b with fdbCallocs := b.fdbCallocs + 1 }
  | listFull (unknown : wlanBrFind b mac = none) (first : env.calloc .fdbEntry b.fdbCallocs = true)
      (failed : env.calloc .listEntry b.listCallocs = false) :
      Learned env b peerAddr mac { b with
        hHead := Keyed.add b.hHead ⟨mac, peerAddr⟩
        fdbCallocs := b.fdbCallocs + 1, listCallocs := b.listCallocs + 1 }
  | shared (p : Nat) (pa : PeerAddrInfo) (unknown : wlanBrFind b mac = none)
      (first : env.calloc .fdbEntry b.fdbCallocs = true)
      (second : env.calloc .listEntry b.listCallocs = true)
      (cell : b.peers[p]? = some pa) (same : pa.addr = peerAddr) :
      Learned env b peerAddr mac { b with
        hHead := Keyed.add b.hHead ⟨mac, peerAddr⟩
        peers := b.peers.modify p (fun pa => { pa with count := pa.count + 1, floodFlag := 0 })
        lHead := ⟨mac, some p⟩ :: b.lHead
        fdbCallocs := b.fdbCallocs + 1, listCallocs := b.listCallocs + 1 }
  | peerFull (unknown : wlanBrFind b mac = none) (first : env.calloc .fdbEntry b.fdbCallocs = true)
      (second : env.calloc .listEntry b.listCallocs = true)
      (absent : peerAddr ∉ b.peers.map PeerAddrInfo.addr)
      (failed : env.calloc .peerAddrInfo b.peerCallocs = false) :
      Learned env b peerAddr mac { b with
        hHead := Keyed.add b.hHead ⟨mac, peerAddr⟩
        fdbCallocs := b.fdbCallocs + 1, listCallocs := b.listCallocs + 1
        peerCallocs := b.peerCallocs + 1 }
  | fresh (unknown : wlanBrFind b mac = none) (first : env.calloc .fdbEntry b.fdbCallocs = true)
      (second : env.calloc .listEntry b.listCallocs = true)
      (absent : peerAddr ∉ b.peers.map PeerAddrInfo.addr)
      (third : env.calloc .peerAddrInfo b.peerCallocs = true) :
      Learned env b peerAddr mac { b with
        hHead := Keyed.add b.hHead ⟨mac, peerAddr⟩
        peers := b.peers ++ [⟨peerAddr, 1, 0⟩]
        lHead := ⟨mac, some b.peers.length⟩ :: b.lHead
        fdbCallocs := b.fdbCallocs + 1, listCallocs := b.listCallocs + 1
        peerCallocs := b.peerCallocs + 1 }

/-- With valid pointers the search answers with a record of the peer, and misses
only when no entry of the list has one. -/
theorem searchPeer_cases (peers : List PeerAddrInfo) (peerAddr : SockaddrIn) (entries : List WlanListEntry)
    (valid : ∀ entry ∈ entries, ∃ p, entry.peerAddr = some p ∧ p < peers.length) :
    (∃ p pa, searchPeer peers peerAddr entries = .ok (some p) ∧ peers[p]? = some pa ∧
      pa.addr = peerAddr) ∨
    (searchPeer peers peerAddr entries = .ok none ∧
      ∀ entry ∈ entries, ∀ p pa, entry.peerAddr = some p → peers[p]? = some pa → pa.addr ≠ peerAddr) := by
  induction entries with
  | nil => exact Or.inr ⟨rfl, by simp⟩
  | cons entry rest ih =>
    obtain ⟨p, pointer, bound⟩ := valid entry (by simp)
    have cell : peers[p]? = some peers[p] := List.getElem?_eq_getElem bound
    have read : peers[p]! = peers[p] := by simp [bound]
    by_cases same : peers[p].addr = peerAddr
    · refine Or.inl ⟨p, peers[p], ?_, cell, same⟩
      simp [searchPeer, pointer, read, SockaddrIn.same_iff, same]
    · have skip : searchPeer peers peerAddr (entry :: rest) = searchPeer peers peerAddr rest := by
        simp [searchPeer, pointer, read, SockaddrIn.same_iff, same]
      rcases ih (fun e member => valid e (List.mem_cons_of_mem _ member)) with found | ⟨missed, apart⟩
      · rw [skip]; exact Or.inl found
      · refine Or.inr ⟨skip.trans missed, ?_⟩
        intro e member q pa at_q cell_q
        rcases List.mem_cons.mp member with rfl | member
        · have index : p = q := Option.some.inj (pointer.symm.trans at_q)
          subst index
          rw [cell] at cell_q
          obtain rfl := Option.some.inj cell_q
          exact same
        · exact apart e member q pa at_q cell_q

theorem learn_known (found : wlanBrFind b mac = some entry) : learn env b peerAddr mac = b := by
  simp [learn, wlanFdbUpdate, found]

theorem learn_fdbFull (unknown : wlanBrFind b mac = none)
    (failed : env.calloc .fdbEntry b.fdbCallocs = false) :
    learn env b peerAddr mac = { b with fdbCallocs := b.fdbCallocs + 1 } := by
  simp [learn, wlanFdbUpdate, unknown, failed]

theorem learn_new (unknown : wlanBrFind b mac = none) (first : env.calloc .fdbEntry b.fdbCallocs = true) :
    learn env b peerAddr mac = (wlanListUpdate env { b with
      hHead := Keyed.add b.hHead ⟨mac, peerAddr⟩, fdbCallocs := b.fdbCallocs + 1 } peerAddr mac).2 := by
  simp [learn, wlanFdbUpdate, unknown, first]

theorem wlanListUpdate_fdb (env : Env) (b : Bridge) (peerAddr : SockaddrIn) (mac : EtherAddr) :
    (wlanListUpdate env b peerAddr mac).2.hHead = b.hHead ∧
    (wlanListUpdate env b peerAddr mac).2.fdbCallocs = b.fdbCallocs := by
  unfold wlanListUpdate
  split
  · dsimp only
    split
    · exact ⟨rfl, rfl⟩
    · exact ⟨rfl, rfl⟩
    · split <;> exact ⟨rfl, rfl⟩
  · exact ⟨rfl, rfl⟩

theorem learn_hHead (env : Env) (b : Bridge) (peerAddr : SockaddrIn) (mac : EtherAddr) :
    (learn env b peerAddr mac).hHead = b.hHead ∨
      (learn env b peerAddr mac).hHead = Keyed.add b.hHead ⟨mac, peerAddr⟩ := by
  cases found : wlanBrFind b mac with
  | some entry =>
    rw [learn_known found]
    exact Or.inl rfl
  | none =>
    cases first : env.calloc .fdbEntry b.fdbCallocs with
    | false =>
      rw [learn_fdbFull found first]
      exact Or.inl rfl
    | true =>
      rw [learn_new found first, (wlanListUpdate_fdb ..).1]
      exact Or.inr rfl

theorem learn_spec (env : Env) (b : Bridge) (peerAddr : SockaddrIn) (mac : EtherAddr) (wf : b.Wf) :
    Learned env b peerAddr mac (learn env b peerAddr mac) := by
  cases found : wlanBrFind b mac with
  | some entry =>
    rw [learn_known found]
    exact .known found
  | none =>
    cases first : env.calloc .fdbEntry b.fdbCallocs with
    | false =>
      rw [learn_fdbFull found first]
      exact .fdbFull found first
    | true =>
      rw [learn_new found first]
      cases second : env.calloc .listEntry b.listCallocs with
      | false =>
        simp only [wlanListUpdate, second, Bool.false_eq_true, if_false]
        exact .listFull found first second
      | true =>
        rcases searchPeer_cases b.peers peerAddr b.lHead wf.pointers with
          ⟨p, pa, hit, cell, same⟩ | ⟨miss, apart⟩
        · simp only [wlanListUpdate, second, if_true, hit]
          exact .shared p pa found first second cell same
        · have absent : peerAddr ∉ b.peers.map PeerAddrInfo.addr := by
            intro member
            obtain ⟨pa, inPeers, same⟩ := List.mem_map.mp member
            obtain ⟨p, bound, rfl⟩ := List.getElem_of_mem inPeers
            obtain ⟨entry, inList, pointer⟩ := wf.used p bound
            exact apart entry inList p _ pointer (List.getElem?_eq_getElem bound) same
          cases third : env.calloc .peerAddrInfo b.peerCallocs with
          | false =>
            simp only [wlanListUpdate, second, if_true, miss, third, Bool.false_eq_true, if_false]
            exact .peerFull found first second absent third
          | true =>
            simp only [wlanListUpdate, second, if_true, miss, third]
            exact .fresh found first second absent third

theorem addrOf_eq (b : Bridge) (entry : WlanListEntry) :
    b.addrOf entry = entry.peerAddr.bind fun p => (b.peers.map PeerAddrInfo.addr)[p]? := by
  cases pointer : entry.peerAddr <;> simp [Bridge.addrOf, Bridge.peerOf, pointer]

theorem modify_addr (peers : List PeerAddrInfo) (p : Nat) (f : PeerAddrInfo → PeerAddrInfo)
    (keeps : ∀ pa, (f pa).addr = pa.addr) :
    (peers.modify p f).map PeerAddrInfo.addr = peers.map PeerAddrInfo.addr := by
  apply List.ext_getElem?
  intro q
  simp only [List.getElem?_map, List.getElem?_modify]
  cases peers[q]? <;> simp
  split <;> simp [keeps]

theorem mem_modify (peers : List PeerAddrInfo) (p : Nat) (f : PeerAddrInfo → PeerAddrInfo)
    (member : pa ∈ peers.modify p f) : pa ∈ peers ∨ ∃ old ∈ peers, pa = f old := by
  obtain ⟨q, at_q⟩ := List.mem_iff_getElem?.mp member
  rw [List.getElem?_modify] at at_q
  cases cell : peers[q]? with
  | none => simp [cell] at at_q
  | some old =>
    have inPeers : old ∈ peers := List.mem_of_getElem? cell
    by_cases here : p = q
    · simp only [cell, here, if_true, Option.map_eq_map, Option.map_some, Option.some.injEq] at at_q
      exact Or.inr ⟨old, inPeers, at_q.symm⟩
    · simp only [cell, here, if_false, Option.map_eq_map, Option.map_some, Option.some.injEq] at at_q
      exact Or.inl (at_q ▸ inPeers)

section Preservation
variable {b : Bridge} {mac : EtherAddr} {peerAddr : SockaddrIn}

theorem Bridge.Wf.listed_known (wf : b.Wf) (member : mac ∈ b.listKeys) : mac ∈ b.fdbKeys := by
  obtain ⟨entry, inList, rfl⟩ := List.mem_map.mp member
  obtain ⟨known, inTable, same, _⟩ := wf.agree entry inList
  exact List.mem_map.mpr ⟨known, inTable, same⟩

theorem Bridge.Wf.counters (wf : b.Wf) (i j k : Nat) :
    Bridge.Wf { b with fdbCallocs := i, listCallocs := j, peerCallocs := k } :=
  ⟨wf.fdbDistinct, wf.listDistinct, wf.pointers, wf.used, wf.records, wf.flags, wf.agree, wf.alive⟩

theorem Bridge.Wf.addFdb (wf : b.Wf) (unknown : wlanBrFind b mac = none) :
    Bridge.Wf { b with hHead := Keyed.add b.hHead ⟨mac, peerAddr⟩ } where
  fdbDistinct := Keyed.add_nodup wf.fdbDistinct unknown
  listDistinct := wf.listDistinct
  pointers := wf.pointers
  used := wf.used
  records := wf.records
  flags := wf.flags
  agree := by
    intro entry member
    obtain ⟨known, inTable, same⟩ := wf.agree entry member
    exact ⟨known, List.mem_append_left _ inTable, same⟩
  alive := wf.alive

theorem Bridge.Wf.touch (wf : b.Wf) (p : Nat) (f : PeerAddrInfo → PeerAddrInfo)
    (keeps : ∀ pa, (f pa).addr = pa.addr) (clears : ∀ pa, (f pa).floodFlag = 0) :
    Bridge.Wf { b with peers := b.peers.modify p f } where
  fdbDistinct := wf.fdbDistinct
  listDistinct := wf.listDistinct
  pointers := by simpa using wf.pointers
  used := by simpa using wf.used
  records := by
    rw [modify_addr b.peers p f keeps]
    exact wf.records
  flags := by
    intro pa member
    rcases mem_modify b.peers p f member with old | ⟨old, _, rfl⟩
    · exact wf.flags pa old
    · exact clears old
  agree := by
    intro entry member
    obtain ⟨known, inTable, same, address⟩ := wf.agree entry member
    refine ⟨known, inTable, same, ?_⟩
    rw [addrOf_eq] at address ⊢
    rw [← address, modify_addr b.peers p f keeps]
  alive := wf.alive

theorem Bridge.Wf.link (wf : b.Wf) (held : ⟨mac, peerAddr⟩ ∈ b.hHead) (unlisted : mac ∉ b.listKeys)
    (cell : (b.peers.map PeerAddrInfo.addr)[p]? = some peerAddr) :
    Bridge.Wf { b with lHead := ⟨mac, some p⟩ :: b.lHead } where
  fdbDistinct := wf.fdbDistinct
  listDistinct := List.nodup_cons.mpr ⟨unlisted, wf.listDistinct⟩
  pointers := by
    have bound : p < b.peers.length := by
      simpa using (List.getElem?_eq_some_iff.mp cell).1
    intro entry member
    rcases List.mem_cons.mp member with rfl | member
    · exact ⟨p, rfl, bound⟩
    · exact wf.pointers entry member
  used := by
    intro q bound
    obtain ⟨entry, member, pointer⟩ := wf.used q bound
    exact ⟨entry, List.mem_cons_of_mem _ member, pointer⟩
  records := wf.records
  flags := wf.flags
  agree := by
    intro entry member
    rcases List.mem_cons.mp member with rfl | member
    · refine ⟨_, held, rfl, ?_⟩
      rw [addrOf_eq]
      exact cell
    · exact wf.agree entry member
  alive := wf.alive

theorem Bridge.Wf.linkFresh (wf : b.Wf) (held : ⟨mac, peerAddr⟩ ∈ b.hHead) (unlisted : mac ∉ b.listKeys)
    (absent : peerAddr ∉ b.peers.map PeerAddrInfo.addr) :
    Bridge.Wf { b with
      peers := b.peers ++ [⟨peerAddr, 1, 0⟩], lHead := ⟨mac, some b.peers.length⟩ :: b.lHead } where
  fdbDistinct := wf.fdbDistinct
  listDistinct := List.nodup_cons.mpr ⟨unlisted, wf.listDistinct⟩
  pointers := by
    intro entry member
    rcases List.mem_cons.mp member with rfl | member
    · exact ⟨_, rfl, by simp⟩
    · obtain ⟨p, pointer, bound⟩ := wf.pointers entry member
      refine ⟨p, pointer, ?_⟩
      simp only [List.length_append, List.length_cons, List.length_nil]
      omega
  used := by
    intro q bound
    by_cases last : q = b.peers.length
    · exact ⟨_, List.mem_cons_self, by rw [last]⟩
    · simp only [List.length_append, List.length_cons, List.length_nil] at bound
      obtain ⟨entry, member, pointer⟩ := wf.used q (by omega)
      exact ⟨entry, List.mem_cons_of_mem _ member, pointer⟩
  records := by
    rw [List.map_append, List.map_cons, List.map_nil, ← List.concat_eq_append]
    exact wf.records.concat absent
  flags := by
    intro pa member
    rcases List.mem_append.mp member with old | new
    · exact wf.flags pa old
    · obtain rfl := List.mem_singleton.mp new
      rfl
  agree := by
    intro entry member
    rcases List.mem_cons.mp member with rfl | member
    · refine ⟨_, held, rfl, ?_⟩
      simp [addrOf_eq]
    · obtain ⟨known, inTable, same, address⟩ := wf.agree entry member
      refine ⟨known, inTable, same, ?_⟩
      obtain ⟨p, pointer, bound⟩ := wf.pointers entry member
      rw [addrOf_eq, pointer, Option.bind_some] at address ⊢
      rw [← address, List.map_append, List.getElem?_append_left (by simpa using bound)]
  alive := wf.alive

theorem learn_wf (env : Env) (wf : b.Wf) (peerAddr : SockaddrIn) (mac : EtherAddr) :
    (learn env b peerAddr mac).Wf := by
  have unlisted (unknown : wlanBrFind b mac = none) : mac ∉ b.listKeys := fun member =>
    Keyed.find_eq_none.mp unknown (wf.listed_known member)
  have held : ⟨mac, peerAddr⟩ ∈ Keyed.add b.hHead ⟨mac, peerAddr⟩ := by simp [Keyed.add]
  generalize next : learn env b peerAddr mac = b'
  have step := learn_spec env b peerAddr mac wf
  rw [next] at step
  cases step with
  | known _ => exact wf
  | fdbFull _ _ => exact wf.counters _ _ _
  | listFull unknown _ _ => exact (wf.addFdb unknown).counters _ _ _
  | peerFull unknown _ _ _ _ => exact (wf.addFdb unknown).counters _ _ _
  | shared p pa unknown _ _ cell same =>
    let join (pa : PeerAddrInfo) : PeerAddrInfo := { pa with count := pa.count + 1, floodFlag := 0 }
    have added : Bridge.Wf { b with hHead := Keyed.add b.hHead ⟨mac, peerAddr⟩ } := wf.addFdb unknown
    have touched := added.touch p join (fun _ => rfl) (fun _ => rfl)
    have cell' : ((b.peers.modify p join).map PeerAddrInfo.addr)[p]? = some peerAddr := by
      rw [modify_addr b.peers p join (fun _ => rfl), List.getElem?_map, cell, Option.map_some, same]
    exact (touched.link held (unlisted unknown) cell').counters _ _ _
  | fresh unknown _ _ absent _ =>
    exact ((wf.addFdb unknown).linkFresh held (unlisted unknown) absent).counters _ _ _

end Preservation

end WlanBridge
