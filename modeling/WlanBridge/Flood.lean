import WlanBridge.Invariant
import Mathlib.Data.List.Induction

/-! What one flood does. The flags set by the first loop are exactly those of the
records sent to, and the second loop clears them all, so on a list whose entries share
records by address a flood is the plain sequence of sends in the order of first occurrence. -/
namespace WlanBridge

theorem nodup_eraseDups [DecidableEq α] (l : List α) : l.eraseDups.Nodup := by
  induction l using List.reverseRecOn with
  | nil => simp
  | append_singleton l a ih =>
    rw [List.eraseDups_append]
    by_cases member : a ∈ l
    · simpa [List.removeAll, member] using ih
    · have absent : a ∉ l.eraseDups := by simpa using member
      have single : ([a].removeAll l).eraseDups = [a] := by
        simp [List.removeAll, member, List.eraseDups_cons]
      rw [single, ← List.concat_eq_append]
      exact ih.concat absent

/-- The peers of some entries in order of first occurrence, without the origin. -/
def Bridge.order (b : Bridge) (origin : SockaddrIn) (entries : List WlanListEntry) : List SockaddrIn :=
  ((entries.filterMap b.addrOf).filter (· ≠ origin)).eraseDups

def Bridge.addrs (b : Bridge) : List SockaddrIn := b.lHead.filterMap b.addrOf

def Bridge.floodOrder (b : Bridge) (origin : SockaddrIn) : List SockaddrIn := b.order origin b.lHead

theorem order_nodup (b : Bridge) (origin : SockaddrIn) (entries : List WlanListEntry) :
    (b.order origin entries).Nodup := nodup_eraseDups _

theorem mem_floodOrder (b : Bridge) (origin q : SockaddrIn) :
    q ∈ b.floodOrder origin ↔ q ≠ origin ∧ q ∈ b.addrs := by
  simp only [Bridge.floodOrder, Bridge.order, Bridge.addrs, List.mem_eraseDups, List.mem_filter,
    decide_eq_true_eq]
  exact and_comm

theorem order_concat (b : Bridge) (origin : SockaddrIn) (entries : List WlanListEntry)
    (address : b.addrOf entry = some a) :
    b.order origin (entries ++ [entry]) =
      if a ∈ b.order origin entries ∨ a = origin then b.order origin entries
      else b.order origin entries ++ [a] := by
  simp only [Bridge.order, List.filterMap_append, List.filterMap_cons, address, List.filterMap_nil,
    List.filter_append, List.eraseDups_append]
  by_cases home : a = origin
  · simp [home, List.removeAll]
  · by_cases seen : ∃ x ∈ entries, b.addrOf x = some a
    · simp [home, seen, List.removeAll]
    · simp [home, seen, List.removeAll, List.eraseDups_cons]

/-- What a flood relies on. `peers` is the heap of this list: every record belongs to an
entry, and two entries have the same record exactly when they have the same address. -/
structure Bridge.Shared (b : Bridge) : Prop where
  pointers : ∀ entry ∈ b.lHead, ∃ p, entry.peerAddr = some p ∧ p < b.peers.length
  used : ∀ p < b.peers.length, ∃ entry ∈ b.lHead, entry.peerAddr = some p
  sharing : ∀ x ∈ b.lHead, ∀ y ∈ b.lHead, x.peerAddr = y.peerAddr ↔ b.addrOf x = b.addrOf y
  flags : ∀ pa ∈ b.peers, pa.floodFlag = 0

theorem Bridge.Wf.sharing (wf : Bridge.Wf b) (first : x ∈ b.lHead) (second : y ∈ b.lHead) :
    x.peerAddr = y.peerAddr ↔ b.addrOf x = b.addrOf y := by
  constructor
  · intro same
    rw [addrOf_eq, addrOf_eq, same]
  · intro same
    obtain ⟨p, left, inLeft⟩ := wf.pointers x first
    obtain ⟨q, right, inRight⟩ := wf.pointers y second
    rw [addrOf_eq, addrOf_eq, left, right, Option.bind_some, Option.bind_some] at same
    have index := (List.getElem?_inj (by simpa using inLeft) wf.records).mp same
    rw [left, right, index]

theorem Bridge.Wf.shared (wf : Bridge.Wf b) : b.Shared :=
  ⟨wf.pointers, wf.used, fun _ first _ second => wf.sharing first second, wf.flags⟩

theorem Bridge.Shared.address (shared : Bridge.Shared b) (member : entry ∈ b.lHead) :
    ∃ a, b.addrOf entry = some a := by
  obtain ⟨p, pointer, bound⟩ := shared.pointers entry member
  exact ⟨b.peers[p].addr, by simp [Bridge.addrOf, Bridge.peerOf, pointer, bound]⟩

theorem Bridge.Shared.records (shared : Bridge.Shared b) : (b.peers.map PeerAddrInfo.addr).Nodup := by
  rw [List.nodup_iff_injective_get]
  rintro ⟨p, inLeft⟩ ⟨q, inRight⟩ same
  simp only [List.get_eq_getElem, List.getElem_map, List.length_map] at same inLeft inRight
  obtain ⟨x, first, left⟩ := shared.used p inLeft
  obtain ⟨y, second, right⟩ := shared.used q inRight
  have addresses : b.addrOf x = b.addrOf y := by
    simp [Bridge.addrOf, Bridge.peerOf, left, right, inLeft, inRight, same]
  have pointers := (shared.sharing x first y second).mpr addresses
  rw [left, right] at pointers
  exact Fin.ext (Option.some.inj pointers)

def mark (visited : List SockaddrIn) (peers : List PeerAddrInfo) : List PeerAddrInfo :=
  peers.map fun pa => if pa.addr ∈ visited then { pa with floodFlag := 1 } else pa

theorem mark_nil (peers : List PeerAddrInfo) : mark [] peers = peers := by simp [mark]

theorem mark_concat (shared : Bridge.Shared b) (visited : List SockaddrIn) (cell : b.peers[p]? = some pa) :
    (mark visited b.peers).modify p (fun pa => { pa with floodFlag := 1 }) =
      mark (visited ++ [pa.addr]) b.peers := by
  apply List.ext_getElem?
  intro q
  simp only [mark, List.getElem?_modify, List.getElem?_map, List.mem_append, List.mem_singleton]
  by_cases here : p = q
  · subst here
    simp [cell]
    split <;> exact ⟨rfl, rfl⟩
  · cases other : b.peers[q]? with
    | none => simp
    | some pb =>
      have apart : pb.addr ≠ pa.addr := by
        intro same
        apply here
        have left : (b.peers.map PeerAddrInfo.addr)[p]? = some pa.addr := by simp [cell]
        have right : (b.peers.map PeerAddrInfo.addr)[q]? = some pa.addr := by simp [other, same]
        have bound := (List.getElem?_eq_some_iff.mp left).1
        exact (List.getElem?_inj bound shared.records).mp (left.trans right.symm)
      simp [here, apart]

theorem floodSend_bridge (env : Env) (len : Nat) (buf : Buf) (s : Server) (addr : SockaddrIn)
    (b : Bridge) : floodSend env len buf { s with bridge := b } addr =
      { floodSend env len buf s addr with bridge := b } := by
  simp only [floodSend]
  split <;> rfl

theorem foldl_floodSend_bridge (env : Env) (len : Nat) (buf : Buf) (s : Server)
    (addrs : List SockaddrIn) :
    (addrs.foldl (floodSend env len buf) s).bridge = s.bridge := by
  induction addrs generalizing s with
  | nil => rfl
  | cons a rest ih =>
    have own : (floodSend env len buf s a).bridge = s.bridge := by
      simp only [floodSend]
      split <;> rfl
    rw [List.foldl_cons, ih, own]

/-- The state inside the first loop: `visited` has been sent to, in this order. -/
def flooding (env : Env) (len : Nat) (buf : Buf) (s : Server) (visited : List SockaddrIn) : Server :=
  { visited.foldl (floodSend env len buf) s with
    bridge := { s.bridge with peers := mark visited s.bridge.peers } }

theorem floodEntry_flooding (env : Env) (len : Nat) (buf : Buf) (origin : SockaddrIn) (s : Server)
    (shared : s.bridge.Shared) (member : entry ∈ s.bridge.lHead) (address : s.bridge.addrOf entry = some a)
    (visited : List SockaddrIn) :
    floodEntry env len buf origin (flooding env len buf s visited) entry =
      flooding env len buf s (if a ∈ visited ∨ a = origin then visited else visited ++ [a]) := by
  obtain ⟨p, pointer, bound⟩ := shared.pointers entry member
  have cell : s.bridge.peers[p]? = some s.bridge.peers[p] := List.getElem?_eq_getElem bound
  have addr : s.bridge.peers[p].addr = a := by
    simpa [Bridge.addrOf, Bridge.peerOf, pointer, cell] using address
  have clear : s.bridge.peers[p].floodFlag = 0 := shared.flags _ (List.getElem_mem bound)
  have read : (mark visited s.bridge.peers)[p]! =
      if a ∈ visited then { s.bridge.peers[p] with floodFlag := 1 } else s.bridge.peers[p] := by
    simp [mark, bound, addr]
  by_cases seen : a ∈ visited
  · rw [if_pos seen] at read
    simp [floodEntry, pointer, flooding, read, seen]
  · rw [if_neg seen] at read
    by_cases home : a = origin
    · have itself : origin.same origin = true := (SockaddrIn.same_iff origin origin).mpr rfl
      simp [floodEntry, pointer, flooding, read, addr, itself, home]
    · have apart : a.same origin = false := by
        rw [Bool.eq_false_iff, ne_eq, SockaddrIn.same_iff]
        exact home
      have marked := mark_concat shared visited cell
      rw [addr] at marked
      have idle : (s.bridge.peers[p].floodFlag == 1) = false := by simp [clear]
      simp only [floodEntry, pointer, flooding, read, addr, idle, apart, Bool.or_self,
        Bool.false_eq_true, if_false, marked, seen, home, or_self, floodSend_bridge,
        List.foldl_append, List.foldl_cons, List.foldl_nil]

/-- The first loop visits the peers in order of first occurrence, each once. -/
theorem foldl_floodEntry (env : Env) (len : Nat) (buf : Buf) (origin : SockaddrIn) (s : Server)
    (shared : s.bridge.Shared) (entries : List WlanListEntry) (within : ∀ e ∈ entries, e ∈ s.bridge.lHead) :
    entries.foldl (floodEntry env len buf origin) s =
      flooding env len buf s (s.bridge.order origin entries) := by
  induction entries using List.reverseRecOn with
  | nil => simp [flooding, Bridge.order, mark_nil]
  | append_singleton done entry ih =>
    have member := within entry (by simp)
    obtain ⟨a, address⟩ := shared.address member
    rw [List.foldl_append, ih (fun e inDone => within e (List.mem_append_left _ inDone)),
      List.foldl_cons, List.foldl_nil, floodEntry_flooding env len buf origin s shared member address,
      order_concat _ _ _ address]

theorem foldl_clearEntry (s : Server) (entries : List WlanListEntry) :
    ∃ cleared, entries.foldl clearEntry s = { s with bridge := { s.bridge with peers := cleared } } ∧
      ∀ q, cleared[q]? = s.bridge.peers[q]?.map fun pa =>
        if ∃ e ∈ entries, e.peerAddr = some q then { pa with floodFlag := 0 } else pa := by
  induction entries using List.reverseRecOn with
  | nil => exact ⟨s.bridge.peers, rfl, by simp⟩
  | append_singleton done entry ih =>
    obtain ⟨cleared, whole, cells⟩ := ih
    rw [List.foldl_append, whole, List.foldl_cons, List.foldl_nil]
    cases pointer : entry.peerAddr with
    | none =>
      refine ⟨cleared, by simp [clearEntry, pointer], ?_⟩
      intro q
      simp [cells, pointer, or_and_right, exists_or]
    | some p =>
      refine ⟨cleared.modify p (fun pa => { pa with floodFlag := 0 }), by simp [clearEntry, pointer], ?_⟩
      intro q
      simp only [List.getElem?_modify, cells, List.mem_append, List.mem_singleton, or_and_right,
        exists_or, exists_eq_left, pointer, Option.some.injEq]
      cases s.bridge.peers[q]? with
      | none => rfl
      | some pa => by_cases before : ∃ e ∈ done, e.peerAddr = some q <;> by_cases here : p = q <;>
          simp [before, here]

/-- A flood counts the frame and sends it to the peers; the stores are restored. -/
theorem wlanBrFlood_shared (env : Env) (s : Server) (shared : s.bridge.Shared) (len : Nat) (buf : Buf)
    (origin : SockaddrIn) :
    wlanBrFlood env s len buf origin = (s.bridge.floodOrder origin).foldl (floodSend env len buf)
      { s with stats := wlanIpStaticUpdateRx env s.stats origin.sinAddr 1 (BitVec.ofNat 32 len) } := by
  simp only [wlanBrFlood]
  generalize counted : ({ s with
    stats := wlanIpStaticUpdateRx env s.stats origin.sinAddr 1 (BitVec.ofNat 32 len) } : Server) = t
  have same : s.bridge = t.bridge := by rw [← counted]
  rw [same] at shared ⊢
  rw [foldl_floodEntry env len buf origin t shared _ (fun _ member => member)]
  obtain ⟨cleared, whole, cells⟩ := foldl_clearEntry
    (flooding env len buf t (t.bridge.order origin t.bridge.lHead)) t.bridge.lHead
  have restored : cleared = t.bridge.peers := by
    apply List.ext_getElem?
    intro q
    rw [cells q]
    simp only [flooding, mark, List.getElem?_map]
    cases cell : t.bridge.peers[q]? with
    | none => rfl
    | some pa =>
      obtain ⟨bound, at_q⟩ := List.getElem?_eq_some_iff.mp cell
      have clear : pa.floodFlag = 0 := shared.flags pa (List.mem_of_getElem? cell)
      have linked := shared.used q bound
      simp only [Option.map_some, linked, if_true, Option.some.injEq]
      split <;> (cases pa; simp_all)
  have kept := foldl_floodSend_bridge env len buf t (t.bridge.floodOrder origin)
  have inner : (flooding env len buf t (t.bridge.order origin t.bridge.lHead)).bridge.lHead =
      t.bridge.lHead := rfl
  rw [inner, whole, restored]
  simp only [flooding, Bridge.floodOrder] at kept ⊢
  generalize (t.bridge.order origin t.bridge.lHead).foldl (floodSend env len buf) t = done at kept ⊢
  obtain ⟨bridge, stats, udp⟩ := done
  simp only at kept
  rw [kept]

theorem wlanBrFlood_eq (env : Env) (s : Server) (wf : s.bridge.Wf) (len : Nat) (buf : Buf)
    (origin : SockaddrIn) :
    wlanBrFlood env s len buf origin = (s.bridge.floodOrder origin).foldl (floodSend env len buf)
      { s with stats := wlanIpStaticUpdateRx env s.stats origin.sinAddr 1 (BitVec.ofNat 32 len) } :=
  wlanBrFlood_shared env s wf.shared len buf origin

end WlanBridge
