import WlanBridge.Atomicity
import WlanBridge.Independence

/-! The reference count over whole runs. A record has one list entry for each station first
seen from its address; the field has 16 bits, the increment no bound, and the count is exact
in exactly those runs in which every address brings fewer than 65536 stations. -/
namespace WlanBridge

/-- The field tells the entries that point to the record, and is never 0. -/
def Bridge.CountExact (b : Bridge) : Prop :=
  ∀ p pa, b.peers[p]? = some pa → pa.count.toNat = b.users p ∧ pa.count ≠ 0

/-- The source MACs whose first frame came from the address. -/
def stations (slots : List Slot) (peerAddr : SockaddrIn) : Finset EtherAddr :=
  Learning.keysOf (readings slots) peerAddr

section OneState
variable {b : Bridge}

theorem Bridge.Wf.users_pos (wf : b.Wf) (bound : p < b.peers.length) : 0 < b.users p := by
  obtain ⟨entry, member, pointer⟩ := wf.used p bound
  exact List.countP_pos_iff.mpr ⟨entry, member, decide_eq_true pointer⟩

theorem Bridge.Counted.exact_iff (counted : b.Counted) (wf : b.Wf) :
    b.CountExact ↔ ∀ p < b.peers.length, b.users p < 2 ^ 16 := by
  constructor
  · intro exact_ p bound
    have counts := (exact_ p _ (List.getElem?_eq_getElem bound)).1
    have width := b.peers[p].count.isLt
    omega
  · intro fits p pa cell
    have bound : p < b.peers.length := (List.getElem?_eq_some_iff.mp cell).1
    have tells : pa.count.toNat = b.users p := by
      rw [counted p pa cell, BitVec.toNat_ofNat, Nat.mod_eq_of_lt (fits p bound)]
    refine ⟨tells, ?_⟩
    intro zero
    have used := wf.users_pos bound
    have unused : b.users p = 0 := by
      rw [← tells, zero]
      rfl
    omega

theorem Bridge.Wf.users_card (wf : b.Wf) (synced : b.Synced) (cell : b.peers[p]? = some pa)
    (macs : Finset EtherAddr) (own : ∀ mac, mac ∈ macs ↔ b.table mac = some pa.addr) :
    b.users p = macs.card := by
  have distinct := wf.listDistinct.filter fun mac => decide (b.table mac = some pa.addr)
  have pointing : b.users p = (b.listKeys.filter fun mac => b.table mac = some pa.addr).length := by
    rw [wf.users_eq cell, wf.rows_table, List.countP_map, List.countP_eq_length_filter]
    rfl
  rw [pointing, ← List.toFinset_card_of_nodup distinct]
  congr 1
  ext mac
  rw [List.mem_toFinset, List.mem_filter, wf.listed_iff synced, decide_eq_true_iff, own]
  constructor
  · exact And.right
  · intro held
    exact ⟨by rw [held]; rfl, held⟩

end OneState

section Run
variable {env : Env}

theorem run_users (ok : env.Allocates) (calls : List Call)
    (cell : (run env .init calls).bridge.peers[p]? = some pa) :
    (run env .init calls).bridge.users p = (stations (frames calls) pa.addr).card := by
  apply (run_wf env .init init_wf calls).users_card (run_synced env ok calls) cell (stations _ _)
  intro mac
  rw [run_readings env ok, stations, Learning.mem_keysOf]

theorem run_record (ok : env.Allocates) (calls : List Call) {mac : EtherAddr} {peerAddr : SockaddrIn}
    (member : mac ∈ stations (frames calls) peerAddr) :
    ∃ (p : Nat) (pa : PeerAddrInfo),
      (run env .init calls).bridge.peers[p]? = some pa ∧ pa.addr = peerAddr := by
  have wf := run_wf env .init init_wf calls
  rw [stations, Learning.mem_keysOf, ← run_readings env ok] at member
  have listed := (mem_addrs wf (run_synced env ok calls) peerAddr).mpr ⟨mac, member⟩
  obtain ⟨pa, inPeers, address⟩ := List.mem_map.mp ((mem_addrs_iff wf peerAddr).mp listed)
  obtain ⟨p, cell⟩ := List.mem_iff_getElem?.mp inPeers
  exact ⟨p, pa, cell, address⟩

theorem run_exact_iff (ok : env.Allocates) (calls : List Call) :
    (run env .init calls).bridge.CountExact ↔
      ∀ peerAddr, (stations (frames calls) peerAddr).card < 2 ^ 16 := by
  rw [(run_counted env calls).exact_iff (run_wf env .init init_wf calls)]
  constructor
  · intro fits peerAddr
    rcases (stations (frames calls) peerAddr).eq_empty_or_nonempty with none_ | ⟨mac, member⟩
    · simp [none_]
    · obtain ⟨p, pa, cell, rfl⟩ := run_record ok calls member
      rw [← run_users ok calls cell]
      exact fits p (List.getElem?_eq_some_iff.mp cell).1
  · intro few p bound
    rw [run_users ok calls (List.getElem?_eq_getElem bound)]
    exact few _

end Run

theorem stations_subset (slots more : List Slot) (peerAddr : SockaddrIn) :
    stations slots peerAddr ⊆ stations (slots ++ more) peerAddr := by
  simp only [stations, readings, List.map_append]
  exact Learning.keysOf_subset _ _ peerAddr

theorem stations_card_le (slots : List Slot) (peerAddr : SockaddrIn) :
    (stations slots peerAddr).card ≤ slots.length := by
  calc (stations slots peerAddr).card
      ≤ ((readings slots).map Prod.fst).toFinset.card := Finset.card_filter_le _ _
    _ ≤ ((readings slots).map Prod.fst).length := List.toFinset_card_le _
    _ = slots.length := by rw [readings, List.length_map, List.length_map]

/-- The count is exact in every state of a run exactly where no address is the first sender
of 65536 source MACs or more. -/
theorem count_exact_iff (env : Env) (ok : env.Allocates) (calls : List Call) :
    (∀ before, before <+: calls → (run env .init before).bridge.CountExact) ↔
      ∀ peerAddr, (stations (frames calls) peerAddr).card < 2 ^ 16 := by
  constructor
  · intro exact_
    exact (run_exact_iff ok calls).mp (exact_ calls List.prefix_rfl)
  · rintro few before ⟨after, rfl⟩
    rw [run_exact_iff ok]
    intro peerAddr
    have grown := stations_subset (frames before) (frames after) peerAddr
    have all : frames (before ++ after) = frames before ++ frames after := List.flatMap_append
    exact (Finset.card_le_card grown).trans_lt (all ▸ few peerAddr)

/-- Two stations of one peer and one of another. -/
theorem count_exact_sample :
    let b := (run .calm .init [.handle (sampleFrame 255 2 100),
      .burst [sampleFrame 255 4 100, sampleFrame 2 6 200]]).bridge
    b.CountExact ∧ b.peers.map PeerAddrInfo.count = [2, 1] := by
  refine ⟨(count_exact_iff .calm calm_allocates _).mpr ?_ _ List.prefix_rfl, by decide⟩
  intro peerAddr
  exact (stations_card_le _ peerAddr).trans_lt (by decide)

def numbered (n : Nat) : Slot :=
  ⟨[255, 255, 255, 255, 255, 255, 2, 0, 0, 0, BitVec.ofNat 8 (n / 256), BitVec.ofNat 8 n, 8, 0], [],
    ⟨1, 100⟩⟩

theorem numbered_src (n : Nat) :
    (numbered n).src = ⟨2, 0, 0, 0, BitVec.ofNat 8 (n / 256), BitVec.ofNat 8 n⟩ := rfl

theorem numbered_inj (hm : m < 2 ^ 16) (hn : n < 2 ^ 16) (same : (numbered m).src = (numbered n).src) : m = n := by
  rw [numbered_src, numbered_src, EtherAddr.mk.injEq] at same
  obtain ⟨_, _, _, _, high, low⟩ := same
  have highs := congrArg BitVec.toNat high
  have lows := congrArg BitVec.toNat low
  simp only [BitVec.toNat_ofNat] at highs lows
  omega

theorem numbered_stations (few : count ≤ 2 ^ 16) :
    (stations ((List.range count).map numbered) ⟨1, 100⟩).card = count := by
  have one : ∀ a ∈ readings ((List.range count).map numbered), a.2 = ⟨1, 100⟩ := by
    intro a member
    simp only [readings, List.map_map, List.mem_map] at member
    obtain ⟨n, _, rfl⟩ := member
    rfl
  have distinct : ((readings ((List.range count).map numbered)).map Prod.fst).Nodup := by
    rw [readings, List.map_map, List.map_map]
    apply List.Nodup.map_on _ List.nodup_range
    intro m first n second same
    rw [List.mem_range] at first second
    exact numbered_inj (by omega) (by omega) same
  rw [stations, Learning.keysOf_constant one, List.toFinset_card_of_nodup distinct, readings, List.length_map,
    List.length_map, List.length_map, List.length_range]

/-- The 65536th station takes the count of its peer to 0. -/
theorem count_wraps :
    let b := (run .calm .init (((List.range 65536).map numbered).map .handle)).bridge
    ¬b.CountExact ∧ ∃ p pa, b.peers[p]? = some pa ∧ b.users p = 65536 ∧ pa.count = 0 := by
  have all := frames_handle ((List.range 65536).map numbered)
  have many := numbered_stations (show 65536 ≤ 2 ^ 16 by decide)
  generalize ((List.range 65536).map numbered) = slots at all many
  intro b
  obtain ⟨mac, member⟩ : (stations slots ⟨1, 100⟩).Nonempty := by
    rw [← Finset.card_pos, many]
    exact Nat.succ_pos _
  obtain ⟨p, pa, cell, address⟩ := run_record calm_allocates (slots.map .handle) (all.symm ▸ member)
  have users : b.users p = 65536 := by
    rw [run_users calm_allocates _ cell, address, all]
    exact many
  have zero : pa.count = 0 := by
    rw [run_counted .calm _ p pa cell, users]
    rfl
  exact ⟨fun exact_ => (exact_ p pa cell).2 zero, p, pa, cell, users, zero⟩

end WlanBridge
