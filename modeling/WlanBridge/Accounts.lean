import WlanBridge.Keyed
import WlanBridge.Statistics
import Mathlib.Data.BitVec

/-! The statistics table as accounts, one for each address. As long as its entry is there
or can be allocated, the updates of an address are charges to its account and nothing else. -/
namespace WlanBridge

instance : Zero Tatistics := ⟨.zero⟩

instance : Add Tatistics where
  add s t := ⟨s.rxPackets + t.rxPackets, s.rxBytes + t.rxBytes, s.txPackets + t.txPackets,
    s.txBytes + t.txBytes, s.timeNs + t.timeNs⟩

theorem Tatistics.add_def (s t : Tatistics) : s + t = ⟨s.rxPackets + t.rxPackets, s.rxBytes + t.rxBytes,
    s.txPackets + t.txPackets, s.txBytes + t.txBytes, s.timeNs + t.timeNs⟩ := rfl

theorem Tatistics.zero_def : (0 : Tatistics) = ⟨0, 0, 0, 0, 0⟩ := rfl

instance : AddCommMonoid Tatistics where
  add_assoc s t u := by simp [Tatistics.add_def, add_assoc]
  zero_add s := by simp [Tatistics.add_def, Tatistics.zero_def]
  add_zero s := by simp [Tatistics.add_def, Tatistics.zero_def]
  add_comm s t := by simp [Tatistics.add_def, add_comm]
  nsmul := nsmulRec

instance : IsLeftCancelAdd Tatistics where
  add_left_cancel s t u same := by
    cases t
    cases u
    simpa [Tatistics.add_def] using same

def UINT_MAX : Nat := 4294967295

def Tatistics.rx (rxPacket rxByte : U32) : Tatistics := ⟨rxPacket.setWidth 64, rxByte.setWidth 64, 0, 0, 0⟩

def Tatistics.tx (txPacket txByte : U32) : Tatistics := ⟨0, 0, txPacket.setWidth 64, txByte.setWidth 64, 0⟩

theorem setWidth_ofNat (fits : n ≤ UINT_MAX) : (BitVec.ofNat 32 n).setWidth 64 = BitVec.ofNat 64 n := by
  apply BitVec.eq_of_toNat_eq
  rw [UINT_MAX] at fits
  simp only [BitVec.toNat_setWidth, BitVec.toNat_ofNat]
  omega

theorem placed_sum (place : U64 → U64 → Tatistics) (zero : place 0 0 = 0)
    (adds : ∀ p b p' b', place p b + place p' b' = place (p + p') (b + b')) (lens : List Nat) :
    (lens.map fun n => place 1 (BitVec.ofNat 64 n)).sum =
      place (BitVec.ofNat 64 lens.length) (BitVec.ofNat 64 lens.sum) := by
  induction lens with
  | nil => exact zero.symm
  | cons n rest ih =>
    rw [List.map_cons, List.sum_cons, ih, adds, List.length_cons, List.sum_cons, BitVec.ofNat_add,
      BitVec.ofNat_add, add_comm (BitVec.ofNat 64 rest.length)]
    rfl

theorem rx_sum (lens : List Nat) (fits : ∀ n ∈ lens, n ≤ UINT_MAX) :
    (lens.map fun n => Tatistics.rx 1 (BitVec.ofNat 32 n)).sum =
      ⟨BitVec.ofNat 64 lens.length, BitVec.ofNat 64 lens.sum, 0, 0, 0⟩ := by
  have whole := placed_sum (fun p b => ⟨p, b, 0, 0, 0⟩) rfl (by simp [Tatistics.add_def]) lens
  rw [← whole]
  congr 1
  apply List.map_congr_left
  intro n member
  rw [Tatistics.rx, setWidth_ofNat (fits n member)]
  rfl

theorem tx_sum (lens : List Nat) (fits : ∀ n ∈ lens, n ≤ UINT_MAX) :
    (lens.map fun n => Tatistics.tx 1 (BitVec.ofNat 32 n)).sum =
      ⟨0, 0, BitVec.ofNat 64 lens.length, BitVec.ofNat 64 lens.sum, 0⟩ := by
  have whole := placed_sum (fun p b => ⟨0, 0, p, b, 0⟩) rfl (by simp [Tatistics.add_def]) lens
  rw [← whole]
  congr 1
  apply List.map_congr_left
  intro n member
  rw [Tatistics.tx, setWidth_ofNat (fits n member)]
  rfl

abbrev Charge := U32 × Tatistics

def Stats.Holds (st : Stats) (ip4Addr : U32) : Prop := (wlanIpStaticFind st ip4Addr).isSome

/-- The counters of an address; an address without an entry has counted nothing. -/
def Stats.account (st : Stats) (ip4Addr : U32) : Tatistics :=
  ((wlanIpStaticFind st ip4Addr).map WlanIpStatistics.currStat).getD 0

def Env.StatsAllocate (env : Env) : Prop := ∀ n, env.calloc .ipStatistics n = true

/-- No update of the address is lost for want of memory. -/
def Stats.Counts (env : Env) (st : Stats) (ip4Addr : U32) : Prop := st.Holds ip4Addr ∨ env.StatsAllocate

/-- Between two tables exactly these charges were made to the account of an address. -/
structure Stats.Booked (ip4Addr : U32) (st st' : Stats) (charges : List Charge) : Prop where
  account : st'.account ip4Addr = st.account ip4Addr + Ledger.total charges ip4Addr
  holds : st'.Holds ip4Addr ↔ st.Holds ip4Addr ∨ ip4Addr ∈ charges.map Prod.fst

theorem Stats.Booked.refl (ip4Addr : U32) (st : Stats) : Stats.Booked ip4Addr st st [] :=
  ⟨by simp, by simp⟩

theorem Stats.Booked.trans {a b c : Stats} (first : Stats.Booked ip4Addr a b charges)
    (second : Stats.Booked ip4Addr b c more) : Stats.Booked ip4Addr a c (charges ++ more) := by
  refine ⟨?_, ?_⟩
  · rw [second.account, first.account, Ledger.total_append, Pi.add_apply, add_assoc]
  · rw [second.holds, first.holds, List.map_append, List.mem_append, or_assoc]

theorem Stats.Booked.perm {a b : Stats} (booked : Stats.Booked ip4Addr a b charges)
    (perm : charges.Perm charges') : Stats.Booked ip4Addr a b charges' := by
  refine ⟨?_, ?_⟩
  · rw [booked.account, Ledger.total_perm perm]
  · rw [booked.holds, (perm.map Prod.fst).mem_iff]

theorem Stats.Booked.counts {a b : Stats} (booked : Stats.Booked ip4Addr a b charges)
    (room : a.Counts env ip4Addr) : b.Counts env ip4Addr :=
  room.imp (fun held => booked.holds.mpr (Or.inl held)) id

theorem wlanIpStaticUpdate_find (env : Env) (st : Stats) (ip4Addr : U32) (count : Tatistics → Tatistics)
    (other : U32) :
    wlanIpStaticFind (wlanIpStaticUpdate env st ip4Addr count) other =
      if other = ip4Addr then match wlanIpStaticFind st ip4Addr with
        | some e => some { e with currStat := count e.currStat }
        | none => if env.calloc .ipStatistics st.callocs then some ⟨ip4Addr, count .zero, .zero⟩ else none
      else wlanIpStaticFind st other := by
  let counted (e : WlanIpStatistics) : WlanIpStatistics := { e with currStat := count e.currStat }
  cases found : wlanIpStaticFind st ip4Addr with
  | some e =>
    have adjusted := @Keyed.find_adjust _ _ _ WlanIpStatistics.keyIp4Addr st.hIpStatHead ip4Addr counted
      (fun _ => rfl) other
    simp only [wlanIpStaticUpdate, found]
    rw [wlanIpStaticFind] at found
    rw [found] at adjusted
    exact adjusted
  | none =>
    simp only [wlanIpStaticUpdate, found]
    rw [wlanIpStaticFind] at found
    cases room : env.calloc .ipStatistics st.callocs with
    | true =>
      rw [if_pos rfl, if_pos rfl, wlanIpStaticFind, Keyed.find_add]
      by_cases same : other = ip4Addr
      · simp [same, found]
      · simp [same, wlanIpStaticFind]
    | false =>
      by_cases same : other = ip4Addr
      · simp [same, wlanIpStaticFind, found]
      · simp [same, wlanIpStaticFind]

theorem wlanIpStaticUpdate_booked (env : Env) (st : Stats) (room : st.Counts env other) (ip4Addr : U32)
    (count : Tatistics → Tatistics) (amount : Tatistics) (adds : ∀ s, count s = s + amount) :
    Stats.Booked other st (wlanIpStaticUpdate env st ip4Addr count) [(ip4Addr, amount)] := by
  have zero : count .zero = amount := (adds .zero).trans (zero_add amount)
  have find := wlanIpStaticUpdate_find env st ip4Addr count other
  by_cases same : other = ip4Addr
  · subst same
    cases held : wlanIpStaticFind st other with
    | some e =>
      rw [if_pos rfl, held] at find
      refine ⟨?_, ?_⟩
      · simp [Stats.account, find, held, Ledger.total_cons, adds]
      · simp [Stats.Holds, find, held]
    | none =>
      have ok : env.StatsAllocate := room.resolve_left (by simp [Stats.Holds, held])
      rw [if_pos rfl, held, ok st.callocs] at find
      refine ⟨?_, ?_⟩
      · simp [Stats.account, find, held, Ledger.total_cons, zero]
      · simp [Stats.Holds, find]
  · have apart : ¬ip4Addr = other := fun h => same h.symm
    rw [if_neg same] at find
    refine ⟨?_, ?_⟩
    · simp [Stats.account, find, Ledger.total_cons, apart]
    · simp [Stats.Holds, find, same]

theorem wlanIpStaticUpdateRx_booked (env : Env) (st : Stats) (room : st.Counts env other)
    (ip4Addr rxPacket rxByte : U32) :
    Stats.Booked other st (wlanIpStaticUpdateRx env st ip4Addr rxPacket rxByte)
      [(ip4Addr, .rx rxPacket rxByte)] := by
  apply wlanIpStaticUpdate_booked env st room
  intro s
  simp [Tatistics.add_def, Tatistics.rx]

theorem wlanIpStaticUpdateTx_booked (env : Env) (st : Stats) (room : st.Counts env other)
    (ip4Addr txPacket txByte : U32) :
    Stats.Booked other st (wlanIpStaticUpdateTx env st ip4Addr txPacket txByte)
      [(ip4Addr, .tx txPacket txByte)] := by
  apply wlanIpStaticUpdate_booked env st room
  intro s
  simp [Tatistics.add_def, Tatistics.tx]

end WlanBridge
