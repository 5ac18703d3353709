import WlanBridge.Accounts
import WlanBridge.Histories
import WlanBridge.Stores

/-! `wlan_ip_dump_static` with `show_throuthput`: the growth of the counters since the
dump before. The rates that are printed for it are floating-point quotients of these
differences and are left out. A history is any interleaving of updates and dumps. -/
namespace WlanBridge

/-- `1E9` in the source; the product with the seconds of an uptime is exact in `double`. -/
def NS_PER_SEC : U64 := 1000000000

/-- The differences that `show_throuthput` computes. -/
structure Throuthput where
  diffNs : U64
  diffPktsRx : U64
  diffPktsTx : U64
  diffBytesRx : U64
  diffBytesTx : U64
  deriving DecidableEq, Repr

/-- The growth of a counter, by the comparison that the source makes for each. -/
def grown (curr prev : U64) : U64 := if curr > prev then curr - prev else 0

/-- `clock` is what `clock_gettime` stores, or `none` when it fails. -/
def showThrouthput (stats : WlanIpStatistics) (clock : Option (U64 × U64)) : Throuthput × WlanIpStatistics :=
  let ps := stats.prevStat
  let (diffNs, ps) := match clock with
    | some (tvSec, tvNsec) =>
      let ns := tvSec * NS_PER_SEC + tvNsec
      (if ps.timeNs ≠ 0 then ns - ps.timeNs else 0, { ps with timeNs := ns })
    | none => (0, ps)
  let diffPktsRx := grown stats.currStat.rxPackets ps.rxPackets
  let diffPktsTx := grown stats.currStat.txPackets ps.txPackets
  let ps := { ps with rxPackets := stats.currStat.rxPackets }
  let ps := { ps with rxPackets := stats.currStat.txPackets } -- the second store goes to `rx_packets` again
  let diffBytesRx := grown stats.currStat.rxBytes ps.rxBytes
  let diffBytesTx := grown stats.currStat.txBytes ps.txBytes
  let ps := { ps with rxBytes := stats.currStat.rxBytes, txBytes := stats.currStat.txBytes }
  (⟨diffNs, diffPktsRx, diffPktsTx, diffBytesRx, diffBytesTx⟩, { stats with prevStat := ps })

/-- What the callback gets for one entry. -/
structure StatReport where
  keyIp4Addr : U32
  line : List Char
  shown : Throuthput
  deriving DecidableEq, Repr

def statLine (ce : WlanIpStatistics) : List Char :=
  snprintf 255 (padLeft ' ' 15 (inetNtoa ce.keyIp4Addr) ++
    ": rx_packets: ".toList ++ padRight 8 (decimal ce.currStat.rxPackets.toNat) ++
    " tx_packets: ".toList ++ padRight 8 (decimal ce.currStat.txPackets.toNat) ++
    " rx_bytes: ".toList ++ padRight 10 (decimal ce.currStat.rxBytes.toNat) ++
    " tx_bytes: ".toList ++ padRight 10 (decimal ce.currStat.txBytes.toNat))

/-- `clock` gives the reading that is taken for each entry. -/
def wlanIpDumpStatic (st : Stats) (clock : U32 → Option (U64 × U64)) : List StatReport × Stats :=
  (st.hIpStatHead.map fun ce => ⟨ce.keyIp4Addr, statLine ce, (showThrouthput ce (clock ce.keyIp4Addr)).1⟩,
    { st with hIpStatHead := st.hIpStatHead.map fun ce => (showThrouthput ce (clock ce.keyIp4Addr)).2 })

inductive StatCall where
  | updateRx (ip4Addr rxPacket rxByte : U32)
  | updateTx (ip4Addr txPacket txByte : U32)
  | dump (clock : U32 → Option (U64 × U64))

def StatCall.isDump : StatCall → Bool
  | .dump _ => true
  | _ => false

def StatCall.next (env : Env) (st : Stats) : StatCall → Stats
  | .updateRx ip4Addr rxPacket rxByte => wlanIpStaticUpdateRx env st ip4Addr rxPacket rxByte
  | .updateTx ip4Addr txPacket txByte => wlanIpStaticUpdateTx env st ip4Addr txPacket txByte
  | .dump clock => (wlanIpDumpStatic st clock).2

def StatCall.reports (st : Stats) : StatCall → List StatReport
  | .dump clock => (wlanIpDumpStatic st clock).1
  | _ => []

def tableAfter (env : Env) (st : Stats) (calls : List StatCall) : Stats := calls.foldl (StatCall.next env) st

def reported (env : Env) (st : Stats) : List StatCall → List StatReport
  | [] => []
  | call :: rest => call.reports st ++ reported env (call.next env st) rest

inductive Counter where
  | rxPackets
  | txPackets
  | rxBytes
  | txBytes
  deriving DecidableEq, Repr

def Tatistics.get (s : Tatistics) : Counter → U64
  | .rxPackets => s.rxPackets
  | .txPackets => s.txPackets
  | .rxBytes => s.rxBytes
  | .txBytes => s.txBytes

def Throuthput.diff (t : Throuthput) : Counter → U64
  | .rxPackets => t.diffPktsRx
  | .txPackets => t.diffPktsTx
  | .rxBytes => t.diffBytesRx
  | .txBytes => t.diffBytesTx

def StatCall.amount : StatCall → Counter → Nat
  | .updateRx _ rxPacket _, .rxPackets => rxPacket.toNat
  | .updateRx _ _ rxByte, .rxBytes => rxByte.toNat
  | .updateTx _ txPacket _, .txPackets => txPacket.toNat
  | .updateTx _ _ txByte, .txBytes => txByte.toNat
  | _, _ => 0

def StatCall.addr : StatCall → Option U32
  | .updateRx ip4Addr _ _ => some ip4Addr
  | .updateTx ip4Addr _ _ => some ip4Addr
  | .dump _ => none

/-- What a call adds to the counters of an address; without an entry and without memory
for one it adds nothing. -/
def StatCall.adds (env : Env) (ip4Addr : U32) (st : Stats) (call : StatCall) (c : Counter) : Nat :=
  if call.addr = some ip4Addr ∧
    ((wlanIpStaticFind st ip4Addr).isSome ∨ env.calloc .ipStatistics st.callocs = true)
  then call.amount c else 0

def added (env : Env) (ip4Addr : U32) (st : Stats) : List StatCall → Counter → Nat
  | [], _ => 0
  | call :: rest, c => call.adds env ip4Addr st c + added env ip4Addr (call.next env st) rest c

theorem tableAfter_append (env : Env) (st : Stats) (calls more : List StatCall) :
    tableAfter env st (calls ++ more) = tableAfter env (tableAfter env st calls) more := List.foldl_append ..

theorem reported_append (env : Env) (st : Stats) (calls more : List StatCall) :
    reported env st (calls ++ more) = reported env st calls ++ reported env (tableAfter env st calls) more := by
  induction calls generalizing st with
  | nil => rfl
  | cons call rest ih =>
    rw [List.cons_append, reported, reported, ih, List.append_assoc]
    rfl

theorem added_append (env : Env) (ip4Addr : U32) (st : Stats) (calls more : List StatCall) (c : Counter) :
    added env ip4Addr st (calls ++ more) c =
      added env ip4Addr st calls c + added env ip4Addr (tableAfter env st calls) more c := by
  induction calls generalizing st with
  | nil => simp [added, tableAfter]
  | cons call rest ih =>
    rw [List.cons_append, added, added, ih, Nat.add_assoc]
    rfl

def untilDump (calls : List StatCall) : List StatCall := Since.upTo StatCall.isDump calls

def sinceDump (calls : List StatCall) : List StatCall := Since.since StatCall.isDump calls

/-- What the last dump left in `prev_stat`. -/
def snapshot (atDump : Counter → Nat) : Counter → Nat
  | .rxPackets => atDump .txPackets
  | .txPackets => 0
  | .rxBytes => atDump .rxBytes
  | .txBytes => atDump .txBytes

/-- The entry of an address after a history from the empty table. -/
structure Metered (env : Env) (ip4Addr : U32) (calls : List StatCall) : Prop where
  distinct : ((tableAfter env ⟨[], 0⟩ calls).hIpStatHead.map WlanIpStatistics.keyIp4Addr).Nodup
  curr : ∀ e, wlanIpStaticFind (tableAfter env ⟨[], 0⟩ calls) ip4Addr = some e →
    ∀ c, e.currStat.get c = BitVec.ofNat 64 (added env ip4Addr ⟨[], 0⟩ calls c)
  prev : ∀ e, wlanIpStaticFind (tableAfter env ⟨[], 0⟩ calls) ip4Addr = some e →
    ∀ c, e.prevStat.get c = BitVec.ofNat 64 (snapshot (added env ip4Addr ⟨[], 0⟩ (untilDump calls)) c)
  fresh : wlanIpStaticFind (tableAfter env ⟨[], 0⟩ calls) ip4Addr = none →
    ∀ c, added env ip4Addr ⟨[], 0⟩ calls c = 0

theorem wlanIpStaticUpdate_keys (env : Env) (st : Stats) (ip4Addr : U32) (count : Tatistics → Tatistics)
    (distinct : (st.hIpStatHead.map WlanIpStatistics.keyIp4Addr).Nodup) :
    ((wlanIpStaticUpdate env st ip4Addr count).hIpStatHead.map WlanIpStatistics.keyIp4Addr).Nodup := by
  cases found : wlanIpStaticFind st ip4Addr with
  | some e =>
    let counted (e : WlanIpStatistics) : WlanIpStatistics := { e with currStat := count e.currStat }
    have keys := @Keyed.adjust_keys _ _ _ WlanIpStatistics.keyIp4Addr st.hIpStatHead ip4Addr counted fun _ => rfl
    simp only [wlanIpStaticUpdate, found]
    exact keys ▸ distinct
  | none =>
    simp only [wlanIpStaticUpdate, found]
    split
    · exact Keyed.add_nodup distinct found
    · exact distinct

section Steps
variable {env : Env} {ip4Addr : U32} {calls : List StatCall}

theorem added_concat (calls : List StatCall) (call : StatCall) (c : Counter) :
    added env ip4Addr ⟨[], 0⟩ (calls ++ [call]) c = added env ip4Addr ⟨[], 0⟩ calls c +
      call.adds env ip4Addr (tableAfter env ⟨[], 0⟩ calls) c := by
  rw [added_append, added, added, Nat.add_zero]

theorem added_dump (calls : List StatCall) (clock : U32 → Option (U64 × U64)) (c : Counter) :
    added env ip4Addr ⟨[], 0⟩ (calls ++ [.dump clock]) c = added env ip4Addr ⟨[], 0⟩ calls c := by
  rw [added_concat]
  simp [StatCall.adds, StatCall.addr]

theorem tableAfter_concat (st : Stats) (calls : List StatCall) (call : StatCall) :
    tableAfter env st (calls ++ [call]) = call.next env (tableAfter env st calls) := by
  rw [tableAfter_append]
  rfl

theorem added_split (env : Env) (ip4Addr : U32) (calls : List StatCall) (c : Counter) :
    added env ip4Addr ⟨[], 0⟩ calls c = added env ip4Addr ⟨[], 0⟩ (untilDump calls) c +
      added env ip4Addr (tableAfter env ⟨[], 0⟩ (untilDump calls)) (sinceDump calls) c := by
  rw [← added_append, untilDump, sinceDump, Since.upTo_append_since]

section Updates
variable {call : StatCall} {own : U32} {count : Tatistics → Tatistics}

theorem Metered.kept (metered : Metered env ip4Addr calls) (plain : call.isDump = false)
    (distinct : ((tableAfter env ⟨[], 0⟩ (calls ++ [call])).hIpStatHead.map WlanIpStatistics.keyIp4Addr).Nodup)
    (find : wlanIpStaticFind (tableAfter env ⟨[], 0⟩ (calls ++ [call])) ip4Addr =
      wlanIpStaticFind (tableAfter env ⟨[], 0⟩ calls) ip4Addr)
    (adds : ∀ c, call.adds env ip4Addr (tableAfter env ⟨[], 0⟩ calls) c = 0) :
    Metered env ip4Addr (calls ++ [call]) := by
  have until_ : untilDump (calls ++ [call]) = untilDump calls := Since.upTo_other calls plain
  have same (c : Counter) : added env ip4Addr ⟨[], 0⟩ (calls ++ [call]) c = added env ip4Addr ⟨[], 0⟩ calls c := by
    rw [added_concat, adds, Nat.add_zero]
  refine ⟨distinct, ?_, ?_, ?_⟩
  · intro e found c
    rw [same]
    exact metered.curr e (find ▸ found) c
  · intro e found
    rw [until_]
    exact metered.prev e (find ▸ found)
  · intro none_ c
    rw [same]
    exact metered.fresh (find ▸ none_) c

theorem Metered.counted (metered : Metered env ip4Addr calls) (plain : call.isDump = false)
    (distinct : ((tableAfter env ⟨[], 0⟩ (calls ++ [call])).hIpStatHead.map WlanIpStatistics.keyIp4Addr).Nodup)
    (held : wlanIpStaticFind (tableAfter env ⟨[], 0⟩ calls) ip4Addr = some e)
    (find : wlanIpStaticFind (tableAfter env ⟨[], 0⟩ (calls ++ [call])) ip4Addr =
      some { e with currStat := count e.currStat })
    (adds : ∀ c, call.adds env ip4Addr (tableAfter env ⟨[], 0⟩ calls) c = call.amount c)
    (counts : ∀ (s : Tatistics) (c : Counter), (count s).get c = s.get c + BitVec.ofNat 64 (call.amount c)) :
    Metered env ip4Addr (calls ++ [call]) := by
  have until_ : untilDump (calls ++ [call]) = untilDump calls := Since.upTo_other calls plain
  refine ⟨distinct, ?_, ?_, ?_⟩
  · intro e' found c
    obtain rfl := Option.some.inj (find.symm.trans found)
    rw [added_concat, adds, BitVec.ofNat_add, ← metered.curr e held]
    exact counts _ _
  · intro e' found
    obtain rfl := Option.some.inj (find.symm.trans found)
    rw [until_]
    exact metered.prev e held
  · intro none_
    exact absurd (find.symm.trans none_) (by simp)

theorem Metered.created (metered : Metered env ip4Addr calls) (plain : call.isDump = false)
    (distinct : ((tableAfter env ⟨[], 0⟩ (calls ++ [call])).hIpStatHead.map WlanIpStatistics.keyIp4Addr).Nodup)
    (held : wlanIpStaticFind (tableAfter env ⟨[], 0⟩ calls) ip4Addr = none)
    (find : wlanIpStaticFind (tableAfter env ⟨[], 0⟩ (calls ++ [call])) ip4Addr =
      some ⟨ip4Addr, count .zero, .zero⟩)
    (adds : ∀ c, call.adds env ip4Addr (tableAfter env ⟨[], 0⟩ calls) c = call.amount c)
    (counts : ∀ (s : Tatistics) (c : Counter), (count s).get c = s.get c + BitVec.ofNat 64 (call.amount c)) :
    Metered env ip4Addr (calls ++ [call]) := by
  have until_ : untilDump (calls ++ [call]) = untilDump calls := Since.upTo_other calls plain
  have none_ (c : Counter) : added env ip4Addr ⟨[], 0⟩ (untilDump calls) c = 0 := by
    have split := added_split env ip4Addr calls c
    rw [metered.fresh held] at split
    omega
  refine ⟨distinct, ?_, ?_, ?_⟩
  · intro e found c
    obtain rfl := Option.some.inj (find.symm.trans found)
    rw [added_concat, adds, metered.fresh held, Nat.zero_add]
    exact (counts _ _).trans (by cases c <;> simp [Tatistics.get, Tatistics.zero])
  · intro e found c
    obtain rfl := Option.some.inj (find.symm.trans found)
    rw [until_]
    cases c <;> simp [snapshot, none_, Tatistics.get, Tatistics.zero]
  · intro absent
    exact absurd (find.symm.trans absent) (by simp)

theorem Metered.update (metered : Metered env ip4Addr calls) (call : StatCall) (own : U32)
    (count : Tatistics → Tatistics) (plain : call.isDump = false) (addr : call.addr = some own)
    (next : call.next env (tableAfter env ⟨[], 0⟩ calls) =
      wlanIpStaticUpdate env (tableAfter env ⟨[], 0⟩ calls) own count)
    (counts : ∀ (s : Tatistics) (c : Counter), (count s).get c = s.get c + BitVec.ofNat 64 (call.amount c)) :
    Metered env ip4Addr (calls ++ [call]) := by
  have find := wlanIpStaticUpdate_find env (tableAfter env ⟨[], 0⟩ calls) own count ip4Addr
  rw [← next, ← tableAfter_concat] at find
  have distinct := wlanIpStaticUpdate_keys env _ own count metered.distinct
  rw [← next, ← tableAfter_concat] at distinct
  by_cases mine : ip4Addr = own
  · subst mine
    rw [if_pos rfl] at find
    cases held : wlanIpStaticFind (tableAfter env ⟨[], 0⟩ calls) ip4Addr with
    | some e =>
      rw [held] at find
      exact metered.counted plain distinct held find (fun c => by simp [StatCall.adds, addr, held]) counts
    | none =>
      rw [held] at find
      cases room : env.calloc .ipStatistics (tableAfter env ⟨[], 0⟩ calls).callocs with
      | true =>
        rw [room, if_pos rfl] at find
        exact metered.created plain distinct held find (fun c => by simp [StatCall.adds, addr, room]) counts
      | false =>
        rw [room] at find
        exact metered.kept plain distinct (find.trans held.symm) fun c => by simp [StatCall.adds, held, room]
  · rw [if_neg mine] at find
    have apart : ¬own = ip4Addr := fun same => mine same.symm
    exact metered.kept plain distinct find fun c => by simp [StatCall.adds, addr, apart]

end Updates

theorem showThrouthput_curr (e : WlanIpStatistics) (clock : Option (U64 × U64)) :
    (showThrouthput e clock).2.currStat = e.currStat := by
  cases clock <;> rfl

theorem showThrouthput_diff (e : WlanIpStatistics) (clock : Option (U64 × U64)) (c : Counter) :
    (showThrouthput e clock).1.diff c = grown (e.currStat.get c) (e.prevStat.get c) := by
  cases clock <;> cases c <;> rfl

/-- The snapshot of `tx_packets` is never taken; its value goes to `rx_packets`. -/
theorem showThrouthput_prev (e : WlanIpStatistics) (clock : Option (U64 × U64)) (c : Counter) :
    (showThrouthput e clock).2.prevStat.get c = match c with
      | .rxPackets => e.currStat.get .txPackets
      | .txPackets => e.prevStat.get .txPackets
      | .rxBytes => e.currStat.get .rxBytes
      | .txBytes => e.currStat.get .txBytes := by
  cases clock <;> cases c <;> rfl

theorem showThrouthput_key (e : WlanIpStatistics) (clock : Option (U64 × U64)) :
    (showThrouthput e clock).2.keyIp4Addr = e.keyIp4Addr := by
  cases clock <;> rfl

theorem wlanIpDumpStatic_find (st : Stats) (clock : U32 → Option (U64 × U64)) (ip4Addr : U32) :
    wlanIpStaticFind (wlanIpDumpStatic st clock).2 ip4Addr =
      (wlanIpStaticFind st ip4Addr).map fun e => (showThrouthput e (clock e.keyIp4Addr)).2 :=
  Keyed.find_map st.hIpStatHead _ (fun e => showThrouthput_key e _) ip4Addr

theorem Metered.dump (metered : Metered env ip4Addr calls) (clock : U32 → Option (U64 × U64)) :
    Metered env ip4Addr (calls ++ [.dump clock]) := by
  have until_ : untilDump (calls ++ [.dump clock]) = calls ++ [.dump clock] := Since.upTo_mark calls rfl
  have find := wlanIpDumpStatic_find (tableAfter env ⟨[], 0⟩ calls) clock ip4Addr
  constructor
  · rw [tableAfter_concat]
    have keys : (wlanIpDumpStatic (tableAfter env ⟨[], 0⟩ calls) clock).2.hIpStatHead.map
        WlanIpStatistics.keyIp4Addr = (tableAfter env ⟨[], 0⟩ calls).hIpStatHead.map
          WlanIpStatistics.keyIp4Addr := by
      simp [wlanIpDumpStatic, Function.comp_def, showThrouthput_key]
    exact keys ▸ metered.distinct
  · intro e' found c
    rw [tableAfter_concat, StatCall.next, find] at found
    obtain ⟨e, held, rfl⟩ := Option.map_eq_some_iff.mp found
    rw [showThrouthput_curr, added_dump]
    exact metered.curr e held c
  · intro e' found c
    rw [tableAfter_concat, StatCall.next, find] at found
    obtain ⟨e, held, rfl⟩ := Option.map_eq_some_iff.mp found
    rw [showThrouthput_prev, until_]
    cases c with
    | rxPackets => simpa [snapshot, added_dump] using metered.curr e held .txPackets
    | txPackets => simpa [snapshot] using metered.prev e held .txPackets
    | rxBytes => simpa [snapshot, added_dump] using metered.curr e held .rxBytes
    | txBytes => simpa [snapshot, added_dump] using metered.curr e held .txBytes
  · intro none_ c
    rw [tableAfter_concat, StatCall.next, find, Option.map_eq_none_iff] at none_
    rw [added_dump]
    exact metered.fresh none_ c

theorem metered (env : Env) (ip4Addr : U32) (calls : List StatCall) : Metered env ip4Addr calls := by
  induction calls using List.reverseRecOn with
  | nil => exact ⟨List.nodup_nil, by simp [tableAfter, wlanIpStaticFind, Keyed.find],
      by simp [tableAfter, wlanIpStaticFind, Keyed.find], fun _ _ => rfl⟩
  | append_singleton calls call ih =>
    cases call with
    | updateRx own rxPacket rxByte =>
      let count (s : Tatistics) : Tatistics := { s with
        rxPackets := s.rxPackets + rxPacket.setWidth 64, rxBytes := s.rxBytes + rxByte.setWidth 64 }
      refine ih.update _ own count rfl rfl rfl fun s c => ?_
      cases c <;> simp [count, Tatistics.get, StatCall.amount]
    | updateTx own txPacket txByte =>
      let count (s : Tatistics) : Tatistics := { s with
        txPackets := s.txPackets + txPacket.setWidth 64, txBytes := s.txBytes + txByte.setWidth 64 }
      refine ih.update _ own count rfl rfl rfl fun s c => ?_
      cases c <;> simp [count, Tatistics.get, StatCall.amount]
    | dump clock => exact ih.dump clock

theorem grown_toNat (fits : total < 2 ^ 64) (also : before < 2 ^ 64) :
    (grown (BitVec.ofNat 64 total) (BitVec.ofNat 64 before)).toNat = total - before := by
  unfold grown
  by_cases more : before < total
  · rw [if_pos (by simp only [gt_iff_lt, BitVec.lt_def, BitVec.toNat_ofNat]; omega), BitVec.toNat_sub]
    simp only [BitVec.toNat_ofNat]
    omega
  · rw [if_neg (by simp only [gt_iff_lt, BitVec.lt_def, BitVec.toNat_ofNat]; omega)]
    simp only [BitVec.ofNat_eq_ofNat, BitVec.toNat_ofNat]
    omega

end Steps

def reportsOf (ip4Addr : U32) (reports : List StatReport) : List Throuthput :=
  (reports.filter fun r => r.keyIp4Addr = ip4Addr).map StatReport.shown

/-- What a dump reports for an address is what was added to its counters since the dump before. -/
def DumpExact (env : Env) (ip4Addr : U32) (before : List StatCall) (clock : U32 → Option (U64 × U64)) : Prop :=
  ∀ shown ∈ reportsOf ip4Addr (wlanIpDumpStatic (tableAfter env ⟨[], 0⟩ before) clock).1, ∀ c,
    (shown.diff c).toNat =
      added env ip4Addr (tableAfter env ⟨[], 0⟩ (untilDump before)) (sinceDump before) c

/-- At the dump before, if there was one, no packet of the address had been counted. -/
def IdleAtDump (env : Env) (ip4Addr : U32) (before : List StatCall) : Prop :=
  added env ip4Addr ⟨[], 0⟩ (untilDump before) .rxPackets = 0 ∧
  added env ip4Addr ⟨[], 0⟩ (untilDump before) .txPackets = 0

section Dumps
variable {env : Env} {ip4Addr : U32}

theorem dump_reports (before : List StatCall) (clock : U32 → Option (U64 × U64)) :
    reportsOf ip4Addr (wlanIpDumpStatic (tableAfter env ⟨[], 0⟩ before) clock).1 =
      ((wlanIpStaticFind (tableAfter env ⟨[], 0⟩ before) ip4Addr).map fun e =>
        (showThrouthput e (clock ip4Addr)).1).toList := by
  have single := Keyed.filter_key (metered env ip4Addr before).distinct ip4Addr
  have filtered : (wlanIpDumpStatic (tableAfter env ⟨[], 0⟩ before) clock).1.filter
      (fun r => r.keyIp4Addr = ip4Addr) =
        ((tableAfter env ⟨[], 0⟩ before).hIpStatHead.filter fun e => e.keyIp4Addr = ip4Addr).map fun e =>
          ⟨e.keyIp4Addr, statLine e, (showThrouthput e (clock e.keyIp4Addr)).1⟩ := by
    rw [wlanIpDumpStatic, List.filter_map]
    rfl
  rw [reportsOf, filtered, single, List.map_map]
  cases found : wlanIpStaticFind (tableAfter env ⟨[], 0⟩ before) ip4Addr with
  | none =>
    rw [wlanIpStaticFind] at found
    simp [found]
  | some e =>
    have key : e.keyIp4Addr = ip4Addr := Keyed.find_key found
    rw [wlanIpStaticFind] at found
    simp [found, key]

theorem shown_diff (before : List StatCall) (fits : ∀ c, added env ip4Addr ⟨[], 0⟩ before c < 2 ^ 64)
    (found : wlanIpStaticFind (tableAfter env ⟨[], 0⟩ before) ip4Addr = some e)
    (clock : Option (U64 × U64)) (c : Counter) :
    ((showThrouthput e clock).1.diff c).toNat = added env ip4Addr ⟨[], 0⟩ before c -
      snapshot (added env ip4Addr ⟨[], 0⟩ (untilDump before)) c := by
  have whole := metered env ip4Addr before
  have part (c : Counter) : added env ip4Addr ⟨[], 0⟩ (untilDump before) c < 2 ^ 64 := by
    have split := added_split env ip4Addr before c
    have bound := fits c
    omega
  rw [showThrouthput_diff, whole.curr e found, whole.prev e found]
  apply grown_toNat (fits c)
  cases c with
  | rxPackets => exact part .txPackets
  | txPackets => exact Nat.two_pow_pos 64
  | rxBytes => exact part .rxBytes
  | txBytes => exact part .txBytes

theorem dumpExact_iff (before : List StatCall) (clock : U32 → Option (U64 × U64))
    (fits : ∀ c, added env ip4Addr ⟨[], 0⟩ before c < 2 ^ 64) :
    DumpExact env ip4Addr before clock ↔ IdleAtDump env ip4Addr before := by
  have split := added_split env ip4Addr before
  rw [DumpExact, dump_reports]
  cases found : wlanIpStaticFind (tableAfter env ⟨[], 0⟩ before) ip4Addr with
  | none =>
    have none_ := (metered env ip4Addr before).fresh found
    have rx := split .rxPackets
    have tx := split .txPackets
    rw [none_] at rx tx
    simp only [Option.map_none, Option.toList_none, List.not_mem_nil, false_implies, implies_true, true_iff]
    exact ⟨by omega, by omega⟩
  | some e =>
    have shown := shown_diff before fits found (clock ip4Addr)
    simp only [Option.map_some, Option.toList_some, List.mem_singleton, forall_eq, shown]
    constructor
    · intro exact_
      have rx := exact_ .rxPackets
      have tx := exact_ .txPackets
      rw [split] at rx tx
      simp only [snapshot] at rx tx
      exact ⟨by omega, by omega⟩
    · rintro ⟨rx, tx⟩ c
      rw [split]
      cases c <;> simp only [snapshot] <;> omega

theorem account_added (before : List StatCall) (fits : ∀ c, added env ip4Addr ⟨[], 0⟩ before c < 2 ^ 64)
    (c : Counter) :
    (((tableAfter env ⟨[], 0⟩ before).account ip4Addr).get c).toNat = added env ip4Addr ⟨[], 0⟩ before c := by
  have whole := metered env ip4Addr before
  cases found : wlanIpStaticFind (tableAfter env ⟨[], 0⟩ before) ip4Addr with
  | none =>
    rw [Stats.account, found, whole.fresh found]
    cases c <;> rfl
  | some e =>
    rw [Stats.account, found, Option.map_some, Option.getD_some, whole.curr e found, BitVec.toNat_ofNat]
    exact Nat.mod_eq_of_lt (fits c)

theorem reportsOf_append (reports more : List StatReport) :
    reportsOf ip4Addr (reports ++ more) = reportsOf ip4Addr reports ++ reportsOf ip4Addr more := by
  simp [reportsOf]

theorem reported_concat (calls : List StatCall) (call : StatCall) :
    reported env ⟨[], 0⟩ (calls ++ [call]) =
      reported env ⟨[], 0⟩ calls ++ call.reports (tableAfter env ⟨[], 0⟩ calls) := by
  rw [reported_append, reported, reported, List.append_nil]

theorem reports_plain (st : Stats) {call : StatCall} (plain : call.isDump = false) : call.reports st = [] := by
  cases call with
  | updateRx _ _ _ => rfl
  | updateTx _ _ _ => rfl
  | dump _ => exact Bool.noConfusion plain

/-- As long as every dump is exact, the reports add up to the counters at the last of them. -/
theorem reported_telescopes (calls : List StatCall) (fits : ∀ c, added env ip4Addr ⟨[], 0⟩ calls c < 2 ^ 64)
    (idle : ∀ before clock after, calls = before ++ .dump clock :: after → IdleAtDump env ip4Addr before)
    (c : Counter) :
    ((reportsOf ip4Addr (reported env ⟨[], 0⟩ calls)).map fun shown => (shown.diff c).toNat).sum =
      added env ip4Addr ⟨[], 0⟩ (untilDump calls) c := by
  induction calls using List.reverseRecOn with
  | nil => rfl
  | append_singleton calls call ih =>
    have fewer (c : Counter) : added env ip4Addr ⟨[], 0⟩ calls c < 2 ^ 64 := by
      have bound := fits c
      rw [added_concat] at bound
      omega
    have earlier := ih fewer fun before clock after split =>
      idle before clock (after ++ [call]) (by rw [split]; simp)
    cases call with
    | updateRx own rxPacket rxByte =>
      rw [reported_concat, reports_plain _ rfl, List.append_nil, earlier, untilDump, untilDump,
        Since.upTo_other calls rfl]
    | updateTx own txPacket txByte =>
      rw [reported_concat, reports_plain _ rfl, List.append_nil, earlier, untilDump, untilDump,
        Since.upTo_other calls rfl]
    | dump clock =>
      have exact_ := (dumpExact_iff calls clock fewer).mpr (idle calls clock [] rfl)
      have last : untilDump (calls ++ [.dump clock]) = calls ++ [.dump clock] := Since.upTo_mark calls rfl
      rw [reported_concat, StatCall.reports, reportsOf_append, List.map_append, List.sum_append, earlier, last,
        added_dump, added_split env ip4Addr calls c]
      congr 1
      rw [DumpExact, dump_reports] at exact_
      rw [dump_reports]
      cases found : wlanIpStaticFind (tableAfter env ⟨[], 0⟩ calls) ip4Addr with
      | none =>
        have none_ := (metered env ip4Addr calls).fresh found c
        rw [added_split] at none_
        simp only [Option.map_none, Option.toList_none, List.map_nil, List.sum_nil]
        omega
      | some e =>
        rw [found, Option.map_some, Option.toList_some] at exact_
        simpa using exact_ _ (List.mem_singleton_self _) c

end Dumps

/-- In a run every dump reports what was added since the dump before, and all reports so
far add up to the counters, exactly when each dump that follows another finds that no
packet of the address had been counted at that one. -/
theorem dumps_exact_iff (env : Env) (ip4Addr : U32) (calls : List StatCall)
    (fits : ∀ c, added env ip4Addr ⟨[], 0⟩ calls c < 2 ^ 64) :
    (∀ before clock after, calls = before ++ .dump clock :: after →
      DumpExact env ip4Addr before clock ∧
      ∀ c, ((reportsOf ip4Addr (reported env ⟨[], 0⟩ (before ++ [.dump clock]))).map fun shown =>
          (shown.diff c).toNat).sum =
        (((tableAfter env ⟨[], 0⟩ before).account ip4Addr).get c).toNat) ↔
    ∀ before clock after, calls = before ++ .dump clock :: after → IdleAtDump env ip4Addr before := by
  have fewer {before after : List StatCall} (split : calls = before ++ after) (c : Counter) :
      added env ip4Addr ⟨[], 0⟩ before c < 2 ^ 64 := by
    have bound := fits c
    rw [split, added_append] at bound
    omega
  constructor
  · intro exact_ before clock after split
    exact (dumpExact_iff before clock (fewer split)).mp (exact_ before clock after split).1
  · intro idle before clock after split
    refine ⟨(dumpExact_iff before clock (fewer split)).mpr (idle before clock after split), fun c => ?_⟩
    have here : calls = (before ++ [.dump clock]) ++ after := by rw [split]; simp
    have sum := reported_telescopes (before ++ [.dump clock]) (fewer here)
      (fun earlier clock' after' inner => idle earlier clock' (after' ++ after) (by rw [here, inner]; simp)) c
    have last : untilDump (before ++ [.dump clock]) = before ++ [.dump clock] := Since.upTo_mark before rfl
    rw [sum, last, added_dump, account_added before (fewer split)]

/-- The first dump of a run is exact. -/
theorem first_dump_exact :
    DumpExact .calm 1 [.updateRx 1 5 500, .updateTx 1 3 300] (fun _ => some (7, 0)) := by
  refine ((dumps_exact_iff .calm 1 [.updateRx 1 5 500, .updateTx 1 3 300, .dump fun _ => some (7, 0)] ?_).mpr ?_
    [.updateRx 1 5 500, .updateTx 1 3 300] _ [] rfl).1
  · intro c
    cases c <;> decide
  · intro before clock after split
    match before, split with
    | [], split => simp at split
    | [_], split => simp at split
    | [first, second], split =>
      simp only [List.cons_append, List.nil_append, List.cons.injEq] at split
      obtain ⟨rfl, rfl, _⟩ := split
      exact ⟨rfl, rfl⟩
    | _ :: _ :: _ :: rest, split => simp at split

/-- The second dump: one packet received and none sent since the first, yet 3 and 3 are reported. -/
theorem second_dump_wrong :
    let before : List StatCall :=
      [.updateRx 1 5 500, .updateTx 1 3 300, .dump fun _ => some (7, 0), .updateRx 1 1 10]
    let shown := reportsOf 1 (wlanIpDumpStatic (tableAfter .calm ⟨[], 0⟩ before) fun _ => some (9, 0)).1
    shown = [⟨2000000000, 3, 3, 10, 0⟩] ∧
    (∀ c, added .calm 1 (tableAfter .calm ⟨[], 0⟩ (untilDump before)) (sinceDump before) c =
      match c with | .rxPackets => 1 | .txPackets => 0 | .rxBytes => 10 | .txBytes => 0) ∧
    ¬DumpExact .calm 1 before fun _ => some (9, 0) := by
  refine ⟨by decide, fun c => by cases c <;> decide, fun exact_ => ?_⟩
  have reported := exact_ ⟨2000000000, 3, 3, 10, 0⟩ (by decide) .rxPackets
  revert reported
  decide

end WlanBridge
