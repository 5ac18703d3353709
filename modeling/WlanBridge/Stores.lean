import WlanBridge.FirstSeen

/-! The two forwarding stores in lock step, and `wlan_br_dump_fdb`, which prints the
list half: its lines are those of the FDB, each once. -/
namespace WlanBridge

/-- `snprintf` writes at most `size - 1` characters. -/
def snprintf (size : Nat) (text : List Char) : List Char := text.take (size - 1)

def padLeft (c : Char) (width : Nat) (text : List Char) : List Char :=
  List.replicate (width - text.length) c ++ text

def padRight (width : Nat) (text : List Char) : List Char :=
  text ++ List.replicate (width - text.length) ' '

def hexByte (b : Byte) : List Char := padLeft '0' 2 (Nat.toDigits 16 b.toNat)

def decimal (n : Nat) : List Char := Nat.toDigits 10 n

def etherAddrToStr (addr : EtherAddr) (len : Nat) : Option (List Char) :=
  if len < 17 then none
  else some (snprintf len (hexByte addr.b0 ++ ':' :: hexByte addr.b1 ++ ':' :: hexByte addr.b2 ++
    ':' :: hexByte addr.b3 ++ ':' :: hexByte addr.b4 ++ ':' :: hexByte addr.b5))

/-- Byte `i` of an address in network byte order, as a little-endian host holds it. -/
def addrByte (sAddr : U32) (i : Nat) : Byte := (sAddr >>> (8 * i)).setWidth 8

def inetNtoa (sAddr : U32) : List Char :=
  decimal (addrByte sAddr 0).toNat ++ '.' :: decimal (addrByte sAddr 1).toNat ++
    '.' :: decimal (addrByte sAddr 2).toNat ++ '.' :: decimal (addrByte sAddr 3).toNat

def ntohs (port : U16) : U16 := (port <<< 8) ||| (port >>> 8)

/-- The format `%15s:%-5d -> %s`; a null string prints as `(null)`. -/
def dumpLine (addr : SockaddrIn) (mac : EtherAddr) : List Char :=
  snprintf 127 (padLeft ' ' 15 (inetNtoa addr.sinAddr) ++
    ':' :: padRight 5 (decimal (ntohs addr.sinPort).toNat) ++ [' ', '-', '>', ' '] ++
    (etherAddrToStr mac 20).getD ['(', 'n', 'u', 'l', 'l', ')'])

/-- The strings given to the callback; `none` when a null record is dereferenced. -/
def wlanBrDumpFdb (b : Bridge) : Option (List (List Char)) :=
  b.lHead.mapM fun entry => entry.peerAddr.map fun p => dumpLine (b.peers[p]!).addr entry.keyRemoteMac

theorem hexByte_eq (b : Byte) : hexByte b = [(b.toNat / 16).digitChar, (b.toNat % 16).digitChar] := by
  have bound := b.isLt
  by_cases small : b.toNat < 16
  · have high : b.toNat / 16 = 0 := by omega
    have low : b.toNat % 16 = b.toNat := by omega
    rw [hexByte, Nat.toDigits_of_lt_base small, high, low]
    rfl
  · rw [hexByte, Nat.toDigits_of_base_le (by omega) (by omega), Nat.toDigits_of_lt_base (by omega)]
    rfl

theorem digitChar_inj : ∀ i < 16, ∀ j < 16, Nat.digitChar i = Nat.digitChar j → i = j := by decide

theorem hexByte_inj (same : hexByte a = hexByte b) : a = b := by
  have left := a.isLt
  have right := b.isLt
  rw [hexByte_eq, hexByte_eq, List.cons.injEq, List.cons.injEq] at same
  have high := digitChar_inj _ (by omega) _ (by omega) same.1
  have low := digitChar_inj _ (by omega) _ (by omega) same.2.1
  apply BitVec.eq_of_toNat_eq
  omega

theorem etherAddrToStr_eq (mac : EtherAddr) :
    etherAddrToStr mac 20 = some (hexByte mac.b0 ++ ':' :: hexByte mac.b1 ++ ':' :: hexByte mac.b2 ++
      ':' :: hexByte mac.b3 ++ ':' :: hexByte mac.b4 ++ ':' :: hexByte mac.b5) := by
  simp [etherAddrToStr, snprintf, hexByte_eq]

theorem etherAddrToStr_inj (same : etherAddrToStr m 20 = etherAddrToStr m' 20) : m = m' := by
  simp only [etherAddrToStr_eq, hexByte_eq, Option.some.injEq, List.cons_append, List.nil_append,
    List.cons.injEq, true_and, and_true] at same
  obtain ⟨h0, l0, h1, l1, h2, l2, h3, l3, h4, l4, h5, l5⟩ := same
  have byte {a b : Byte} (high : (a.toNat / 16).digitChar = (b.toNat / 16).digitChar)
      (low : (a.toNat % 16).digitChar = (b.toNat % 16).digitChar) : a = b :=
    hexByte_inj (by rw [hexByte_eq, hexByte_eq, high, low])
  obtain ⟨_, _, _, _, _, _⟩ := m
  obtain ⟨_, _, _, _, _, _⟩ := m'
  rw [EtherAddr.mk.injEq]
  exact ⟨byte h0 l0, byte h1 l1, byte h2 l2, byte h3 l3, byte h4 l4, byte h5 l5⟩

theorem inetNtoa_length (sAddr : U32) : (inetNtoa sAddr).length ≤ 15 := by
  have part (i : Nat) : (decimal (addrByte sAddr i).toNat).length ≤ 3 := by
    have bound := (addrByte sAddr i).isLt
    exact (Nat.length_toDigits_le_iff (by omega) (by omega)).mpr (by omega)
  have := part 0
  have := part 1
  have := part 2
  have := part 3
  simp only [inetNtoa, List.length_append, List.length_cons]
  omega

theorem dumpLine_eq (addr : SockaddrIn) (mac : EtherAddr) :
    dumpLine addr mac = padLeft ' ' 15 (inetNtoa addr.sinAddr) ++
      ':' :: padRight 5 (decimal (ntohs addr.sinPort).toNat) ++ [' ', '-', '>', ' '] ++
      (etherAddrToStr mac 20).getD [] := by
  have host := inetNtoa_length addr.sinAddr
  have port : (decimal (ntohs addr.sinPort).toNat).length ≤ 5 := by
    have bound := (ntohs addr.sinPort).isLt
    exact (Nat.length_toDigits_le_iff (by omega) (by omega)).mpr (by omega)
  rw [dumpLine, etherAddrToStr_eq, Option.getD_some, Option.getD_some, snprintf]
  apply List.take_of_length_le
  simp only [padLeft, padRight, hexByte_eq, List.length_append, List.length_cons, List.length_replicate,
    List.length_nil]
  omega

/-- The MAC ends the line, so lines of different stations differ. -/
theorem dumpLine_mac (same : dumpLine addr mac = dumpLine addr' mac') : mac = mac' := by
  rw [dumpLine_eq, dumpLine_eq] at same
  have tails := (List.append_inj_right' same (by simp [etherAddrToStr_eq, hexByte_eq]))
  apply etherAddrToStr_inj
  rw [etherAddrToStr_eq, etherAddrToStr_eq] at tails ⊢
  simpa using tails

theorem mapM_some {l : List α} {f : α → Option β} {g : α → β} (each : ∀ x ∈ l, f x = some (g x)) :
    l.mapM f = some (l.map g) := by
  induction l with
  | nil => rfl
  | cons x rest ih =>
    have later := ih (fun y member => each y (List.mem_cons_of_mem _ member))
    simp [List.mapM_cons, each x (by simp), later]

section LockStep
variable {b : Bridge}

theorem Bridge.Wf.resolve (wf : b.Wf) (member : entry ∈ b.lHead) :
    ∃ p pa known, entry.peerAddr = some p ∧ b.peers[p]? = some pa ∧
      wlanBrFind b entry.keyRemoteMac = some known ∧ known ∈ b.hHead ∧ pa.addr = known.peerAddr := by
  obtain ⟨p, pointer, bound⟩ := wf.pointers entry member
  obtain ⟨known, inTable, key, address⟩ := wf.agree entry member
  have cell : b.peers[p]? = some b.peers[p] := List.getElem?_eq_getElem bound
  refine ⟨p, _, known, pointer, cell, ?_, inTable, ?_⟩
  · rw [wlanBrFind, ← key]
    exact Keyed.find_of_mem wf.fdbDistinct inTable
  · simpa [Bridge.addrOf, Bridge.peerOf, pointer, cell] using address

theorem Bridge.Wf.listing_perm (wf : b.Wf) (synced : b.Synced) :
    (b.lHead.map fun entry => (entry.keyRemoteMac, b.addrOf entry)).Perm
      (b.hHead.map fun known => (known.keyRemoteMac, some known.peerAddr)) := by
  have distinct {α : Type} {l : List α} {key : α → EtherAddr} {value : α → Option SockaddrIn}
      (keys : (l.map key).Nodup) : (l.map fun a => (key a, value a)).Nodup := by
    apply List.Nodup.of_map Prod.fst
    simpa [List.map_map, Function.comp_def] using keys
  apply (List.perm_ext_iff_of_nodup (distinct wf.listDistinct) (distinct wf.fdbDistinct)).mpr
  rintro ⟨mac, address⟩
  simp only [List.mem_map, Prod.mk.injEq]
  constructor
  · rintro ⟨entry, inList, rfl, rfl⟩
    obtain ⟨known, inTable, key, same⟩ := wf.agree entry inList
    exact ⟨known, inTable, key, same.symm⟩
  · rintro ⟨known, inTable, rfl, rfl⟩
    obtain ⟨entry, inList, key⟩ := List.mem_map.mp (synced _ (List.mem_map_of_mem inTable))
    obtain ⟨other, alsoIn, otherKey, same⟩ := wf.agree entry inList
    have one : other = known := List.inj_on_of_nodup_map wf.fdbDistinct alsoIn inTable (otherKey.trans key)
    exact ⟨entry, inList, key, one ▸ same⟩

theorem Bridge.Wf.dump (wf : b.Wf) (synced : b.Synced) :
    ∃ lines, wlanBrDumpFdb b = some lines ∧ lines.Nodup ∧
      lines.Perm (b.hHead.map fun known => dumpLine known.peerAddr known.keyRemoteMac) := by
  let line (a : EtherAddr × Option SockaddrIn) : List Char := dumpLine (a.2.getD default) a.1
  have each : ∀ entry ∈ b.lHead,
      (entry.peerAddr.map fun p => dumpLine (b.peers[p]!).addr entry.keyRemoteMac) =
        some (line (entry.keyRemoteMac, b.addrOf entry)) := by
    intro entry member
    obtain ⟨p, pointer, bound⟩ := wf.pointers entry member
    simp [line, pointer, bound, Bridge.addrOf, Bridge.peerOf]
  refine ⟨_, mapM_some each, ?_, ?_⟩
  · have keys := wf.listDistinct
    rw [Bridge.listKeys, List.nodup_iff_pairwise_ne, List.pairwise_map] at keys
    rw [List.nodup_iff_pairwise_ne, List.pairwise_map]
    exact keys.imp fun apart same => apart (dumpLine_mac same)
  · have rows := (wf.listing_perm synced).map line
    simpa only [List.map_map, Function.comp_def, line, Option.getD_some] using rows

end LockStep

/-- With memory enough, FDB and list hold the same stations with the same addresses,
records are shared by address, and no flag is left set. -/
theorem stores_lock_step (env : Env) (ok : env.Allocates) (calls : List Call) :
    let b := (run env .init calls).bridge
    b.listKeys.Nodup ∧ (∀ mac, mac ∈ b.listKeys ↔ mac ∈ b.fdbKeys) ∧ b.fdbKeys.Nodup ∧
    (∀ entry ∈ b.lHead, ∃ p pa known, entry.peerAddr = some p ∧ b.peers[p]? = some pa ∧
      wlanBrFind b entry.keyRemoteMac = some known ∧ pa.addr = known.peerAddr) ∧
    (∃ lines, wlanBrDumpFdb b = some lines ∧ lines.Nodup ∧
      lines.Perm (b.hHead.map fun known => dumpLine known.peerAddr known.keyRemoteMac)) ∧
    (∀ (slots : List Slot) (i : Nat),
      let l := burstLoop env (.start (run env .init calls) slots.length) (slots.take i)
      ∀ entry ∈ l.server.bridge.lHead, entry.peerAddr ≠ none) ∧ b.fault = false ∧
    (∀ x ∈ b.lHead, ∀ y ∈ b.lHead, x.peerAddr = y.peerAddr ↔ b.addrOf x = b.addrOf y) ∧
    (∀ pa ∈ b.peers, pa.floodFlag = 0) := by
  intro b
  have wf : b.Wf := run_wf env .init init_wf calls
  have synced : b.Synced := run_synced env ok calls
  refine ⟨wf.listDistinct, fun mac => ⟨wf.listed_known, synced mac⟩, wf.fdbDistinct, ?_, wf.dump synced, ?_,
    wf.alive, fun x first y second => wf.sharing first second, wf.flags⟩
  · intro entry member
    obtain ⟨p, pa, known, pointer, cell, found, _, address⟩ := wf.resolve member
    exact ⟨p, pa, known, pointer, cell, found, address⟩
  · intro slots i l entry member
    simp only [l] at member
    rw [(burstLoop_invariant env _ wf slots.length (slots.take i) (by simp)).bridge] at member
    obtain ⟨p, pointer, _⟩ := (learnAll_wf env wf (slots.take i)).pointers entry member
    rw [pointer]
    exact Option.some_ne_none p

/-- Two stations of one peer and one of another. -/
theorem stores_lock_step_sample :
    let b := (run .calm .init [.handle (sampleFrame 255 2 100),
      .burst [sampleFrame 255 4 100, sampleFrame 2 6 200]]).bridge
    b.listKeys.Nodup ∧ ∀ mac, mac ∈ b.listKeys ↔ mac ∈ b.fdbKeys :=
  have whole := stores_lock_step .calm calm_allocates [.handle (sampleFrame 255 2 100),
    .burst [sampleFrame 255 4 100, sampleFrame 2 6 200]]
  ⟨whole.1, whole.2.1⟩

end WlanBridge
