import WlanBridge.Accounts
import WlanBridge.Runs

/-! The sends of a flood one by one: the kernel's answer to each of them, what is
counted for it, and what is left of the flood when it returns. -/
namespace WlanBridge

/-- What `sendto` does to the socket, by the datagram that it is given. -/
def Udp.offer (k : Kernel) (u : Udp) (d : Datagram) : Udp :=
  match k.sendto u.calls d with
  | none => { u with calls := u.calls + 1 }.record (.sendto d true)
  | some errno => { u with errno := errno, calls := u.calls + 1 }.record (.sendto d false)

def Udp.offers (k : Kernel) (u : Udp) (ds : List Datagram) : Udp := ds.foldl (Udp.offer k) u

/-- The kernel's answers to a sequence of `sendto` calls after `calls` earlier ones. -/
def answers (k : Kernel) (calls : Nat) : List Datagram → List (Datagram × Bool)
  | [] => []
  | d :: rest => (d, (k.sendto calls d).isNone) :: answers k (calls + 1) rest

def taken (replies : List (Datagram × Bool)) : List Datagram := (replies.filter Prod.snd).map Prod.fst

def rxCharge (origin : SockaddrIn) (len : Nat) : Charge := (origin.sinAddr, .rx 1 (BitVec.ofNat 32 len))

def txCharge (len : Nat) (d : Datagram) : Charge := (d.dest.sinAddr, .tx 1 (BitVec.ofNat 32 len))

theorem rxCharge_total {ι : Type} (items : List ι) (origin : ι → SockaddrIn) (len : ι → Nat)
    (fits : ∀ i ∈ items, len i ≤ UINT_MAX) (ip4Addr : U32) :
    let own := items.filter fun i => (origin i).sinAddr = ip4Addr
    Ledger.total (items.map fun i => rxCharge (origin i) (len i)) ip4Addr =
      ⟨BitVec.ofNat 64 own.length, BitVec.ofNat 64 (own.map len).sum, 0, 0, 0⟩ := by
  intro own
  have whole := rx_sum (own.map len) (by
    intro n member
    obtain ⟨i, inOwn, rfl⟩ := List.mem_map.mp member
    exact fits i (List.mem_filter.mp inOwn).1)
  rw [List.map_map, List.length_map] at whole
  exact (Ledger.total_map _ _ items ip4Addr).trans whole

theorem txCharge_total (ds : List Datagram) (len : Datagram → Nat) (fits : ∀ d ∈ ds, len d ≤ UINT_MAX)
    (ip4Addr : U32) :
    let own := ds.filter fun d => d.dest.sinAddr = ip4Addr
    Ledger.total (ds.map fun d => txCharge (len d) d) ip4Addr =
      ⟨0, 0, BitVec.ofNat 64 own.length, BitVec.ofNat 64 (own.map len).sum, 0⟩ := by
  intro own
  have whole := tx_sum (own.map len) (by
    intro n member
    obtain ⟨d, inOwn, rfl⟩ := List.mem_map.mp member
    exact fits d (List.mem_filter.mp inOwn).1)
  rw [List.map_map, List.length_map] at whole
  exact (Ledger.total_map _ _ ds ip4Addr).trans whole

theorem sendDataToUdpClient_offer (k : Kernel) (u : Udp) (len : Nat) (buf : Buf) (addr : SockaddrIn) :
    (sendDataToUdpClient k u len buf addr).2 = u.offer k (buf.datagram len addr) := by
  simp only [sendDataToUdpClient, sendto, Udp.offer]
  cases k.sendto u.calls (buf.datagram len addr) <;> rfl

theorem sendDataToUdpClient_complete (k : Kernel) (u : Udp) (len : Nat) (buf : Buf) (addr : SockaddrIn) :
    (sendDataToUdpClient k u len buf addr).1 = len ↔ (k.sendto u.calls (buf.datagram len addr)).isNone := by
  simp only [sendDataToUdpClient, sendto]
  cases k.sendto u.calls (buf.datagram len addr) with
  | none => simp
  | some errno =>
    simp only [Option.isNone_some, Bool.false_eq_true, iff_false]
    omega

theorem offer_spec (k : Kernel) (u : Udp) (d : Datagram) :
    (u.offer k d).trace = u.trace ++ [.sendto d (k.sendto u.calls d).isNone] ∧
    (u.offer k d).calls = u.calls + 1 := by
  simp only [Udp.offer]
  cases k.sendto u.calls d <;> exact ⟨rfl, rfl⟩

theorem offers_append (k : Kernel) (u : Udp) (ds more : List Datagram) :
    u.offers k (ds ++ more) = (u.offers k ds).offers k more := List.foldl_append ..

theorem offers_calls (k : Kernel) (u : Udp) (ds : List Datagram) :
    (u.offers k ds).calls = u.calls + ds.length := by
  induction ds generalizing u with
  | nil => rfl
  | cons d rest ih =>
    have later := ih (u.offer k d)
    rw [(offer_spec k u d).2] at later
    rw [List.length_cons, ← Nat.add_assoc, Nat.add_right_comm]
    exact later

theorem offers_trace (k : Kernel) (u : Udp) (ds : List Datagram) :
    (u.offers k ds).trace = u.trace ++ (answers k u.calls ds).map fun a => .sendto a.1 a.2 := by
  induction ds generalizing u with
  | nil => simp [Udp.offers, answers]
  | cons d rest ih =>
    have later := ih (u.offer k d)
    rw [(offer_spec k u d).1, (offer_spec k u d).2, List.append_assoc] at later
    exact later

theorem answers_append (k : Kernel) (calls : Nat) (ds more : List Datagram) :
    answers k calls (ds ++ more) = answers k calls ds ++ answers k (calls + ds.length) more := by
  induction ds generalizing calls with
  | nil => rfl
  | cons d rest ih =>
    rw [List.cons_append, answers, answers, ih, List.length_cons, List.cons_append, Nat.add_right_comm,
      ← Nat.add_assoc]

theorem taken_append (replies more : List (Datagram × Bool)) :
    taken (replies ++ more) = taken replies ++ taken more := by
  simp [taken]

theorem mem_taken (member : d ∈ taken (answers k calls ds)) : d ∈ ds := by
  induction ds generalizing calls with
  | nil => simp [answers, taken] at member
  | cons e rest ih =>
    obtain ⟨a, inReplies, rfl⟩ := List.mem_map.mp member
    rcases List.mem_cons.mp (List.mem_filter.mp inReplies).1 with rfl | later
    · exact List.mem_cons_self
    · refine List.mem_cons_of_mem _ (@ih (calls + 1) ?_)
      exact List.mem_map_of_mem (List.mem_filter.mpr ⟨later, (List.mem_filter.mp inReplies).2⟩)

theorem transmitted_offers (k : Kernel) (u : Udp) (ds : List Datagram) :
    transmitted (u.offers k ds).trace = transmitted u.trace ++ taken (answers k u.calls ds) := by
  rw [offers_trace, transmitted_append]
  congr 1
  generalize answers k u.calls ds = replies
  induction replies with
  | nil => rfl
  | cons a rest ih =>
    obtain ⟨d, accepted⟩ := a
    rw [List.map_cons, ← List.singleton_append, transmitted_append, ih]
    cases accepted <;> rfl

section Counted
variable {ip4Addr : U32}

theorem floodSend_spec (env : Env) (len : Nat) (buf : Buf) (s : Server) (room : s.stats.Counts env ip4Addr)
    (addr : SockaddrIn) :
    let d := buf.datagram len addr
    let s' := floodSend env len buf s addr
    s'.udp = s.udp.offer env.kernel d ∧
    s.stats.Booked ip4Addr s'.stats ((taken (answers env.kernel s.udp.calls [d])).map (txCharge len)) := by
  intro d s'
  have offered := sendDataToUdpClient_offer env.kernel s.udp len buf addr
  refine ⟨?_, ?_⟩
  · simp only [s', floodSend]
    split <;> exact offered
  · have complete := sendDataToUdpClient_complete env.kernel s.udp len buf addr
    simp only [s', floodSend, answers, taken]
    cases accepted : (env.kernel.sendto s.udp.calls d).isNone with
    | true =>
      rw [if_neg (not_not.mpr (complete.mpr accepted))]
      exact wlanIpStaticUpdateTx_booked env s.stats room addr.sinAddr 1 (BitVec.ofNat 32 len)
    | false =>
      rw [if_pos fun whole => Bool.false_ne_true (accepted.symm.trans (complete.mp whole))]
      exact .refl _ _

theorem foldl_floodSend_spec (env : Env) (len : Nat) (buf : Buf) (s : Server)
    (room : s.stats.Counts env ip4Addr) (addrs : List SockaddrIn) :
    let ds := addrs.map (buf.datagram len)
    let s' := addrs.foldl (floodSend env len buf) s
    s'.udp = s.udp.offers env.kernel ds ∧
    s.stats.Booked ip4Addr s'.stats ((taken (answers env.kernel s.udp.calls ds)).map (txCharge len)) := by
  induction addrs generalizing s with
  | nil => exact ⟨rfl, .refl _ _⟩
  | cons addr rest ih =>
    obtain ⟨offered, booked⟩ := floodSend_spec env len buf s room addr
    obtain ⟨later, more⟩ := ih (floodSend env len buf s addr) (booked.counts room)
    rw [offered] at later more
    rw [(offer_spec ..).2] at more
    refine ⟨later, ?_⟩
    have whole := booked.trans more
    rw [← List.map_append, ← taken_append] at whole
    exact whole

/-- A flood over shared records, with everything it counts. -/
theorem wlanBrFlood_books (ip4Addr : U32) (env : Env) (s : Server) (room : s.stats.Counts env ip4Addr)
    (shared : s.bridge.Shared) (len : Nat) (buf : Buf) (origin : SockaddrIn) :
    let ds := (s.bridge.floodOrder origin).map (buf.datagram len)
    let s' := wlanBrFlood env s len buf origin
    s'.bridge = s.bridge ∧ s'.udp = s.udp.offers env.kernel ds ∧
    s.stats.Booked ip4Addr s'.stats
      (rxCharge origin len :: (taken (answers env.kernel s.udp.calls ds)).map (txCharge len)) := by
  intro ds s'
  have whole : s' = _ := wlanBrFlood_shared env s shared len buf origin
  have received := wlanIpStaticUpdateRx_booked env s.stats room origin.sinAddr 1 (BitVec.ofNat 32 len)
  rw [whole]
  obtain ⟨sent, booked⟩ := foldl_floodSend_spec env len buf { s with
    stats := wlanIpStaticUpdateRx env s.stats origin.sinAddr 1 (BitVec.ofNat 32 len) }
    (received.counts room) (s.bridge.floodOrder origin)
  exact ⟨foldl_floodSend_bridge .., sent, received.trans booked⟩

end Counted

/-- Over any list whose entries share records by address, a flood makes one send to every
peer but the sender, in the order of first occurrence, counts those that the kernel takes,
and leaves list, records and flags as they were, so the next flood does the same. -/
theorem flood_exact (env : Env) (ok : env.StatsAllocate) (s : Server) (shared : s.bridge.Shared) (len : Nat)
    (fits : len ≤ UINT_MAX) (buf : Buf) (origin : SockaddrIn) :
    let peers := ((s.bridge.lHead.filterMap s.bridge.addrOf).filter (· ≠ origin)).eraseDups
    let replies := answers env.kernel s.udp.calls (peers.map (buf.datagram len))
    let s' := wlanBrFlood env s len buf origin
    s'.udp.trace = s.udp.trace ++ replies.map (fun a => .sendto a.1 a.2) ∧
    peers.Nodup ∧ (∀ q, q ∈ peers ↔ q ≠ origin ∧ ∃ entry ∈ s.bridge.lHead, s.bridge.addrOf entry = some q) ∧
    (∀ ip4Addr,
      let own := (taken replies).filter fun d => d.dest.sinAddr = ip4Addr
      s'.stats.account ip4Addr = s.stats.account ip4Addr +
        ⟨if origin.sinAddr = ip4Addr then 1 else 0, if origin.sinAddr = ip4Addr then BitVec.ofNat 64 len else 0,
          BitVec.ofNat 64 own.length, BitVec.ofNat 64 (own.length * len), 0⟩) ∧
    s'.bridge = s.bridge ∧
    (∀ (env' : Env) (len' : Nat) (buf' : Buf) (origin' : SockaddrIn),
      attempted (wlanBrFlood env' s' len' buf' origin').udp.trace =
        attempted s'.udp.trace ++ (s.bridge.floodOrder origin').map (buf'.datagram len')) := by
  intro peers replies s'
  have books (ip4Addr : U32) := wlanBrFlood_books ip4Addr env s (Or.inr ok) shared len buf origin
  obtain ⟨kept, sent, _⟩ := books 0
  refine ⟨?_, nodup_eraseDups _, fun q => ?_, fun ip4Addr => ?_, kept, ?_⟩
  · simp only [s', sent]
    exact offers_trace ..
  · rw [← List.mem_filterMap]
    exact mem_floodOrder s.bridge origin q
  · intro own
    have account : s'.stats.account ip4Addr = s.stats.account ip4Addr +
        Ledger.total (rxCharge origin len :: (taken replies).map (txCharge len)) ip4Addr :=
      (books ip4Addr).2.2.account
    have counted : Ledger.total ((taken replies).map (txCharge len)) ip4Addr =
        ⟨0, 0, BitVec.ofNat 64 own.length, BitVec.ofNat 64 (own.map fun _ => len).sum, 0⟩ :=
      txCharge_total (taken replies) (fun _ => len) (fun _ _ => fits) ip4Addr
    rw [account, Ledger.total_cons, counted, rxCharge, List.map_const', List.sum_replicate_nat]
    congr 1
    by_cases home : origin.sinAddr = ip4Addr
    · simp [home, Tatistics.add_def, Tatistics.rx, setWidth_ofNat fits, own]
    · simp [home, own]
  · intro env' len' buf' origin'
    have kept : s'.bridge = s.bridge := kept
    rw [wlanBrFlood_shared env' s' (by rw [kept]; exact shared), foldl_floodSend_attempted, kept]

/-- Two stations of one peer and one of another; the first of the two sends fails. -/
theorem flood_exact_sample :
    let s := run .calm .init [.handle (sampleFrame 255 2 100), .burst [sampleFrame 255 4 100, sampleFrame 2 6 200]]
    let env : Env := ⟨fun _ _ => true, ⟨fun n _ => if n = 2 then some 111 else none, fun _ batch => .sent batch.length⟩⟩
    let d (port : U16) : Datagram := ⟨0, [7, 8], ⟨1, port⟩⟩
    (wlanBrFlood env s 2 ⟨0, [7, 8]⟩ ⟨1, 150⟩).udp.trace =
      s.udp.trace ++ [.sendto (d 200) true, .sendto (d 100) false] := by
  intro s env d
  have wf : s.bridge.Wf := run_wf .calm .init init_wf _
  exact (flood_exact env (fun _ => rfl) s wf.shared 2 (by decide) ⟨0, [7, 8]⟩ ⟨1, 150⟩).1.trans (by decide)

end WlanBridge
