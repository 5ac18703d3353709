import WlanBridge.Runs

/-! The reference count of a peer record: the number of list entries that point to it,
in the 16 bits of the field. -/
namespace WlanBridge

/-- The list entries that point to record `p`. -/
def Bridge.users (b : Bridge) (p : Nat) : Nat := b.lHead.countP fun entry => entry.peerAddr = some p

def Bridge.Counted (b : Bridge) : Prop :=
  ∀ p pa, b.peers[p]? = some pa → pa.count = BitVec.ofNat 16 (b.users p)

theorem init_counted : Bridge.init.Counted := by
  intro p pa cell
  simp [Bridge.init] at cell

theorem users_link (b : Bridge) (peers : List PeerAddrInfo) (mac : EtherAddr) (p q : Nat) :
    Bridge.users { b with peers := peers, lHead := ⟨mac, some p⟩ :: b.lHead } q =
      b.users q + if p = q then 1 else 0 := by
  simp [Bridge.users, List.countP_cons]

theorem Bridge.Wf.users_length (wf : Bridge.Wf b) : b.users b.peers.length = 0 := by
  rw [Bridge.users, List.countP_eq_zero]
  intro entry member last
  obtain ⟨p, pointer, bound⟩ := wf.pointers entry member
  rw [decide_eq_true_eq, pointer, Option.some.injEq] at last
  omega

theorem Bridge.Counted.shared (counted : Bridge.Counted b) (cell : b.peers[p]? = some pa) (mac : EtherAddr) :
    Bridge.Counted { b with
      peers := b.peers.modify p (fun pa => { pa with count := pa.count + 1, floodFlag := 0 })
      lHead := ⟨mac, some p⟩ :: b.lHead } := by
  intro q pb at_q
  rw [users_link]
  simp only [List.getElem?_modify] at at_q
  by_cases here : p = q
  · subst here
    rw [cell] at at_q
    obtain rfl := Option.some.inj at_q
    have before := counted p pa cell
    simp only [if_true, before, BitVec.ofNat_add]
    rfl
  · cases old : b.peers[q]? with
    | none => simp [old] at at_q
    | some pc =>
      simp only [old, here, if_false, Option.map_eq_map, Option.map_some, Option.some.injEq] at at_q
      subst at_q
      simpa [here] using counted q pc old

theorem Bridge.Counted.fresh (wf : Bridge.Wf b) (counted : Bridge.Counted b) (mac : EtherAddr)
    (peerAddr : SockaddrIn) :
    Bridge.Counted { b with
      peers := b.peers ++ [⟨peerAddr, 1, 0⟩], lHead := ⟨mac, some b.peers.length⟩ :: b.lHead } := by
  intro q pb at_q
  rw [users_link]
  by_cases last : b.peers.length = q
  · subst last
    have none_ := wf.users_length
    simp only [List.getElem?_concat_length, Option.some.injEq] at at_q
    subst at_q
    simp [none_]
  · have before : b.peers[q]? = some pb := by
      have bound := (List.getElem?_eq_some_iff.mp at_q).1
      simp only [List.length_append, List.length_cons, List.length_nil] at bound
      rwa [List.getElem?_append_left (by omega)] at at_q
    simpa [last] using counted q pb before

theorem learn_counted (env : Env) (wf : Bridge.Wf b) (counted : b.Counted) (peerAddr : SockaddrIn)
    (mac : EtherAddr) : (learn env b peerAddr mac).Counted := by
  generalize next : learn env b peerAddr mac = b'
  have step := learn_spec env b peerAddr mac wf
  rw [next] at step
  cases step with
  | known _ => exact counted
  | fdbFull _ _ => exact counted
  | listFull _ _ _ => exact counted
  | peerFull _ _ _ _ _ => exact counted
  | shared p pa _ _ _ cell _ => exact counted.shared cell mac
  | fresh _ _ _ _ _ => exact Bridge.Counted.fresh wf counted mac peerAddr

theorem run_counted (env : Env) (calls : List Call) : (run env .init calls).bridge.Counted := by
  rw [run_bridge env .init init_wf]
  induction frames calls using List.reverseRecOn with
  | nil => exact init_counted
  | append_singleton done slot ih =>
    rw [learnAll_append]
    exact learn_counted env (learnAll_wf env init_wf done) ih slot.peerAddr slot.src

end WlanBridge
