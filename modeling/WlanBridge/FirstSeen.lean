import WlanBridge.Emission

/-! The single-frame path as an abstract bridge: a frame goes where the table of
first sightings directs it, whatever the outcome of the sends before it. -/
namespace WlanBridge

theorem run_then_learn (env : Env) (ok : env.Allocates) (calls : List Call)
    (framed : ∀ slot ∈ frames calls, slot.Framed) (more : List Slot)
    (alsoFramed : ∀ slot ∈ more, slot.Framed) :
    (learnAll env (run env .init calls).bridge more).table =
      Learning.firstSeen (sightings (frames calls ++ more)) := by
  have wf := run_wf env .init init_wf calls
  rw [learnAll_table env ok wf more alsoFramed, run_table env ok calls framed]
  funext mac
  rw [Learning.learnAll_apply, ← Learning.firstSeen_append, sightings, sightings, sightings, List.map_append]

theorem mem_dests_run (env : Env) (ok : env.Allocates) (calls : List Call)
    (framed : ∀ slot ∈ frames calls, slot.Framed) (more : List Slot)
    (alsoFramed : ∀ slot ∈ more, slot.Framed) (dst : EtherAddr) (origin q : SockaddrIn) :
    q ∈ (learnAll env (run env .init calls).bridge more).dests dst origin ↔
      q ∈ Learning.targets IsGroup (Learning.firstSeen (sightings (frames calls ++ more))) dst origin := by
  have wf := run_wf env .init init_wf calls
  rw [mem_dests (learnAll_wf env wf more) (learnAll_synced env ok wf (run_synced env ok calls) more),
    run_then_learn env ok calls framed more alsoFramed]

/-- Frame `i` of a call after a run, directed by the sightings up to it. -/
theorem datagram_mem_attempts_run (env : Env) (ok : env.Allocates) (calls : List Call)
    (framed : ∀ slot ∈ frames calls, slot.Framed) (call : Call) (i : Nat) (f : Slot)
    (at_i : call.slots[i]? = some f) (alsoFramed : ∀ slot ∈ call.slots.take (i + 1), slot.Framed)
    (q : SockaddrIn) :
    f.datagram i q ∈ call.attempts env (run env .init calls) ↔
      q ∈ Learning.targets IsGroup (Learning.firstSeen (sightings (frames calls ++ call.slots.take (i + 1))))
        f.destination f.peerAddr := by
  have wf := run_wf env .init init_wf calls
  have member : f ∈ call.slots.take (i + 1) := by
    apply List.mem_of_getElem?
    rw [List.getElem?_take_of_lt (Nat.lt_succ_self i), at_i]
  rw [datagram_mem_attempts env _ wf call i f at_i, mem_dests_run env ok calls framed _ alsoFramed,
    (alsoFramed f member).dst]

theorem eq_singleton_of_nodup {l : List α} (distinct : l.Nodup) (only : ∀ x, x ∈ l ↔ x = a) : l = [a] := by
  apply List.perm_singleton.mp
  exact (List.perm_ext_iff_of_nodup distinct (List.nodup_singleton a)).mpr (by simpa using only)

/-- Every datagram attempted for a frame carries its bytes, goes to a target of the
first-seen table, and no target is served twice. -/
theorem handle_refines_first_seen (env : Env) (ok : env.Allocates) (earlier : List Slot) (f : Slot)
    (framed : ∀ slot ∈ earlier ++ [f], slot.Framed) :
    let first := Learning.firstSeen (sightings (earlier ++ [f]))
    let sent := (Call.handle f).attempts env (run env .init (earlier.map .handle))
    (∀ d ∈ sent, d.data = f.data) ∧
    (IsGroup f.destination ∨ first f.destination = none → (sent.map Datagram.dest).Nodup ∧
      ∀ q, q ∈ sent.map Datagram.dest ↔ (∃ mac, first mac = some q) ∧ q ≠ f.peerAddr) ∧
    (¬IsGroup f.destination → ∀ q, first f.destination = some q → q ≠ f.peerAddr →
      sent = [f.datagram 0 q]) ∧
    (¬IsGroup f.destination → first f.destination = some f.peerAddr → sent = []) := by
  intro first sent
  have wf := run_wf env .init init_wf (earlier.map .handle)
  let dests := (learn env (run env .init (earlier.map .handle)).bridge f.peerAddr f.src).dests f.dst f.peerAddr
  have whole : sent = dests.map (f.datagram 0) := handle_attempts env _ wf f
  have addrs : sent.map Datagram.dest = dests := by simp [whole, Slot.datagram, Function.comp_def]
  have distinct : dests.Nodup := dests_nodup _ _ _
  have targets (q : SockaddrIn) : q ∈ dests ↔ q ∈ Learning.targets IsGroup first f.destination f.peerAddr := by
    have spec := mem_dests_run env ok (earlier.map .handle)
      (by rw [frames_handle]; exact fun slot member => framed slot (List.mem_append_left _ member)) [f]
      (fun slot member => framed slot (List.mem_append_right _ member)) f.dst f.peerAddr q
    rw [frames_handle, (framed f (by simp)).dst] at spec
    simpa [dests, learnAll, (framed f (by simp)).dst] using spec
  refine ⟨?_, ?_, ?_, ?_⟩
  · intro d member
    rw [whole] at member
    obtain ⟨q, _, rfl⟩ := List.mem_map.mp member
    rfl
  · intro floods
    rw [addrs]
    refine ⟨distinct, fun q => ?_⟩
    rw [targets, Learning.targets_flood floods]
    rfl
  · intro alone q held away
    have single : dests = [q] := by
      apply eq_singleton_of_nodup distinct
      intro r
      rw [targets, Learning.targets_known alone held away]
      rfl
    rw [whole, single]
    rfl
  · intro alone held
    have none : dests = [] := by
      apply List.eq_nil_iff_forall_not_mem.mpr
      intro r
      rw [targets, Learning.targets_home alone held]
      exact id
    rw [whole, none]
    rfl

/-- The second station answers the first one, alone. -/
theorem handle_answer : (Call.handle (sampleFrame 2 4 200)).attempts .calm
    (run .calm .init ([sampleFrame 255 2 100].map .handle)) = [(sampleFrame 2 4 200).datagram 0 ⟨1, 100⟩] :=
  (handle_refines_first_seen .calm calm_allocates [sampleFrame 255 2 100] (sampleFrame 2 4 200)
    (by decide)).2.2.1 (by decide) ⟨1, 100⟩ (by decide) (by decide)

end WlanBridge
