import WlanBridge.FirstSeen

/-! Stations that are seen behind several peers. The FDB keeps the first peer of a
MAC, and a peer is listed only for a MAC it was first to use; so lookups follow a
station, and floods reach a peer, under exactly the conditions below. -/
namespace WlanBridge

/-- After the run `m` is found at the peer that used it last, and the next frame for it
from elsewhere, in either handler, is sent there and nowhere else. -/
def FollowsStation (env : Env) (calls : List Call) (m : EtherAddr) : Prop :=
  let last := Learning.lastSeen (sightings (frames calls)) m
  let s := run env .init calls
  (wlanBrFind s.bridge m).map WlanFdbEntry.peerAddr = last ∧
  ∀ (call : Call) (f : Slot), call.slots.head? = some f → f.Framed → f.destination = m →
    some f.peerAddr ≠ last → ∀ q, f.datagram 0 q ∈ call.attempts env s ↔ last = some q

/-- A station is followed exactly as long as the peer that used it last is the one
that used it first. -/
theorem follows_station_iff (env : Env) (ok : env.Allocates) (calls : List Call)
    (framed : ∀ slot ∈ frames calls, slot.Framed) (m : EtherAddr) (alone : ¬IsGroup m)
    (seen : m ∈ (frames calls).map Slot.source) :
    FollowsStation env calls m ↔
      Learning.firstSeen (sightings (frames calls)) m = Learning.lastSeen (sightings (frames calls)) m := by
  have found : (wlanBrFind (run env .init calls).bridge m).map WlanFdbEntry.peerAddr =
      Learning.firstSeen (sightings (frames calls)) m := congrFun (run_table env ok calls framed) m
  constructor
  · rintro ⟨lookup, _⟩
    rw [← found, lookup]
  · intro unmoved
    refine ⟨found.trans unmoved, ?_⟩
    intro call f head whole addressed away q
    have known : m ∈ (sightings (frames calls)).map Prod.fst := by
      simpa [sightings, sighting] using seen
    obtain ⟨r, first⟩ := Option.isSome_iff_exists.mp (Learning.firstSeen_isSome.mpr known)
    have later : Learning.firstSeen (sightings (frames calls ++ [f])) m = some r := by
      rw [sightings, List.map_append, Learning.firstSeen_append]
      simp only [sightings] at first
      rw [first, Option.some_or]
    rw [← unmoved, first] at away ⊢
    have apart : r ≠ f.peerAddr := fun same => away (by rw [same])
    have at_zero : call.slots[0]? = some f := by rw [← List.head?_eq_getElem?, head]
    have one : call.slots.take (0 + 1) = [f] := by simp [List.take_one, head]
    rw [datagram_mem_attempts_run env ok calls framed call 0 f at_zero (by simpa [one] using whole), one,
      addressed, Learning.targets_known alone later apart, Set.mem_singleton_iff, Option.some.injEq]
    exact eq_comm

theorem follows_station_sample : FollowsStation .calm [.handle (sampleFrame 255 2 100),
    .burst [sampleFrame 2 4 200, sampleFrame 4 2 100]] ⟨2, 0, 0, 0, 0, 0⟩ :=
  (follows_station_iff .calm calm_allocates [.handle (sampleFrame 255 2 100),
    .burst [sampleFrame 2 4 200, sampleFrame 4 2 100]] (by decide) ⟨2, 0, 0, 0, 0, 0⟩ (by decide)
    (by decide)).mpr (by decide)

/-- A station whose client comes back on another port is still sent to on the old one. -/
theorem moved_station_lost :
    let calls : List Call := [.handle (sampleFrame 255 2 100), .handle (sampleFrame 255 2 101)]
    let m : EtherAddr := ⟨2, 0, 0, 0, 0, 0⟩
    (∀ slot ∈ frames calls, slot.Framed) ∧ ¬IsGroup m ∧ m ∈ (frames calls).map Slot.source ∧
    Learning.lastSeen (sightings (frames calls)) m = some ⟨1, 101⟩ ∧
    wlanBrFind (run .calm .init calls).bridge m = some ⟨m, ⟨1, 100⟩⟩ ∧
    (Call.handle (sampleFrame 2 4 200)).attempts .calm (run .calm .init calls) =
      [(sampleFrame 2 4 200).datagram 0 ⟨1, 100⟩] := by
  decide

def IsFlooded (history : List Slot) (f : Slot) : Prop :=
  Learning.Floods IsGroup (Learning.firstSeen (sightings history)) f.destination

/-- A flood reaches every peer that has sent a frame exactly when each of them, the
sender apart, was the first to use some source MAC. -/
theorem flood_complete_iff (env : Env) (ok : env.Allocates) (calls : List Call)
    (framed : ∀ slot ∈ frames calls, slot.Framed) (call : Call) (alsoFramed : ∀ slot ∈ call.slots, slot.Framed)
    (i : Nat) (f : Slot) (at_i : call.slots[i]? = some f)
    (floods : IsFlooded (frames calls ++ call.slots.take (i + 1)) f) :
    let history := frames calls ++ call.slots.take (i + 1)
    (∀ g ∈ history, g.peerAddr ≠ f.peerAddr →
      f.datagram i g.peerAddr ∈ call.attempts env (run env .init calls)) ↔
    (∀ g ∈ history, g.peerAddr ≠ f.peerAddr →
      ∃ mac, Learning.firstSeen (sightings history) mac = some g.peerAddr) := by
  intro history
  have prefixFramed : ∀ slot ∈ call.slots.take (i + 1), slot.Framed :=
    fun slot member => alsoFramed slot (List.mem_of_mem_take member)
  have reached (q : SockaddrIn) (away : q ≠ f.peerAddr) :
      f.datagram i q ∈ call.attempts env (run env .init calls) ↔
        ∃ mac, Learning.firstSeen (sightings history) mac = some q := by
    rw [datagram_mem_attempts_run env ok calls framed call i f at_i prefixFramed,
      Learning.targets_flood floods, Set.mem_sdiff, Set.mem_singleton_iff]
    exact and_iff_left away
  constructor
  · intro complete g member away
    exact (reached _ away).mp (complete g member away)
  · intro listed g member away
    exact (reached _ away).mpr (listed g member away)

theorem flood_complete_sample : (sampleFrame 255 6 150).datagram 1 ⟨1, 100⟩ ∈
    (Call.burst [sampleFrame 2 4 200, sampleFrame 255 6 150]).attempts .calm
      (run .calm .init [.handle (sampleFrame 255 2 100)]) :=
  (flood_complete_iff .calm calm_allocates [.handle (sampleFrame 255 2 100)] (by decide)
    (.burst [sampleFrame 2 4 200, sampleFrame 255 6 150]) (by decide) 1 (sampleFrame 255 6 150) rfl
    (Or.inl (by decide))).mpr (fun g member _ => ⟨g.source, by revert g; decide⟩) (sampleFrame 255 2 100)
    (by decide) (by decide)

/-- The peer on port 200 sent a frame, with a MAC of another peer; no broadcast reaches it. -/
theorem silent_peer_left_out :
    let calls : List Call := [.handle (sampleFrame 255 2 100), .handle (sampleFrame 255 2 200)]
    let f := sampleFrame 255 6 150
    (∀ slot ∈ frames calls ++ [f], slot.Framed) ∧ IsGroup f.destination ∧
    (sampleFrame 255 2 200) ∈ frames calls ∧
    (Call.handle f).attempts .calm (run .calm .init calls) = [f.datagram 0 ⟨1, 100⟩] := by
  decide

end WlanBridge
