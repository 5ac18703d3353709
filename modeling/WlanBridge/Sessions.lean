import WlanBridge.Histories
import Mathlib.Logic.Function.Basic

/-! The sessions of the CLI and the descriptors of the process. The kernel gives out a
number again as soon as it is closed, so a second close of one descriptor is harmless
only while nobody else has opened its number. The client's CLI has the same code. -/
namespace WlanBridge

def CLI_OK : Int := 0

def CLI_ERROR : Int := -1

def FD_SETSIZE : Nat := 1024

/-- How `cli_loop` is left: its early returns, or the end of the session. -/
inductive LoopEnd where
  | mallocFails
  | fdopenFails
  | strdupFails
  | ends
  deriving DecidableEq, Repr

/-- The value of `cli_loop`, and whether `fclose(cli->client)` has been called; the stream
of `fdopen` is not closed on the returns in between. -/
def cliLoop (sockfd : Nat) (how : LoopEnd) : Int × Bool :=
  if how = .mallocFails then (CLI_ERROR, false)
  else if how = .fdopenFails then (CLI_ERROR, false)
  else if sockfd ≥ FD_SETSIZE then (CLI_ERROR, false)
  else if how = .strdupFails then (0, false)
  else (CLI_OK, true)

/-- Sessions are numbered in the order of their accepts. -/
inductive Owner where
  | session (id : Nat)
  | other
  deriving DecidableEq, Repr

/-- `unserved`: no thread has been created for the descriptor; `closing`: between `run_child`
and the `close` of `cli_client_thread`. -/
inductive Phase where
  | unserved
  | serving
  | closing (fclosed : Bool)
  | ended
  deriving DecidableEq, Repr

structure Session where
  connectFd : Nat
  phase : Phase
  deriving DecidableEq, Repr

/-- A close for a session, with the owner of the descriptor at that moment. -/
structure Close where
  id : Nat
  hit : Option Owner
  deriving DecidableEq, Repr

/-- The open descriptors of the process and the CLI's sessions; `closes` records every
close that was performed for a session. -/
structure CliServer where
  fds : Nat → Option Owner
  sessions : List Session
  accepting : Bool
  closes : List Close

/-- The CLI's main thread reaches its loop while other parts of the server hold some
descriptors, its own listening socket among them. -/
def CliServer.start (opened : Nat → Bool) : CliServer :=
  ⟨fun fd => if opened fd then some .other else none, [], true, []⟩

inductive CliEvent where
  | accept (fd : Nat) (created : Bool)
  | acceptFails
  | loopReturns (id : Nat) (how : LoopEnd)
  | threadCloses (id : Nat)
  | otherOpens (fd : Nat)
  | otherCloses (fd : Nat)
  deriving DecidableEq, Repr

namespace CliServer
variable (s : CliServer)

def close (id fd : Nat) : CliServer :=
  { s with fds := Function.update s.fds fd none, closes := s.closes ++ [⟨id, s.fds fd⟩] }

def enter (id : Nat) (phase : Phase) : CliServer :=
  { s with sessions := s.sessions.modify id fun session => { session with phase := phase } }

/-- `created` says whether `pthread_create` succeeds; nothing closes the descriptor if not. -/
def cliCreateClientThread (connectFd : Nat) (created : Bool) : CliServer :=
  { s with sessions := s.sessions ++ [⟨connectFd, if created then .serving else .unserved⟩] }

/-- The turn of `cli_main_thread` on a new descriptor. The test is `connect_fd <= 0`, so
descriptor 0 is taken for an error and the thread returns. -/
def cliMainThread (connectFd : Nat) (created : Bool) : CliServer :=
  let s := { s with fds := Function.update s.fds connectFd (some (.session s.sessions.length)) }
  if connectFd ≤ 0 then { s with sessions := s.sessions ++ [⟨connectFd, .unserved⟩], accepting := false }
  else s.cliCreateClientThread connectFd created

/-- `run_child` returns, its loop having closed the stream or not. -/
def runChild (id connectFd : Nat) (how : LoopEnd) : CliServer :=
  let fclosed := (cliLoop connectFd how).2
  let s := if fclosed then s.close id connectFd else s
  s.enter id (.closing fclosed)

/-- Each event is one atomic step. `accept` and the other parts of the server get a
descriptor that is not open; the other parts close their own only. -/
def step : CliEvent → Option CliServer
  | .accept fd created => if s.accepting ∧ s.fds fd = none then some (s.cliMainThread fd created) else none
  | .acceptFails => if s.accepting then some { s with accepting := false } else none
  | .loopReturns id how =>
    match s.sessions[id]? with
    | some ⟨fd, .serving⟩ => some (s.runChild id fd how)
    | _ => none
  | .threadCloses id =>
    match s.sessions[id]? with
    | some ⟨fd, .closing _⟩ => some ((s.close id fd).enter id .ended)
    | _ => none
  | .otherOpens fd =>
    if s.fds fd = none then some { s with fds := Function.update s.fds fd (some .other) } else none
  | .otherCloses fd =>
    if s.fds fd = some .other then some { s with fds := Function.update s.fds fd none } else none

def hits (id : Nat) : Nat := s.closes.countP fun c => c.hit = some (.session id)

/-- Sessions own their descriptors: a session holds its descriptor until it closes it, each
is closed once and by its own session, and no close for a session hits what is not its own. -/
structure Owned : Prop where
  harmless : ∀ c ∈ s.closes, c.hit = none ∨ c.hit = some (.session c.id)
  served : ∀ session ∈ s.sessions, session.phase ≠ .unserved
  held : ∀ id fd, s.sessions[id]? = some ⟨fd, .serving⟩ → s.fds fd = some (.session id)
  once : ∀ id session, s.sessions[id]? = some session →
    s.hits id ≤ 1 ∧ (session.phase = .ended → s.hits id = 1)

/-- `Owned`, and a thread that is about to close its descriptor may do so at once. -/
def Safe : Prop := s.Owned ∧ ∀ id t, s.step (.threadCloses id) = some t → t.Owned

/-- A thread has yet to close this number, which its loop has closed already. -/
def Pending (fd : Nat) : Prop := ⟨fd, .closing true⟩ ∈ s.sessions

/-- An accepted descriptor gets its thread, and nobody opens a number that is to be
closed a second time. -/
def Careful : CliEvent → Prop
  | .accept fd created => fd ≠ 0 ∧ created = true ∧ ¬s.Pending fd
  | .otherOpens fd => ¬s.Pending fd
  | _ => True

section Steps
variable {s t : CliServer} {id fd : Nat}

theorem step_accept :
    s.step (.accept fd created) = some t ↔
      s.accepting = true ∧ s.fds fd = none ∧ s.cliMainThread fd created = t := by
  simp only [step, Option.ite_none_right_eq_some, Option.some.injEq, and_assoc]

theorem step_acceptFails :
    s.step .acceptFails = some t ↔ s.accepting = true ∧ { s with accepting := false } = t := by
  simp only [step, Option.ite_none_right_eq_some, Option.some.injEq]

theorem step_loopReturns :
    s.step (.loopReturns id how) = some t ↔
      ∃ fd, s.sessions[id]? = some ⟨fd, .serving⟩ ∧ s.runChild id fd how = t := by
  match here : s.sessions[id]? with
  | none => simp [step, here]
  | some ⟨fd, phase⟩ => cases phase <;> simp [step, here]

theorem step_threadCloses :
    s.step (.threadCloses id) = some t ↔
      ∃ fd fclosed, s.sessions[id]? = some ⟨fd, .closing fclosed⟩ ∧ (s.close id fd).enter id .ended = t := by
  match here : s.sessions[id]? with
  | none => simp [step, here]
  | some ⟨fd, phase⟩ => cases phase <;> simp [step, here]

theorem step_otherOpens :
    s.step (.otherOpens fd) = some t ↔
      s.fds fd = none ∧ { s with fds := Function.update s.fds fd (some .other) } = t := by
  simp only [step, Option.ite_none_right_eq_some, Option.some.injEq]

theorem step_otherCloses :
    s.step (.otherCloses fd) = some t ↔
      s.fds fd = some .other ∧ { s with fds := Function.update s.fds fd none } = t := by
  simp only [step, Option.ite_none_right_eq_some, Option.some.injEq]

variable (s) in
/-- What the phase of a session says of its descriptor and of the closes that have hit it. -/
def Settled (id : Nat) (session : Session) : Prop :=
  match session.phase with
  | .unserved => False
  | .serving => s.fds session.connectFd = some (.session id) ∧ s.hits id = 0
  | .closing false => s.fds session.connectFd = some (.session id) ∧ s.hits id = 0
  | .closing true => s.fds session.connectFd = none ∧ s.hits id = 1
  | .ended => s.hits id = 1

variable (s) in
structure Invariant : Prop where
  harmless : ∀ c ∈ s.closes, c.hit = none ∨ c.hit = some (.session c.id)
  settled : ∀ id session, s.sessions[id]? = some session → s.Settled id session
  fresh : ∀ id, s.sessions.length ≤ id → s.hits id = 0

theorem start_invariant (opened : Nat → Bool) : (start opened).Invariant where
  harmless := by simp [start]
  settled := by simp [start]
  fresh := by simp [start, hits]

theorem Invariant.owned (valid : s.Invariant) : s.Owned where
  harmless := valid.harmless
  served := by
    intro session member unserved
    obtain ⟨id, here⟩ := List.mem_iff_getElem?.mp member
    have settled := valid.settled id session here
    simp only [Settled, unserved] at settled
  held := fun id fd here => (valid.settled id _ here).1
  once := by
    intro id session here
    have settled := valid.settled id session here
    match phase : session.phase with
    | .unserved => simp only [Settled, phase] at settled
    | .serving => simp only [Settled, phase] at settled; simp [settled.2]
    | .closing false => simp only [Settled, phase] at settled; simp [settled.2]
    | .closing true => simp only [Settled, phase] at settled; simp [settled.2]
    | .ended => simp only [Settled, phase] at settled; simp [settled]

theorem Settled.frame (settled : s.Settled id session)
    (apart : session.connectFd ≠ fd ∨ session.phase = .ended) (fds : t.fds = Function.update s.fds fd owner)
    (hits : t.hits id = s.hits id) : t.Settled id session := by
  rcases apart with other | ended
  · have same : t.fds session.connectFd = s.fds session.connectFd := by rw [fds, Function.update_of_ne other]
    simpa only [Settled, same, hits] using settled
  · simpa only [Settled, ended, hits] using settled

/-- A number that is not open belongs to no session that will still close it, except for
the second close of one that is pending. -/
theorem Settled.apart_none (settled : s.Settled id session) (member : session ∈ s.sessions)
    (none_ : s.fds fd = none) (free : ¬s.Pending fd) :
    session.connectFd ≠ fd ∨ session.phase = .ended := by
  rcases session with ⟨connectFd, phase⟩
  by_cases same : connectFd = fd
  · subst same
    match phase with
    | .unserved => exact settled.elim
    | .serving => exact absurd (none_.symm.trans settled.1) (by simp)
    | .closing false => exact absurd (none_.symm.trans settled.1) (by simp)
    | .closing true => exact absurd member free
    | .ended => exact Or.inr rfl
  · exact Or.inl same

theorem Settled.apart_some (settled : s.Settled id session) (owned : s.fds fd = some owner)
    (foreign : owner ≠ .session id) : session.connectFd ≠ fd ∨ session.phase = .ended := by
  rcases session with ⟨connectFd, phase⟩
  by_cases same : connectFd = fd
  · subst same
    match phase with
    | .unserved => exact settled.elim
    | .serving => exact absurd (Option.some.inj (owned.symm.trans settled.1)) foreign
    | .closing false => exact absurd (Option.some.inj (owned.symm.trans settled.1)) foreign
    | .closing true => exact absurd (owned.symm.trans settled.1) (by simp)
    | .ended => exact Or.inr rfl
  · exact Or.inl same

@[simp] theorem hits_close (id fd other : Nat) :
    (s.close id fd).hits other = s.hits other + if s.fds fd = some (.session other) then 1 else 0 := by
  simp [hits, close, List.countP_append, List.countP_cons]

@[simp] theorem hits_enter (id other : Nat) (phase : Phase) : (s.enter id phase).hits other = s.hits other := rfl

theorem enter_session (here : s.sessions[id]? = some ⟨fd, phase⟩) (next : Phase) (other : Nat)
    (session : Session) (found : (s.enter id next).sessions[other]? = some session) :
    (other = id ∧ session = ⟨fd, next⟩) ∨ (other ≠ id ∧ s.sessions[other]? = some session) := by
  simp only [enter, List.getElem?_modify] at found
  by_cases same : other = id
  · subst same
    simp only [here, if_true, Option.map_eq_map, Option.map_some, Option.some.injEq] at found
    exact Or.inl ⟨rfl, found.symm⟩
  · have different : id ≠ other := fun eq => same eq.symm
    exact Or.inr ⟨same, by simpa [different] using found⟩

theorem enter_invariant (here : s.sessions[id]? = some ⟨fd, phase⟩) (next : Phase)
    (harmless : ∀ c ∈ s.closes, c.hit = none ∨ c.hit = some (.session c.id))
    (own : s.Settled id ⟨fd, next⟩)
    (others : ∀ other session, other ≠ id → s.sessions[other]? = some session → s.Settled other session)
    (fresh : ∀ other, s.sessions.length ≤ other → s.hits other = 0) : (s.enter id next).Invariant where
  harmless := harmless
  settled := by
    intro other session found
    rcases enter_session here next other session found with ⟨rfl, rfl⟩ | ⟨different, old⟩
    · exact own
    · exact others other session different old
  fresh := by
    intro other outside
    rw [enter, List.length_modify] at outside
    exact fresh other outside

theorem Invariant.close_enter (valid : s.Invariant) (here : s.sessions[id]? = some ⟨fd, phase⟩) (next : Phase)
    (mine : s.fds fd = none ∨ s.fds fd = some (.session id)) (own : (s.close id fd).Settled id ⟨fd, next⟩) :
    ((s.close id fd).enter id next).Invariant := by
  have missed (other : Nat) (different : other ≠ id) : (s.close id fd).hits other = s.hits other := by
    have apart : s.fds fd ≠ some (.session other) := by
      rcases mine with nothing | itself
      · simp [nothing]
      · simpa [itself] using fun eq => different eq.symm
    simp [apart]
  apply enter_invariant (s := s.close id fd) here next
  · intro c logged
    rcases List.mem_append.mp logged with old | new
    · exact valid.harmless c old
    · rw [List.mem_singleton.mp new]
      exact mine
  · exact own
  · intro other session different found
    have settled := valid.settled other session found
    rcases mine with nothing | itself
    · have same : (s.close id fd).fds = s.fds := by rw [close, ← nothing, Function.update_eq_self]
      simpa only [Settled, same, missed other different] using settled
    · have apart := settled.apart_some itself fun eq => different (Owner.session.inj eq).symm
      exact settled.frame apart rfl (missed other different)
  · intro other outside
    have inside : id < s.sessions.length := (List.getElem?_eq_some_iff.mp here).1
    have different : other ≠ id := by
      have bound : s.sessions.length ≤ other := outside
      omega
    rw [missed other different]
    exact valid.fresh other outside

theorem Invariant.update (valid : s.Invariant) (owner : Option Owner)
    (apart : ∀ (id : Nat) session, s.sessions[id]? = some session →
      session.connectFd ≠ fd ∨ session.phase = .ended) :
    { s with fds := Function.update s.fds fd owner }.Invariant where
  harmless := valid.harmless
  settled := fun id session found => (valid.settled id session found).frame (apart id session found) rfl rfl
  fresh := valid.fresh

theorem Invariant.accept (valid : s.Invariant) (none_ : s.fds fd = none) (positive : fd ≠ 0)
    (free : ¬s.Pending fd) : (s.cliMainThread fd true).Invariant := by
  have some_ : ¬fd ≤ 0 := by omega
  have made : s.cliMainThread fd true =
      { s with
        fds := Function.update s.fds fd (some (.session s.sessions.length))
        sessions := s.sessions ++ [⟨fd, .serving⟩] } := by
    simp only [cliMainThread, some_, if_false, cliCreateClientThread, if_true]
  rw [made]
  constructor
  · exact valid.harmless
  · intro id session found
    by_cases old : id < s.sessions.length
    · rw [List.getElem?_append_left old] at found
      have apart := (valid.settled id session found).apart_none (List.mem_of_getElem? found) none_ free
      exact (valid.settled id session found).frame apart rfl rfl
    · have last : id = s.sessions.length := by
        have bound := (List.getElem?_eq_some_iff.mp found).1
        simp only [List.length_append, List.length_singleton] at bound
        omega
      subst last
      rw [List.getElem?_concat_length, Option.some.injEq] at found
      subst found
      exact ⟨Function.update_self .., valid.fresh _ (Nat.le_refl _)⟩
  · intro id outside
    rw [List.length_append] at outside
    exact valid.fresh id (by omega)

theorem step_invariant (valid : s.Invariant) (e : CliEvent) (careful : s.Careful e) (next : s.step e = some t) :
    t.Invariant := by
  cases e with
  | accept fd created =>
    obtain ⟨positive, rfl, free⟩ := careful
    obtain ⟨_, none_, rfl⟩ := step_accept.mp next
    exact valid.accept none_ positive free
  | acceptFails =>
    obtain ⟨_, rfl⟩ := step_acceptFails.mp next
    exact ⟨valid.harmless, valid.settled, valid.fresh⟩
  | loopReturns id how =>
    obtain ⟨fd, here, rfl⟩ := step_loopReturns.mp next
    obtain ⟨own, unhit⟩ := valid.settled id _ here
    simp only [runChild]
    cases fclosed : (cliLoop fd how).2 with
    | true =>
      refine valid.close_enter here _ (Or.inr own) ⟨?_, ?_⟩
      · simp [close]
      · simp only at own unhit
        simp [own, unhit]
    | false =>
      refine enter_invariant here _ valid.harmless ⟨own, unhit⟩ ?_ valid.fresh
      exact fun other session _ found => valid.settled other session found
  | threadCloses id =>
    obtain ⟨fd, fclosed, here, rfl⟩ := step_threadCloses.mp next
    have settled := valid.settled id _ here
    cases fclosed with
    | true =>
      obtain ⟨nothing, hit⟩ := settled
      simp only at nothing hit
      refine valid.close_enter here _ (Or.inl nothing) ?_
      simp [Settled, nothing, hit]
    | false =>
      obtain ⟨own, unhit⟩ := settled
      simp only at own unhit
      refine valid.close_enter here _ (Or.inr own) ?_
      simp [Settled, own, unhit]
  | otherOpens fd =>
    obtain ⟨none_, rfl⟩ := step_otherOpens.mp next
    refine valid.update (some .other) fun id session found => ?_
    exact (valid.settled id session found).apart_none (List.mem_of_getElem? found) none_ careful
  | otherCloses fd =>
    obtain ⟨owned, rfl⟩ := step_otherCloses.mp next
    refine valid.update none fun id session found => ?_
    exact (valid.settled id session found).apart_some owned (by simp)

theorem Safe.closing (safe : s.Safe) (here : s.sessions[id]? = some ⟨fd, .closing fclosed⟩) :
    s.fds fd = none ∨ s.fds fd = some (.session id) := by
  have owned := safe.2 id _ (step_threadCloses.mpr ⟨fd, fclosed, here, rfl⟩)
  exact owned.harmless ⟨id, s.fds fd⟩ (List.mem_append_right _ (List.mem_singleton.mpr rfl))

/-- Behind a step that is not careful some descriptor has no thread, or a thread is about
to close what is not its own. -/
theorem careful_of_safe (next : s.step e = some t) (safe : t.Safe) : s.Careful e := by
  cases e with
  | accept fd created =>
    obtain ⟨_, _, rfl⟩ := step_accept.mp next
    have positive : fd ≠ 0 := by
      rintro rfl
      exact safe.1.served ⟨0, .unserved⟩ (by simp [cliMainThread]) rfl
    have some_ : ¬fd ≤ 0 := by omega
    refine ⟨positive, ?_, ?_⟩
    · cases created with
      | true => rfl
      | false =>
        refine absurd rfl (safe.1.served ⟨fd, .unserved⟩ ?_)
        simp [cliMainThread, some_, cliCreateClientThread]
    · intro pending
      obtain ⟨id, here⟩ := List.mem_iff_getElem?.mp pending
      have inside := (List.getElem?_eq_some_iff.mp here).1
      have still : (s.cliMainThread fd created).sessions[id]? = some ⟨fd, .closing true⟩ := by
        simp only [cliMainThread, some_, if_false, cliCreateClientThread]
        rw [List.getElem?_append_left inside]
        exact here
      have new : (s.cliMainThread fd created).fds fd = some (.session s.sessions.length) := by
        simp [cliMainThread, some_, cliCreateClientThread]
      have mine := safe.closing still
      rw [new] at mine
      simp only [reduceCtorEq, Option.some.injEq, Owner.session.injEq, false_or] at mine
      omega
  | otherOpens fd =>
    obtain ⟨_, rfl⟩ := step_otherOpens.mp next
    intro pending
    obtain ⟨id, here⟩ := List.mem_iff_getElem?.mp pending
    have mine := safe.closing here
    simp at mine
  | acceptFails => trivial
  | loopReturns id how => trivial
  | threadCloses id => trivial
  | otherCloses fd => trivial

end Steps

def run (opened : Nat → Bool) (events : List CliEvent) : Option CliServer :=
  Interleaving.run step (start opened) events

/-- In a run, the sessions own their descriptors in every state exactly if all its steps
are careful. -/
theorem sessions_owned_iff (opened : Nat → Bool) (events : List CliEvent) :
    (∀ before, before <+: events → ∀ s, run opened before = some s → s.Safe) ↔
      ∀ before e after, events = before ++ e :: after →
        ∀ s t, run opened before = some s → s.step e = some t → s.Careful e := by
  apply Interleaving.forall_prefix_iff fun before => ∀ s, run opened before = some s → s.Invariant
  · rintro s ⟨⟩
    exact start_invariant opened
  · intro before e valid careful t reached
    rw [run, Interleaving.run_concat, Option.bind_eq_some_iff] at reached
    obtain ⟨s, earlier, next⟩ := reached
    exact step_invariant (valid s earlier) e (careful s t earlier next) next
  · intro before valid s reached
    refine ⟨(valid s reached).owned, fun id t next => ?_⟩
    exact (step_invariant (valid s reached) (.threadCloses id) trivial next).owned
  · intro before e safe s t earlier next
    refine careful_of_safe next (safe t ?_)
    rw [run, Interleaving.run_concat, Option.bind_eq_some_iff]
    exact ⟨s, earlier, next⟩

/-- Between the `fclose` and the `close` of one session the number is given to another. -/
theorem other_session_closed :
    ∃ s, run (fun fd => fd < 4) [.accept 4 true, .loopReturns 0 .ends, .accept 4 true, .threadCloses 0] = some s ∧
      s.sessions = [⟨4, .ended⟩, ⟨4, .serving⟩] ∧ s.fds 4 = none ∧
      s.closes = [⟨0, some (.session 0)⟩, ⟨0, some (.session 1)⟩] ∧ ¬s.Owned := by
  refine ⟨_, rfl, rfl, rfl, rfl, fun owned => ?_⟩
  exact absurd (owned.harmless ⟨0, some (.session 1)⟩ (by decide)) (by decide)

end CliServer

end WlanBridge
