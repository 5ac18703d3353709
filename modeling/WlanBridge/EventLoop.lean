import WlanBridge.Commands
import WlanBridge.Histories

/-! The event loop's counters, which the CLI's sessions read and clear while the loop
counts. What they are to show is a function of the results of `epoll_wait` since the last
`set epoll_stat_clean`. -/
namespace WlanBridge

structure Process where
  globals : Globals
  sessions : Nat → CliDef

def Process.start (receiver : Receiver) : Process := ⟨⟨receiver, .zero, 0⟩, fun _ => .init⟩

inductive LoopEvent where
  /-- A turn of the event loop; the outcomes are those of the reads in it. -/
  | turn (nfds : Int) (outcomes : List RecvOutcome)
  /-- A command of the server. -/
  | command (session : Nat) (c : Command) (argv : List Text) (meter : Meter)
  /-- A command of libcli's own, which gets the session's `cli_def` and nothing else. -/
  | builtin (session : Nat) (effect : CliDef → CliDef)

/-- A turn of the outer loop of `server_runing_burst`. -/
def serverRuningBurstWait (env : Env) (g : Globals) (nfds : Int) (outcomes : List RecvOutcome) : Globals :=
  let info := g.epollStatInfo
  if nfds = 0 then { g with epollStatInfo := { info with epollTimeout := info.epollTimeout + 1 } }
  else if nfds < 0 then { g with epollStatInfo := { info with epollError := info.epollError + 1 } }
  else
    { g with
      epollStatInfo := { info with epoolRecv := info.epoolRecv + BitVec.ofInt 64 nfds }
      receiver := serverRuningBurst env g.receiver outcomes }

def Process.step (env : Env) (p : Process) : LoopEvent → Option Process
  | .turn nfds outcomes => some { p with globals := serverRuningBurstWait env p.globals nfds outcomes }
  | .command session c argv meter =>
    (c.run meter argv (p.sessions session) p.globals).map fun (_, cli, globals) =>
      ⟨globals, Function.update p.sessions session cli⟩
  | .builtin session effect =>
    some { p with sessions := Function.update p.sessions session (effect (p.sessions session)) }

def Process.run (env : Env) (receiver : Receiver) (events : List LoopEvent) : Option Process :=
  Interleaving.run (Process.step env) (.start receiver) events

def LoopEvent.command? : LoopEvent → Option Command
  | .command _ c _ _ => some c
  | _ => none

def LoopEvent.isClean (e : LoopEvent) : Bool := e.command? = some .setEpollStatClean

def LoopEvent.result : LoopEvent → Option Int
  | .turn nfds _ => some nfds
  | _ => none

/-- The results of `epoll_wait` since the last explicit clean, or since the start. -/
def resultsSinceClean (events : List LoopEvent) : List Int :=
  (Since.since LoopEvent.isClean events).filterMap LoopEvent.result

/-- What the counters are to show for some results, modulo 2^64: how many were zero, how
many negative, and the sum of the others. -/
def EpollStatInfo.tally (results : List Int) : EpollStatInfo where
  epollTimeout := BitVec.ofNat 64 (results.countP (· = 0))
  epollError := BitVec.ofNat 64 (results.countP (· < 0))
  epoolRecv := BitVec.ofInt 64 (results.filter (0 < ·)).sum

/-- At every point of a history that a run can get to, the counters show what they are to. -/
def CountersExact (env : Env) (receiver : Receiver) (events : List LoopEvent) : Prop :=
  ∀ p, Process.run env receiver events = some p → p.globals.epollStatInfo = .tally (resultsSinceClean events)

/-- No command but the explicit clean changes the counters. -/
def CountersKept (env : Env) (receiver : Receiver) (before : List LoopEvent) (e : LoopEvent) : Prop :=
  ∀ c p q, e.command? = some c → c ≠ .setEpollStatClean → Process.run env receiver before = some p →
    p.step env e = some q → q.globals.epollStatInfo = p.globals.epollStatInfo

def NothingLost (env : Env) (receiver : Receiver) (before : List LoopEvent) (e : LoopEvent) : Prop :=
  e.command? = some .setLogLevel → (Process.run env receiver before).isSome →
    EpollStatInfo.tally (resultsSinceClean before) = .zero

theorem resultsSinceClean_clean (events : List LoopEvent) (clean : e.isClean = true) :
    resultsSinceClean (events ++ [e]) = [] := by
  rw [resultsSinceClean, Since.since_mark events clean, List.filterMap_nil]

theorem resultsSinceClean_other (events : List LoopEvent) (plain : e.isClean = false) :
    resultsSinceClean (events ++ [e]) = resultsSinceClean events ++ e.result.toList := by
  rw [resultsSinceClean, Since.since_other events plain, List.filterMap_append]
  cases result : e.result <;> simp [resultsSinceClean, result]

theorem tally_concat (env : Env) (g : Globals) (results : List Int) (counted : g.epollStatInfo = .tally results)
    (nfds : Int) (outcomes : List RecvOutcome) :
    (serverRuningBurstWait env g nfds outcomes).epollStatInfo = .tally (results ++ [nfds]) := by
  rcases lt_trichotomy nfds 0 with negative | rfl | positive
  · have nonzero : nfds ≠ 0 := by omega
    have rest : ¬0 < nfds := by omega
    simp [serverRuningBurstWait, counted, EpollStatInfo.tally, negative, nonzero, rest, BitVec.ofNat_add]
  · simp [serverRuningBurstWait, counted, EpollStatInfo.tally, BitVec.ofNat_add]
  · have nonzero : nfds ≠ 0 := by omega
    have rest : ¬nfds < 0 := by omega
    simp [serverRuningBurstWait, counted, EpollStatInfo.tally, positive, nonzero, rest, BitVec.ofInt_add]

section Steps
variable {env : Env} {receiver : Receiver} {before : List LoopEvent}

theorem step_command {p q : Process} (next : p.step env (.command session c argv meter) = some q) :
    q.globals.epollStatInfo = if c.clears then .zero else p.globals.epollStatInfo := by
  obtain ⟨result, ran, rfl⟩ := Option.map_eq_some_iff.mp next
  exact Command.run_counters c meter argv _ _ ran

theorem CountersExact.step (counted : CountersExact env receiver before) (e : LoopEvent)
    (careful : NothingLost env receiver before e) : CountersExact env receiver (before ++ [e]) := by
  intro q reached
  rw [Process.run, Interleaving.run_concat, Option.bind_eq_some_iff] at reached
  obtain ⟨p, earlier, next⟩ := reached
  have shown := counted p earlier
  cases e with
  | turn nfds outcomes =>
    obtain rfl := Option.some.inj next
    rw [resultsSinceClean_other before rfl]
    exact tally_concat env p.globals _ shown nfds outcomes
  | builtin session effect =>
    obtain rfl := Option.some.inj next
    rw [resultsSinceClean_other before rfl]
    simpa [LoopEvent.result] using shown
  | command session c argv meter =>
    have counters := step_command next
    by_cases clean : c = .setEpollStatClean
    · subst clean
      rw [resultsSinceClean_clean before rfl, counters]
      rfl
    · have plain : (LoopEvent.command session c argv meter).isClean = false := by
        simp [LoopEvent.isClean, LoopEvent.command?, clean]
      rw [resultsSinceClean_other before plain, counters]
      simp only [LoopEvent.result, Option.toList_none, List.append_nil]
      cases c with
      | setEpollStatClean => exact absurd rfl clean
      | setLogLevel => exact (careful rfl (by rw [Process.run, earlier]; rfl)).symm
      | _ => exact shown

theorem CountersExact.nothingLost (e : LoopEvent) (counted : CountersExact env receiver (before ++ [e])) :
    NothingLost env receiver before e := by
  intro isLogLevel reached
  obtain ⟨p, earlier⟩ := Option.isSome_iff_exists.mp reached
  cases e with
  | turn nfds outcomes => exact absurd isLogLevel (by simp [LoopEvent.command?])
  | builtin session effect => exact absurd isLogLevel (by simp [LoopEvent.command?])
  | command session c argv meter =>
    obtain rfl := Option.some.inj isLogLevel
    have next : ∃ q, p.step env (.command session .setLogLevel argv meter) = some q := ⟨_, rfl⟩
    obtain ⟨q, next⟩ := next
    have later : Process.run env receiver (before ++ [.command session .setLogLevel argv meter]) = some q := by
      rw [Process.run, Interleaving.run_concat, Option.bind_eq_some_iff]
      exact ⟨p, earlier, next⟩
    have shown := counted q later
    rw [step_command next, resultsSinceClean_other before rfl] at shown
    simpa [LoopEvent.result, Command.clears] using shown.symm

end Steps

/-- In a run, the counters show all that came since the last explicit clean, and no other
command changes them, exactly if `set log_level` is called only when there is nothing to show. -/
theorem counters_exact_iff (env : Env) (receiver : Receiver) (events : List LoopEvent) :
    ((∀ before, before <+: events → CountersExact env receiver before) ∧
      ∀ before e after, events = before ++ e :: after → CountersKept env receiver before e) ↔
    ∀ before e after, events = before ++ e :: after → NothingLost env receiver before e := by
  have exact_ := Interleaving.forall_prefix_iff (CountersExact env receiver)
    (by rintro p ⟨⟩; rfl) (fun before e counted => counted.step e) (fun _ counted => counted)
    (fun before e => CountersExact.nothingLost e) events
  constructor
  · exact fun holds => exact_.mp holds.1
  · intro careful
    have counted := exact_.mpr careful
    refine ⟨counted, ?_⟩
    rintro before e after split c p q isCommand other earlier next
    cases e with
    | turn nfds outcomes => exact absurd isCommand (by simp [LoopEvent.command?])
    | builtin session effect => exact absurd isCommand (by simp [LoopEvent.command?])
    | command session c' argv meter =>
      obtain rfl := Option.some.inj isCommand
      rw [step_command next]
      cases c' with
      | setEpollStatClean => exact absurd rfl other
      | setLogLevel =>
        have shown := counted before ⟨_, split.symm⟩ p earlier
        rw [careful before _ after split rfl (by rw [earlier]; rfl)] at shown
        exact shown.symm
      | _ => rfl

/-- A `set log_level` without a level fails, and clears the one timeout there was. -/
theorem timeout_lost :
    let events := [.turn 0 [], .command 0 .setLogLevel [] .stopped]
    ∃ p, Process.run .calm ⟨.init, uniformPool 0⟩ events = some p ∧ resultsSinceClean events = [0] ∧
      p.globals.epollStatInfo.epollTimeout = 0 ∧ ¬CountersExact .calm ⟨.init, uniformPool 0⟩ events := by
  refine ⟨_, rfl, rfl, rfl, fun counted => ?_⟩
  exact absurd (congrArg EpollStatInfo.epollTimeout (counted _ rfl)) (by decide)

end WlanBridge
