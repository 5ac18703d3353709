import WlanBridge.Drain
import WlanBridge.EventLoop

/-! `server_runing_burst` as a whole, with datagrams that arrive at any point of it. The
socket is registered edge-triggered: an arrival makes it ready, `epoll_wait` reports that
once, and what the inner loop leaves in the socket waits for the next arrival. -/
namespace WlanBridge

/-- Where the daemon is: in `epoll_wait`, in the inner loop, or behind `rx_task_is_running`. -/
inductive Control where
  | waiting
  | reading
  | exited
  deriving DecidableEq, Repr

/-- `ready` is the kernel's, `arrived` records every datagram that got into the socket. -/
structure Daemon where
  loop : BurstLoop
  control : Control
  rxTaskIsRunning : Bool
  epollStatInfo : EpollStatInfo
  ready : Bool
  arrived : List Packet
  deriving DecidableEq, Repr

inductive DaemonEvent where
  | arrive (p : Packet)
  /-- `SIGUSR1`. -/
  | usr1
  | timeout
  | waitFails
  /-- `epoll_wait` reports an event that is not `EPOLLIN`. -/
  | wakeUnknown
  | wake
  | recv
  /-- `recvmmsg` fails for another reason than an empty socket. -/
  | recvFails (errno : Int)
  deriving DecidableEq, Repr

/-- The 32 buffers as `malloc` left them. -/
abbrev Pool := { buf : List (List Byte) // IsPool buf }

namespace Daemon

def start (pool : Pool) : Daemon := ⟨⟨⟨.init, pool⟩, [], 0, []⟩, .waiting, true, .zero, false, []⟩

def next (d : Daemon) : Daemon := { d with control := if d.rxTaskIsRunning then .waiting else .exited }

/-- `choose n` is the number of datagrams that call `n` of `recvmmsg` would take. What made
the socket ready may have been read before `epoll_wait` looks: it then times out as well. -/
def step (env : Env) (choose : Nat → Nat) (d : Daemon) : DaemonEvent → Option Daemon
  | .arrive p =>
    some { d with loop := { d.loop with queue := d.loop.queue ++ [p] }, ready := true, arrived := d.arrived ++ [p] }
  | .usr1 => some { d with rxTaskIsRunning := false }
  | .timeout =>
    if d.control = .waiting ∧ (d.ready = false ∨ d.loop.queue = []) then
      let info := d.epollStatInfo
      some { d with epollStatInfo := { info with epollTimeout := info.epollTimeout + 1 }, ready := false }.next
    else none
  | .waitFails =>
    if d.control = .waiting then
      let info := d.epollStatInfo
      some { d with epollStatInfo := { info with epollError := info.epollError + 1 } }.next
    else none
  | .wakeUnknown =>
    if d.control = .waiting ∧ d.ready = true ∧ d.loop.queue = [] then
      let info := d.epollStatInfo
      some { d with epollStatInfo := { info with epoolRecv := info.epoolRecv + 1 }, ready := false }.next
    else none
  | .wake =>
    if d.control = .waiting ∧ d.ready = true then
      let info := d.epollStatInfo
      some { d with
        epollStatInfo := { info with epoolRecv := info.epoolRecv + 1 }, ready := false, control := .reading }
    else none
  | .recv =>
    if d.control = .reading then
      match serverRuningBurstTurn env choose d.loop with
      | (true, loop) => some { d with loop := loop }
      | (false, loop) => some { d with loop := loop }.next
    else none
  | .recvFails errno =>
    if d.control = .reading ∧ errno ≠ EAGAIN then
      let receiver := serverRuningBurstStep env d.loop.receiver (.failed errno)
      some { d with loop := { d.loop with receiver := receiver, reads := d.loop.reads + 1 } }.next
    else none

def run (env : Env) (choose : Nat → Nat) (pool : Pool) (events : List DaemonEvent) : Option Daemon :=
  Interleaving.run (step env choose) (start pool) events

/-- Every datagram that arrived is in the socket or has been handed over, once and in order. -/
def Accounted (d : Daemon) : Prop :=
  (frames d.loop.calls).map Slot.bare ++ d.loop.queue.map Packet.slot = d.arrived.map Packet.slot

def Idle (events : List DaemonEvent) : Prop := ∀ e ∈ events, e = .wake ∨ e = .recv

end Daemon

/-- Wherever a history leads the daemon to, unless it has left its loop, it will come to
hand over all that has arrived, with no further arrival. -/
def NotStranded (env : Env) (choose : Nat → Nat) (pool : Pool) (events : List DaemonEvent) : Prop :=
  ∀ d, Daemon.run env choose pool events = some d → d.control ≠ .exited →
    ∃ more d', Daemon.Idle more ∧ Daemon.run env choose pool (events ++ more) = some d' ∧ d'.control ≠ .reading ∧
      (frames d'.loop.calls).map Slot.bare = d.arrived.map Packet.slot

/-- A failed `recvmmsg` takes the daemon back to `epoll_wait` only when it has left nothing
in the socket or there has been an arrival since the last wake-up. -/
def FailsHarmlessly (env : Env) (choose : Nat → Nat) (pool : Pool) (before : List DaemonEvent) (e : DaemonEvent) :
    Prop :=
  ∀ errno d d', e = .recvFails errno → Daemon.run env choose pool before = some d → d.step env choose e = some d' →
    d.loop.queue = [] ∨ d.ready = true ∨ d.rxTaskIsRunning = false

namespace Daemon

structure Sound (d : Daemon) : Prop where
  pool : IsPool d.loop.receiver.udpBuf
  accounted : d.Accounted

/-- Whoever waits has nothing to wait for: the socket is empty, or `epoll_wait` will say so. -/
def Awake (d : Daemon) : Prop := d.control = .waiting → d.loop.queue = [] ∨ d.ready = true

section Steps
variable {env : Env} {choose : Nat → Nat} {d d' : Daemon}

@[simp] theorem next_loop (d : Daemon) : d.next.loop = d.loop := rfl

@[simp] theorem next_ready (d : Daemon) : d.next.ready = d.ready := rfl

@[simp] theorem next_arrived (d : Daemon) : d.next.arrived = d.arrived := rfl

theorem next_control (d : Daemon) : d.next.control ≠ .reading := by
  cases running : d.rxTaskIsRunning <;> simp [next, running]

theorem Sound.congr (sound : d.Sound) (loop : d'.loop = d.loop) (arrived : d'.arrived = d.arrived) : d'.Sound :=
  ⟨by rw [loop]; exact sound.pool, by rw [Accounted, loop, arrived]; exact sound.accounted⟩

theorem failed_receiver (env : Env) (r : Receiver) (errno : Int) :
    (serverRuningBurstStep env r (.failed errno)).udpBuf = r.udpBuf := by
  rw [step_eq]
  rfl

theorem recv_nil (env : Env) (choose : Nat → Nat) (reading : d.control = .reading) (none_ : d.loop.queue = []) :
    ∃ receiver, receiver.udpBuf = d.loop.receiver.udpBuf ∧
      d.step env choose .recv = some { d with loop := ⟨receiver, [], d.loop.reads + 1, d.loop.calls⟩ }.next := by
  refine ⟨serverRuningBurstStep env d.loop.receiver (.failed EAGAIN), failed_receiver _ _ _, ?_⟩
  simp [step, reading, serverRuningBurstTurn, takeSome, none_, readDataFromUdpClientBurst, recvmmsg]

theorem recv_next (env : Env) (choose : Nat → Nat) (sound : d.Sound) (reading : d.control = .reading) (some_ : d.loop.queue ≠ []) :
    ∃ loop, d.step env choose .recv = some { d with loop := loop } ∧ { d with loop := loop }.Sound ∧
      loop.queue.length < d.loop.queue.length := by
  obtain ⟨receiver, slots, count, positive, pool, same, turn⟩ :=
    serverRuningBurstTurn_next env choose d.loop some_ sound.pool
  refine ⟨⟨receiver, d.loop.queue.drop count, d.loop.reads + 1, d.loop.calls ++ [.burst slots]⟩, ?_, ⟨pool, ?_⟩, ?_⟩
  · simp only [step, reading, if_true, turn]
  · have before := sound.accounted
    rw [Accounted] at before ⊢
    rw [← before]
    simp only [frames, List.flatMap_append, List.flatMap_cons, List.flatMap_nil, List.append_nil, Call.slots,
      List.map_append, same, List.append_assoc]
    rw [← List.map_append, List.take_append_drop]
  · have length := List.length_pos_iff.mpr some_
    simp only [List.length_drop]
    omega

theorem step_sound (sound : d.Sound) (e : DaemonEvent) (next : d.step env choose e = some d') : d'.Sound := by
  cases e with
  | arrive p =>
    obtain rfl := Option.some.inj next
    refine ⟨sound.pool, ?_⟩
    have before := sound.accounted
    rw [Accounted] at before ⊢
    simp only [List.map_append, ← List.append_assoc, before]
  | usr1 =>
    obtain rfl := Option.some.inj next
    exact sound.congr rfl rfl
  | recv =>
    have reading : d.control = .reading := by
      by_contra other
      simp [step, other] at next
    by_cases none_ : d.loop.queue = []
    · obtain ⟨receiver, buf, empty⟩ := recv_nil env choose reading none_
      obtain rfl := Option.some.inj (empty.symm.trans next)
      refine ⟨?_, ?_⟩
      · simpa [buf] using sound.pool
      · have before := sound.accounted
        rw [Accounted, none_] at before
        exact before
    · obtain ⟨loop, more, kept, _⟩ := recv_next env choose sound reading none_
      obtain rfl := Option.some.inj (more.symm.trans next)
      exact kept
  | recvFails errno =>
    obtain ⟨_, same⟩ := Option.ite_none_right_eq_some.mp next
    obtain rfl := Option.some.inj same
    refine ⟨?_, sound.accounted⟩
    simpa [failed_receiver] using sound.pool
  | _ =>
    obtain ⟨_, same⟩ := Option.ite_none_right_eq_some.mp next
    obtain rfl := Option.some.inj same
    exact sound.congr rfl rfl

/-- Only a failed read of a socket that is not empty sends the daemon to sleep over it. -/
theorem step_awake (sound : d.Sound) (awake : d.Awake) (e : DaemonEvent) (next : d.step env choose e = some d')
    (careful : ∀ errno, e = .recvFails errno → d.loop.queue = [] ∨ d.ready = true ∨ d.rxTaskIsRunning = false) :
    d'.Awake := by
  cases e with
  | arrive p =>
    obtain rfl := Option.some.inj next
    exact fun _ => Or.inr rfl
  | usr1 =>
    obtain rfl := Option.some.inj next
    exact awake
  | wake =>
    obtain ⟨_, same⟩ := Option.ite_none_right_eq_some.mp next
    obtain rfl := Option.some.inj same
    exact fun waiting => absurd waiting (by simp)
  | wakeUnknown =>
    obtain ⟨⟨_, _, none_⟩, same⟩ := Option.ite_none_right_eq_some.mp next
    obtain rfl := Option.some.inj same
    exact fun _ => Or.inl none_
  | recv =>
    have reading : d.control = .reading := by
      by_contra other
      simp [step, other] at next
    by_cases none_ : d.loop.queue = []
    · obtain ⟨receiver, _, empty⟩ := recv_nil env choose reading none_
      obtain rfl := Option.some.inj (empty.symm.trans next)
      exact fun _ => Or.inl rfl
    · obtain ⟨loop, more, _⟩ := recv_next env choose sound reading none_
      obtain rfl := Option.some.inj (more.symm.trans next)
      exact fun waiting => absurd (reading.symm.trans waiting) (by decide)
  | recvFails errno =>
    obtain ⟨_, same⟩ := Option.ite_none_right_eq_some.mp next
    obtain rfl := Option.some.inj same
    intro waiting
    rcases careful errno rfl with none_ | ready | stopped
    · exact Or.inl none_
    · exact Or.inr ready
    · exact absurd waiting (by simp [Daemon.next, stopped])
  | timeout =>
    obtain ⟨⟨waiting, quiet⟩, same⟩ := Option.ite_none_right_eq_some.mp next
    obtain rfl := Option.some.inj same
    rcases quiet with unready | none_
    · exact fun _ => Or.inl ((awake waiting).resolve_right (by simp [unready]))
    · exact fun _ => Or.inl none_
  | waitFails =>
    obtain ⟨waiting, same⟩ := Option.ite_none_right_eq_some.mp next
    obtain rfl := Option.some.inj same
    exact fun _ => awake waiting

theorem drains (env : Env) (choose : Nat → Nat) (sound : d.Sound) (reading : d.control = .reading) :
    ∃ reads d', Interleaving.run (step env choose) d (List.replicate reads .recv) = some d' ∧ d'.control ≠ .reading ∧
      d'.loop.queue = [] ∧ d'.arrived = d.arrived ∧ d'.Sound := by
  induction size : d.loop.queue.length using Nat.strong_induction_on generalizing d with
  | _ size ih =>
    by_cases none_ : d.loop.queue = []
    · obtain ⟨receiver, _, empty⟩ := recv_nil env choose reading none_
      let left := { d with loop := ⟨receiver, [], d.loop.reads + 1, d.loop.calls⟩ }.next
      refine ⟨1, left, ?_, next_control _, rfl, rfl, step_sound sound .recv empty⟩
      simp only [Interleaving.run, List.replicate_one, List.foldlM_cons, empty]
      rfl
    · obtain ⟨loop, more, kept, less⟩ := recv_next env choose sound reading none_
      obtain ⟨reads, d', later, left, nothing, same, still⟩ := ih _ (size ▸ less) kept reading rfl
      refine ⟨reads + 1, d', ?_, left, nothing, same, still⟩
      simpa [Interleaving.run, List.replicate_succ, more] using later

theorem Sound.all_handed (sound : d.Sound) (none_ : d.loop.queue = []) :
    (frames d.loop.calls).map Slot.bare = d.arrived.map Packet.slot := by
  have accounted := sound.accounted
  rwa [Accounted, none_, List.map_nil, List.append_nil] at accounted

/-- A daemon that does not sleep over datagrams hands over what has arrived, with no further
arrival. -/
theorem hands_over (env : Env) (choose : Nat → Nat) (sound : d.Sound) (awake : d.Awake) (inside : d.control ≠ .exited) :
    ∃ more d', Idle more ∧ Interleaving.run (step env choose) d more = some d' ∧ d'.control ≠ .reading ∧
      (frames d'.loop.calls).map Slot.bare = d.arrived.map Packet.slot := by
  cases control : d.control with
  | exited => exact absurd control inside
  | reading =>
    obtain ⟨reads, d', later, left, nothing, arrived, still⟩ := drains env choose sound control
    refine ⟨List.replicate reads .recv, d', ?_, later, left, ?_⟩
    · exact fun e member => .inr (List.eq_of_mem_replicate member)
    · rw [still.all_handed nothing, arrived]
  | waiting =>
    rcases awake control with none_ | ready
    · exact ⟨[], d, by simp [Idle], rfl, by simp [control], sound.all_handed none_⟩
    · have woken : d.step env choose .wake = some { d with
          epollStatInfo := { d.epollStatInfo with epoolRecv := d.epollStatInfo.epoolRecv + 1 }
          ready := false, control := .reading } := by
        simp [step, control, ready]
      obtain ⟨reads, d', later, left, nothing, arrived, still⟩ :=
        drains env choose (step_sound sound .wake woken) rfl
      refine ⟨.wake :: List.replicate reads .recv, d', ?_, ?_, left, ?_⟩
      · intro e member
        rcases List.mem_cons.mp member with first | read
        · exact .inl first
        · exact .inr (List.eq_of_mem_replicate read)
      · simpa [Interleaving.run, woken] using later
      · rw [still.all_handed nothing, arrived]

theorem fails_waiting (running : d.rxTaskIsRunning = true) (next : d.step env choose (.recvFails errno) = some d') :
    d'.control = .waiting ∧ d'.ready = d.ready ∧ d'.loop.queue = d.loop.queue := by
  obtain ⟨_, same⟩ := Option.ite_none_right_eq_some.mp next
  obtain rfl := Option.some.inj same
  exact ⟨if_pos running, rfl, rfl⟩

theorem asleep (waiting : d.control = .waiting) (unready : d.ready = false) (more : List DaemonEvent)
    (idle : Idle more) (runs : Interleaving.run (step env choose) d more = some d') : d' = d := by
  cases more with
  | nil => exact (Option.some.inj runs).symm
  | cons e rest =>
    rcases idle e (by simp) with rfl | rfl <;> simp [Interleaving.run, step, waiting, unready] at runs

end Steps

section Runs
variable {env : Env} {choose : Nat → Nat} {pool : Pool} {events : List DaemonEvent}

theorem run_append (events more : List DaemonEvent) :
    run env choose pool (events ++ more) =
      (run env choose pool events).bind fun d => Interleaving.run (step env choose) d more := by
  rw [run, run, Interleaving.run, List.foldlM_append]
  rfl

theorem start_sound (pool : Pool) : (start pool).Sound := ⟨pool.2, rfl⟩

theorem run_sound (runs : run env choose pool events = some d) : d.Sound :=
  Interleaving.run_invariant Sound (fun _ e _ sound stepped => step_sound sound e stepped) (start_sound pool) events runs

end Runs

end Daemon

/-- In a run, no datagram is lost, handed over twice or out of order; and at no point of it
are some stranded in the socket, until there are further arrivals, exactly if `recvmmsg`
never fails while it leaves datagrams behind. -/
theorem arrivals_handled_iff (env : Env) (choose : Nat → Nat) (pool : Pool) (events : List DaemonEvent) :
    (∀ d, Daemon.run env choose pool events = some d → d.Accounted) ∧
    ((∀ before, before <+: events → NotStranded env choose pool before) ↔
      ∀ before e after, events = before ++ e :: after → FailsHarmlessly env choose pool before e) := by
  refine ⟨fun d runs => (Daemon.run_sound runs).accounted, ?_⟩
  apply Interleaving.forall_prefix_iff fun before => ∀ d, Daemon.run env choose pool before = some d → d.Awake
  · intro d runs waiting
    obtain rfl := Option.some.inj runs
    exact Or.inl rfl
  · intro before e awake careful d' runs
    rw [Daemon.run, Interleaving.run_concat, Option.bind_eq_some_iff] at runs
    obtain ⟨d, earlier, last⟩ := runs
    exact Daemon.step_awake (Daemon.run_sound earlier) (awake d earlier) e last fun errno fails =>
      careful errno d d' fails earlier last
  · intro before awake d runs inside
    obtain ⟨more, d', idle, goes, left, handed⟩ :=
      Daemon.hands_over env choose (Daemon.run_sound runs) (awake d runs) inside
    refine ⟨more, d', idle, ?_, left, handed⟩
    rw [Daemon.run_append, runs, Option.bind_some, goes]
  · intro before e never errno d d' fails runs last
    subst fails
    by_contra bad
    simp only [not_or, Bool.not_eq_true, Bool.not_eq_false] at bad
    obtain ⟨some_, unready, running⟩ := bad
    have later : Daemon.run env choose pool (before ++ [.recvFails errno]) = some d' := by
      rw [Daemon.run, Interleaving.run_concat, Option.bind_eq_some_iff]
      exact ⟨d, runs, last⟩
    obtain ⟨waiting, ready, queue⟩ := Daemon.fails_waiting running last
    obtain ⟨more, d'', idle, goes, _, handed⟩ := never d' later (by rw [waiting]; decide)
    rw [Daemon.run_append, later, Option.bind_some] at goes
    obtain rfl := Daemon.asleep waiting (ready.trans unready) more idle goes
    have accounted := (Daemon.run_sound later).accounted
    rw [Daemon.Accounted, handed, queue] at accounted
    exact some_ (by simpa using accounted)

end WlanBridge
