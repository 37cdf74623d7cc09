import Cncpp.Net.Accepter
import Cncpp.Net.AsioTimer
import Cncpp.Net.IoContextPool
import Mathlib.Order.Monotone.Basic

/-!
# The server

`server1::Server` puts together the pool of io contexts, the acceptor and the timer: `init`
takes the first context for itself, and `run` starts the acceptor and the timer and then
runs the pool.  No accept callback is set, and `timerCallBack` only logs.

From then on the handlers of the acceptor and of the timer run in any order, while
connections come in and time passes.
-/

namespace Cncpp.Net

open Cncpp.Cycle
open Cncpp.Machine
open Cncpp.Transition

/-- An object of `server1::Server` after `init`, with the singletons that it uses. -/
structure Server where
  ioPoolSize : Nat
  listenPort : Nat
  pool : IoConnectPool
  timer : AsioTimer
  mainIoContext : Selection Nat
  /-- `acceptor_`, which calls `startAccept` next. -/
  acceptor : TcpAccepter
  /-- History: the contexts of the sockets that `startAccept` has made. -/
  sockets : List (Selection Nat)
  deriving DecidableEq

/-- What happens in the threads of the pool. -/
inductive ServerAction where
  | getIoContext
  | asyncAccept
  | complete (error : Bool)
  | expire
  | handle
  | advance (ms : Nat)
  deriving DecidableEq

/-- The step of the acceptor that an action is. -/
def ServerAction.accepts : ServerAction → Option AcceptAction
  | getIoContext => some .getIoContext
  | asyncAccept => some .asyncAccept
  | complete error => some (.complete error)
  | _ => none

namespace Server

/-- The timer after its `init` and `setCallBack`. -/
def tenSeconds : AsioTimer :=
  { AsioTimer.init 10000 AsioTimer.fresh with hasCallback := true }

/-- `init` on new singletons, with the value that `next_io_context_` happens to have. -/
def init (nextIoContext ioPoolSize port : Nat) : Option (Except String Server) :=
  ((IoConnectPool.new nextIoContext).init ioPoolSize).map fun result => result.map fun pool =>
    let first := pool.getIoContext ()
    { ioPoolSize := uint16 ioPoolSize
      listenPort := uint16 port
      pool := first.2
      timer := tenSeconds
      mainIoContext := first.1
      acceptor := TcpAccepter.start false
      sockets := [] }

/-- One step of `startAccept`, of a handler, of asio or of the clock. -/
def step : Step Server ServerAction
  | server, .getIoContext =>
      (server.acceptor.step .getIoContext).map fun acceptor =>
        let next := server.pool.getIoContext ()
        { server with
          acceptor := acceptor, pool := next.2, sockets := server.sockets ++ [next.1] }
  | server, .asyncAccept =>
      (server.acceptor.step .asyncAccept).map fun acceptor => { server with acceptor := acceptor }
  | server, .complete error =>
      (server.acceptor.step (.complete error)).map fun acceptor =>
        { server with acceptor := acceptor }
  | server, .expire => server.timer.expire.map fun timer => { server with timer := timer }
  | server, .handle => (server.timer.handle []).map fun timer => { server with timer := timer }
  | server, .advance ms =>
      some { server with timer := { server.timer with now := server.timer.now + ms } }

/-- `run`, until `sIoContextPool.run` waits for its threads. -/
def run (server : Server) : Option Server :=
  (exec step server [.getIoContext, .asyncAccept]).bind fun accepting =>
    accepting.timer.start.map fun timer => { accepting with timer := timer }

/-! ## The invariant -/

/-- The acceptor accepts, and nobody stops it. -/
structure Accepting (acceptor : TcpAccepter) : Prop where
  isOpen : acceptor.isOpen = true
  noCallback : acceptor.hasCallback = false
  phase : acceptor.phase ≠ .callback

/-- The contexts taken are consecutive ones, the one of the server first, and the acceptor
goes on. -/
structure Listening (n first : Nat) (server : Server) : Prop where
  pool : server.pool = IoConnectPool.initialised n ((first + 1 + server.sockets.length) % n)
  contexts : server.mainIoContext :: server.sockets =
    (List.range' first (server.sockets.length + 1)).map fun i => select (List.range n) (i % n % n)
  accepting : Accepting server.acceptor

/-- The one wait of the timer is pending, or its handler is queued. -/
structure Ticking (timer : AsioTimer) : Prop where
  inv : AsioTimer.Inv 10000 timer
  hasCallback : timer.hasCallback = true
  called : timer.called = timer.handled
  expiry : timer.timer ≠ none
  one : (timer.waiting = 1 ∧ timer.ready = []) ∨ (timer.waiting = 0 ∧ timer.ready = [false])

/-- The invariant of the running server. -/
structure Inv (n first : Nat) (server : Server) : Prop where
  listening : Listening n first server
  ticking : Ticking server.timer

variable {n first : Nat}

theorem Accepting.step {acceptor next : TcpAccepter} {act : AcceptAction}
    (accepting : Accepting acceptor) (goesOn : act.stops = false)
    (stepped : acceptor.step act = some next) : Accepting next := by
  cases act with
  | getIoContext | asyncAccept | callbackReturns =>
      simp only [TcpAccepter.step, Option.ite_none_right_eq_some, Option.some.injEq] at stepped
      rw [← stepped.2]
      exact ⟨accepting.isOpen, accepting.noCallback, by simp⟩
  | complete error =>
      simp only [TcpAccepter.step, Option.ite_none_right_eq_some, Option.some.injEq] at stepped
      rw [← stepped.2]
      exact ⟨accepting.isOpen, accepting.noCallback, by simp [accepting.noCallback]⟩
  | handleAcpErr | stopAccept => contradiction

theorem Listening.step {server next : Server} {act : ServerAction} (positive : 0 < n)
    (fits : n < 2 ^ 16) (listening : Listening n first server)
    (stepped : step server act = some next) : Listening n first next := by
  obtain ⟨pool, contexts, accepting⟩ := listening
  cases act with
  | getIoContext =>
      obtain ⟨acceptor, taken, rfl⟩ := Option.map_eq_some_iff.mp stepped
      rw [pool, IoConnectPool.getIoContext_initialised positive fits]
      refine ⟨?_, ?_, accepting.step rfl taken⟩
      · simp only [List.length_append, List.length_singleton, ← Nat.add_assoc]
      · rw [List.length_append, List.length_singleton, List.range'_1_concat, List.map_append,
          ← contexts]
        simp [Nat.add_assoc, Nat.add_comm 1]
  | asyncAccept | complete error =>
      obtain ⟨acceptor, taken, rfl⟩ := Option.map_eq_some_iff.mp stepped
      exact ⟨pool, contexts, accepting.step rfl taken⟩
  | expire | handle =>
      obtain ⟨timer, _, rfl⟩ := Option.map_eq_some_iff.mp stepped
      exact ⟨pool, contexts, accepting⟩
  | advance ms =>
      cases stepped
      exact ⟨pool, contexts, accepting⟩

/-- The wait completes, and its handler is queued. -/
theorem Ticking.expire {timer next : AsioTimer} (ticking : Ticking timer)
    (expired : timer.expire = some next) :
    Ticking next ∧ next.ready = [false] ∧ next.called = timer.called ∧ next.now = timer.now := by
  have inv := AsioTimer.expire_inv ticking.inv expired
  obtain ⟨expiry, there, waits, due, rfl⟩ := AsioTimer.expire_eq_some_iff.mp expired
  rcases ticking.one with ⟨waiting, ready⟩ | ⟨noWait, _⟩
  · have queued : timer.ready ++ List.replicate timer.waiting false = [false] := by
      rw [waiting, ready]
      rfl
    exact ⟨⟨inv, ticking.hasCallback, ticking.called, ticking.expiry, Or.inr ⟨rfl, queued⟩⟩,
      queued, rfl, rfl⟩
  · exact absurd noWait waits

/-- The handler calls back and starts the next wait. -/
theorem Ticking.handle {timer next : AsioTimer} (ticking : Ticking timer)
    (handled : timer.handle [] = some next) :
    Ticking next ∧ next.called = timer.called + 1 ∧ next.now = timer.now := by
  have inv := AsioTimer.handle_inv ticking.inv (fun _ member => absurd member List.not_mem_nil)
    handled
  rcases ticking.one with ⟨_, ready⟩ | ⟨waiting, ready⟩
  · rw [AsioTimer.handle, ready] at handled
    contradiction
  · obtain ⟨expiry, there⟩ := Option.ne_none_iff_exists'.mp ticking.expiry
    simp only [AsioTimer.handle, ready, ticking.hasCallback, if_true, exec, Option.bind_some,
      AsioTimer.start, there, AsioTimer.cancel, waiting, List.replicate_zero, List.append_nil,
      Option.some.injEq] at handled
    subst handled
    refine ⟨⟨inv, rfl, ?_, Option.some_ne_none _, Or.inl ⟨rfl, rfl⟩⟩, rfl, rfl⟩
    rw [ticking.called]

theorem Ticking.advance {timer : AsioTimer} (ticking : Ticking timer) (ms : Nat) :
    Ticking { timer with now := timer.now + ms } where
  inv := { ticking.inv with fired_le := Nat.le_add_right_of_le ticking.inv.fired_le }
  hasCallback := ticking.hasCallback
  called := ticking.called
  expiry := ticking.expiry
  one := ticking.one

theorem Inv.step {server next : Server} {act : ServerAction} (positive : 0 < n)
    (fits : n < 2 ^ 16) (inv : Inv n first server) (stepped : step server act = some next) :
    Inv n first next := by
  refine ⟨inv.listening.step positive fits stepped, ?_⟩
  cases act with
  | getIoContext | asyncAccept | complete error =>
      obtain ⟨acceptor, _, rfl⟩ := Option.map_eq_some_iff.mp stepped
      exact inv.ticking
  | expire =>
      obtain ⟨timer, expired, rfl⟩ := Option.map_eq_some_iff.mp stepped
      exact (inv.ticking.expire expired).1
  | handle =>
      obtain ⟨timer, handled, rfl⟩ := Option.map_eq_some_iff.mp stepped
      exact (inv.ticking.handle handled).1
  | advance ms =>
      cases stepped
      exact inv.ticking.advance ms

/-- What `init` leaves where the first index is inside of the pool. -/
theorem init_listening {nextIoContext port : Nat} (positive : 0 < n) (fits : n < 2 ^ 16)
    (inside : uint16 nextIoContext < n) {server : Server}
    (initialised : init nextIoContext n port = some (.ok server)) :
    Listening n (uint16 nextIoContext) server ∧ server.timer = tenSeconds := by
  have residue : uint16 nextIoContext % n = uint16 nextIoContext := Nat.mod_eq_of_lt inside
  have first := IoConnectPool.getIoContext_initialised positive fits (uint16 nextIoContext)
  rw [residue] at first
  simp only [init, IoConnectPool.init_new positive fits, Option.map_some, Except.map, first,
    Option.some.injEq, Except.ok.injEq] at initialised
  subst initialised
  exact ⟨⟨rfl, by simp [residue], rfl, rfl, nofun⟩, rfl⟩

/-- Between `init` and the pool, `run` starts the acceptor and the timer. -/
theorem run_inv {server running : Server} (positive : 0 < n) (fits : n < 2 ^ 16)
    (listening : Listening n first server) (timer : server.timer = tenSeconds)
    (runs : server.run = some running) : Inv n first running := by
  obtain ⟨accepting, accepted, started⟩ := Option.bind_eq_some_iff.mp runs
  obtain ⟨next, waits, rfl⟩ := Option.map_eq_some_iff.mp started
  have both := invariant_exec (fun _ _ _ => Listening.step positive fits) listening accepted
  have same : accepting.timer = server.timer := by
    simp only [exec, step, Option.bind_eq_some_iff, Option.map_eq_some_iff] at accepted
    obtain ⟨_, ⟨_, _, rfl⟩, _, ⟨_, _, rfl⟩, same⟩ := accepted
    cases same
    rfl
  refine ⟨⟨both.pool, both.contexts, both.accepting⟩, ?_⟩
  rw [same, timer] at waits
  cases waits
  have fresh := AsioTimer.init_inv AsioTimer.fresh_inv (Nat.le_refl 10000)
  have called : AsioTimer.Inv 10000 tenSeconds := { fresh with }
  exact ⟨AsioTimer.start_inv called rfl, rfl, rfl, Option.some_ne_none _, Or.inl ⟨rfl, rfl⟩⟩

/-- The server after `init` and the beginning of `run`. -/
def serve (nextIoContext ioPoolSize port : Nat) : Option Server :=
  match init nextIoContext ioPoolSize port with
  | some (.ok server) => server.run
  | _ => none

theorem serve_inv {nextIoContext port : Nat} (positive : 0 < n) (fits : n < 2 ^ 16)
    (inside : uint16 nextIoContext < n) {running : Server}
    (serves : serve nextIoContext n port = some running) :
    Inv n (uint16 nextIoContext) running := by
  unfold serve at serves
  split at serves
  · rename_i server initialised
    obtain ⟨listening, timer⟩ := init_listening positive fits inside initialised
    exact run_inv positive fits listening timer serves
  · contradiction

/-! ## What the server does for ever -/

/-- Handlers run, a pending `async_accept` completes, a wait that is due completes, and time
passes. -/
structure Fair (states : Nat → Server) (acts : Nat → ServerAction) : Prop where
  accepts : ∀ phase : AcceptPhase, Served states acts (·.acceptor.phase = phase)
    fun act => ∃ accepts, act.accepts = some accepts ∧ phase.EndedBy accepts
  expires : Served states acts
    (fun server => server.timer.waiting ≠ 0 ∧
      ∀ expiry, server.timer.timer = some expiry → expiry ≤ server.timer.now) (· = .expire)
  handles : Served states acts (fun server => server.timer.ready ≠ []) (· = .handle)
  time : ∀ moment, ∃ n, moment ≤ (states n).timer.now

/-- What a step is for the acceptor. -/
theorem step_acceptor {server next : Server} {act : ServerAction}
    (stepped : step server act = some next) :
    (act.accepts = none ∧ next.acceptor = server.acceptor) ∨
      ∃ accepts, act.accepts = some accepts ∧
        server.acceptor.step accepts = some next.acceptor := by
  cases act with
  | getIoContext | asyncAccept | complete error =>
      obtain ⟨acceptor, taken, rfl⟩ := Option.map_eq_some_iff.mp stepped
      exact Or.inr ⟨_, rfl, taken⟩
  | expire | handle =>
      obtain ⟨timer, _, rfl⟩ := Option.map_eq_some_iff.mp stepped
      exact Or.inl ⟨rfl, rfl⟩
  | advance ms =>
      cases stepped
      exact Or.inl ⟨rfl, rfl⟩

/-- What a step is for the timer. -/
theorem step_timer {server next : Server} {act : ServerAction}
    (stepped : step server act = some next) :
    ((act ≠ .expire ∧ act ≠ .handle) ∧
        ∃ ms, next.timer = { server.timer with now := server.timer.now + ms }) ∨
      (act = .expire ∧ server.timer.expire = some next.timer) ∨
      (act = .handle ∧ server.timer.handle [] = some next.timer) := by
  cases act with
  | getIoContext | asyncAccept | complete error =>
      obtain ⟨acceptor, taken, rfl⟩ := Option.map_eq_some_iff.mp stepped
      exact Or.inl ⟨⟨nofun, nofun⟩, 0, rfl⟩
  | expire =>
      obtain ⟨timer, expired, rfl⟩ := Option.map_eq_some_iff.mp stepped
      exact Or.inr (Or.inl ⟨rfl, expired⟩)
  | handle =>
      obtain ⟨timer, handled, rfl⟩ := Option.map_eq_some_iff.mp stepped
      exact Or.inr (Or.inr ⟨rfl, handled⟩)
  | advance ms =>
      cases stepped
      exact Or.inl ⟨⟨nofun, nofun⟩, ms, rfl⟩

/-- Sockets are only added. -/
theorem step_sockets {server next : Server} {act : ServerAction}
    (stepped : step server act = some next) : server.sockets <+: next.sockets := by
  cases act with
  | getIoContext =>
      obtain ⟨acceptor, taken, rfl⟩ := Option.map_eq_some_iff.mp stepped
      exact List.prefix_append _ _
  | asyncAccept | complete error | expire | handle =>
      obtain ⟨part, _, rfl⟩ := Option.map_eq_some_iff.mp stepped
      exact List.prefix_refl _
  | advance ms =>
      cases stepped
      exact List.prefix_refl _

variable {states : Nat → Server} {acts : Nat → ServerAction}

/-- A phase of the acceptor lasts until an action that ends it. -/
theorem phase_persists {phase : AcceptPhase} ⦃server : Server⦄ ⦃act : ServerAction⦄
    ⦃next : Server⦄ (here : server.acceptor.phase = phase)
    (lasts : ¬∃ accepts, act.accepts = some accepts ∧ phase.EndedBy accepts)
    (stepped : step server act = some next) : next.acceptor.phase = phase := by
  rcases step_acceptor stepped with ⟨_, same⟩ | ⟨accepts, is, taken⟩
  · rw [same, here]
  · exact TcpAccepter.phase_persists here (fun ends => lasts ⟨accepts, is, ends⟩) taken

/-- The phase that an action ends, and what the acceptor does then. -/
theorem ends_phase {phase : AcceptPhase} {server next : Server} {act : ServerAction}
    (serves : ∃ accepts, act.accepts = some accepts ∧ phase.EndedBy accepts)
    (stepped : step server act = some next) :
    ∃ accepts, phase.EndedBy accepts ∧ act.accepts = some accepts ∧
      server.acceptor.step accepts = some next.acceptor := by
  obtain ⟨accepts, is, ends⟩ := serves
  rcases step_acceptor stepped with ⟨noAction, _⟩ | ⟨other, same, taken⟩
  · rw [is] at noAction
    contradiction
  · obtain rfl := Option.some.inj (is.symm.trans same)
    exact ⟨accepts, ends, is, taken⟩

theorem obtained_leadsTo_pending (run : Forever step states acts) (fair : Fair states acts) :
    LeadsTo states (·.acceptor.phase = .obtained) (·.acceptor.phase = .pending) := by
  apply leadsTo_of_served run (fair.accepts .obtained) phase_persists
  intro server act next _ serves stepped
  obtain ⟨_, rfl, _, taken⟩ := ends_phase serves stepped
  simp only [TcpAccepter.step, Option.ite_none_right_eq_some, Option.some.injEq] at taken
  rw [← taken.2]

theorem pending_leadsTo_handler (run : Forever step states acts) (fair : Fair states acts) :
    LeadsTo states (·.acceptor.phase = .pending)
      (fun server => server.acceptor.phase = .callback ∨ server.acceptor.phase = .entered) := by
  apply leadsTo_of_served run (fair.accepts .pending) phase_persists
  intro server act next _ serves stepped
  obtain ⟨_, ⟨error, rfl⟩, _, taken⟩ := ends_phase serves stepped
  simp only [TcpAccepter.step, Option.ite_none_right_eq_some, Option.some.injEq] at taken
  rw [← taken.2]
  cases server.acceptor.hasCallback with
  | false => exact Or.inr rfl
  | true => exact Or.inl rfl

/-- `startAccept` is called again and again. -/
theorem leadsTo_entered (run : Forever step states acts) (fair : Fair states acts)
    (accepting : ∀ place, Accepting (states place).acceptor) (place : Nat) :
    ∃ later, place ≤ later ∧ (states later).acceptor.phase = .entered := by
  have pending := pending_leadsTo_handler run fair
  have handler : ∀ later, place ≤ later → (states later).acceptor.phase = .pending →
      ∃ last, place ≤ last ∧ (states last).acceptor.phase = .entered := by
    intro later after here
    obtain ⟨last, beyond, callback | entered⟩ := pending later here
    · exact absurd callback (accepting last).phase
    · exact ⟨last, Nat.le_trans after beyond, entered⟩
  cases phase : (states place).acceptor.phase with
  | entered => exact ⟨place, Nat.le_refl place, phase⟩
  | obtained =>
      obtain ⟨later, after, here⟩ := obtained_leadsTo_pending run fair place phase
      exact handler later after here
  | pending => exact handler place (Nat.le_refl place) phase
  | callback => exact absurd phase (accepting place).phase

/-- `startAccept` makes a socket. -/
theorem entered_leadsTo_socket (run : Forever step states acts) (fair : Fair states acts)
    (count : Nat) :
    LeadsTo states
      (fun server => server.acceptor.phase = .entered ∧ count ≤ server.sockets.length)
      (fun server => count < server.sockets.length) := by
  have served : Served states acts
      (fun server => server.acceptor.phase = .entered ∧ count ≤ server.sockets.length)
      (fun act => ∃ accepts, act.accepts = some accepts ∧ AcceptPhase.entered.EndedBy accepts) :=
    fun place holds => fair.accepts .entered place holds.1
  refine leadsTo_of_served run served ?_ ?_
  · rintro server act next ⟨entered, enough⟩ lasts stepped
    exact ⟨phase_persists entered lasts stepped,
      Nat.le_trans enough (step_sockets stepped).length_le⟩
  · rintro server act next ⟨_, enough⟩ serves stepped
    obtain ⟨_, rfl, is, _⟩ := ends_phase serves stepped
    cases act with
    | getIoContext =>
        obtain ⟨acceptor, _, rfl⟩ := Option.map_eq_some_iff.mp stepped
        rw [List.length_append]
        exact Nat.lt_succ_of_le enough
    | _ => exact absurd is (by simp [ServerAction.accepts])

/-- There are more and more sockets. -/
theorem leadsTo_sockets (run : Forever step states acts) (fair : Fair states acts)
    (accepting : ∀ place, Accepting (states place).acceptor) (count place : Nat) :
    ∃ later, place ≤ later ∧ count ≤ (states later).sockets.length := by
  induction count with
  | zero => exact ⟨place, Nat.le_refl place, Nat.zero_le _⟩
  | succ count ih =>
      obtain ⟨middle, before, enough⟩ := ih
      obtain ⟨later, after, entered⟩ := leadsTo_entered run fair accepting middle
      have still := run.grows (fun _ _ _ stepped => step_sockets stepped) after
      obtain ⟨last, beyond, more⟩ := entered_leadsTo_socket run fair count later
        ⟨entered, Nat.le_trans enough still.length_le⟩
      exact ⟨last, Nat.le_trans before (Nat.le_trans after beyond), more⟩

/-! ## The timer -/

/-- The wait of the timer is pending, until `expiry`. -/
structure Waits (count expiry : Nat) (server : Server) : Prop where
  ticking : Ticking server.timer
  enough : count ≤ server.timer.called
  waiting : server.timer.waiting = 1
  expiry : server.timer.timer = some expiry

/-- The handler of the timer is queued. -/
structure Queued (count : Nat) (server : Server) : Prop where
  ticking : Ticking server.timer
  enough : count ≤ server.timer.called
  ready : server.timer.ready = [false]

theorem Waits.step {count expiry : Nat} {server next : Server} {act : ServerAction}
    (waits : Waits count expiry server) (stepped : step server act = some next) :
    (Waits count expiry next ∧ server.timer.now ≤ next.timer.now ∧ act ≠ .expire) ∨
      Queued count next := by
  obtain ⟨ticking, enough, waiting, there⟩ := waits
  rcases step_timer stepped with ⟨⟨other, _⟩, ms, same⟩ | ⟨rfl, expired⟩ | ⟨rfl, handled⟩
  · have advanced := ticking.advance ms
    rw [← same] at advanced
    refine Or.inl ⟨⟨advanced, ?_, ?_, ?_⟩, ?_, other⟩ <;> rw [same]
    · exact enough
    · exact waiting
    · exact there
    · exact Nat.le_add_right _ _
  · obtain ⟨after, ready, called, _⟩ := ticking.expire expired
    exact Or.inr ⟨after, called ▸ enough, ready⟩
  · rcases ticking.one with ⟨_, noHandler⟩ | ⟨noWait, _⟩
    · rw [AsioTimer.handle, noHandler] at handled
      contradiction
    · rw [waiting] at noWait
      contradiction

theorem Queued.step {count : Nat} {server next : Server} {act : ServerAction}
    (queued : Queued count server) (stepped : step server act = some next) :
    (act ≠ .handle ∧ Queued count next) ∨ count < next.timer.called := by
  obtain ⟨ticking, enough, ready⟩ := queued
  rcases step_timer stepped with ⟨⟨_, other⟩, ms, same⟩ | ⟨rfl, expired⟩ | ⟨rfl, handled⟩
  · have advanced := ticking.advance ms
    rw [← same] at advanced
    refine Or.inl ⟨other, advanced, ?_, ?_⟩ <;> rw [same]
    · exact enough
    · exact ready
  · obtain ⟨expiry, there, waits, _⟩ := AsioTimer.expire_eq_some_iff.mp expired
    rcases ticking.one with ⟨_, noHandler⟩ | ⟨noWait, _⟩
    · rw [ready] at noHandler
      contradiction
    · exact absurd noWait waits
  · obtain ⟨_, called, _⟩ := ticking.handle handled
    rw [called]
    exact Or.inr (Nat.lt_succ_of_le enough)

/-- A queued handler runs. -/
theorem queued_leadsTo_called (run : Forever step states acts) (fair : Fair states acts)
    (count : Nat) :
    LeadsTo states (Queued count) (fun server => count < server.timer.called) := by
  have served : Served states acts (Queued count) (· = .handle) := by
    intro place queued
    have filled : (states place).timer.ready ≠ [] := by
      rw [queued.ready]
      exact List.cons_ne_nil _ _
    exact fair.handles place filled
  refine leadsTo_of_served_or run served ?_ ?_
  · intro server act next queued stepped
    exact (queued.step stepped).imp_left And.right
  · rintro server act next queued rfl stepped
    exact (queued.step stepped).resolve_left fun other => other.1 rfl

/-- A wait that is due completes. -/
theorem due_leadsTo_queued (run : Forever step states acts) (fair : Fair states acts)
    (count expiry : Nat) :
    LeadsTo states (fun server => Waits count expiry server ∧ expiry ≤ server.timer.now)
      (Queued count) := by
  have served : Served states acts
      (fun server => Waits count expiry server ∧ expiry ≤ server.timer.now) (· = .expire) := by
    rintro place ⟨waits, due⟩
    refine fair.expires place ⟨by rw [waits.waiting]; exact Nat.one_ne_zero, ?_⟩
    intro other there
    rw [waits.expiry] at there
    exact Option.some.inj there ▸ due
  refine leadsTo_of_served_or run served ?_ ?_
  · rintro server act next ⟨waits, due⟩ stepped
    exact (waits.step stepped).imp_left fun still => ⟨still.1, Nat.le_trans due still.2.1⟩
  · rintro server act next ⟨waits, _⟩ rfl stepped
    exact (waits.step stepped).resolve_left fun still => still.2.2 rfl

/-- The clock does not go back. -/
theorem now_le {server next : Server} {act : ServerAction} (inv : Inv n first server)
    (stepped : step server act = some next) : server.timer.now ≤ next.timer.now := by
  rcases step_timer stepped with ⟨_, ms, same⟩ | ⟨_, expired⟩ | ⟨_, handled⟩
  · rw [same]
    exact Nat.le_add_right _ _
  · exact Nat.le_of_eq (inv.ticking.expire expired).2.2.2.symm
  · exact Nat.le_of_eq (inv.ticking.handle handled).2.2.symm

/-- Time passes until the wait is due. -/
theorem waits_leadsTo_queued (run : Forever step states acts) (fair : Fair states acts)
    (inv : ∀ place, Inv n first (states place)) (count expiry : Nat) :
    LeadsTo states (Waits count expiry) (Queued count) := by
  intro place waits
  obtain ⟨moment, reached⟩ := fair.time expiry
  have due : expiry ≤ (states (max place moment)).timer.now := by
    have later : Monotone fun place => (states place).timer.now :=
      monotone_nat_of_le_succ fun place => now_le (inv place) (run place)
    exact Nat.le_trans reached (later (Nat.le_max_right place moment))
  have kept := run.keeps_or_reaches
    (fun _ _ _ waits stepped => (Waits.step waits stepped).imp_left And.left) waits
    (Nat.le_max_left place moment)
  rcases kept with still | queued
  · obtain ⟨last, beyond, queued⟩ := due_leadsTo_queued run fair count expiry _ ⟨still, due⟩
    exact ⟨last, Nat.le_trans (Nat.le_max_left place moment) beyond, queued⟩
  · exact queued

/-- `timerCallBack` is called again and again. -/
theorem leadsTo_called (run : Forever step states acts) (fair : Fair states acts)
    (inv : ∀ place, Inv n first (states place)) (count place : Nat) :
    ∃ later, place ≤ later ∧ count ≤ (states later).timer.called := by
  induction count with
  | zero => exact ⟨place, Nat.le_refl place, Nat.zero_le _⟩
  | succ count ih =>
      obtain ⟨middle, before, enough⟩ := ih
      have queued := queued_leadsTo_called run fair count
      obtain ⟨last, beyond, more⟩ : ∃ last, middle ≤ last ∧ count < (states last).timer.called := by
        have ticking := (inv middle).ticking
        rcases ticking.one with ⟨waiting, _⟩ | ⟨_, ready⟩
        · obtain ⟨expiry, there⟩ := Option.ne_none_iff_exists'.mp ticking.expiry
          exact (waits_leadsTo_queued run fair inv count expiry).trans queued middle
            ⟨ticking, enough, waiting, there⟩
        · exact queued middle ⟨ticking, enough, ready⟩
      exact ⟨last, Nat.le_trans before beyond, more⟩

/-! ## The server runs -/

/-- What holds in every state of the running server. -/
structure Serves (n : Nat) (server : Server) : Prop where
  /-- The contexts of the server and of the sockets are inside of the pool and go round. -/
  contexts : RoundRobin n n (server.mainIoContext :: server.sockets)
  /-- The acceptor is open and calls no callback. -/
  accepting : Accepting server.acceptor
  /-- Either one wait is pending or one handler is queued. -/
  one : server.timer.waiting + server.timer.ready.length = 1
  /-- There are ten seconds for each call of `timerCallBack`. -/
  rate : server.timer.called * 10000 ≤ server.timer.now

theorem Inv.serves {server : Server} (positive : 0 < n) (below : first < n)
    (inv : Inv n first server) : Serves n server := by
  have ticking := inv.ticking
  refine ⟨?_, inv.listening.accepting, ?_, ?_⟩
  · have goesRound := (roundRobin_residues_iff (List.nodup_range (n := n))
      (by rwa [List.length_range]) (by rwa [List.length_range])
      (server.sockets.length + 1)).mpr (Or.inl (Nat.dvd_refl _))
    rw [List.length_range] at goesRound
    rw [inv.listening.contexts]
    exact goesRound
  · rcases ticking.one with ⟨waiting, ready⟩ | ⟨waiting, ready⟩ <;> rw [waiting, ready] <;> rfl
  · have calls : server.timer.called ≤ server.timer.fired := by
      have handled := ticking.inv.handled_eq
      rw [ticking.called]
      omega
    exact Nat.le_trans (Nat.mul_le_mul_right 10000 calls) ticking.inv.fired_le

/-- The server never stops: from `init` and `run` on, where the first index happens to be
inside of the pool, it goes on making sockets and calling `timerCallBack`, with contexts that
go round and at most one call in ten seconds. -/
theorem serves_for_ever {nextIoContext port : Nat} (positive : 0 < n) (fits : n < 2 ^ 16)
    (inside : uint16 nextIoContext < n) (run : Forever step states acts)
    (started : serve nextIoContext n port = some (states 0)) (fair : Fair states acts) :
    (∀ place, Serves n (states place)) ∧
      ∀ count place, ∃ later, place ≤ later ∧ count ≤ (states later).sockets.length ∧
        count ≤ (states later).timer.called := by
  have inv (place : Nat) : Inv n (uint16 nextIoContext) (states place) :=
    run.invariant (fun _ _ _ => Inv.step positive fits) (serve_inv positive fits inside started)
      place
  refine ⟨fun place => (inv place).serves positive inside, fun count place => ?_⟩
  obtain ⟨middle, before, enough⟩ :=
    leadsTo_sockets run fair (fun place => (inv place).listening.accepting) count place
  obtain ⟨later, after, called⟩ := leadsTo_called run fair inv count middle
  have still := run.grows (fun _ _ _ stepped => step_sockets stepped) after
  exact ⟨later, Nat.le_trans before after, Nat.le_trans enough still.length_le, called⟩

/-! ## A run -/

/-- A connection comes in, ten seconds pass, and everything begins again. -/
def laps (place : Nat) : ServerAction :=
  match place % 6 with
  | 0 => .complete false
  | 1 => .getIoContext
  | 2 => .asyncAccept
  | 3 => .advance 10000
  | 4 => .expire
  | _ => .handle

/-- The server of `main`, with an index that happens to be 1. -/
def served : Server :=
  (serve 1 2 8000).getD ⟨0, 0, IoConnectPool.new 0, AsioTimer.fresh, select [] 0,
    TcpAccepter.start false, []⟩

/-- The states of this run. -/
abbrev lapStates : Nat → Server :=
  follow step served laps

/-- Where the acceptor and the timer are. -/
structure At (phase : AcceptPhase) (timer : AsioTimer) (server : Server) : Prop where
  accepting : Accepting server.acceptor
  phase : server.acceptor.phase = phase
  timer : server.timer = timer

section At

variable {phase : AcceptPhase} {timer after : AsioTimer} {server : Server}

theorem At.complete (here : At .pending timer server) :
    ∃ next, step server (.complete false) = some next ∧ At .entered timer next := by
  obtain ⟨⟨opened, noCallback, _⟩, pending, same⟩ := here
  exact ⟨{ server with acceptor := { server.acceptor with phase := .entered } },
    by simp [step, TcpAccepter.step, pending, opened, noCallback],
    ⟨opened, noCallback, by simp⟩, rfl, same⟩

theorem At.getIoContext (here : At .entered timer server) :
    ∃ next, step server .getIoContext = some next ∧ At .obtained timer next := by
  obtain ⟨⟨opened, noCallback, _⟩, entered, same⟩ := here
  simp only [step, TcpAccepter.step, entered, if_true, Option.map_some]
  exact ⟨_, rfl, ⟨opened, noCallback, by simp⟩, rfl, same⟩

theorem At.asyncAccept (here : At .obtained timer server) :
    ∃ next, step server .asyncAccept = some next ∧ At .pending timer next := by
  obtain ⟨⟨opened, noCallback, _⟩, obtained, same⟩ := here
  simp only [step, TcpAccepter.step, obtained, if_true, Option.map_some]
  exact ⟨_, rfl, ⟨opened, noCallback, by simp⟩, rfl, same⟩

theorem At.advance (here : At phase timer server) (ms : Nat) :
    ∃ next, step server (.advance ms) = some next ∧
      At phase { timer with now := timer.now + ms } next := by
  obtain ⟨accepting, phase, rfl⟩ := here
  exact ⟨_, rfl, accepting, phase, rfl⟩

theorem At.expire (here : At phase timer server) (expired : timer.expire = some after) :
    ∃ next, step server .expire = some next ∧ At phase after next := by
  obtain ⟨accepting, phase, rfl⟩ := here
  simp only [step, expired, Option.map_some]
  exact ⟨_, rfl, accepting, phase, rfl⟩

theorem At.handle (here : At phase timer server) (handled : timer.handle [] = some after) :
    ∃ next, step server .handle = some next ∧ At phase after next := by
  obtain ⟨accepting, phase, rfl⟩ := here
  simp only [step, handled, Option.map_some]
  exact ⟨_, rfl, accepting, phase, rfl⟩

end At

/-- The timer before a lap. -/
def lapTimer (lap : Nat) : AsioTimer :=
  ⟨10000, true, some (10000 * lap + 10000), 1, [], 10000 * lap, lap, lap, lap⟩

/-- The actions of a lap. -/
theorem laps_add (lap place : Nat) : laps (6 * lap + place) = laps place := by
  rw [laps, laps, Nat.mul_add_mod]

/-- An action of a lap that can be taken is taken. -/
theorem lap_goesOn {lap place : Nat} {server next : Server}
    (here : lapStates (6 * lap + place) = server) (stepped : step server (laps place) = some next) :
    (step (lapStates (6 * lap + place)) (laps (6 * lap + place))).isSome ∧
      lapStates (6 * lap + place + 1) = next := by
  rw [← here, ← laps_add lap place] at stepped
  exact ⟨Option.isSome_iff_exists.mpr ⟨next, stepped⟩, follow_succ stepped⟩

/-- A lap can be made, and leads to the next one. -/
theorem lap_next {lap : Nat} (before : At .pending (lapTimer lap) (lapStates (6 * lap))) :
    (∀ place < 6, (step (lapStates (6 * lap + place)) (laps (6 * lap + place))).isSome) ∧
      At .pending (lapTimer (lap + 1)) (lapStates (6 * (lap + 1))) := by
  have expired : ({ lapTimer lap with now := 10000 * lap + 10000 } : AsioTimer).expire =
      some { lapTimer lap with
        now := 10000 * lap + 10000, waiting := 0, ready := [false], fired := lap + 1 } := by
    simp [AsioTimer.expire, lapTimer]
  obtain ⟨completed, first, entered⟩ := before.complete
  obtain ⟨zero, reached⟩ := @lap_goesOn lap 0 _ _ rfl first
  obtain ⟨made, second, obtained⟩ := entered.getIoContext
  obtain ⟨one, reached⟩ := @lap_goesOn lap 1 _ _ reached second
  obtain ⟨issued, third, pending⟩ := obtained.asyncAccept
  obtain ⟨two, reached⟩ := @lap_goesOn lap 2 _ _ reached third
  obtain ⟨passed, fourth, pending⟩ := pending.advance 10000
  obtain ⟨three, reached⟩ := @lap_goesOn lap 3 _ _ reached fourth
  obtain ⟨fired, fifth, pending⟩ := pending.expire expired
  obtain ⟨four, reached⟩ := @lap_goesOn lap 4 _ _ reached fifth
  obtain ⟨handled, sixth, pending⟩ := pending.handle rfl
  obtain ⟨five, reached⟩ := @lap_goesOn lap 5 _ _ reached sixth
  refine ⟨fun place small => ?_, ?_⟩
  · match place, small with
    | 0, _ => exact zero
    | 1, _ => exact one
    | 2, _ => exact two
    | 3, _ => exact three
    | 4, _ => exact four
    | 5, _ => exact five
  · rw [Nat.mul_succ]
    rw [← reached] at pending
    exact pending

theorem lap_at (lap : Nat) : At .pending (lapTimer lap) (lapStates (6 * lap)) := by
  induction lap with
  | zero => exact ⟨⟨rfl, rfl, nofun⟩, rfl, rfl⟩
  | succ lap ih => exact (lap_next ih).2

theorem lap_forever : Forever step lapStates laps := by
  apply forever_follow
  intro place
  have enabled := (lap_next (lap_at (place / 6))).1 (place % 6) (Nat.mod_lt place (by decide))
  rwa [Nat.div_add_mod] at enabled

/-- Every action of a lap comes again and again. -/
theorem lap_served (P : Server → Prop) {place : Nat} {act : ServerAction}
    (is : laps place = act) : Served lapStates laps P (· = act) := by
  intro n _
  refine ⟨6 * n + place, by omega, ?_⟩
  rw [laps_add, is]

theorem lap_started : serve 1 2 8000 = some (lapStates 0) := by
  decide

theorem lap_fair : Fair lapStates laps where
  accepts := by
    have inv (place : Nat) : Inv 2 (uint16 1) (lapStates place) :=
      lap_forever.invariant (fun _ _ _ => Inv.step (by decide) (by decide))
        (serve_inv (by decide) (by decide) (by decide) lap_started) place
    intro phase place here
    cases phase with
    | entered =>
        obtain ⟨later, after, taken⟩ := @lap_served (fun _ => True) 1 _ rfl place trivial
        exact ⟨later, after, .getIoContext, congrArg ServerAction.accepts taken, rfl⟩
    | obtained =>
        obtain ⟨later, after, taken⟩ := @lap_served (fun _ => True) 2 _ rfl place trivial
        exact ⟨later, after, .asyncAccept, congrArg ServerAction.accepts taken, rfl⟩
    | pending =>
        obtain ⟨later, after, taken⟩ := @lap_served (fun _ => True) 0 _ rfl place trivial
        exact ⟨later, after, .complete false, congrArg ServerAction.accepts taken, false, rfl⟩
    | callback => exact absurd here (inv place).listening.accepting.phase
  expires := @lap_served _ 4 _ rfl
  handles := @lap_served _ 5 _ rfl
  time := by
    intro moment
    refine ⟨6 * moment, ?_⟩
    rw [(lap_at moment).timer]
    exact Nat.le_mul_of_pos_left moment (by decide)

/-- The theorem at this run. -/
theorem lap_serves_for_ever :
    (∀ place, Serves 2 (lapStates place)) ∧
      ∀ count place, ∃ later, place ≤ later ∧ count ≤ (lapStates later).sockets.length ∧
        count ≤ (lapStates later).timer.called :=
  serves_for_ever (by decide) (by decide) (by decide) lap_forever lap_started lap_fair

end Server

end Cncpp.Net
