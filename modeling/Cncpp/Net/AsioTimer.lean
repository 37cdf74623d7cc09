import Cncpp.Transition.Run
import Mathlib.Algebra.GroupWithZero.Nat
import Mathlib.Data.List.Basic

/-!
# The timer

`AsioTimer::start` moves the expiry of a `steady_timer` and waits for it.  The handler of
the wait calls the callback and then `start` again.  Nothing keeps `start` from being called
while a wait is pending, or while the handler of a completed wait is still queued, and the
callback may call `start` and `init` itself.

Of asio it is used that `expires_after`, and the destructor of the timer that `init`
replaces, cancel the waits that are pending: their handlers are queued with an error.  A wait
completes at its expiry or later, its handler is queued without an error and is not cancelled
any more, and the handlers run one after the other.
-/

namespace Cncpp.Net

open Cncpp.Transition

/-- An object of `class AsioTimer` with the `io_context` of its timer. -/
structure AsioTimer where
  /-- `interval_`. -/
  interval : Nat
  /-- `callback_` is set. -/
  hasCallback : Bool
  /-- The expiry of the timer behind `timer_`, if there is one. -/
  timer : Option Nat
  /-- The waits that are pending. -/
  waiting : Nat
  /-- The handlers that are queued, each with whether `ec` is set. -/
  ready : List Bool
  now : Nat
  /-- History: the waits that have completed. -/
  fired : Nat
  /-- History: the handlers without an error that have run. -/
  handled : Nat
  /-- History: the calls of `callback_`. -/
  called : Nat
  deriving DecidableEq

/-- The calls that the callback may make itself. -/
inductive TimerCall where
  | init (ms : Nat)
  | start
  deriving DecidableEq

/-- Calls from outside, and what asio does.  The first queued handler runs, with the calls that
the callback makes. -/
inductive TimerAction where
  | call (made : TimerCall)
  | setCallBack (hasCallback : Bool)
  | handle (during : List TimerCall)
  | expire
  | advance (ms : Nat)
  deriving DecidableEq

namespace AsioTimer

/-- The object before all calls. -/
def fresh : AsioTimer :=
  ⟨0, false, none, 0, [], 0, 0, 0, 0⟩

/-- The handlers of the pending waits are queued with an error. -/
def cancel (state : AsioTimer) : AsioTimer :=
  { state with ready := state.ready ++ List.replicate state.waiting true, waiting := 0 }

/-- `init`. -/
def init (ms : Nat) (state : AsioTimer) : AsioTimer :=
  { state.cancel with interval := ms, timer := some 0 }

/-- `start`; none where `timer_` is a null pointer. -/
def start (state : AsioTimer) : Option AsioTimer :=
  match state.timer with
  | none => none
  | some _ =>
      let cancelled := state.cancel
      some { cancelled with
        timer := some (state.now + state.interval), waiting := cancelled.waiting + 1 }

/-- A call. -/
def perform : Step AsioTimer TimerCall
  | state, .init ms => some (state.init ms)
  | state, .start => state.start

/-- The handler. -/
def handle (state : AsioTimer) (during : List TimerCall) : Option AsioTimer :=
  match state.ready with
  | [] => none
  | true :: rest => some { state with ready := rest }
  | false :: rest =>
      let running := { state with ready := rest, handled := state.handled + 1 }
      let after :=
        if running.hasCallback then
          exec perform { running with called := running.called + 1 } during
        else some running
      after.bind start

/-- The pending waits complete. -/
def expire (state : AsioTimer) : Option AsioTimer :=
  match state.timer with
  | none => none
  | some expiry =>
      if state.waiting ≠ 0 ∧ expiry ≤ state.now then
        some { state with
          waiting := 0
          ready := state.ready ++ List.replicate state.waiting false
          fired := state.fired + state.waiting }
      else none

/-- One step. -/
def step : Step AsioTimer TimerAction
  | state, .call made => perform state made
  | state, .setCallBack hasCallback => some { state with hasCallback := hasCallback }
  | state, .handle during => state.handle during
  | state, .expire => state.expire
  | state, .advance ms => some { state with now := state.now + ms }

end AsioTimer

/-- The interval of an `init` is at least this long. -/
def TimerCall.AtLeast (least : Nat) : TimerCall → Prop
  | init ms => least ≤ ms
  | start => True

/-- All intervals are at least this long. -/
def TimerAction.AtLeast (least : Nat) : TimerAction → Prop
  | call made => made.AtLeast least
  | handle during => ∀ made ∈ during, made.AtLeast least
  | _ => True

/-- The action is not a call of `init` from outside of the callback. -/
def TimerAction.KeepsTimer : TimerAction → Prop
  | call (.init _) => False
  | _ => True

namespace AsioTimer

/-- What holds of every state, where all intervals are at least `least`. -/
structure Inv (least : Nat) (state : AsioTimer) : Prop where
  waiting_le : state.waiting ≤ 1
  interval_le : state.timer ≠ none → least ≤ state.interval
  fired_le : state.fired * least ≤ state.now
  expiry_le : state.waiting = 1 →
    ∀ expiry, state.timer = some expiry → (state.fired + 1) * least ≤ expiry
  handled_eq : state.handled + state.ready.count false = state.fired
  called_le : state.called ≤ state.handled

/-- A wait is pending, or the handler of a completed one is queued. -/
def Alive (state : AsioTimer) : Prop :=
  state.timer ≠ none ∧ 1 ≤ state.waiting + state.ready.count false

section Step

variable {least : Nat} {state next : AsioTimer}

theorem fresh_inv : Inv least fresh where
  waiting_le := Nat.zero_le 1
  interval_le := fun exists_ => absurd rfl exists_
  fired_le := by simp [fresh]
  expiry_le := by simp [fresh]
  handled_eq := rfl
  called_le := Nat.le_refl 0

@[simp]
theorem cancel_count (state : AsioTimer) :
    state.cancel.ready.count false = state.ready.count false := by
  simp [cancel, List.count_replicate]

theorem init_inv {ms : Nat} (inv : Inv least state) (long : least ≤ ms) :
    Inv least (state.init ms) where
  waiting_le := Nat.zero_le 1
  interval_le := fun _ => long
  fired_le := inv.fired_le
  expiry_le := fun one => absurd one (by simp [init, cancel])
  handled_eq := (congrArg (state.handled + ·) (cancel_count state)).trans inv.handled_eq
  called_le := inv.called_le

/-- The state that `start` leaves. -/
def arm (state : AsioTimer) : AsioTimer :=
  { state.cancel with timer := some (state.now + state.interval), waiting := 1 }

theorem start_eq_some_iff : state.start = some next ↔ state.timer ≠ none ∧ next = state.arm := by
  unfold start
  cases state.timer with
  | none => simp
  | some expiry => simp [cancel, arm, eq_comm]

theorem start_inv (inv : Inv least state) (started : state.start = some next) :
    Inv least next := by
  obtain ⟨timer, rfl⟩ := start_eq_some_iff.mp started
  have long := inv.interval_le timer
  refine ⟨Nat.le_refl 1, fun _ => long, inv.fired_le, ?_, ?_, inv.called_le⟩
  · intro _ expiry same
    have later : state.now + state.interval = expiry := Option.some.inj same
    rw [← later, Nat.succ_mul]
    exact Nat.add_le_add inv.fired_le long
  · exact (congrArg (state.handled + ·) (cancel_count state)).trans inv.handled_eq

theorem start_alive (started : state.start = some next) : next.Alive := by
  obtain ⟨_, rfl⟩ := start_eq_some_iff.mp started
  exact ⟨Option.some_ne_none _, Nat.le_add_right 1 _⟩

theorem perform_inv {made : TimerCall} (inv : Inv least state) (long : made.AtLeast least)
    (performed : perform state made = some next) : Inv least next := by
  cases made with
  | init ms =>
      cases performed
      exact init_inv inv long
  | start => exact start_inv inv performed

/-- A queued handler without an error is counted before it calls anything. -/
theorem running_inv (inv : Inv least state) {rest : List Bool} (first : state.ready = false :: rest)
    {called : Nat} (counted : called ≤ state.handled + 1) :
    Inv least { state with ready := rest, handled := state.handled + 1, called := called } := by
  refine ⟨inv.waiting_le, inv.interval_le, inv.fired_le, inv.expiry_le, ?_, counted⟩
  have before := inv.handled_eq
  rw [first, List.count_cons_self] at before
  exact (Nat.add_right_comm _ _ _).trans before

/-- What the handler does: without an error, the callback runs and then `start`. -/
theorem handle_cases {during : List TimerCall} (handled : state.handle during = some next) :
    (∃ rest, state.ready = true :: rest ∧ next = { state with ready := rest }) ∨
      ∃ rest called made after, state.ready = false :: rest ∧ called ≤ state.called + 1 ∧
        (∀ call ∈ made, call ∈ during) ∧
        exec perform
          { state with ready := rest, handled := state.handled + 1, called := called } made =
            some after ∧ after.start = some next := by
  unfold handle at handled
  cases first : state.ready with
  | nil => simp [first] at handled
  | cons aborted rest =>
      rw [first] at handled
      cases aborted with
      | true => exact Or.inl ⟨rest, rfl, (Option.some.inj handled).symm⟩
      | false =>
          obtain ⟨after, ran, started⟩ := Option.bind_eq_some_iff.mp handled
          right
          cases callback : state.hasCallback with
          | true =>
              simp only [callback, if_true] at ran
              exact ⟨rest, _, during, after, rfl, Nat.le_refl _, fun _ member => member, ran,
                started⟩
          | false =>
              simp only [callback, Bool.false_eq_true, if_false] at ran
              exact ⟨rest, state.called, [], after, rfl, Nat.le_succ _,
                fun _ member => absurd member List.not_mem_nil, ran, started⟩

theorem handle_inv {during : List TimerCall} (inv : Inv least state)
    (long : ∀ made ∈ during, made.AtLeast least)
    (handled : state.handle during = some next) : Inv least next := by
  rcases handle_cases handled with ⟨rest, first, rfl⟩ | ⟨rest, called, made, after, first, counted,
      inside, ran, started⟩
  · refine ⟨inv.waiting_le, inv.interval_le, inv.fired_le, inv.expiry_le, ?_, inv.called_le⟩
    have before := inv.handled_eq
    rw [first, List.count_cons_of_ne (by decide)] at before
    exact before
  · have running := running_inv inv first (Nat.le_trans counted (Nat.succ_le_succ inv.called_le))
    have allowed (entered : AsioTimer) :
        Along perform (fun _ call => call.AtLeast least) entered made :=
      along_of_forall fun call member => long call (inside call member)
    exact start_inv (invariant_along (fun _ _ _ => perform_inv) running (allowed _) ran) started

theorem handle_alive {during : List TimerCall} (alive : state.Alive)
    (handled : state.handle during = some next) : next.Alive := by
  rcases handle_cases handled with ⟨rest, first, rfl⟩ | ⟨_, _, _, _, _, _, _, _, started⟩
  · obtain ⟨timer, counted⟩ := alive
    rw [first, List.count_cons_of_ne (by decide)] at counted
    exact ⟨timer, counted⟩
  · exact start_alive started

/-- What `expire` does. -/
theorem expire_eq_some_iff :
    state.expire = some next ↔
      ∃ expiry, state.timer = some expiry ∧ state.waiting ≠ 0 ∧ expiry ≤ state.now ∧
        next = { state with
          waiting := 0
          ready := state.ready ++ List.replicate state.waiting false
          fired := state.fired + state.waiting } := by
  unfold expire
  cases state.timer with
  | none => simp
  | some expiry => simp [and_assoc, eq_comm]

theorem expire_inv (inv : Inv least state) (expired : state.expire = some next) :
    Inv least next := by
  obtain ⟨expiry, timer, waits, due, rfl⟩ := expire_eq_some_iff.mp expired
  have one : state.waiting = 1 := Nat.le_antisymm inv.waiting_le (Nat.pos_of_ne_zero waits)
  refine ⟨Nat.zero_le 1, inv.interval_le, ?_, fun same => absurd same Nat.zero_ne_one, ?_, ?_⟩
  · rw [one]
    exact Nat.le_trans (inv.expiry_le one expiry timer) due
  · rw [one, ← inv.handled_eq, List.replicate_one, List.count_append, List.count_singleton_self,
      Nat.add_assoc]
  · exact inv.called_le

theorem expire_alive (expired : state.expire = some next) : next.Alive := by
  obtain ⟨expiry, timer, waits, due, rfl⟩ := expire_eq_some_iff.mp expired
  refine ⟨by simp [timer], ?_⟩
  simp only [List.count_append, List.count_replicate_self]
  omega

theorem step_inv {act : TimerAction} (inv : Inv least state) (long : act.AtLeast least)
    (taken : step state act = some next) : Inv least next := by
  cases act with
  | call made => exact perform_inv inv long taken
  | setCallBack hasCallback =>
      cases taken
      exact { inv with }
  | handle during => exact handle_inv inv long taken
  | expire => exact expire_inv inv taken
  | advance ms =>
      cases taken
      exact { inv with fired_le := Nat.le_add_right_of_le inv.fired_le }

theorem step_alive {act : TimerAction} (alive : state.Alive) (keeps : act.KeepsTimer)
    (taken : step state act = some next) : next.Alive := by
  cases act with
  | call made =>
      cases made with
      | init ms => contradiction
      | start => exact start_alive taken
  | setCallBack hasCallback =>
      cases taken
      exact alive
  | handle during => exact handle_alive alive taken
  | expire => exact expire_alive taken
  | advance ms =>
      cases taken
      exact alive

end Step

/-- In every run of calls of `init`, `start` and `setCallBack`, of expiries and of handlers,
whatever the callback calls: at most one wait is pending; every completed wait has its handler
queued or run, and a handler calls the callback at most once; the callback has not been
called more often than the shortest interval fits into the time; and from a `start` on the
timer stays alive until `init` is called from outside of the callback. -/
theorem timer_runs {least : Nat} {acts : List TimerAction} {final : AsioTimer}
    (long : ∀ act ∈ acts, act.AtLeast least) (run : exec step fresh acts = some final) :
    final.waiting ≤ 1 ∧
    final.handled + final.ready.count false = final.fired ∧
    final.called ≤ final.handled ∧
    final.called * least ≤ final.now ∧
    ∀ before after, acts = before ++ .call .start :: after →
      (∀ act ∈ after, act.KeepsTimer) → final.Alive := by
  have allowed : Along step (fun _ act => act.AtLeast least) fresh acts := along_of_forall long
  have inv := invariant_along (fun _ _ _ => step_inv) fresh_inv allowed run
  refine ⟨inv.waiting_le, inv.handled_eq, inv.called_le, ?_, ?_⟩
  · have calls : final.called ≤ final.fired := by
      have handled := inv.handled_eq
      have called := inv.called_le
      omega
    exact Nat.le_trans (Nat.mul_le_mul_right least calls) inv.fired_le
  · rintro before after rfl keeps
    rw [exec_append] at run
    obtain ⟨reached, _, rest⟩ := Option.bind_eq_some_iff.mp run
    obtain ⟨next, started, later⟩ := (exec_cons_eq_some_iff ..).mp rest
    have allowed : Along step (fun _ act => act.KeepsTimer) next after := along_of_forall keeps
    exact invariant_along (fun _ _ _ => step_alive) (start_alive started) allowed later

/-- Two calls of `start` are one timer: the second cancels the wait of the first, and one
callback comes from both. -/
theorem timer_started_twice :
    ∃ final, exec step fresh [.call (.init 10), .setCallBack true, .call .start, .call .start,
        .advance 10, .expire, .handle [], .handle [.start]] = some final ∧
      final.called = 1 ∧ final.waiting ≤ 1 ∧ final.called * 10 ≤ final.now ∧ final.Alive := by
  have long : ∀ act ∈ [TimerAction.call (.init 10), .setCallBack true, .call .start,
      .call .start, .advance 10, .expire, .handle [], .handle [.start]], act.AtLeast 10 := by
    simp [TimerAction.AtLeast, TimerCall.AtLeast]
  obtain ⟨waiting, _, _, rate, alive⟩ := timer_runs long rfl
  refine ⟨_, rfl, rfl, waiting, rate, ?_⟩
  exact alive [.call (.init 10), .setCallBack true] _ rfl (by simp [TimerAction.KeepsTimer])

end AsioTimer

end Cncpp.Net
