import Cncpp.Transition.Run

/-!
# The queue with a condition variable

`ProducerConsumerQueue` guards a queue by a mutex and wakes the threads inside of
`WaitAndPop` through one condition variable.  Each critical section is a step, and so is each
piece of `WaitAndPop` between two waits: a thread that is notified, or wakes spuriously,
takes the mutex in a later step and evaluates the loop condition again.

What `notify_one` does depends on the threads that are blocked then, and it may wake any of
them.
-/

namespace Cncpp.Queue

open Cncpp.Transition

/-- The members of `ProducerConsumerQueue` that the mutex guards. -/
structure ProducerConsumerQueue (T : Type) where
  queue : List T := []
  shutdown : Bool := false

namespace ProducerConsumerQueue

variable {T : Type}

/-- `_queue.push(value)` in `Push`. -/
def push (queue : ProducerConsumerQueue T) (value : T) : ProducerConsumerQueue T :=
  { queue with queue := queue.queue ++ [value] }

/-- The loop condition of `WaitAndPop`. -/
def mustWait (queue : ProducerConsumerQueue T) : Bool :=
  queue.queue.isEmpty && !queue.shutdown

/-- `Pop`, and what follows the loop of `WaitAndPop`: the value that is written to the
reference, if one is. -/
def pop (queue : ProducerConsumerQueue T) : Option T × ProducerConsumerQueue T :=
  match queue.shutdown, queue.queue with
  | false, front :: rest => (some front, { queue with queue := rest })
  | _, _ => (none, queue)

/-- `Cancel`.  Its loop removes all values, and deletes them where they are pointers. -/
def cancel (_ : ProducerConsumerQueue T) : ProducerConsumerQueue T :=
  { queue := [], shutdown := true }

/-- The members that take a value. -/
inductive Call where
  | pop
  | waitAndPop
  deriving DecidableEq

/-- A queue and its threads. -/
structure State (Thread T : Type) where
  queue : ProducerConsumerQueue T := {}
  /-- The threads that are blocked in `_condition.wait`. -/
  waiting : List Thread := []
  /-- The threads whose wait is over, and which do not have the mutex yet. -/
  woken : List Thread := []
  /-- History: the values of the calls of `Push`. -/
  pushed : List T := []
  /-- History: the calls that have returned, with the values they have written. -/
  outcomes : List (Call × Option T) := []
  /-- History: the values that `Cancel` has removed. -/
  discarded : List T := []

/-- A critical section of a member, a spurious wake-up, or the return of a wait. -/
inductive Action (Thread T : Type) where
  | push (value : T) (notified : Option Thread)
  | pop
  | waitAndPop (thread : Thread)
  | wake (thread : Thread)
  | resume (thread : Thread)
  | cancel

variable {Thread : Type}

namespace State

/-- The values that have been taken. -/
def popped (state : State Thread T) : List T :=
  state.outcomes.filterMap Prod.snd

/-- `Push` without its notification. -/
def push (state : State Thread T) (value : T) : State Thread T :=
  { state with
    queue := state.queue.push value
    pushed := state.pushed ++ [value] }

/-- The rest of `Pop` or `WaitAndPop`. -/
def finish (state : State Thread T) (call : Call) : State Thread T :=
  { state with
    queue := state.queue.pop.2
    outcomes := state.outcomes ++ [(call, state.queue.pop.1)] }

/-- A thread inside of `WaitAndPop` evaluates the loop condition. -/
def enter (state : State Thread T) (thread : Thread) : State Thread T :=
  if state.queue.mustWait then { state with waiting := thread :: state.waiting }
  else state.finish .waitAndPop

/-- The wait of a thread is over. -/
def wake [DecidableEq Thread] (state : State Thread T) (thread : Thread) : State Thread T :=
  { state with
    waiting := state.waiting.erase thread
    woken := thread :: state.woken }

/-- A thread whose wait is over takes the mutex. -/
def resume [DecidableEq Thread] (state : State Thread T) (thread : Thread) : State Thread T :=
  { state with woken := state.woken.erase thread }.enter thread

/-- `Cancel` with its notification. -/
def cancel (state : State Thread T) : State Thread T :=
  { state with
    queue := state.queue.cancel
    waiting := []
    woken := state.waiting ++ state.woken
    discarded := state.discarded ++ state.queue.queue }

end State

variable [DecidableEq Thread]

/-- One step of one thread. -/
def step : Step (State Thread T) (Action Thread T)
  | state, .push value none => if state.waiting.isEmpty then some (state.push value) else none
  | state, .push value (some thread) =>
      if thread ∈ state.waiting then some ((state.push value).wake thread) else none
  | state, .pop => some (state.finish .pop)
  | state, .waitAndPop thread =>
      if thread ∈ state.waiting ∨ thread ∈ state.woken then none else some (state.enter thread)
  | state, .wake thread => if thread ∈ state.waiting then some (state.wake thread) else none
  | state, .resume thread => if thread ∈ state.woken then some (state.resume thread) else none
  | state, .cancel => some state.cancel

/-- All that a step can do to a state. -/
inductive Moves (state : State Thread T) : State Thread T → Prop where
  | push (value : T) (nobody : state.waiting = []) : Moves state (state.push value)
  | pushWake (value : T) (thread : Thread) (blocked : thread ∈ state.waiting) :
      Moves state ((state.push value).wake thread)
  | pop : Moves state (state.finish .pop)
  | waitAndPop (thread : Thread) : Moves state (state.enter thread)
  | wake (thread : Thread) (blocked : thread ∈ state.waiting) : Moves state (state.wake thread)
  | resume (thread : Thread) (ready : thread ∈ state.woken) : Moves state (state.resume thread)
  | cancel : Moves state state.cancel

theorem step_moves {state next : State Thread T} {act : Action Thread T}
    (stepped : step state act = some next) : Moves state next := by
  cases act with
  | push value notified =>
      cases notified with
      | none =>
          rw [step, Option.ite_none_right_eq_some, List.isEmpty_iff, Option.some.injEq] at stepped
          obtain ⟨nobody, rfl⟩ := stepped
          exact Moves.push value nobody
      | some thread =>
          rw [step, Option.ite_none_right_eq_some, Option.some.injEq] at stepped
          obtain ⟨blocked, rfl⟩ := stepped
          exact Moves.pushWake value thread blocked
  | pop =>
      obtain rfl := Option.some.inj stepped
      exact Moves.pop
  | waitAndPop thread =>
      rw [step, Option.ite_none_left_eq_some, Option.some.injEq] at stepped
      obtain ⟨_, rfl⟩ := stepped
      exact Moves.waitAndPop thread
  | wake thread =>
      rw [step, Option.ite_none_right_eq_some, Option.some.injEq] at stepped
      obtain ⟨blocked, rfl⟩ := stepped
      exact Moves.wake thread blocked
  | resume thread =>
      rw [step, Option.ite_none_right_eq_some, Option.some.injEq] at stepped
      obtain ⟨ready, rfl⟩ := stepped
      exact Moves.resume thread ready
  | cancel =>
      obtain rfl := Option.some.inj stepped
      exact Moves.cancel

end ProducerConsumerQueue

end Cncpp.Queue
