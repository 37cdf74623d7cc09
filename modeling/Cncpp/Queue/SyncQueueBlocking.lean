import Cncpp.Transition.Run

/-!
# The blocking queue

`SyncQueueBlocking` guards a list by a mutex and two condition variables.  A call waits until
its predicate holds and then runs the rest of its critical section; the two are one step of
the thread, available only where the predicate holds.

`add` waits on `not_full_condition_` with a predicate that reads `need_stop_` alone, and
returns without inserting when `need_stop_` is set.
-/

namespace Cncpp.Queue

open Cncpp.Transition

/-- `class SyncQueueBlocking`. -/
structure SyncQueueBlocking (T : Type) where
  needStop : Bool := false
  dataList : List T := []

namespace SyncQueueBlocking

variable {T : Type}

/-- `notEmpty`. -/
def notEmpty (queue : SyncQueueBlocking T) : Bool :=
  !queue.dataList.isEmpty

/-- `stop`. -/
def stop (queue : SyncQueueBlocking T) : SyncQueueBlocking T :=
  { queue with needStop := true }

/-- A call that takes the mutex: `put(x)`, `take(T&)` or `take(std::list<T>&)`. -/
inductive Call (T : Type) where
  | put (data : T)
  | take
  | takeList

/-- The predicates of the waits. -/
def ready (queue : SyncQueueBlocking T) : Call T → Bool
  | .put _ => queue.needStop
  | .take => queue.needStop || queue.notEmpty
  | .takeList => queue.needStop || queue.notEmpty

/-- What follows the wait of `add`. -/
def add (queue : SyncQueueBlocking T) (data : T) : SyncQueueBlocking T :=
  if queue.needStop then queue else { queue with dataList := queue.dataList ++ [data] }

/-- What follows the wait of `take(T&)`: the element, if one is taken.  The list is not empty
there. -/
def take (queue : SyncQueueBlocking T) : List T × SyncQueueBlocking T :=
  if queue.needStop then ([], queue)
  else
    match queue.dataList with
    | [] => ([], queue)
    | front :: rest => ([front], { queue with dataList := rest })

/-- What follows the wait of `take(std::list<T>&)`. -/
def takeList (queue : SyncQueueBlocking T) : List T × SyncQueueBlocking T :=
  if queue.needStop then ([], queue) else (queue.dataList, { queue with dataList := [] })

/-- What follows the wait of a call: the elements it takes, and the queue. -/
def finish (queue : SyncQueueBlocking T) : Call T → List T × SyncQueueBlocking T
  | .put data => ([], queue.add data)
  | .take => queue.take
  | .takeList => queue.takeList

/-- The elements that a call has put once it is over. -/
def inserted (queue : SyncQueueBlocking T) : Call T → List T
  | .put data => if queue.needStop then [] else [data]
  | _ => []

/-! ## Threads -/

/-- A queue and the threads that use it. -/
structure State (Thread T : Type) where
  queue : SyncQueueBlocking T := {}
  /-- The call that a thread is waiting in. -/
  pending : Thread → Option (Call T) := fun _ => none
  /-- History: the elements of the puts that are over. -/
  puts : List T := []
  /-- History: the elements that have been taken. -/
  taken : List T := []

/-- A thread calls a member, the call of a thread ends, or `stop()` is called. -/
inductive Action (Thread T : Type) where
  | call (thread : Thread) (call : Call T)
  | finish (thread : Thread)
  | stop

variable {Thread : Type} [DecidableEq Thread]

/-- One step. -/
def step : Step (State Thread T) (Action Thread T)
  | state, .call thread call =>
      match state.pending thread with
      | some _ => none
      | none => some { state with pending := Function.update state.pending thread (some call) }
  | state, .finish thread =>
      match state.pending thread with
      | none => none
      | some call =>
          if state.queue.ready call then
            some
              { queue := (state.queue.finish call).2
                pending := Function.update state.pending thread none
                puts := state.puts ++ state.queue.inserted call
                taken := state.taken ++ (state.queue.finish call).1 }
          else none
  | state, .stop => some { state with queue := state.queue.stop }

/-- What a queue for any number of threads does. -/
structure Usable (state : State Thread T) : Prop where
  /-- A waiting put can end, and inserts its element. -/
  puts : state.queue.needStop = false → ∀ thread data,
    state.pending thread = some (.put data) → ∃ next, step state (.finish thread) = some next ∧
      next.queue.dataList = state.queue.dataList ++ [data]
  /-- First in, first out. -/
  fifo : state.taken ++ state.queue.dataList = state.puts
  /-- After `stop()` every call can end, and leaves the list as it is. -/
  stopped : state.queue.needStop = true → ∀ thread call,
    state.pending thread = some call → ∃ next, step state (.finish thread) = some next ∧
      next.queue.dataList = state.queue.dataList

/-- `put` is not called before `stop()`. -/
def Keeps (state : State Thread T) (act : Action Thread T) : Prop :=
  ∀ thread data, act = .call thread (.put data) → state.queue.needStop = true

/-! ## One step -/

omit [DecidableEq Thread] in
/-- A call that ends moves elements from the front of the list to the taken ones, or puts
one at the end. -/
theorem finish_fifo (queue : SyncQueueBlocking T) (call : Call T) :
    (queue.finish call).1 ++ (queue.finish call).2.dataList =
      queue.dataList ++ queue.inserted call := by
  cases stopped : queue.needStop with
  | true => cases call <;> simp [finish, inserted, add, take, takeList, stopped]
  | false =>
      cases call with
      | put data => simp [finish, inserted, add, stopped]
      | take => cases listed : queue.dataList <;> simp [finish, inserted, take, stopped, listed]
      | takeList => simp [finish, inserted, takeList, stopped]

omit [DecidableEq Thread] in
theorem finish_needStop (queue : SyncQueueBlocking T) (call : Call T) :
    (queue.finish call).2.needStop = queue.needStop := by
  cases call with
  | put data => cases stopped : queue.needStop <;> simp [finish, add, stopped]
  | take =>
      cases stopped : queue.needStop with
      | true => simp [finish, take, stopped]
      | false => cases listed : queue.dataList <;> simp [finish, take, stopped, listed]
  | takeList => cases stopped : queue.needStop <;> simp [finish, takeList, stopped]

omit [DecidableEq Thread] in
/-- After `stop()` every predicate holds and nothing is done. -/
theorem finish_of_stopped {queue : SyncQueueBlocking T} (stopped : queue.needStop = true)
    (call : Call T) : queue.ready call = true ∧ (queue.finish call).2 = queue := by
  cases call <;> simp [ready, finish, add, take, takeList, stopped]

/-- A call ends exactly where its predicate holds. -/
theorem step_finish {state : State Thread T} {thread : Thread} {call : Call T}
    (waiting : state.pending thread = some call) :
    step state (.finish thread) =
      if state.queue.ready call then
        some
          { queue := (state.queue.finish call).2
            pending := Function.update state.pending thread none
            puts := state.puts ++ state.queue.inserted call
            taken := state.taken ++ (state.queue.finish call).1 }
      else none := by
  simp only [step, waiting]

/-- All that a step can do. -/
theorem step_cases {state next : State Thread T} {act : Action Thread T}
    (stepped : step state act = some next) :
    (∃ thread call, act = .call thread call ∧ state.pending thread = none ∧
        next = { state with pending := Function.update state.pending thread (some call) }) ∨
      (∃ thread call, act = .finish thread ∧ state.pending thread = some call ∧
        state.queue.ready call = true ∧
        next =
          { queue := (state.queue.finish call).2
            pending := Function.update state.pending thread none
            puts := state.puts ++ state.queue.inserted call
            taken := state.taken ++ (state.queue.finish call).1 }) ∨
      (act = .stop ∧ next = { state with queue := state.queue.stop }) := by
  cases act with
  | call thread call =>
      cases waiting : state.pending thread with
      | some other => simp [step, waiting] at stepped
      | none =>
          simp only [step, waiting, Option.some.injEq] at stepped
          exact Or.inl ⟨thread, call, rfl, waiting, stepped.symm⟩
  | finish thread =>
      cases waiting : state.pending thread with
      | none => simp [step, waiting] at stepped
      | some call =>
          rw [step_finish waiting, Option.ite_none_right_eq_some, Option.some.injEq] at stepped
          exact Or.inr (Or.inl ⟨thread, call, rfl, waiting, stepped.1, stepped.2.symm⟩)
  | stop =>
      simp only [step, Option.some.injEq] at stepped
      exact Or.inr (Or.inr ⟨rfl, stepped.symm⟩)

theorem step_fifo {state next : State Thread T} {act : Action Thread T}
    (fifo : state.taken ++ state.queue.dataList = state.puts)
    (stepped : step state act = some next) : next.taken ++ next.queue.dataList = next.puts := by
  rcases step_cases stepped with
    ⟨thread, call, -, -, rfl⟩ | ⟨thread, call, -, -, -, rfl⟩ | ⟨-, rfl⟩
  · exact fifo
  · change state.taken ++ (state.queue.finish call).1 ++ (state.queue.finish call).2.dataList =
      state.puts ++ state.queue.inserted call
    rw [List.append_assoc, finish_fifo, ← List.append_assoc, fifo]
  · exact fifo

/-! ## Waiting puts -/

/-- No put is waiting, unless `stop()` has been called. -/
def NoPut (state : State Thread T) : Prop :=
  state.queue.needStop = false → ∀ thread data, state.pending thread ≠ some (.put data)

/-- A put that waits before `stop()` cannot end. -/
theorem put_blocked {state : State Thread T} (running : state.queue.needStop = false)
    {thread : Thread} {data : T} (waiting : state.pending thread = some (.put data)) :
    step state (.finish thread) = none := by
  rw [step_finish waiting, ready, running]
  rfl

theorem usable_iff {state : State Thread T}
    (fifo : state.taken ++ state.queue.dataList = state.puts) : Usable state ↔ NoPut state := by
  constructor
  · intro usable running thread data waiting
    obtain ⟨next, ended, _⟩ := usable.puts running thread data waiting
    rw [put_blocked running waiting] at ended
    contradiction
  · intro noPut
    refine ⟨fun running thread data waiting => absurd waiting (noPut running thread data), fifo,
      fun stopped thread call waiting => ?_⟩
    obtain ⟨canEnd, same⟩ := finish_of_stopped stopped call
    refine ⟨_, by rw [step_finish waiting, if_pos canEnd], ?_⟩
    exact congrArg dataList same

/-- A step leads to a usable queue exactly if it is not a call of `put` before `stop()`. -/
theorem step_usable_iff {state next : State Thread T} {act : Action Thread T}
    (fifo : state.taken ++ state.queue.dataList = state.puts) (usable : Usable state)
    (stepped : step state act = some next) :
    next.taken ++ next.queue.dataList = next.puts ∧ (Usable next ↔ Keeps state act) := by
  have nextFifo := step_fifo fifo stepped
  refine ⟨nextFifo, ?_⟩
  rw [usable_iff fifo] at usable
  rw [usable_iff nextFifo]
  rcases step_cases stepped with
    ⟨thread, call, rfl, -, rfl⟩ | ⟨thread, call, rfl, -, -, rfl⟩ | ⟨rfl, rfl⟩
  · constructor
    · rintro noPut _ data ⟨rfl, rfl⟩
      cases running : state.queue.needStop with
      | true => rfl
      | false => exact absurd (Function.update_self _ _ _) (noPut running thread data)
    · intro keeps running other data after
      rcases update_eq_some_iff.mp after with ⟨rfl, same⟩ | ⟨_, before⟩
      · have stopped := keeps other data (by rw [Option.some.inj same])
        change state.queue.needStop = false at running
        rw [stopped] at running
        contradiction
      · exact usable running other data before
  · refine ⟨fun _ _ _ same => by contradiction, fun _ running other data after => ?_⟩
    rcases update_eq_some_iff.mp after with ⟨_, same⟩ | ⟨_, before⟩
    · contradiction
    · exact usable ((finish_needStop _ call).symm.trans running) other data before
  · refine ⟨fun _ _ _ same => by contradiction, fun _ running => ?_⟩
    exact absurd running (by simp [stop])

/-! ## Runs -/

/-- A queue on which nothing has been called. -/
def start : State Thread T := {}

theorem start_usable : Usable (start : State Thread T) :=
  (usable_iff rfl).mpr fun _ _ _ waiting => by contradiction

/-- Over any run of any number of threads, the queue is usable in every state exactly if `put`
is not called before `stop()`. -/
theorem run_usable_iff {acts : List (Action Thread T)} {final : State Thread T}
    (run : exec step start acts = some final) :
    Throughout step Usable start acts ↔ Along step Keeps start acts :=
  throughout_iff_along
    (fun _ _ _ (fifo : _ ++ _ = _) usable stepped => step_usable_iff fifo usable stepped)
    rfl start_usable run

/-- Two threads: a take that waits, `stop()`, and a put that is turned away. -/
def stoppedEarly : List (Action Bool Nat) :=
  [.call false .take, .stop, .call true (.put 5), .finish true, .finish false]

/-- The queue is usable throughout this run. -/
theorem stoppedEarly_usable : Throughout step Usable start stoppedEarly := by
  have run : ∃ final, exec step start stoppedEarly = some final := ⟨_, rfl⟩
  obtain ⟨final, returned⟩ := run
  refine (run_usable_iff returned).mpr ?_
  refine (along_cons_iff rfl _).mpr ⟨fun _ _ same => by simp at same, ?_⟩
  refine (along_cons_iff rfl _).mpr ⟨fun _ _ same => by contradiction, ?_⟩
  refine (along_cons_iff rfl _).mpr ⟨fun _ _ _ => rfl, ?_⟩
  refine (along_cons_iff rfl _).mpr ⟨fun _ _ same => by contradiction, ?_⟩
  exact (along_cons_iff rfl _).mpr ⟨fun _ _ same => by contradiction, trivial⟩

/-- A put on a new queue waits, and cannot end. -/
theorem put_not_usable :
    ∃ state : State Bool Nat, exec step start [.call false (.put 5)] = some state ∧
      state.queue.needStop = false ∧ state.pending false = some (.put 5) ∧
      step state (.finish false) = none ∧ ¬Usable state := by
  refine ⟨_, rfl, rfl, rfl, rfl, fun usable => ?_⟩
  obtain ⟨next, ended, _⟩ := usable.puts rfl false 5 rfl
  contradiction

/-- Before `stop()` nothing is put, nothing is taken, and the list is empty. -/
structure Untouched (state : State Thread T) : Prop where
  dataList : state.queue.dataList = []
  puts : state.puts = []
  taken : state.taken = []

omit [DecidableEq Thread] in
theorem Untouched.not_ready {state : State Thread T} (untouched : Untouched state)
    (running : state.queue.needStop = false) (call : Call T) : state.queue.ready call = false := by
  cases call <;> simp [ready, notEmpty, running, untouched.dataList]

theorem step_untouched {state next : State Thread T} {act : Action Thread T}
    (untouched : state.queue.needStop = false → Untouched state)
    (stepped : step state act = some next) :
    next.queue.needStop = false → Untouched next := by
  rcases step_cases stepped with
    ⟨thread, call, -, -, rfl⟩ | ⟨thread, call, -, -, canEnd, rfl⟩ | ⟨-, rfl⟩
  · exact fun running => ⟨(untouched running).1, (untouched running).2, (untouched running).3⟩
  · intro running
    have before := (finish_needStop _ call).symm.trans running
    rw [(untouched before).not_ready before call] at canEnd
    contradiction
  · exact fun running => absurd running (by simp [stop])

/-- In every state that is reached without `stop()`, no call can end. -/
theorem run_blocked {acts : List (Action Thread T)} {final : State Thread T}
    (run : exec step start acts = some final) (running : final.queue.needStop = false)
    (thread : Thread) : step final (.finish thread) = none := by
  have untouched := invariant_exec (fun _ _ _ => step_untouched)
    (fun _ => (⟨rfl, rfl, rfl⟩ : Untouched (start : State Thread T))) run
  cases waiting : final.pending thread with
  | none => simp only [step, waiting]
  | some call =>
      rw [step_finish waiting, (untouched running).not_ready running call]
      rfl

end SyncQueueBlocking

end Cncpp.Queue
