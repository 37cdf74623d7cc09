import Cncpp.Machine.Word
import Cncpp.Transition.Run
import Mathlib.Logic.Function.Basic

/-!
# The task pool

`TaskPool` hands each new task to one of its `TaskThread`s.  A thread takes its
whole queue as a local batch, calls `work()` on the tasks of the batch, and passes
those that succeed to `task_done_`, from which the main thread takes batches and
calls `done()`.

The pool has been initialised with `n` threads, and nothing stops its queues.
Tasks are not null, and a task object is submitted once.  Each section under a
mutex, each call of `work()` and `done()`, and the increment of `cur_thread_idx_`
is a step; the steps of all threads interleave freely.
-/

namespace Cncpp.Task

open Cncpp.Machine
open Cncpp.Transition

/-- A call of `work()` with its result. -/
structure WorkCall (n : Nat) (Task : Type) where
  worker : Fin n
  task : Task
  result : Bool

/-- The pool, its threads, and the history of the run. -/
structure TaskPool (n : Nat) (Submitter Task : Type) where
  /-- `cur_thread_idx_`, a `uint32_t` without an initialiser. -/
  curThreadIdx : Nat
  /-- `task_queue_` of every thread. -/
  taskQueue : Fin n → List Task
  /-- `task_list_` of every running `run()`, from the task it has reached. -/
  batch : Fin n → List Task
  /-- `work()` has returned true for the first task of the batch. -/
  worked : Fin n → Bool
  taskDone : List Task
  /-- `task_list_` of a running `runInMain()`, from the task it has reached. -/
  mainBatch : List Task
  /-- The thread that `getThread` has chosen in an unfinished `addNewTask`. -/
  adding : Submitter → Option (Fin n × Task)
  /-- History: the tasks passed to `addNewTask`. -/
  submitted : List Task
  /-- History: the tasks that were queued, with their threads.  `addNewTask` returns true
  for these and for no others. -/
  added : List (Fin n × Task)
  /-- History: the calls of `work()`. -/
  workCalls : List (WorkCall n Task)
  /-- History: the calls of `done()`. -/
  doneCalls : List Task

/-- The steps of submitters, worker threads and the main thread. -/
inductive Action (n : Nat) (Submitter Task : Type) where
  | getThread (submitter : Submitter) (task : Task)
  | put (submitter : Submitter)
  | take (worker : Fin n)
  | work (worker : Fin n) (result : Bool)
  | addDone (worker : Fin n)
  | takeDone
  | done

variable {n : Nat} {Submitter Task : Type}

/-- An initialised pool.  The index of the next thread is not initialised. -/
def start (curThreadIdx : Nat) : TaskPool n Submitter Task where
  curThreadIdx := uint32 curThreadIdx
  taskQueue := fun _ => []
  batch := fun _ => []
  worked := fun _ => false
  taskDone := []
  mainBatch := []
  adding := fun _ => none
  submitted := []
  added := []
  workCalls := []
  doneCalls := []

namespace TaskPool

/-- `getThread`, for a given submitter and task. -/
def getThread [NeZero n] [DecidableEq Submitter] (pool : TaskPool n Submitter Task)
    (submitter : Submitter) (task : Task) : TaskPool n Submitter Task :=
  { pool with
    curThreadIdx := uint32 (pool.curThreadIdx + 1)
    adding := Function.update pool.adding submitter
      (some (Fin.ofNat n pool.curThreadIdx, task))
    submitted := pool.submitted ++ [task] }

/-- `addTask` of the chosen thread.  What is left of `addNewTask` is to return true. -/
def addTask [DecidableEq Submitter] (pool : TaskPool n Submitter Task) (submitter : Submitter)
    (thread : Fin n) (task : Task) : TaskPool n Submitter Task :=
  { pool with
    taskQueue := Function.update pool.taskQueue thread (pool.taskQueue thread ++ [task])
    adding := Function.update pool.adding submitter none
    added := pool.added ++ [(thread, task)] }

/-- `task_queue_.take(task_list_)` at the start of `run()`. -/
def take (pool : TaskPool n Submitter Task) (worker : Fin n) : TaskPool n Submitter Task :=
  { pool with
    batch := Function.update pool.batch worker (pool.taskQueue worker)
    taskQueue := Function.update pool.taskQueue worker [] }

/-- `work()` on the first task of the batch.  A task whose `work()` returns false is
finished. -/
def work (pool : TaskPool n Submitter Task) (worker : Fin n) (task : Task) (rest : List Task)
    (result : Bool) : TaskPool n Submitter Task :=
  let called : TaskPool n Submitter Task :=
    { pool with workCalls := pool.workCalls ++ [⟨worker, task, result⟩] }
  if result then { called with worked := Function.update pool.worked worker true }
  else { called with batch := Function.update pool.batch worker rest }

/-- `addDone`, after which the loop of `run()` goes on. -/
def addDone (pool : TaskPool n Submitter Task) (worker : Fin n) (task : Task)
    (rest : List Task) : TaskPool n Submitter Task :=
  { pool with
    taskDone := pool.taskDone ++ [task]
    batch := Function.update pool.batch worker rest
    worked := Function.update pool.worked worker false }

/-- `task_done_.take(task_list_)` at the start of `runInMain()`. -/
def takeDone (pool : TaskPool n Submitter Task) : TaskPool n Submitter Task :=
  { pool with
    mainBatch := pool.taskDone
    taskDone := [] }

/-- `done()` on the first task of the main thread's batch. -/
def done (pool : TaskPool n Submitter Task) (task : Task) (rest : List Task) :
    TaskPool n Submitter Task :=
  { pool with
    mainBatch := rest
    doneCalls := pool.doneCalls ++ [task] }

end TaskPool

/-- One step of one thread. -/
def step [NeZero n] [DecidableEq Submitter] [DecidableEq Task] :
    Step (TaskPool n Submitter Task) (Action n Submitter Task)
  | pool, .getThread submitter task =>
      if pool.adding submitter = none ∧ task ∉ pool.submitted then
        some (pool.getThread submitter task)
      else none
  | pool, .put submitter =>
      (pool.adding submitter).map fun chosen => pool.addTask submitter chosen.1 chosen.2
  | pool, .take worker =>
      if pool.batch worker = [] then some (pool.take worker) else none
  | pool, .work worker result =>
      match pool.worked worker, pool.batch worker with
      | false, task :: rest => some (pool.work worker task rest result)
      | _, _ => none
  | pool, .addDone worker =>
      match pool.worked worker, pool.batch worker with
      | true, task :: rest => some (pool.addDone worker task rest)
      | _, _ => none
  | pool, .takeDone =>
      if pool.mainBatch = [] then some pool.takeDone else none
  | pool, .done =>
      match pool.mainBatch with
      | task :: rest => some (pool.done task rest)
      | [] => none

end Cncpp.Task
