import Cncpp.Account.Places
import Cncpp.Task.Core
import Mathlib.Data.List.FinRange

/-!
# Conservation of tasks

Every task that was queued is in exactly one place at every moment: in the queue or
the batch of the thread it was assigned to, in `task_done_`, in the batch of the main
thread, or finished.  The calls of `work()` on one thread follow the order of its
queue, so that no task is worked on twice.
-/

namespace Cncpp.Task

open Cncpp.Account
open Cncpp.Transition

/-- Where a task can be. -/
inductive Place (n : Nat) where
  | taskQueue (worker : Fin n)
  | batch (worker : Fin n)
  | taskDone
  | mainBatch
  /-- `done()` has been called. -/
  | done
  /-- `work()` has returned false. -/
  | failed
  deriving DecidableEq

/-- All places. -/
def places (n : Nat) : List (Place n) :=
  (List.finRange n).map .taskQueue ++ (List.finRange n).map .batch ++
    [.taskDone, .mainBatch, .done, .failed]

theorem places_nodup (n : Nat) : (places n).Nodup := by
  have queues : ((List.finRange n).map Place.taskQueue).Nodup :=
    (List.nodup_finRange n).map fun _ _ same => Place.taskQueue.inj same
  have batches : ((List.finRange n).map Place.batch).Nodup :=
    (List.nodup_finRange n).map fun _ _ same => Place.batch.inj same
  rw [places, List.nodup_append, List.nodup_append]
  refine ⟨⟨queues, batches, by simp⟩, by simp, ?_⟩
  intro place member other last same
  subst same
  rcases List.mem_append.mp member with queue | batch
  · obtain ⟨worker, _, rfl⟩ := List.mem_map.mp queue
    simp at last
  · obtain ⟨worker, _, rfl⟩ := List.mem_map.mp batch
    simp at last

theorem mem_places {n : Nat} (place : Place n) : place ∈ places n := by
  cases place <;> simp [places]

variable {n : Nat} {Submitter Task : Type}

namespace TaskPool

/-- The tasks for which `work()` has returned false. -/
def failures (pool : TaskPool n Submitter Task) : List Task :=
  (pool.workCalls.filter fun call => !call.result).map WorkCall.task

/-- The tasks in a place. -/
def contents (pool : TaskPool n Submitter Task) : Place n → List Task
  | .taskQueue worker => pool.taskQueue worker
  | .batch worker => pool.batch worker
  | .taskDone => pool.taskDone
  | .mainBatch => pool.mainBatch
  | .done => pool.doneCalls
  | .failed => pool.failures

/-- The tasks that were queued. -/
def addedTasks (pool : TaskPool n Submitter Task) : List Task :=
  pool.added.map Prod.snd

/-- The tasks that were assigned to a thread, in the order in which they were queued. -/
def addedTo (pool : TaskPool n Submitter Task) (worker : Fin n) : List Task :=
  (pool.added.filter fun entry => entry.1 = worker).map Prod.snd

/-- The tasks that a thread has called `work()` on, in this order. -/
def workedBy (pool : TaskPool n Submitter Task) (worker : Fin n) : List Task :=
  (pool.workCalls.filter fun call => call.worker = worker).map WorkCall.task

/-- The tasks of the batch that `work()` has not been called on. -/
def unworked (pool : TaskPool n Submitter Task) (worker : Fin n) : List Task :=
  if pool.worked worker then (pool.batch worker).tail else pool.batch worker

/-- `work()` of the task has been called and has returned true. -/
def Succeeded (pool : TaskPool n Submitter Task) (task : Task) : Prop :=
  ∃ call ∈ pool.workCalls, call.task = task ∧ call.result = true

/-- What the pool promises about its tasks. -/
structure Conserves [DecidableEq Task] (pool : TaskPool n Submitter Task) : Prop where
  /-- A queued task is in one place and is there once. -/
  located : ∀ task ∈ pool.addedTasks, ∃ place, (pool.contents place).count task = 1 ∧
    ∀ other, task ∈ pool.contents other → other = place
  /-- A task is assigned once. -/
  assignedOnce : pool.addedTasks.Nodup
  /-- A thread's queue and batch contain tasks that were assigned to it. -/
  assigned : ∀ worker task, task ∈ pool.taskQueue worker ∨ task ∈ pool.batch worker →
    (worker, task) ∈ pool.added
  workedOnce : (pool.workCalls.map WorkCall.task).Nodup
  /-- `work()` is called by the thread that the task was assigned to. -/
  workedByAssigned : ∀ call ∈ pool.workCalls, (call.worker, call.task) ∈ pool.added
  /-- A thread calls `work()` in the order of its queue. -/
  workedInOrder : ∀ worker, pool.workedBy worker <+: pool.addedTo worker
  doneOnce : pool.doneCalls.Nodup
  doneAfterWork : ∀ task ∈ pool.doneCalls, pool.Succeeded task

/-- Submissions: what has been queued was submitted, and what is on its way is not
queued and on its way once. -/
structure Submissions (pool : TaskPool n Submitter Task) : Prop where
  assignedOnce : pool.addedTasks.Nodup
  added : ∀ task ∈ pool.addedTasks, task ∈ pool.submitted
  adding : ∀ submitter chosen, pool.adding submitter = some chosen →
    chosen.2 ∈ pool.submitted ∧ chosen.2 ∉ pool.addedTasks
  addingOnce : ∀ submitter other chosen rival, pool.adding submitter = some chosen →
    pool.adding other = some rival → chosen.2 = rival.2 → submitter = other

/-- Calls: each thread's calls, its batch and its queue are its tasks in order, and what
goes to the main thread has been worked on. -/
structure Calls (pool : TaskPool n Submitter Task) : Prop where
  inOrder : ∀ worker, pool.addedTo worker =
    pool.workedBy worker ++ pool.unworked worker ++ pool.taskQueue worker
  workedOnce : (pool.workCalls.map WorkCall.task).Nodup
  worked : ∀ worker, pool.worked worker = true →
    ∃ task rest, pool.batch worker = task :: rest ∧ pool.Succeeded task ∧
      (worker, task) ∈ pool.added
  passed : ∀ task, task ∈ pool.taskDone ∨ task ∈ pool.mainBatch ∨ task ∈ pool.doneCalls →
    pool.Succeeded task

/-- The places contain what was queued. -/
def Balanced (pool : TaskPool n Submitter Task) : Prop :=
  (total (places n) pool.contents).Perm pool.addedTasks

/-- The invariant of the pool. -/
structure Inv (pool : TaskPool n Submitter Task) : Prop where
  balanced : pool.Balanced
  submissions : pool.Submissions
  calls : pool.Calls

section Balance

variable {pool next : TaskPool n Submitter Task}

/-- Nothing moves. -/
theorem Balanced.congr (balanced : pool.Balanced) (contents : next.contents = pool.contents)
    (added : next.added = pool.added) : next.Balanced := by
  rw [Balanced, contents, addedTasks, added]
  exact balanced

/-- Tasks move from one place to another. -/
theorem Balanced.move (balanced : pool.Balanced) (source target : Place n)
    (tasks : List Task) (added : next.added = pool.added) (apart : target ≠ source)
    (taken : (pool.contents source).Perm (tasks ++ next.contents source))
    (put : (next.contents target).Perm (tasks ++ pool.contents target))
    (others : ∀ other, other ≠ source → other ≠ target →
      next.contents other = pool.contents other) : next.Balanced := by
  rw [Balanced, addedTasks, added]
  exact (total_perm_of_move (places_nodup n) (mem_places source) (mem_places target) apart
    taken put others).trans balanced

theorem Balanced.nodup (balanced : pool.Balanced) (once : pool.addedTasks.Nodup) :
    (total (places n) pool.contents).Nodup :=
  balanced.nodup_iff.mpr once

end Balance

/-! ## Histories -/

theorem mem_addedTo {pool : TaskPool n Submitter Task} {worker : Fin n} {task : Task} :
    task ∈ pool.addedTo worker ↔ (worker, task) ∈ pool.added := by
  simp [addedTo]

theorem mem_workedBy {pool : TaskPool n Submitter Task} {worker : Fin n} {task : Task} :
    task ∈ pool.workedBy worker ↔
      ∃ call ∈ pool.workCalls, call.worker = worker ∧ call.task = task := by
  simp [workedBy, and_assoc]

/-- A task that was queued once was assigned to one thread. -/
theorem assigned_unique {pool : TaskPool n Submitter Task} (once : pool.addedTasks.Nodup)
    {worker other : Fin n} {task : Task} (first : (worker, task) ∈ pool.added)
    (second : (other, task) ∈ pool.added) : worker = other :=
  congrArg Prod.fst (List.inj_on_of_nodup_map once first second rfl)

theorem addedTo_nodup {pool : TaskPool n Submitter Task} (once : pool.addedTasks.Nodup)
    (worker : Fin n) : (pool.addedTo worker).Nodup :=
  once.sublist (List.filter_sublist.map Prod.snd)

/-! ## `addNewTask` -/

section Submit

variable [DecidableEq Submitter] {pool : TaskPool n Submitter Task}

theorem addedTo_addTask (submitter : Submitter) (thread worker : Fin n) (task : Task) :
    (pool.addTask submitter thread task).addedTo worker =
      pool.addedTo worker ++ if thread = worker then [task] else [] := by
  by_cases same : thread = worker <;> simp [addedTo, addTask, same]

theorem addedTasks_addTask (submitter : Submitter) (thread : Fin n) (task : Task) :
    (pool.addTask submitter thread task).addedTasks = pool.addedTasks ++ [task] := by
  simp [addedTasks, addTask]

theorem Submissions.getThread [NeZero n] (sound : pool.Submissions) (submitter : Submitter)
    {task : Task} (fresh : task ∉ pool.submitted) :
    (pool.getThread submitter task).Submissions where
  assignedOnce := sound.assignedOnce
  added other member := List.mem_append_left _ (sound.added other member)
  adding other chosen chose := by
    rcases update_eq_some_iff.mp chose with ⟨_, own⟩ | ⟨_, before⟩
    · cases own
      exact ⟨by simp [TaskPool.getThread], fun member => fresh (sound.added task member)⟩
    · obtain ⟨submitted, waiting⟩ := sound.adding other chosen before
      exact ⟨List.mem_append_left _ submitted, waiting⟩
  addingOnce first second chosen rival firstChose secondChose equal := by
    rcases update_eq_some_iff.mp firstChose with ⟨firstSame, own⟩ | ⟨_, firstBefore⟩
    · rcases update_eq_some_iff.mp secondChose with ⟨secondSame, _⟩ | ⟨_, secondBefore⟩
      · exact firstSame.trans secondSame.symm
      · cases own
        have known := (sound.adding second rival secondBefore).1
        rw [← equal] at known
        exact absurd known fresh
    · rcases update_eq_some_iff.mp secondChose with ⟨_, own⟩ | ⟨_, secondBefore⟩
      · cases own
        have known := (sound.adding first chosen firstBefore).1
        rw [equal] at known
        exact absurd known fresh
      · exact sound.addingOnce first second chosen rival firstBefore secondBefore equal

/-- Who still chooses after `addTask` is another submitter and has chosen before. -/
theorem adding_of_addTask {submitter other : Submitter} {thread : Fin n} {task : Task}
    {chosen : Fin n × Task}
    (chose : (pool.addTask submitter thread task).adding other = some chosen) :
    other ≠ submitter ∧ pool.adding other = some chosen := by
  rcases update_eq_some_iff.mp chose with ⟨_, gone⟩ | before
  · contradiction
  · exact before

theorem Submissions.addTask (sound : pool.Submissions) {submitter : Submitter}
    {thread : Fin n} {task : Task} (chose : pool.adding submitter = some (thread, task)) :
    (pool.addTask submitter thread task).Submissions := by
  obtain ⟨submitted, waiting⟩ := sound.adding submitter _ chose
  constructor
  · rw [addedTasks_addTask]
    exact List.nodup_append.mpr ⟨sound.assignedOnce, List.nodup_singleton task,
      fun other member last lastMember same =>
        waiting (List.mem_singleton.mp lastMember ▸ same ▸ member)⟩
  · intro other member
    rw [addedTasks_addTask, List.mem_append, List.mem_singleton] at member
    rcases member with earlier | rfl
    · exact sound.added other earlier
    · exact submitted
  · intro other chosen otherChose
    obtain ⟨different, before⟩ := adding_of_addTask otherChose
    obtain ⟨known, notYet⟩ := sound.adding other chosen before
    refine ⟨known, ?_⟩
    rw [addedTasks_addTask, List.mem_append, List.mem_singleton]
    rintro (earlier | equal)
    · exact notYet earlier
    · exact different (sound.addingOnce other submitter chosen _ before chose equal)
  · intro first second chosen rival firstChose secondChose equal
    exact sound.addingOnce first second chosen rival (adding_of_addTask firstChose).2
      (adding_of_addTask secondChose).2 equal

/-- Queueing a task adds it to the queue of its thread. -/
theorem Balanced.addTask (balanced : pool.Balanced) (submitter : Submitter) (thread : Fin n)
    (task : Task) : (pool.addTask submitter thread task).Balanced := by
  have grown : (total (places n) (pool.addTask submitter thread task).contents).Perm
      ([task] ++ total (places n) pool.contents) := by
    apply total_perm_of_put (places_nodup n) (mem_places (.taskQueue thread))
    · simp only [contents, TaskPool.addTask, Function.update_self]
      exact List.perm_append_comm
    · intro other different
      cases other with
      | taskQueue worker =>
          have apart : worker ≠ thread := fun same => different (by rw [same])
          simp [contents, TaskPool.addTask, apart]
      | batch worker => rfl
      | taskDone => rfl
      | mainBatch => rfl
      | done => rfl
      | failed => rfl
  rw [Balanced, addedTasks_addTask]
  exact (grown.trans (balanced.append_left [task])).trans List.perm_append_comm

theorem Calls.addTask (calls : pool.Calls) (submitter : Submitter) (thread : Fin n)
    (task : Task) : (pool.addTask submitter thread task).Calls where
  inOrder worker := by
    rw [addedTo_addTask, calls.inOrder worker, List.append_assoc]
    congr 1
    by_cases same : thread = worker
    · subst same
      simp [TaskPool.addTask]
    · simp [TaskPool.addTask, same, Function.update_of_ne (Ne.symm same)]
  workedOnce := calls.workedOnce
  worked worker success := by
    obtain ⟨first, rest, batch, succeeded, assigned⟩ := calls.worked worker success
    exact ⟨first, rest, batch, succeeded, List.mem_append_left _ assigned⟩
  passed := calls.passed

theorem Inv.getThread [NeZero n] (inv : pool.Inv) (submitter : Submitter) {task : Task}
    (fresh : task ∉ pool.submitted) : (pool.getThread submitter task).Inv where
  balanced := inv.balanced
  submissions := inv.submissions.getThread submitter fresh
  calls := ⟨inv.calls.inOrder, inv.calls.workedOnce, inv.calls.worked, inv.calls.passed⟩

theorem Inv.addTask (inv : pool.Inv) {submitter : Submitter} {thread : Fin n} {task : Task}
    (chose : pool.adding submitter = some (thread, task)) :
    (pool.addTask submitter thread task).Inv where
  balanced := inv.balanced.addTask submitter thread task
  submissions := inv.submissions.addTask chose
  calls := inv.calls.addTask submitter thread task

end Submit

theorem Submissions.congr {pool next : TaskPool n Submitter Task} (sound : pool.Submissions)
    (submitted : next.submitted = pool.submitted) (added : next.added = pool.added)
    (adding : next.adding = pool.adding) : next.Submissions := by
  constructor <;> simp only [addedTasks, submitted, added, adding]
  · exact sound.assignedOnce
  · exact sound.added
  · exact sound.adding
  · exact sound.addingOnce

/-! ## `TaskThread::run` -/

section Run

variable {pool : TaskPool n Submitter Task}

theorem unworked_of_worked {worker : Fin n} (success : pool.worked worker = true) :
    pool.unworked worker = (pool.batch worker).tail :=
  if_pos success

theorem unworked_of_not_worked {worker : Fin n} (fresh : pool.worked worker = false) :
    pool.unworked worker = pool.batch worker :=
  if_neg (by simp [fresh])

/-- A batch and its owner's queue contain tasks assigned to the owner. -/
theorem Calls.assigned (calls : pool.Calls) {worker : Fin n} {task : Task}
    (member : task ∈ pool.taskQueue worker ∨ task ∈ pool.batch worker) :
    (worker, task) ∈ pool.added := by
  rw [← mem_addedTo, calls.inOrder worker, List.mem_append, List.mem_append]
  rcases member with queued | held
  · exact Or.inr queued
  · by_cases success : pool.worked worker = true
    · obtain ⟨first, rest, batch, _, assigned⟩ := calls.worked worker success
      rw [batch, List.mem_cons] at held
      rcases held with rfl | later
      · rw [← mem_addedTo, calls.inOrder worker, List.mem_append, List.mem_append] at assigned
        exact assigned
      · rw [unworked_of_worked success, batch]
        exact Or.inl (Or.inr later)
    · rw [unworked_of_not_worked (Bool.not_eq_true _ ▸ success)]
      exact Or.inl (Or.inr held)

theorem Calls.workedByAssigned (calls : pool.Calls) {call : WorkCall n Task}
    (member : call ∈ pool.workCalls) : (call.worker, call.task) ∈ pool.added := by
  rw [← mem_addedTo, calls.inOrder call.worker, List.mem_append, List.mem_append]
  exact Or.inl (Or.inl (mem_workedBy.mpr ⟨call, member, rfl, rfl⟩))

/-- The first task of a batch that has not been worked on has not been worked on by
anybody. -/
theorem Calls.not_called (calls : pool.Calls) (once : pool.addedTasks.Nodup) {worker : Fin n}
    {task : Task} {rest : List Task} (fresh : pool.worked worker = false)
    (batch : pool.batch worker = task :: rest) : task ∉ pool.workCalls.map WorkCall.task := by
  intro called
  obtain ⟨call, member, same⟩ := List.mem_map.mp called
  have mine : (worker, task) ∈ pool.added := calls.assigned (Or.inr (by simp [batch]))
  have theirs : (call.worker, task) ∈ pool.added := same ▸ calls.workedByAssigned member
  have owner : call.worker = worker := assigned_unique once theirs mine
  have worked : task ∈ pool.workedBy worker := mem_workedBy.mpr ⟨call, member, owner, same⟩
  have distinct := addedTo_nodup once worker
  rw [calls.inOrder worker, unworked_of_not_worked fresh, batch, List.append_assoc] at distinct
  exact (List.nodup_append.mp distinct).2.2 task worked task (by simp) rfl

theorem Balanced.take (balanced : pool.Balanced) {worker : Fin n}
    (idle : pool.batch worker = []) : (pool.take worker).Balanced := by
  apply balanced.move (.taskQueue worker) (.batch worker) (pool.taskQueue worker)
  · rfl
  · simp
  · simp [contents, TaskPool.take]
  · simp [contents, TaskPool.take, idle]
  · intro other notSource notTarget
    cases other with
    | taskQueue thread =>
        have apart : thread ≠ worker := fun same => notSource (by rw [same])
        simp [contents, TaskPool.take, apart]
    | batch thread =>
        have apart : thread ≠ worker := fun same => notTarget (by rw [same])
        simp [contents, TaskPool.take, apart]
    | taskDone => rfl
    | mainBatch => rfl
    | done => rfl
    | failed => rfl

theorem Calls.take (calls : pool.Calls) {worker : Fin n} (idle : pool.batch worker = []) :
    (pool.take worker).Calls := by
  have waiting : pool.worked worker = false := by
    by_contra success
    obtain ⟨first, rest, batch, _, _⟩ := calls.worked worker (Bool.not_eq_false _ ▸ success)
    simp [idle] at batch
  constructor
  · intro other
    have before := calls.inOrder other
    by_cases same : other = worker
    · subst same
      rw [unworked_of_not_worked waiting, idle, List.append_nil] at before
      have taken : (pool.take other).unworked other = (pool.take other).batch other :=
        unworked_of_not_worked waiting
      rw [taken]
      simpa [addedTo, workedBy, TaskPool.take] using before
    · simpa [addedTo, workedBy, unworked, TaskPool.take, same] using before
  · exact calls.workedOnce
  · intro other success
    have different : other ≠ worker := by
      rintro rfl
      exact Bool.false_ne_true (waiting.symm.trans success)
    obtain ⟨first, rest, batch, succeeded, assigned⟩ := calls.worked other success
    refine ⟨first, rest, ?_, succeeded, assigned⟩
    simpa [TaskPool.take, different] using batch
  · exact calls.passed

theorem Inv.take (inv : pool.Inv) {worker : Fin n} (idle : pool.batch worker = []) :
    (pool.take worker).Inv where
  balanced := inv.balanced.take idle
  submissions := inv.submissions.congr rfl rfl rfl
  calls := inv.calls.take idle

/-! ### `work()` -/

section Work

variable {worker : Fin n} {task : Task} {rest : List Task}

@[simp]
theorem work_taskQueue (result : Bool) :
    (pool.work worker task rest result).taskQueue = pool.taskQueue := by
  cases result <;> rfl

@[simp]
theorem work_taskDone (result : Bool) :
    (pool.work worker task rest result).taskDone = pool.taskDone := by
  cases result <;> rfl

@[simp]
theorem work_mainBatch (result : Bool) :
    (pool.work worker task rest result).mainBatch = pool.mainBatch := by
  cases result <;> rfl

@[simp]
theorem work_doneCalls (result : Bool) :
    (pool.work worker task rest result).doneCalls = pool.doneCalls := by
  cases result <;> rfl

@[simp]
theorem work_added (result : Bool) :
    (pool.work worker task rest result).added = pool.added := by
  cases result <;> rfl

@[simp]
theorem work_workCalls (result : Bool) :
    (pool.work worker task rest result).workCalls = pool.workCalls ++ [⟨worker, task, result⟩] := by
  cases result <;> rfl

theorem workedBy_work (result : Bool) (other : Fin n) :
    (pool.work worker task rest result).workedBy other =
      pool.workedBy other ++ if worker = other then [task] else [] := by
  by_cases same : worker = other <;> simp [workedBy, same]

theorem failures_work (result : Bool) :
    (pool.work worker task rest result).failures =
      pool.failures ++ if result then [] else [task] := by
  cases result <;> simp [failures]

/-- Whatever `work()` returns, one task less of the batch is unworked. -/
theorem unworked_work (fresh : pool.worked worker = false)
    (batch : pool.batch worker = task :: rest) (result : Bool) (other : Fin n) :
    (pool.work worker task rest result).unworked other =
      if worker = other then rest else pool.unworked other := by
  by_cases same : worker = other
  · subst same
    cases result <;> simp [unworked, TaskPool.work, fresh, batch]
  · have apart := Ne.symm same
    cases result <;> simp [unworked, TaskPool.work, same, apart]

theorem Succeeded.work {other : Task} (succeeded : pool.Succeeded other) (result : Bool) :
    (pool.work worker task rest result).Succeeded other := by
  obtain ⟨call, member, facts⟩ := succeeded
  exact ⟨call, by simp [member], facts⟩

/-- A task leaves the batch when its `work()` returns false, and stays otherwise. -/
theorem Balanced.work (balanced : pool.Balanced) (batch : pool.batch worker = task :: rest)
    (result : Bool) : (pool.work worker task rest result).Balanced := by
  cases result with
  | true =>
      apply balanced.congr
      · funext place
        cases place with
        | failed => simp [contents, failures_work]
        | _ => rfl
      · rfl
  | false =>
      apply balanced.move (.batch worker) .failed [task]
      · rfl
      · simp
      · simp [contents, TaskPool.work, batch]
      · simp only [contents, failures_work, Bool.false_eq_true, if_false]
        exact List.perm_append_comm
      · intro other notSource notTarget
        cases other with
        | batch thread =>
            have apart : thread ≠ worker := fun same => notSource (by rw [same])
            simp [contents, TaskPool.work, apart]
        | failed => exact absurd rfl notTarget
        | _ => rfl

theorem Calls.work (calls : pool.Calls) (once : pool.addedTasks.Nodup)
    (fresh : pool.worked worker = false) (batch : pool.batch worker = task :: rest)
    (result : Bool) : (pool.work worker task rest result).Calls := by
  constructor
  · intro other
    have before := calls.inOrder other
    rw [unworked_work fresh batch, workedBy_work, work_taskQueue, addedTo, work_added]
    by_cases same : worker = other
    · subst same
      rw [unworked_of_not_worked fresh, batch] at before
      simpa [addedTo] using before
    · simpa [addedTo, same] using before
  · rw [work_workCalls, List.map_append, List.nodup_append]
    refine ⟨calls.workedOnce, by simp, fun other member last lastMember same => ?_⟩
    rw [List.map_singleton, List.mem_singleton] at lastMember
    rw [same, lastMember] at member
    exact calls.not_called once fresh batch member
  · intro other success
    by_cases same : other = worker
    · subst same
      cases result with
      | true =>
          refine ⟨task, rest, batch, ⟨⟨other, task, true⟩, by simp, rfl, rfl⟩, ?_⟩
          exact calls.assigned (Or.inr (by simp [batch]))
      | false => exact absurd success (by simp [TaskPool.work, fresh])
    · have earlier : pool.worked other = true := by
        cases result <;> simpa [TaskPool.work, same] using success
      obtain ⟨first, later, held, succeeded, assigned⟩ := calls.worked other earlier
      refine ⟨first, later, ?_, succeeded.work result, by simpa using assigned⟩
      cases result <;> simpa [TaskPool.work, same] using held
  · intro other place
    simp only [work_taskDone, work_mainBatch, work_doneCalls] at place
    exact (calls.passed other place).work result

theorem Inv.work (inv : pool.Inv) (fresh : pool.worked worker = false)
    (batch : pool.batch worker = task :: rest) (result : Bool) :
    (pool.work worker task rest result).Inv where
  balanced := inv.balanced.work batch result
  submissions := by
    apply inv.submissions.congr <;> cases result <;> rfl
  calls := inv.calls.work inv.submissions.assignedOnce fresh batch result

/-! ### `addDone` -/

/-- A task moves from the batch to `task_done_`. -/
theorem Balanced.addDone (balanced : pool.Balanced) (batch : pool.batch worker = task :: rest) :
    (pool.addDone worker task rest).Balanced := by
  apply balanced.move (.batch worker) .taskDone [task]
  · rfl
  · simp
  · simp [contents, TaskPool.addDone, batch]
  · exact List.perm_append_comm
  · intro other notSource notTarget
    cases other with
    | batch thread =>
        have apart : thread ≠ worker := fun same => notSource (by rw [same])
        simp [contents, TaskPool.addDone, apart]
    | taskDone => exact absurd rfl notTarget
    | _ => rfl

theorem Calls.addDone (calls : pool.Calls) (success : pool.worked worker = true)
    (batch : pool.batch worker = task :: rest) : (pool.addDone worker task rest).Calls := by
  have succeeded : pool.Succeeded task := by
    obtain ⟨first, later, held, succeeded, _⟩ := calls.worked worker success
    rw [batch] at held
    rw [(List.cons.inj held).1]
    exact succeeded
  constructor
  · intro other
    have before := calls.inOrder other
    by_cases same : other = worker
    · subst same
      rw [unworked_of_worked success, batch] at before
      simpa [addedTo, workedBy, unworked, TaskPool.addDone] using before
    · simpa [addedTo, workedBy, unworked, TaskPool.addDone, same] using before
  · exact calls.workedOnce
  · intro other succeeds
    by_cases same : other = worker
    · subst same
      simp [TaskPool.addDone] at succeeds
    · simp only [TaskPool.addDone, Function.update_of_ne same] at succeeds
      obtain ⟨first, later, held, rest⟩ := calls.worked other succeeds
      exact ⟨first, later, by simpa [TaskPool.addDone, same] using held, rest⟩
  · intro other place
    rcases place with done | later
    · rcases List.mem_append.mp done with earlier | last
      · exact calls.passed other (Or.inl earlier)
      · rw [List.mem_singleton.mp last]
        exact succeeded
    · exact calls.passed other (Or.inr later)

theorem Inv.addDone (inv : pool.Inv) (success : pool.worked worker = true)
    (batch : pool.batch worker = task :: rest) : (pool.addDone worker task rest).Inv where
  balanced := inv.balanced.addDone batch
  submissions := inv.submissions.congr rfl rfl rfl
  calls := inv.calls.addDone success batch

end Work

end Run

/-! ## `runInMain` -/

section RunInMain

variable {pool : TaskPool n Submitter Task}

/-- The main thread takes `task_done_`. -/
theorem Inv.takeDone (inv : pool.Inv) (idle : pool.mainBatch = []) : pool.takeDone.Inv where
  balanced := by
    apply inv.balanced.move .taskDone .mainBatch pool.taskDone
    · rfl
    · simp
    · simp [contents, TaskPool.takeDone]
    · simp [contents, TaskPool.takeDone, idle]
    · intro other notSource notTarget
      cases other with
      | taskDone => exact absurd rfl notSource
      | mainBatch => exact absurd rfl notTarget
      | _ => rfl
  submissions := inv.submissions.congr rfl rfl rfl
  calls := by
    refine ⟨inv.calls.inOrder, inv.calls.workedOnce, inv.calls.worked, ?_⟩
    intro other place
    apply inv.calls.passed
    rcases place with waiting | taken | called
    · simp [TaskPool.takeDone] at waiting
    · exact Or.inl taken
    · exact Or.inr (Or.inr called)

/-- The main thread calls `done()`. -/
theorem Inv.done (inv : pool.Inv) {task : Task} {rest : List Task}
    (batch : pool.mainBatch = task :: rest) : (pool.done task rest).Inv where
  balanced := by
    apply inv.balanced.move .mainBatch .done [task]
    · rfl
    · simp
    · simp [contents, TaskPool.done, batch]
    · exact List.perm_append_comm
    · intro other notSource notTarget
      cases other with
      | mainBatch => exact absurd rfl notSource
      | done => exact absurd rfl notTarget
      | _ => rfl
  submissions := inv.submissions.congr rfl rfl rfl
  calls := by
    refine ⟨inv.calls.inOrder, inv.calls.workedOnce, inv.calls.worked, ?_⟩
    intro other place
    apply inv.calls.passed
    rcases place with waiting | taken | called
    · exact Or.inl waiting
    · exact Or.inr (Or.inl (batch ▸ List.mem_cons_of_mem task taken))
    · rcases List.mem_append.mp called with earlier | last
      · exact Or.inr (Or.inr earlier)
      · rw [List.mem_singleton.mp last, batch]
        exact Or.inr (Or.inl List.mem_cons_self)

end RunInMain

/-! ## Runs -/

theorem start_inv (curThreadIdx : Nat) :
    (start curThreadIdx : TaskPool n Submitter Task).Inv where
  balanced := by
    have nothing :
        total (places n) (start curThreadIdx : TaskPool n Submitter Task).contents = [] :=
      List.flatMap_eq_nil_iff.mpr fun place _ => by cases place <;> rfl
    rw [Balanced, nothing]
    rfl
  submissions := by
    constructor <;> simp [addedTasks, start]
  calls := by
    constructor <;> simp [addedTo, workedBy, unworked, start]

/-- Every step keeps the invariant. -/
theorem step_inv [NeZero n] [DecidableEq Submitter] [DecidableEq Task]
    ⦃pool : TaskPool n Submitter Task⦄ ⦃act : Action n Submitter Task⦄
    ⦃next : TaskPool n Submitter Task⦄ (inv : pool.Inv)
    (stepped : step pool act = some next) : next.Inv := by
  cases act with
  | getThread submitter task =>
      simp only [step, Option.ite_none_right_eq_some, Option.some.injEq] at stepped
      obtain ⟨⟨_, fresh⟩, rfl⟩ := stepped
      exact inv.getThread submitter fresh
  | put submitter =>
      simp only [step, Option.map_eq_some_iff] at stepped
      obtain ⟨⟨thread, task⟩, chose, rfl⟩ := stepped
      exact inv.addTask chose
  | take worker =>
      simp only [step, Option.ite_none_right_eq_some, Option.some.injEq] at stepped
      obtain ⟨idle, rfl⟩ := stepped
      exact inv.take idle
  | work worker result =>
      simp only [step] at stepped
      split at stepped
      case h_1 task rest fresh batch =>
        cases stepped
        exact inv.work fresh batch result
      case h_2 => cases stepped
  | addDone worker =>
      simp only [step] at stepped
      split at stepped
      case h_1 task rest success batch =>
        cases stepped
        exact inv.addDone success batch
      case h_2 => cases stepped
  | takeDone =>
      simp only [step, Option.ite_none_right_eq_some, Option.some.injEq] at stepped
      obtain ⟨idle, rfl⟩ := stepped
      exact inv.takeDone idle
  | done =>
      simp only [step] at stepped
      split at stepped
      case h_1 task rest batch =>
        cases stepped
        exact inv.done batch
      case h_2 => cases stepped

/-- The invariant says what the pool promises. -/
theorem Inv.conserves [DecidableEq Task] {pool : TaskPool n Submitter Task} (inv : pool.Inv) :
    pool.Conserves := by
  have once := inv.submissions.assignedOnce
  have nodup := inv.balanced.nodup once
  constructor
  · intro task member
    obtain ⟨place, _, single, only⟩ := located nodup (inv.balanced.mem_iff.mpr member)
    exact ⟨place, single, fun other => only other (mem_places other)⟩
  · exact once
  · intro worker task member
    exact inv.calls.assigned member
  · exact inv.calls.workedOnce
  · intro call member
    exact inv.calls.workedByAssigned member
  · intro worker
    rw [inv.calls.inOrder worker, List.append_assoc]
    exact List.prefix_append _ _
  · exact (List.nodup_flatMap.mp nodup).1 .done (mem_places .done)
  · intro task member
    exact inv.calls.passed task (Or.inr (Or.inr member))

/-- At every moment of every schedule, every queued task is in exactly one place; it is
worked on at most once, by its thread and in the order of the queue, and finished at
most once, after a success. -/
theorem run_conserves [NeZero n] [DecidableEq Submitter] [DecidableEq Task]
    (curThreadIdx : Nat) (schedule : List (Action n Submitter Task))
    {pool : TaskPool n Submitter Task}
    (run : exec step (start curThreadIdx) schedule = some pool) : pool.Conserves :=
  (invariant_exec step_inv (start_inv curThreadIdx) run).conserves

/-- Two threads and two submitters: the index of the next thread wraps around, one task
fails, one is finished, and the thread with index 0 has not started. -/
def twoThreads : List (Action 2 Bool Nat) :=
  [.getThread true 7, .getThread false 8, .put false, .put true, .getThread true 9, .take 1,
    .put true, .work 1 false, .take 1, .work 1 true, .addDone 1, .takeDone, .done]

/-- Conservation at this run. -/
theorem twoThreads_conserve :
    ∃ pool, exec step (start 4294967295) twoThreads = some pool ∧ pool.taskQueue 0 = [8] ∧
      pool.failures = [7] ∧ pool.doneCalls = [9] ∧ pool.Conserves := by
  have run : ∃ pool, exec step (start 4294967295) twoThreads = some pool ∧
      pool.taskQueue 0 = [8] ∧ pool.failures = [7] ∧ pool.doneCalls = [9] :=
    ⟨_, rfl, rfl, rfl, rfl⟩
  obtain ⟨pool, returned, queue, failures, finished⟩ := run
  exact ⟨pool, returned, queue, failures, finished, run_conserves 4294967295 twoThreads returned⟩

end TaskPool

end Cncpp.Task
