import Cncpp.Task.Conservation
import Cncpp.Transition.Forever

/-!
# Every task is finished

The threads of the pool run for ever: `thrdloop` calls `run()` again and again, the main
thread calls `runInMain()` again and again, and no call of `work()`, `done()` or `addNewTask`
gets stuck.  Then every submitted task is worked on in the end, and `done()` is called if
`work()` has returned true, however many tasks are submitted in the meantime.

A task waits for the batch in front of it.  What is left of a batch decreases with every step
of its thread, and nothing is added to a batch before it is empty.
-/

namespace Cncpp.Task

open Cncpp.Transition

variable {n : Nat} {Submitter Task : Type}

/-- The steps inside of the loop of `run()` of a thread. -/
def Action.InLoop (worker : Fin n) : Action n Submitter Task → Prop
  | .work other _ | .addDone other => other = worker
  | _ => False

namespace TaskPool

/-- `work()` of the task has been called. -/
def Called (pool : TaskPool n Submitter Task) (task : Task) : Prop :=
  ∃ call ∈ pool.workCalls, call.task = task

/-- `work()` of the task has returned false, or `done()` has been called after it has
returned true. -/
def Finished (pool : TaskPool n Submitter Task) (task : Task) : Prop :=
  ∃ call ∈ pool.workCalls, call.task = task ∧ (call.result = false ∨ task ∈ pool.doneCalls)

/-- Every thread goes on where it is. -/
structure Fair (states : Nat → TaskPool n Submitter Task)
    (acts : Nat → Action n Submitter Task) : Prop where
  puts : ∀ submitter, Served states acts (fun pool => pool.adding submitter ≠ none)
    (· = .put submitter)
  /-- A thread that is not inside of `run()` calls it. -/
  takes : ∀ worker, Served states acts (fun pool => pool.batch worker = []) (· = .take worker)
  works : ∀ worker, Served states acts
    (fun pool => pool.worked worker = false ∧ pool.batch worker ≠ [])
    (fun act => ∃ result, act = .work worker result)
  addsDone : ∀ worker, Served states acts (fun pool => pool.worked worker = true)
    (· = .addDone worker)
  /-- The main thread calls `runInMain()` when it is not inside of it. -/
  takesDone : Served states acts (fun pool => pool.mainBatch = []) (· = .takeDone)
  callsDone : Served states acts (fun pool => pool.mainBatch ≠ []) (· = .done)

/-- What a step does, with what it finds. -/
inductive Moves [NeZero n] [DecidableEq Submitter] (pool : TaskPool n Submitter Task) :
    Action n Submitter Task → TaskPool n Submitter Task → Prop where
  | getThread (submitter : Submitter) (task : Task) (idle : pool.adding submitter = none) :
      Moves pool (.getThread submitter task) (pool.getThread submitter task)
  | put (submitter : Submitter) (thread : Fin n) (task : Task)
      (chose : pool.adding submitter = some (thread, task)) :
      Moves pool (.put submitter) (pool.addTask submitter thread task)
  | take (worker : Fin n) (idle : pool.batch worker = []) :
      Moves pool (.take worker) (pool.take worker)
  | work (worker : Fin n) (task : Task) (rest : List Task) (result : Bool)
      (fresh : pool.worked worker = false) (batch : pool.batch worker = task :: rest) :
      Moves pool (.work worker result) (pool.work worker task rest result)
  | addDone (worker : Fin n) (task : Task) (rest : List Task)
      (success : pool.worked worker = true) (batch : pool.batch worker = task :: rest) :
      Moves pool (.addDone worker) (pool.addDone worker task rest)
  | takeDone (idle : pool.mainBatch = []) : Moves pool .takeDone pool.takeDone
  | done (task : Task) (rest : List Task) (batch : pool.mainBatch = task :: rest) :
      Moves pool .done (pool.done task rest)

variable [NeZero n] [DecidableEq Submitter]

theorem step_moves [DecidableEq Task] {pool next : TaskPool n Submitter Task}
    {act : Action n Submitter Task} (stepped : step pool act = some next) :
    Moves pool act next := by
  cases act with
  | getThread submitter task =>
      simp only [step, Option.ite_none_right_eq_some, Option.some.injEq] at stepped
      obtain ⟨⟨idle, _⟩, rfl⟩ := stepped
      exact Moves.getThread submitter task idle
  | put submitter =>
      simp only [step, Option.map_eq_some_iff] at stepped
      obtain ⟨⟨thread, task⟩, chose, rfl⟩ := stepped
      exact Moves.put submitter thread task chose
  | take worker =>
      simp only [step, Option.ite_none_right_eq_some, Option.some.injEq] at stepped
      obtain ⟨idle, rfl⟩ := stepped
      exact Moves.take worker idle
  | work worker result =>
      simp only [step] at stepped
      split at stepped
      case h_1 task rest fresh batch =>
        cases stepped
        exact Moves.work worker task rest result fresh batch
      case h_2 => cases stepped
  | addDone worker =>
      simp only [step] at stepped
      split at stepped
      case h_1 task rest success batch =>
        cases stepped
        exact Moves.addDone worker task rest success batch
      case h_2 => cases stepped
  | takeDone =>
      simp only [step, Option.ite_none_right_eq_some, Option.some.injEq] at stepped
      obtain ⟨idle, rfl⟩ := stepped
      exact Moves.takeDone idle
  | done =>
      simp only [step] at stepped
      split at stepped
      case h_1 task rest batch =>
        cases stepped
        exact Moves.done task rest batch
      case h_2 => cases stepped

/-! ## The batch of a thread -/

/-- The steps that a thread has in front of it until its batch is empty, at most. -/
def remaining (pool : TaskPool n Submitter Task) (worker : Fin n) : Nat :=
  2 * (pool.batch worker).length - (pool.worked worker).toNat

section Steps

variable {pool next : TaskPool n Submitter Task} {act : Action n Submitter Task}

/-- Only a thread itself changes where it is. -/
theorem Moves.other (moves : Moves pool act next) {worker : Fin n}
    (outside : ¬act.InLoop worker) (untaken : act ≠ .take worker) :
    next.batch worker = pool.batch worker ∧ next.worked worker = pool.worked worker := by
  cases moves with
  | getThread | put | takeDone | done => exact ⟨rfl, rfl⟩
  | take other idle =>
      have apart : worker ≠ other := fun same => untaken (by rw [same])
      exact ⟨Function.update_of_ne apart _ _, rfl⟩
  | work other task rest result fresh batch =>
      have apart : worker ≠ other := fun same => outside same.symm
      cases result with
      | true => exact ⟨rfl, Function.update_of_ne apart _ _⟩
      | false => exact ⟨Function.update_of_ne apart _ _, rfl⟩
  | addDone other task rest success batch =>
      have apart : worker ≠ other := fun same => outside same.symm
      exact ⟨Function.update_of_ne apart _ _, Function.update_of_ne apart _ _⟩

/-- A step of the loop leaves less of the batch. -/
theorem Moves.remaining_lt (moves : Moves pool act next) {worker : Fin n}
    (inLoop : act.InLoop worker) : next.remaining worker < pool.remaining worker := by
  cases moves with
  | getThread | put | take | takeDone | done => exact inLoop.elim
  | work other task rest result fresh batch =>
      obtain rfl : other = worker := inLoop
      rw [remaining, remaining, fresh, batch]
      cases result with
      | true =>
          simp only [TaskPool.work, batch, if_true, Function.update_self, List.length_cons,
            Bool.toNat_true, Bool.toNat_false]
          omega
      | false => simp [TaskPool.work, fresh]
  | addDone other task rest success batch =>
      obtain rfl : other = worker := inLoop
      rw [remaining, remaining, success, batch]
      simp only [TaskPool.addDone, Function.update_self, List.length_cons, Bool.toNat_true,
        Bool.toNat_false]
      omega

/-- Nothing is added to a batch. -/
theorem Moves.remaining_le (moves : Moves pool act next) {worker : Fin n}
    (busy : pool.batch worker ≠ []) : next.remaining worker ≤ pool.remaining worker := by
  by_cases inLoop : act.InLoop worker
  · exact Nat.le_of_lt (moves.remaining_lt inLoop)
  · have untaken : act ≠ .take worker := by
      rintro rfl
      cases moves with
      | take _ idle => exact busy idle
    obtain ⟨batch, worked⟩ := moves.other inLoop untaken
    rw [remaining, remaining, batch, worked]

/-- An empty batch stays empty until the thread takes its queue. -/
theorem Moves.idle (moves : Moves pool act next) {worker : Fin n}
    (idle : pool.batch worker = []) (untaken : act ≠ .take worker) : next.batch worker = [] := by
  have outside : ¬act.InLoop worker := fun inLoop => by
    have less := moves.remaining_lt inLoop
    simp [remaining, idle] at less
  exact (moves.other outside untaken).1.trans idle

/-! ## The way of a task -/

/-- A submitter keeps its choice until it puts the task into the queue. -/
theorem Moves.adding (moves : Moves pool act next) {submitter : Submitter} {thread : Fin n}
    {task : Task} (chose : pool.adding submitter = some (thread, task)) :
    next.adding submitter = some (thread, task) ∧ act ≠ .put submitter ∨
      task ∈ next.taskQueue thread := by
  cases moves with
  | take | addDone | takeDone | done => exact Or.inl ⟨chose, by simp⟩
  | work _ _ _ result =>
      refine Or.inl ⟨?_, by simp⟩
      cases result <;> exact chose
  | getThread other own idle =>
      have apart : submitter ≠ other := by
        rintro rfl
        rw [chose] at idle
        contradiction
      refine Or.inl ⟨?_, by simp⟩
      simp only [TaskPool.getThread, Function.update_of_ne apart]
      exact chose
  | put other chosen own chosenBy =>
      by_cases same : submitter = other
      · subst same
        rw [chose] at chosenBy
        cases chosenBy
        refine Or.inr ?_
        simp only [addTask, Function.update_self]
        exact List.mem_append_right _ (List.mem_singleton_self task)
      · refine Or.inl ⟨?_, fun equal => same (Action.put.inj equal).symm⟩
        simp only [addTask, Function.update_of_ne same]
        exact chose

/-- A task stays in a queue until its thread takes the queue. -/
theorem Moves.queued (moves : Moves pool act next) (inv : pool.Inv) {worker : Fin n} {task : Task}
    (queued : task ∈ pool.taskQueue worker) :
    task ∈ next.taskQueue worker ∧ act ≠ .take worker ∨ task ∈ next.unworked worker := by
  cases moves with
  | getThread | addDone | takeDone | done => exact Or.inl ⟨queued, by simp⟩
  | put submitter thread other chose =>
      refine Or.inl ⟨?_, by simp⟩
      by_cases same : worker = thread
      · subst same
        simp only [addTask, Function.update_self]
        exact List.mem_append_left _ queued
      · simp only [addTask, Function.update_of_ne same]
        exact queued
  | take other idle =>
      by_cases same : worker = other
      · subst same
        have fresh : pool.worked worker = false := by
          by_contra success
          obtain ⟨_, _, batch, _⟩ := inv.calls.worked worker (Bool.not_eq_false _ ▸ success)
          rw [idle] at batch
          contradiction
        refine Or.inr ?_
        rw [unworked_of_not_worked (by exact fresh)]
        simp only [TaskPool.take, Function.update_self]
        exact queued
      · refine Or.inl ⟨?_, fun equal => same (Action.take.inj equal).symm⟩
        simp only [TaskPool.take, Function.update_of_ne same]
        exact queued
  | work other first rest result fresh batch =>
      rw [work_taskQueue]
      exact Or.inl ⟨queued, by simp⟩

/-- A task stays unworked until `work()` is called. -/
theorem Moves.unworked (moves : Moves pool act next) {worker : Fin n} {task : Task}
    (waiting : task ∈ pool.unworked worker) : task ∈ next.unworked worker ∨ next.Called task := by
  by_cases outside : ¬act.InLoop worker ∧ act ≠ .take worker
  · obtain ⟨batch, worked⟩ := moves.other outside.1 outside.2
    rw [TaskPool.unworked, batch, worked]
    exact Or.inl waiting
  · cases moves with
    | getThread | put | takeDone | done => exact absurd ⟨id, by simp⟩ outside
    | take other idle =>
        by_cases same : other = worker
        · subst same
          rw [TaskPool.unworked, idle] at waiting
          simp at waiting
        · exact absurd ⟨id, fun equal => same (Action.take.inj equal)⟩ outside
    | work other first rest result fresh batch =>
        rw [unworked_work fresh batch]
        split
        case isTrue same =>
          subst same
          rw [unworked_of_not_worked fresh, batch] at waiting
          rcases List.mem_cons.mp waiting with rfl | later
          · exact Or.inr ⟨⟨other, task, result⟩, by simp, rfl⟩
          · exact Or.inl later
        case isFalse => exact Or.inl waiting
    | addDone other first rest success batch =>
        by_cases same : other = worker
        · subst same
          rw [unworked_of_worked success, batch, List.tail_cons] at waiting
          refine Or.inl ?_
          rw [unworked_of_not_worked (Function.update_self _ _ _)]
          simp only [TaskPool.addDone, Function.update_self]
          exact waiting
        · exact absurd ⟨same, by simp⟩ outside

/-- A task whose `work()` has returned true is on its way to `done()`. -/
def Passing (pool : TaskPool n Submitter Task) (task : Task) : Prop :=
  (∃ worker rest, pool.worked worker = true ∧ pool.batch worker = task :: rest) ∨
    task ∈ pool.taskDone ∨ task ∈ pool.mainBatch ∨ task ∈ pool.doneCalls

/-- `work()` has returned true for the first task of a batch, which stays until `addDone`. -/
theorem Moves.worked (moves : Moves pool act next) {worker : Fin n}
    {task : Task} {rest : List Task} (success : pool.worked worker = true)
    (batch : pool.batch worker = task :: rest) :
    (next.worked worker = true ∧ next.batch worker = task :: rest) ∧ act ≠ .addDone worker ∨
      task ∈ next.taskDone := by
  by_cases inLoop : act.InLoop worker
  · cases moves with
    | getThread | put | take | takeDone | done => exact inLoop.elim
    | work other first others result fresh _ =>
        obtain rfl : other = worker := inLoop
        rw [success] at fresh
        contradiction
    | addDone other first others _ held =>
        obtain rfl : other = worker := inLoop
        rw [batch] at held
        cases held
        exact Or.inr (List.mem_append_right _ (List.mem_singleton_self task))
  · have untaken : act ≠ .take worker := by
      rintro rfl
      cases moves with
      | take _ idle =>
          rw [batch] at idle
          contradiction
    obtain ⟨sameBatch, sameWorked⟩ := moves.other inLoop untaken
    refine Or.inl ⟨⟨sameWorked.trans success, sameBatch.trans batch⟩, ?_⟩
    rintro rfl
    exact inLoop rfl

theorem Moves.mainIdle (moves : Moves pool act next) (idle : pool.mainBatch = [])
    (untaken : act ≠ .takeDone) : next.mainBatch = [] := by
  cases moves with
  | getThread | put | take | addDone => exact idle
  | work =>
      rw [work_mainBatch]
      exact idle
  | takeDone => exact absurd rfl untaken
  | done first rest batch =>
      rw [idle] at batch
      contradiction

/-- A task stays in `task_done_` until the main thread takes it. -/
theorem Moves.taskDone (moves : Moves pool act next) {task : Task}
    (passed : task ∈ pool.taskDone) :
    task ∈ next.taskDone ∧ act ≠ .takeDone ∨ task ∈ next.mainBatch := by
  cases moves with
  | getThread | put | take | done => exact Or.inl ⟨passed, by simp⟩
  | work =>
      rw [work_taskDone]
      exact Or.inl ⟨passed, by simp⟩
  | addDone => exact Or.inl ⟨List.mem_append_left _ passed, by simp⟩
  | takeDone => exact Or.inr passed

/-- A task stays in the batch of the main thread until `done()` is called. -/
theorem Moves.mainBatch (moves : Moves pool act next) {task : Task}
    (held : task ∈ pool.mainBatch) : task ∈ next.mainBatch ∨ task ∈ next.doneCalls := by
  cases moves with
  | getThread | put | take | addDone => exact Or.inl held
  | work =>
      rw [work_mainBatch]
      exact Or.inl held
  | takeDone idle =>
      rw [idle] at held
      contradiction
  | done first rest batch =>
      rw [batch] at held
      rcases List.mem_cons.mp held with rfl | later
      · exact Or.inr (List.mem_append_right _ (List.mem_singleton_self task))
      · exact Or.inl later

/-- A call of `done()` is not undone. -/
theorem Moves.doneCalls (moves : Moves pool act next) {task : Task}
    (finished : task ∈ pool.doneCalls) : task ∈ next.doneCalls := by
  cases moves with
  | getThread | put | take | addDone | takeDone => exact finished
  | work =>
      rw [work_doneCalls]
      exact finished
  | done => exact List.mem_append_left _ finished

theorem Moves.workCalls (moves : Moves pool act next) : pool.workCalls ⊆ next.workCalls := by
  cases moves with
  | getThread | put | take | addDone | takeDone | done => exact List.Subset.refl _
  | work =>
      rw [work_workCalls]
      exact List.subset_append_left _ _

end Steps

/-! ## Where the threads are idle -/

variable [DecidableEq Task] {states : Nat → TaskPool n Submitter Task}
  {acts : Nat → Action n Submitter Task}

/-- What every step keeps until `Q` holds lasts until the batch of a thread is empty. -/
theorem leadsTo_idle (run : Forever step states acts) (fair : Fair states acts)
    (worker : Fin n) {P Q : TaskPool n Submitter Task → Prop}
    (keeps : ∀ ⦃pool act next⦄, P pool → step pool act = some next → P next ∨ Q next) :
    LeadsTo states P (fun pool => Q pool ∨ P pool ∧ pool.batch worker = []) := by
  refine @leadsTo_of_draining _ _ step states acts _ P Q (fun act => act.InLoop worker) run
    (fun pool => pool.remaining worker) ?_
    (fun _ _ _ busy stepped => (step_moves stepped).remaining_le busy)
    (fun _ _ _ inLoop stepped => (step_moves stepped).remaining_lt inLoop) keeps
  intro m busy
  cases worked : (states m).worked worker with
  | true =>
      obtain ⟨later, beyond, adds⟩ := fair.addsDone worker m worked
      exact ⟨later, beyond, by rw [adds]; rfl⟩
  | false =>
      obtain ⟨later, beyond, result, works⟩ := fair.works worker m ⟨worked, busy⟩
      exact ⟨later, beyond, by rw [works]; rfl⟩

/-- The same for the batch of the main thread. -/
theorem leadsTo_mainIdle (run : Forever step states acts) (fair : Fair states acts)
    {P Q : TaskPool n Submitter Task → Prop}
    (keeps : ∀ ⦃pool act next⦄, P pool → step pool act = some next → P next ∨ Q next) :
    LeadsTo states P (fun pool => Q pool ∨ P pool ∧ pool.mainBatch = []) := by
  refine leadsTo_of_draining run (fun pool => pool.mainBatch.length) fair.callsDone ?_ ?_ keeps
  · intro pool act next busy stepped
    cases step_moves stepped with
    | getThread | put | take | addDone => exact Nat.le_refl _
    | work => rw [work_mainBatch]
    | takeDone idle => exact absurd idle busy
    | done first rest batch =>
        rw [batch]
        exact Nat.le_succ _
  · rintro pool _ next rfl stepped
    cases step_moves stepped with
    | done first rest batch =>
        rw [batch]
        exact Nat.lt_succ_self _

/-! ## From one place to the next -/

theorem adding_leadsTo_queued (run : Forever step states acts) (fair : Fair states acts)
    (submitter : Submitter) (thread : Fin n) (task : Task) :
    LeadsTo states (fun pool => pool.adding submitter = some (thread, task))
      (fun pool => task ∈ pool.taskQueue thread) := by
  refine @leadsTo_of_served_or _ _ step states acts _ _ (· = .put submitter) run ?_ ?_ ?_
  · exact fun m chose => fair.puts submitter m (by simp [chose])
  · exact fun _ _ _ chose stepped => ((step_moves stepped).adding chose).imp_left And.left
  · intro pool act next chose put stepped
    exact ((step_moves stepped).adding chose).resolve_left fun still => still.2 put

theorem queued_leadsTo_unworked (run : Forever step states acts) (fair : Fair states acts)
    (worker : Fin n) (task : Task) :
    LeadsTo states (fun pool => pool.Inv ∧ task ∈ pool.taskQueue worker)
      (fun pool => task ∈ pool.unworked worker) := by
  have idle : LeadsTo states
      (fun pool => (pool.Inv ∧ task ∈ pool.taskQueue worker) ∧ pool.batch worker = [])
      (fun pool => task ∈ pool.unworked worker) := by
    refine @leadsTo_of_served_or _ _ step states acts _ _ (· = .take worker) run ?_ ?_ ?_
    · exact fun m holds => fair.takes worker m holds.2
    · rintro pool act next ⟨⟨inv, queued⟩, idle⟩ stepped
      have moves := step_moves stepped
      exact (moves.queued inv queued).imp_left fun still =>
        ⟨⟨step_inv inv stepped, still.1⟩, moves.idle idle still.2⟩
    · rintro pool act next ⟨⟨inv, queued⟩, idle⟩ taken stepped
      exact ((step_moves stepped).queued inv queued).resolve_left fun still => still.2 taken
  refine (leadsTo_idle run fair worker ?_).trans
    (LeadsTo.or (LeadsTo.of_imp fun _ unworked => unworked) idle)
  rintro pool act next ⟨inv, queued⟩ stepped
  exact ((step_moves stepped).queued inv queued).imp_left fun still =>
    ⟨step_inv inv stepped, still.1⟩

theorem unworked_leadsTo_called (run : Forever step states acts) (fair : Fair states acts)
    (worker : Fin n) (task : Task) :
    LeadsTo states (fun pool => task ∈ pool.unworked worker) (fun pool => pool.Called task) := by
  intro m waiting
  obtain ⟨later, after, called | ⟨still, idle⟩⟩ := leadsTo_idle run fair worker
    (fun _ _ _ waiting stepped => (step_moves stepped).unworked waiting) m waiting
  · exact ⟨later, after, called⟩
  · rw [TaskPool.unworked, idle] at still
    simp at still

theorem passing_leadsTo_done (run : Forever step states acts) (fair : Fair states acts)
    (task : Task) :
    LeadsTo states (fun pool => pool.Passing task) (fun pool => task ∈ pool.doneCalls) := by
  have held : LeadsTo states (fun pool => task ∈ pool.mainBatch)
      (fun pool => task ∈ pool.doneCalls) := by
    intro m held
    obtain ⟨later, after, finished | ⟨still, idle⟩⟩ := leadsTo_mainIdle run fair
      (fun _ _ _ held stepped => (step_moves stepped).mainBatch held) m held
    · exact ⟨later, after, finished⟩
    · rw [idle] at still
      contradiction
  have taken : LeadsTo states (fun pool => task ∈ pool.taskDone ∧ pool.mainBatch = [])
      (fun pool => task ∈ pool.mainBatch) := by
    refine @leadsTo_of_served_or _ _ step states acts _ _ (· = .takeDone) run ?_ ?_ ?_
    · exact fun m holds => fair.takesDone m holds.2
    · rintro pool act next ⟨passed, idle⟩ stepped
      have moves := step_moves stepped
      exact (moves.taskDone passed).imp_left fun still => ⟨still.1, moves.mainIdle idle still.2⟩
    · rintro pool act next ⟨passed, idle⟩ takes stepped
      exact ((step_moves stepped).taskDone passed).resolve_left fun still => still.2 takes
  have passed : LeadsTo states (fun pool => task ∈ pool.taskDone)
      (fun pool => task ∈ pool.mainBatch) :=
    (leadsTo_mainIdle run fair fun _ _ _ passed stepped =>
      ((step_moves stepped).taskDone passed).imp_left And.left).trans
        (LeadsTo.or (LeadsTo.of_imp fun _ held => held) taken)
  rintro m (⟨worker, rest, success, batch⟩ | first | second | last)
  · have added : LeadsTo states
        (fun pool => pool.worked worker = true ∧ pool.batch worker = task :: rest)
        (fun pool => task ∈ pool.taskDone) := by
      refine @leadsTo_of_served_or _ _ step states acts _ _ (· = .addDone worker) run ?_ ?_ ?_
      · exact fun m holds => fair.addsDone worker m holds.1
      · rintro pool act next ⟨success, batch⟩ stepped
        exact ((step_moves stepped).worked success batch).imp_left And.left
      · rintro pool act next ⟨success, batch⟩ adds stepped
        exact ((step_moves stepped).worked success batch).resolve_left fun still => still.2 adds
    exact ((added.trans passed).trans held) m ⟨success, batch⟩
  · exact (passed.trans held) m first
  · exact held m second
  · exact ⟨m, Nat.le_refl m, last⟩

/-! ## Submissions and successes -/

/-- A submitted task is on its way to a queue or queued, and a task whose `work()` has
returned true is on its way to `done()`. -/
structure Tracked (pool : TaskPool n Submitter Task) : Prop where
  inv : pool.Inv
  submitted : ∀ task ∈ pool.submitted,
    (∃ submitter thread, pool.adding submitter = some (thread, task)) ∨ task ∈ pool.addedTasks
  succeeded : ∀ task, pool.Succeeded task → pool.Passing task

section Track

variable {pool next : TaskPool n Submitter Task} {act : Action n Submitter Task}

omit [DecidableEq Task] in
theorem Moves.passing (moves : Moves pool act next) {task : Task} (passing : pool.Passing task) :
    next.Passing task := by
  rcases passing with ⟨worker, rest, success, batch⟩ | passed | held | finished
  · rcases moves.worked success batch with ⟨⟨success, batch⟩, _⟩ | passed
    · exact Or.inl ⟨worker, rest, success, batch⟩
    · exact Or.inr (Or.inl passed)
  · rcases moves.taskDone passed with ⟨passed, _⟩ | held
    · exact Or.inr (Or.inl passed)
    · exact Or.inr (Or.inr (Or.inl held))
  · rcases moves.mainBatch held with held | finished
    · exact Or.inr (Or.inr (Or.inl held))
    · exact Or.inr (Or.inr (Or.inr finished))
  · exact Or.inr (Or.inr (Or.inr (moves.doneCalls finished)))

omit [DecidableEq Task] in
/-- A new success is that of a task that waits for `addDone`. -/
theorem Moves.succeeded (moves : Moves pool act next) {task : Task}
    (succeeded : next.Succeeded task) : pool.Succeeded task ∨ next.Passing task := by
  cases moves with
  | getThread | put | take | addDone | takeDone | done => exact Or.inl succeeded
  | work worker first rest result fresh batch =>
      obtain ⟨call, member, rfl, returned⟩ := succeeded
      rw [work_workCalls] at member
      rcases List.mem_append.mp member with earlier | now
      · exact Or.inl ⟨call, earlier, rfl, returned⟩
      · obtain rfl := List.mem_singleton.mp now
        obtain rfl : result = true := returned
        exact Or.inr (Or.inl ⟨worker, rest, Function.update_self _ _ _, batch⟩)

omit [DecidableEq Task] in
theorem Moves.submitted (moves : Moves pool act next)
    (tracked : ∀ task ∈ pool.submitted, (∃ submitter thread,
      pool.adding submitter = some (thread, task)) ∨ task ∈ pool.addedTasks) :
    ∀ task ∈ next.submitted, (∃ submitter thread,
      next.adding submitter = some (thread, task)) ∨ task ∈ next.addedTasks := by
  cases moves with
  | take | addDone | takeDone | done => exact tracked
  | work _ _ _ result => cases result <;> exact tracked
  | getThread submitter own idle =>
      intro task member
      rcases List.mem_append.mp member with earlier | now
      · rcases tracked task earlier with ⟨other, thread, chose⟩ | added
        · have apart : other ≠ submitter := by
            rintro rfl
            rw [chose] at idle
            contradiction
          exact Or.inl ⟨other, thread, (Function.update_of_ne apart _ _).trans chose⟩
        · exact Or.inr added
      · obtain rfl := List.mem_singleton.mp now
        exact Or.inl ⟨submitter, _, Function.update_self _ _ _⟩
  | put submitter thread own chose =>
      intro task member
      rw [addedTasks_addTask, List.mem_append, List.mem_singleton]
      rcases tracked task member with ⟨other, assigned, chosen⟩ | added
      · by_cases same : other = submitter
        · subst same
          rw [chose] at chosen
          cases chosen
          exact Or.inr (Or.inr rfl)
        · exact Or.inl ⟨other, assigned, (Function.update_of_ne same _ _).trans chosen⟩
      · exact Or.inr (Or.inl added)

theorem step_tracked (tracked : pool.Tracked) (stepped : step pool act = some next) :
    next.Tracked where
  inv := step_inv tracked.inv stepped
  submitted := (step_moves stepped).submitted tracked.submitted
  succeeded task succeeded := by
    rcases (step_moves stepped).succeeded succeeded with earlier | now
    · exact (step_moves stepped).passing (tracked.succeeded task earlier)
    · exact now

end Track

omit [NeZero n] [DecidableEq Submitter] [DecidableEq Task] in
theorem start_tracked (curThreadIdx : Nat) :
    (start curThreadIdx : TaskPool n Submitter Task).Tracked where
  inv := start_inv curThreadIdx
  submitted := fun _ absent => absurd absent List.not_mem_nil
  succeeded := fun _ ⟨_, absent, _⟩ => absurd absent List.not_mem_nil

theorem submitted_leadsTo_called (run : Forever step states acts) (fair : Fair states acts)
    (task : Task) :
    LeadsTo states (fun pool => pool.Tracked ∧ task ∈ pool.submitted)
      (fun pool => pool.Called task) := by
  have queued (worker : Fin n) : LeadsTo states
      (fun pool => pool.Inv ∧ task ∈ pool.taskQueue worker) (fun pool => pool.Called task) :=
    (queued_leadsTo_unworked run fair worker task).trans
      (unworked_leadsTo_called run fair worker task)
  rintro m ⟨tracked, submitted⟩
  rcases tracked.submitted task submitted with ⟨submitter, thread, chose⟩ | added
  · obtain ⟨later, after, reached⟩ :=
      adding_leadsTo_queued run fair submitter thread task m chose
    have inv := run.persists (fun _ _ _ inv stepped => step_inv inv stepped) tracked.inv after
    obtain ⟨last, beyond, called⟩ := queued thread later ⟨inv, reached⟩
    exact ⟨last, Nat.le_trans after beyond, called⟩
  · obtain ⟨⟨worker, _⟩, assigned, rfl⟩ := List.mem_map.mp added
    have place := mem_addedTo.mpr assigned
    rw [tracked.inv.calls.inOrder worker, List.mem_append, List.mem_append] at place
    rcases place with (worked | waiting) | held
    · obtain ⟨call, member, _, same⟩ := mem_workedBy.mp worked
      exact ⟨m, Nat.le_refl m, call, member, same⟩
    · exact unworked_leadsTo_called run fair worker _ m waiting
    · exact queued worker m ⟨tracked.inv, held⟩

/-- Every submitted task is worked on in the end, and `done()` is called in the end if
`work()` has returned true. -/
theorem submitted_leadsTo_finished {curThreadIdx : Nat} (run : Forever step states acts)
    (first : states 0 = start curThreadIdx) (fair : Fair states acts) (task : Task) :
    LeadsTo states (fun pool => task ∈ pool.submitted) (fun pool => pool.Finished task) := by
  have tracked := run.invariant (fun _ _ _ tracked stepped => step_tracked tracked stepped)
    (first ▸ start_tracked curThreadIdx)
  intro m submitted
  obtain ⟨later, after, call, member, same⟩ :=
    submitted_leadsTo_called run fair task m ⟨tracked m, submitted⟩
  cases returned : call.result with
  | false => exact ⟨later, after, call, member, same, Or.inl returned⟩
  | true =>
      have passing := (tracked later).succeeded task ⟨call, member, same, returned⟩
      obtain ⟨last, beyond, finished⟩ := passing_leadsTo_done run fair task later passing
      have still := run.persists (P := fun pool => call ∈ pool.workCalls)
        (fun _ _ _ member stepped => (step_moves stepped).workCalls member) member beyond
      exact ⟨last, Nat.le_trans after beyond, call, still, same, Or.inr finished⟩

/-! ## A run -/

/-- Two threads, and two submitters with three tasks.  `work()` returns false for the last
one.  Then no thread finds anything to do. -/
def threeTasks (first second : Fin n) : Nat → Action n Bool Nat
  | 0 => .getThread false 7
  | 1 => .getThread true 8
  | 2 => .put true
  | 3 | 5 => .put false
  | 4 => .getThread false 9
  | 6 => .take first
  | 7 => .take second
  | 8 => .work first true
  | 9 => .work second true
  | 10 => .addDone second
  | 11 => .addDone first
  | 12 => .work first false
  | 13 => .takeDone
  | 14 | 15 => .done
  | m + 16 => if m % 3 = 0 then .take first else if m % 3 = 1 then .take second else .takeDone

/-- The pools of this run. -/
abbrev threeTaskPools (first second : Fin n) : Nat → TaskPool n Bool Nat :=
  follow step (start 0) (threeTasks first second)

/-- No thread has anything to do. -/
structure Quiet (pool : TaskPool n Submitter Task) : Prop where
  adding : ∀ submitter, pool.adding submitter = none
  taskQueue : ∀ worker, pool.taskQueue worker = []
  batch : ∀ worker, pool.batch worker = []
  worked : ∀ worker, pool.worked worker = false
  taskDone : pool.taskDone = []
  mainBatch : pool.mainBatch = []

theorem Quiet.take {pool : TaskPool n Submitter Task} (quiet : Quiet pool) (worker : Fin n) :
    step pool (.take worker) = some (pool.take worker) ∧ Quiet (pool.take worker) := by
  refine ⟨if_pos (quiet.batch worker), quiet.adding, fun other => ?_, fun other => ?_,
    quiet.worked, quiet.taskDone, quiet.mainBatch⟩
  · by_cases same : other = worker <;> simp [TaskPool.take, same, quiet.taskQueue]
  · by_cases same : other = worker <;> simp [TaskPool.take, same, quiet.taskQueue, quiet.batch]

theorem Quiet.takeDone {pool : TaskPool n Submitter Task} (quiet : Quiet pool) :
    step pool .takeDone = some pool.takeDone ∧ Quiet pool.takeDone :=
  ⟨if_pos quiet.mainBatch, quiet.adding, quiet.taskQueue, quiet.batch, quiet.worked, rfl,
    quiet.taskDone⟩

theorem threeTasks_goesOn {pool : TaskPool n Bool Nat} (quiet : Quiet pool)
    (first second : Fin n) (m : Nat) :
    ∃ next, step pool (threeTasks first second (m + 16)) = some next ∧ Quiet next := by
  rw [threeTasks]
  split
  · exact ⟨_, quiet.take first⟩
  split
  · exact ⟨_, quiet.take second⟩
  · exact ⟨_, quiet.takeDone⟩

theorem threeTasks_settles : Settles step (start 0) (threeTasks (0 : Fin 2) 1) 16 Quiet where
  enabled := by decide +kernel
  quiet := by constructor <;> decide +kernel
  goesOn m _ quiet := threeTasks_goesOn quiet 0 1 m

theorem threeTasks_fair : Fair (threeTaskPools (0 : Fin 2) 1) (threeTasks 0 1) where
  puts submitter := by
    have late (pool : TaskPool 2 Bool Nat) (quiet : Quiet pool) :
        ¬pool.adding submitter ≠ none :=
      fun chose => chose (quiet.adding submitter)
    cases submitter with
    | false => exact threeTasks_settles.served 5 rfl (by decide +kernel) late
    | true => exact threeTasks_settles.served 2 rfl (by decide +kernel) late
  takes worker m _ := by
    match worker with
    | 0 => exact ⟨3 * m + 16, by omega, by simp [threeTasks]⟩
    | 1 => exact ⟨3 * m + 1 + 16, by omega, by simp [threeTasks, Nat.add_mod]⟩
  works worker := by
    have late (pool : TaskPool 2 Bool Nat) (quiet : Quiet pool) :
        ¬(pool.worked worker = false ∧ pool.batch worker ≠ []) :=
      fun busy => busy.2 (quiet.batch worker)
    match worker with
    | 0 => exact threeTasks_settles.served 12 ⟨false, rfl⟩ (by decide +kernel) late
    | 1 => exact threeTasks_settles.served 9 ⟨true, rfl⟩ (by decide +kernel) late
  addsDone worker := by
    have late (pool : TaskPool 2 Bool Nat) (quiet : Quiet pool) : ¬pool.worked worker = true :=
      fun success => Bool.false_ne_true ((quiet.worked worker).symm.trans success)
    match worker with
    | 0 => exact threeTasks_settles.served 11 rfl (by decide +kernel) late
    | 1 => exact threeTasks_settles.served 10 rfl (by decide +kernel) late
  takesDone m _ := ⟨3 * m + 2 + 16, by omega, by simp [threeTasks, Nat.add_mod]⟩
  callsDone := threeTasks_settles.served 15 rfl (by decide +kernel)
    fun _ quiet busy => busy quiet.mainBatch

/-- The theorem at this run, for a task whose `work()` returns true and one for which it
returns false. -/
theorem threeTasks_leadsTo_finished :
    LeadsTo (threeTaskPools (0 : Fin 2) 1) (fun pool => 8 ∈ pool.submitted)
        (fun pool => pool.Finished 8) ∧
      LeadsTo (threeTaskPools (0 : Fin 2) 1) (fun pool => 9 ∈ pool.submitted)
        (fun pool => pool.Finished 9) :=
  ⟨submitted_leadsTo_finished threeTasks_settles.forever rfl threeTasks_fair 8,
    submitted_leadsTo_finished threeTasks_settles.forever rfl threeTasks_fair 9⟩

end TaskPool

end Cncpp.Task
