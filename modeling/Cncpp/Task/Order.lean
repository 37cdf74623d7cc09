import Cncpp.Task.Liveness

/-!
# One submitter

Where one thread submits a given list of tasks, the first value of the counter and the
place of a task in the list tell its thread.  A thread works on its tasks in the order of
the list, so that a task has been worked on before any later task of the same thread.
-/

namespace Cncpp.Task

open Cncpp.Machine
open Cncpp.Transition

variable {n : Nat} [NeZero n] {Task : Type}

/-- The thread that `getThread` chooses at a count. -/
def turn (count : Nat) : Fin n :=
  Fin.ofNat n (uint32 count)

/-- The tasks with their threads, from a count on. -/
def assigned : Nat → List Task → List (Fin n × Task)
  | _, [] => []
  | count, task :: rest => (turn count, task) :: assigned (count + 1) rest

theorem map_snd_assigned (count : Nat) (tasks : List Task) :
    (assigned (n := n) count tasks).map Prod.snd = tasks := by
  induction tasks generalizing count with
  | nil => rfl
  | cons task rest ih => rw [assigned, List.map_cons, ih]

theorem assigned_append (count : Nat) (first second : List Task) :
    assigned (n := n) count (first ++ second) =
      assigned count first ++ assigned (count + first.length) second := by
  induction first generalizing count with
  | nil => rfl
  | cons task rest ih =>
      rw [List.cons_append, assigned, assigned, ih, List.cons_append, List.length_cons,
        Nat.add_assoc, Nat.add_comm 1]

theorem mem_assigned (count : Nat) {tasks : List Task} {i : Nat} {task : Task}
    (member : tasks[i]? = some task) :
    (turn (count + i), task) ∈ assigned (n := n) count tasks := by
  induction tasks generalizing count i with
  | nil => simp at member
  | cons first rest ih =>
      cases i with
      | zero =>
          cases member
          exact List.mem_cons_self
      | succ i =>
          have later := ih (count + 1) member
          rw [Nat.add_assoc, Nat.add_comm 1] at later
          exact List.mem_cons_of_mem _ later

/-- A task of a list without duplicates goes to one thread. -/
theorem turn_unique {count : Nat} {tasks : List Task} (nodup : tasks.Nodup) {i : Nat}
    {task : Task} (place : tasks[i]? = some task) {worker : Fin n}
    (member : (worker, task) ∈ assigned count tasks) : worker = turn (count + i) := by
  have once : ((assigned (n := n) count tasks).map Prod.snd).Nodup := by
    rwa [map_snd_assigned]
  exact congrArg Prod.fst
    (List.inj_on_of_nodup_map once member (mem_assigned count place) rfl)

/-- What comes first in a list without duplicates is in front of what comes later. -/
theorem mem_of_pair_sublist {α : Type} {earlier later : α} {front back : List α}
    (order : [earlier, later].Sublist (front ++ later :: back))
    (nodup : (front ++ later :: back).Nodup) : earlier ∈ front := by
  obtain ⟨left, right, split, inFront, behind⟩ := List.sublist_append_iff.mp order
  cases left with
  | cons first rest =>
      obtain ⟨rfl, _⟩ := List.cons.inj split
      exact inFront.subset List.mem_cons_self
  | nil =>
      obtain rfl : [earlier, later] = right := split
      have alone : later ∉ back := (List.nodup_cons.mp (List.nodup_append.mp nodup).2.1).1
      cases behind with
      | cons _ rest => exact absurd (rest.subset (by simp)) alone
      | cons_cons _ rest => exact absurd (List.singleton_sublist.mp rest) alone

/-! ## Pools with one submitter -/

/-- What has been added, what is being added and what is still to be submitted are the given
tasks in their order, with their threads. -/
structure InTurn (first : Nat) (tasks pending : List Task) (pool : TaskPool n Unit Task)
    (count : Nat) : Prop where
  counter : pool.curThreadIdx = uint32 (first + count)
  submitted : pool.submitted ++ pending = tasks
  added : pool.added ++ (pool.adding ()).toList ++ assigned (first + count) pending =
    assigned first tasks

namespace InTurn

variable {first count : Nat} {tasks pending : List Task} {pool next : TaskPool n Unit Task}

theorem start (first : Nat) (tasks : List Task) :
    InTurn first tasks tasks (start first : TaskPool n Unit Task) 0 :=
  ⟨rfl, rfl, rfl⟩

theorem congr (inTurn : InTurn first tasks pending pool count)
    (counter : next.curThreadIdx = pool.curThreadIdx) (submitted : next.submitted = pool.submitted)
    (added : next.added = pool.added) (adding : next.adding = pool.adding) :
    InTurn first tasks pending next count := by
  refine ⟨counter.trans inTurn.counter, ?_, ?_⟩
  · rw [submitted, inTurn.submitted]
  · rw [added, adding, inTurn.added]

theorem getThread {task : Task} {rest : List Task}
    (inTurn : InTurn first tasks (task :: rest) pool count) (idle : pool.adding () = none) :
    InTurn first tasks rest (pool.getThread () task) (count + 1) where
  counter := by
    simp only [TaskPool.getThread, inTurn.counter]
    rw [uint32_add_uint32, Nat.add_assoc]
  submitted := by
    rw [← inTurn.submitted]
    simp [TaskPool.getThread]
  added := by
    rw [← inTurn.added, idle, assigned]
    simp [TaskPool.getThread, inTurn.counter, turn, Nat.add_assoc]

theorem addTask {thread : Fin n} {task : Task} (inTurn : InTurn first tasks pending pool count)
    (chose : pool.adding () = some (thread, task)) :
    InTurn first tasks pending (pool.addTask () thread task) count where
  counter := inTurn.counter
  submitted := inTurn.submitted
  added := by
    rw [← inTurn.added, chose]
    simp [TaskPool.addTask]

/-- Only `getThread` takes a task to submit. -/
theorem of_step [DecidableEq Task] {act : Action n Unit Task}
    (inTurn : InTurn first tasks pending pool count)
    (stepped : step pool act = some next) (others : ∀ task, act ≠ .getThread () task) :
    InTurn first tasks pending next count := by
  cases TaskPool.step_moves stepped with
  | getThread _ task => exact absurd rfl (others task)
  | put _ thread task chose => exact inTurn.addTask chose
  | take | addDone | takeDone | done => exact inTurn.congr rfl rfl rfl rfl
  | work _ _ _ result => cases result <;> exact inTurn.congr rfl rfl rfl rfl

theorem added_prefix (inTurn : InTurn first tasks pending pool count) :
    pool.added <+: assigned first tasks := by
  rw [← inTurn.added, List.append_assoc]
  exact List.prefix_append _ _

/-- When a thread has reached a task, it has called `work()` on its earlier tasks. -/
theorem worked_before (inTurn : InTurn first tasks pending pool count) (calls : pool.Calls)
    (nodup : tasks.Nodup) {worker : Fin n} {earlier task : Task} {rest : List Task}
    (order : [(worker, earlier), (worker, task)].Sublist (assigned first tasks))
    (fresh : pool.worked worker = false) (batch : pool.batch worker = task :: rest) :
    earlier ∈ pool.workedBy worker := by
  have once : ((assigned (n := n) first tasks).map Prod.snd).Nodup := by
    rwa [map_snd_assigned]
  obtain ⟨back, whole⟩ := (inTurn.added_prefix.filter fun entry => entry.1 = worker).map Prod.snd
  have before := calls.inOrder worker
  rw [TaskPool.unworked_of_not_worked fresh, batch, List.append_assoc, List.cons_append] at before
  rw [← TaskPool.addedTo, before, List.append_assoc, List.cons_append] at whole
  have ordered := (order.filter fun entry => entry.1 = worker).map Prod.snd
  simp only [decide_true, List.filter_cons_of_pos, List.filter_nil, List.map_cons,
    List.map_nil] at ordered
  have distinct := once.sublist
    ((List.filter_sublist (p := fun entry => entry.1 = worker)).map Prod.snd)
  rw [← whole] at ordered distinct
  exact mem_of_pair_sublist ordered distinct

end InTurn

end Cncpp.Task
