import Cncpp.Redis.Async.Core
import Cncpp.Task.Order

/-!
# When the keys are read back

A `GetTask` finds what the `SetTask` of its key has stored, if the same thread works on
both.  `getThread` takes the threads in turn, so that this depends on whether the number of
threads divides the number of keys; two threads and five keys are a case where it does not.
-/

namespace Cncpp.Redis.Async

open Cncpp.Machine
open Cncpp.Task
open Cncpp.Transition

variable {n : Nat} [NeZero n] {Store : Type}

/-! ## The tasks -/

theorem tasks_nodup (maxTask : Nat) : (tasks maxTask).Nodup := by
  rw [tasks, List.nodup_append]
  refine ⟨List.nodup_range.map fun _ _ same => RedisTask.set.inj same,
    List.nodup_range.map fun _ _ same => RedisTask.get.inj same, ?_⟩
  intro first setting second getting
  obtain ⟨_, _, rfl⟩ := List.mem_map.mp setting
  obtain ⟨_, _, rfl⟩ := List.mem_map.mp getting
  simp

theorem tasks_set {maxTask idx : Nat} (below : idx < maxTask) :
    (tasks maxTask)[idx]? = some (.set idx) := by
  rw [tasks, List.getElem?_append_left (by simpa using below)]
  simp [below]

theorem tasks_get {maxTask idx : Nat} (below : idx < maxTask) :
    (tasks maxTask)[maxTask + idx]? = some (.get idx) := by
  rw [tasks, List.getElem?_append_right (by simp)]
  simp [below]

/-- The thread of a `SetTask` works on it first, if the thread of the `GetTask` is the same. -/
theorem set_before_get {maxTask idx : Nat} (first : Nat) (below : idx < maxTask) {worker : Fin n}
    (setting : turn (first + idx) = worker) (getting : turn (first + (maxTask + idx)) = worker) :
    [(worker, .set idx), (worker, .get idx)].Sublist (assigned first (tasks maxTask)) := by
  have setPlace : ((List.range maxTask).map RedisTask.set)[idx]? = some (.set idx) := by
    simp [below]
  have getPlace : ((List.range maxTask).map RedisTask.get)[idx]? = some (.get idx) := by
    simp [below]
  have sets := mem_assigned (n := n) first setPlace
  have gets := mem_assigned (n := n) (first + maxTask) getPlace
  rw [setting] at sets
  rw [Nat.add_assoc, getting] at gets
  rw [tasks, assigned_append, List.length_map, List.length_range]
  exact (List.singleton_sublist.mpr sets).append (List.singleton_sublist.mpr gets)

/-- Without a break of the rotation, a key is set and read by one thread exactly if the
number of threads divides the number of keys. -/
theorem turn_eq_iff {first maxTask idx : Nat} (below : idx < maxTask)
    (rotates : n ∣ 2 ^ 32 ∨ uint32 first + 2 * maxTask ≤ 2 ^ 32) :
    (turn (uint32 first + idx) : Fin n) = turn (uint32 first + (maxTask + idx)) ↔
      n ∣ maxTask := by
  have residue {count : Nat} (within : count < 2 * maxTask) :
      uint32 (uint32 first + count) % n = (uint32 first + count) % n := by
    rcases rotates with divides | short
    · exact Nat.mod_mod_of_dvd _ divides
    · rw [uint32_of_lt (by omega)]
  rw [Fin.ext_iff, turn, turn, Fin.val_ofNat, Fin.val_ofNat, residue (by omega),
    residue (by omega)]
  have shifted : uint32 first + (maxTask + idx) = uint32 first + idx + maxTask := by omega
  constructor
  · intro same
    have multiple := Nat.sub_mod_eq_zero_of_mod_eq same.symm
    rw [shifted, Nat.add_sub_cancel_left] at multiple
    exact Nat.dvd_of_mod_eq_zero multiple
  · rintro ⟨rounds, rfl⟩
    rw [shifted, Nat.add_mul_mod_self_left]

namespace Program

variable {server : Server Store} {closing : Bool} {program next : Program n Store}

/-! ## Steps -/

/-- The step of the pool that a step of the program is. -/
inductive Same : Action n → Task.Action n Unit RedisTask → Prop where
  | getThread (task : RedisTask) : Same .getThread (.getThread () task)
  | put : Same .put (.put ())
  | take (worker : Fin n) : Same (.take worker) (.take worker)
  | work (worker : Fin n) : Same (.work worker) (.work worker true)
  | addDone (worker : Fin n) : Same (.addDone worker) (.addDone worker)
  | takeDone : Same .takeDone .takeDone
  | done : Same .done .done

/-- What a step does, with what it finds. -/
inductive Moves (server : Server Store) (program : Program n Store) :
    Action n → Program n Store → Prop where
  | getThread (task : RedisTask) (rest : List RedisTask) (pool : TaskPool n Unit RedisTask)
      (pending : program.pending = task :: rest)
      (stepped : Task.step program.pool (.getThread () task) = some pool) :
      Moves server program .getThread { program with pool := pool, pending := rest }
  | work (worker : Fin n) (task : RedisTask) (rest : List RedisTask)
      (fresh : program.pool.worked worker = false)
      (batch : program.pool.batch worker = task :: rest) :
      Moves server program (.work worker)
        { program.answer server task task.words with
          pool := program.pool.work worker task rest true }
  | inPool (act : Action n) (poolAct : Task.Action n Unit RedisTask)
      (pool : TaskPool n Unit RedisTask) (same : Same act poolAct)
      (own : ∀ task, poolAct ≠ .getThread () task)
      (calm : ∀ worker result, poolAct ≠ .work worker result)
      (stepped : Task.step program.pool poolAct = some pool) :
      Moves server program act { program with pool := pool }

theorem inPool_moves {act : Action n} {poolAct : Task.Action n Unit RedisTask}
    (same : Same act poolAct) (own : ∀ task, poolAct ≠ .getThread () task)
    (calm : ∀ worker result, poolAct ≠ .work worker result)
    (stepped : program.inPool poolAct = some next) : Moves server program act next := by
  obtain ⟨pool, moved, rfl⟩ := Option.map_eq_some_iff.mp stepped
  exact Moves.inPool act poolAct pool same own calm moved

theorem step_moves {act : Action n} (stepped : step server closing program act = some next) :
    Moves server program act next := by
  cases act with
  | getThread =>
      simp only [step] at stepped
      split at stepped
      case h_1 task rest pending =>
        obtain ⟨pool, moved, rfl⟩ := Option.map_eq_some_iff.mp stepped
        exact Moves.getThread task rest pool pending moved
      case h_2 => contradiction
  | work worker =>
      simp only [step] at stepped
      split at stepped
      case h_1 task rest batch =>
        rw [sends_eq, Option.bind_some] at stepped
        obtain ⟨pool, moved, rfl⟩ := Option.map_eq_some_iff.mp stepped
        cases TaskPool.step_moves moved with
        | work _ own others _ fresh held =>
            obtain ⟨rfl, rfl⟩ := List.cons.inj (held.symm.trans batch)
            exact Moves.work worker own others fresh batch
      case h_2 => contradiction
  | put => exact inPool_moves .put (by simp) (by simp) stepped
  | take worker => exact inPool_moves (.take worker) (by simp) (by simp) stepped
  | addDone worker => exact inPool_moves (.addDone worker) (by simp) (by simp) stepped
  | takeDone =>
      simp only [step, Option.ite_none_right_eq_some] at stepped
      exact inPool_moves .takeDone (by simp) (by simp) stepped.2
  | done => exact inPool_moves .done (by simp) (by simp) stepped

/-- Every step of the program is one of its pool. -/
theorem step_pool {act : Action n} (stepped : step server closing program act = some next) :
    ∃ poolAct, Same act poolAct ∧ Task.step program.pool poolAct = some next.pool := by
  cases step_moves stepped with
  | getThread task rest pool pending moved => exact ⟨_, .getThread task, moved⟩
  | work worker task rest fresh batch => exact ⟨_, .work worker, by simp [Task.step, fresh, batch]⟩
  | inPool _ poolAct pool same own calm moved => exact ⟨poolAct, same, moved⟩

/-! ## The invariant -/

/-- The pool is sound, the tasks of `main` are on their way in their order, and there is a
reply for every call of `work()`. -/
structure Inv (first maxTask : Nat) (program : Program n Store) : Prop where
  pool : program.pool.Inv
  inTurn : ∃ count, InTurn first (tasks maxTask) program.pending program.pool count
  replied : program.replies.map Prod.fst = program.pool.workCalls.map WorkCall.task

omit [NeZero n] in
/-- The counter has 32 bits. -/
theorem start_uint32 (curThreadIdx maxTask : Nat) (store : Store) :
    (start curThreadIdx maxTask store : Program n Store) =
      start (uint32 curThreadIdx) maxTask store := by
  simp [start, Task.start, uint32]

theorem start_inv (first maxTask : Nat) (store : Store) :
    Inv (n := n) first maxTask (start first maxTask store) where
  pool := TaskPool.start_inv first
  inTurn := ⟨0, InTurn.start first (tasks maxTask)⟩
  replied := rfl

theorem workCalls_of_calm {pool after : TaskPool n Unit RedisTask}
    {act : Task.Action n Unit RedisTask} (calm : ∀ worker result, act ≠ .work worker result)
    (stepped : Task.step pool act = some after) : after.workCalls = pool.workCalls := by
  cases TaskPool.step_moves stepped with
  | getThread | put | take | addDone | takeDone | done => rfl
  | work worker _ _ result => exact absurd rfl (calm worker result)

theorem step_inv {first maxTask : Nat} {act : Action n} (inv : Inv first maxTask program)
    (stepped : step server closing program act = some next) : Inv first maxTask next := by
  obtain ⟨count, inTurn⟩ := inv.inTurn
  cases step_moves stepped with
  | getThread task rest pool pending moved =>
      refine ⟨TaskPool.step_inv inv.pool moved, ⟨count + 1, ?_⟩, ?_⟩
      · rw [pending] at inTurn
        cases TaskPool.step_moves moved with
        | getThread _ _ idle => exact inTurn.getThread idle
      · rw [inv.replied, workCalls_of_calm (by simp) moved]
  | work worker task rest fresh batch =>
      refine ⟨inv.pool.work fresh batch true, ⟨count, inTurn.congr rfl rfl rfl rfl⟩, ?_⟩
      simp [answer, inv.replied]
  | inPool _ poolAct pool same own calm moved =>
      refine ⟨TaskPool.step_inv inv.pool moved, ⟨count, inTurn.of_step moved own⟩, ?_⟩
      rw [inv.replied, workCalls_of_calm calm moved]

/-- A thread that has reached a `GetTask` has worked on the `SetTask` of the key before, if
it is the thread of both. -/
theorem Inv.set_replied {first maxTask idx : Nat} (inv : Inv first maxTask program)
    (below : idx < maxTask) (same : (turn (first + idx) : Fin n) = turn (first + (maxTask + idx)))
    {worker : Fin n} {rest : List RedisTask} (fresh : program.pool.worked worker = false)
    (batch : program.pool.batch worker = .get idx :: rest) :
    .set idx ∈ program.replies.map Prod.fst := by
  obtain ⟨count, inTurn⟩ := inv.inTurn
  have mine : (worker, .get idx) ∈ program.pool.added :=
    inv.pool.calls.assigned (Or.inr (by simp [batch]))
  have owner := turn_unique (tasks_nodup maxTask) (tasks_get below)
    (inTurn.added_prefix.subset mine)
  have worked := inTurn.worked_before inv.pool.calls (tasks_nodup maxTask)
    (set_before_get first below (same.trans owner.symm) owner.symm) fresh batch
  obtain ⟨call, member, _, task⟩ := TaskPool.mem_workedBy.mp worked
  rw [inv.replied]
  exact List.mem_map.mpr ⟨call, member, task⟩

/-! ## The database -/

/-- A `SetTask` sets its own key, and nothing else changes a key. -/
theorem lookup_perform (server : Server Store) (store : Store) (task : RedisTask) (idx : Nat) :
    server.lookup (server.perform store task.words).2 (key idx) =
      if task = .set idx then some (value idx) else server.lookup store (key idx) := by
  cases task with
  | get other =>
      rw [if_neg (by simp)]
      exact server.lookup_get store _ _
  | set other =>
      by_cases same : other = idx
      · subst same
        rw [if_pos rfl]
        exact server.lookup_set store _ _
      · rw [if_neg (by simpa using same)]
        exact server.lookup_set_of_ne store _ _ _ fun equal =>
          same (toString_injective equal).symm

/-- The database holds what the `SetTask` of a key has stored, or what it held before. -/
def Stores (server : Server Store) (before : Store) (idx : Nat) (program : Program n Store) :
    Prop :=
  server.lookup program.store (key idx) =
    if .set idx ∈ program.replies.map Prod.fst then some (value idx)
    else server.lookup before (key idx)

theorem step_stores {before : Store} {idx : Nat} {act : Action n}
    (stores : Stores server before idx program)
    (stepped : step server closing program act = some next) : Stores server before idx next := by
  cases step_moves stepped with
  | getThread | inPool => exact stores
  | work worker task rest fresh batch =>
      rw [Stores] at stores ⊢
      simp only [answer, lookup_perform, stores, List.map_append, List.map_singleton,
        List.mem_append, List.mem_singleton]
      by_cases now : task = .set idx
      · simp [now]
      · rw [if_neg now]
        exact if_congr (or_iff_left (Ne.symm now)).symm rfl rfl

/-- Every `GetTask` of a key has found its value. -/
def Reads (idx : Nat) (program : Program n Store) : Prop :=
  ∀ reply, (.get idx, reply) ∈ program.replies → reply = found (value idx)

/-- One thread works on both tasks of a key, or the value is there from the beginning. -/
def Safe (n : Nat) [NeZero n] (server : Server Store) (before : Store) (first maxTask idx : Nat) :
    Prop :=
  (turn (first + idx) : Fin n) = turn (first + (maxTask + idx)) ∨
    server.lookup before (key idx) = some (value idx)

/-- What a safe program keeps. -/
structure Finds (server : Server Store) (before : Store) (first maxTask idx : Nat)
    (program : Program n Store) : Prop where
  inv : Inv first maxTask program
  stores : Stores server before idx program
  reads : Reads idx program

theorem start_finds (server : Server Store) (first maxTask idx : Nat) (store : Store) :
    Finds server store first maxTask idx (start first maxTask store : Program n Store) where
  inv := start_inv first maxTask store
  stores := rfl
  reads := fun _ absent => absurd absent List.not_mem_nil

theorem step_finds {first maxTask idx : Nat} {before : Store} (below : idx < maxTask)
    (safe : Safe n server before first maxTask idx) {act : Action n}
    (finds : Finds server before first maxTask idx program)
    (stepped : step server closing program act = some next) :
    Finds server before first maxTask idx next := by
  refine ⟨step_inv finds.inv stepped, step_stores finds.stores stepped, ?_⟩
  cases step_moves stepped with
  | getThread | inPool => exact finds.reads
  | work worker task rest fresh batch =>
      intro reply member
      rcases List.mem_append.mp member with earlier | now
      · exact finds.reads reply earlier
      · obtain ⟨rfl, rfl⟩ := Prod.mk.inj (List.mem_singleton.mp now)
        refine (server.get_found _ _ _).mpr ?_
        rw [finds.stores]
        rcases safe with same | already
        · rw [if_pos (finds.inv.set_replied below same fresh batch)]
        · rw [already, ite_self]

/-! ## A run in which a key is read too early -/

/-- `main` submits a task. -/
theorem exec_submit (server : Server Store) (closing : Bool) {task : RedisTask}
    {rest : List RedisTask} (idle : program.pool.adding () = none)
    (pending : program.pending = task :: rest) (fresh : task ∉ program.pool.submitted) :
    ∃ after, exec (step server closing) program [.getThread, .put] = some after ∧
      after.pool.adding () = none ∧ after.pending = rest ∧ after.store = program.store ∧
      after.replies = program.replies ∧ after.pool.batch = program.pool.batch ∧
      after.pool.worked = program.pool.worked := by
  have chooses : step server closing program .getThread =
      some { program with pool := program.pool.getThread () task, pending := rest } := by
    simp [step, pending, inPool, Task.step, idle, fresh]
  have puts : step server closing
      { program with pool := program.pool.getThread () task, pending := rest } .put =
      some { program with
        pool := (program.pool.getThread () task).addTask ()
          (Fin.ofNat n program.pool.curThreadIdx) task
        pending := rest } := by
    simp [step, inPool, Task.step, TaskPool.getThread]
  exact ⟨_, (exec_cons_eq_some_iff _ _ _ _ _).mpr ⟨_, chooses,
    (exec_cons_eq_some_iff _ _ _ _ _).mpr ⟨_, puts, rfl⟩⟩, by simp [TaskPool.addTask], rfl, rfl,
    rfl, rfl, rfl⟩

/-- `main` can submit all of its tasks before any thread takes one. -/
theorem exists_submitted {first maxTask : Nat} (server : Server Store) (closing : Bool)
    (inv : Inv first maxTask program) (idle : program.pool.adding () = none) :
    ∃ acts final, exec (step server closing) program acts = some final ∧
      Inv first maxTask final ∧ final.Submitted ∧ final.store = program.store ∧
      final.replies = program.replies ∧ final.pool.batch = program.pool.batch ∧
      final.pool.worked = program.pool.worked := by
  induction left : program.pending generalizing program with
  | nil => exact ⟨[], program, rfl, inv, ⟨left, idle⟩, rfl, rfl, rfl, rfl⟩
  | cons task rest ih =>
      obtain ⟨count, inTurn⟩ := inv.inTurn
      have once := tasks_nodup maxTask
      rw [← inTurn.submitted, left] at once
      have fresh : task ∉ program.pool.submitted := fun member =>
        (List.nodup_append.mp once).2.2 task member task (by simp) rfl
      obtain ⟨after, submits, idle, pending, store, replies, batch, worked⟩ :=
        exec_submit server closing idle left fresh
      have kept : Inv first maxTask after :=
        invariant_exec (fun _ _ _ inv stepped => step_inv inv stepped) inv submits
      obtain ⟨acts, final, ran, finalInv, submitted, facts⟩ := ih kept idle pending
      refine ⟨[.getThread, .put] ++ acts, final, ?_, finalInv, submitted, ?_⟩
      · rw [exec_append, submits, Option.bind_some, ran]
      · rwa [store, replies, batch, worked] at facts

/-- A thread works on the first task of its batch. -/
theorem exec_work (server : Server Store) (closing : Bool) {worker : Fin n} {task : RedisTask}
    {rest : List RedisTask} (fresh : program.pool.worked worker = false)
    (batch : program.pool.batch worker = task :: rest) :
    step server closing program (.work worker) =
      some { program.answer server task task.words with
        pool := program.pool.work worker task rest true } := by
  simp [step, batch, sends_eq, inPool, Task.step, answer, fresh]

/-- It goes on to the next task. -/
theorem exec_work_addDone (server : Server Store) (closing : Bool) {worker : Fin n}
    {task : RedisTask} {rest : List RedisTask} (fresh : program.pool.worked worker = false)
    (batch : program.pool.batch worker = task :: rest) :
    ∃ after, exec (step server closing) program [.work worker, .addDone worker] = some after ∧
      after.pool.worked worker = false ∧ after.pool.batch worker = rest ∧
      after.store = (server.perform program.store task.words).2 := by
  have adds : step server closing
      { program.answer server task task.words with
        pool := program.pool.work worker task rest true } (.addDone worker) =
      some { program.answer server task task.words with
        pool := (program.pool.work worker task rest true).addDone worker task rest } := by
    simp [step, inPool, Task.step, TaskPool.work, batch]
  exact ⟨_, (exec_cons_eq_some_iff _ _ _ _ _).mpr ⟨_, exec_work server closing fresh batch,
    (exec_cons_eq_some_iff _ _ _ _ _).mpr ⟨_, adds, rfl⟩⟩, by simp [TaskPool.addDone],
    by simp [TaskPool.addDone], rfl⟩

/-- A thread can work on its batch up to a `GetTask` while the others wait. -/
theorem exists_read {idx : Nat} (server : Server Store) (closing : Bool) {worker : Fin n}
    {front back : List RedisTask} (fresh : program.pool.worked worker = false)
    (batch : program.pool.batch worker = front ++ .get idx :: back)
    (unset : .set idx ∉ front)
    (missing : server.lookup program.store (key idx) ≠ some (value idx)) :
    ∃ acts final, exec (step server closing) program acts = some final ∧ ¬Reads idx final := by
  induction front generalizing program with
  | nil =>
      have works := exec_work server closing fresh batch
      refine ⟨[.work worker], _, (exec_cons_eq_some_iff _ _ _ _ _).mpr ⟨_, works, rfl⟩, ?_⟩
      intro reads
      exact missing ((server.get_found _ _ _).mp
        (reads _ (List.mem_append_right _ (List.mem_singleton_self _))))
  | cons task front ih =>
      have other : task ≠ .set idx := fun same => unset (same ▸ List.mem_cons_self)
      obtain ⟨after, works, fresh, batch, store⟩ := exec_work_addDone server closing fresh batch
      have still : server.lookup after.store (key idx) ≠ some (value idx) := by
        rwa [store, lookup_perform, if_neg other]
      obtain ⟨acts, final, ran, early⟩ :=
        ih fresh batch (fun member => unset (List.mem_cons_of_mem _ member)) still
      refine ⟨[.work worker, .addDone worker] ++ acts, final, ?_, early⟩
      rw [exec_append, works, Option.bind_some, ran]

/-- When everything is submitted and nothing worked on, the queue of a thread holds what is
assigned to it. -/
theorem Inv.mem_taskQueue {first maxTask : Nat} (inv : Inv first maxTask program)
    (submitted : program.Submitted) (unreplied : program.replies = []) {worker : Fin n}
    (idle : program.pool.batch worker = []) (fresh : program.pool.worked worker = false)
    (task : RedisTask) :
    task ∈ program.pool.taskQueue worker ↔ (worker, task) ∈ assigned first (tasks maxTask) := by
  obtain ⟨count, inTurn⟩ := inv.inTurn
  have added := inTurn.added
  rw [submitted.1, submitted.2, Option.toList_none, assigned, List.append_nil,
    List.append_nil] at added
  have uncalled : program.pool.workCalls = [] := by
    have replied := inv.replied
    rw [unreplied] at replied
    exact List.map_eq_nil_iff.mp replied.symm
  have unworked : program.pool.workedBy worker = [] := by
    rw [TaskPool.workedBy, uncalled]
    rfl
  have queue := inv.pool.calls.inOrder worker
  rw [unworked, TaskPool.unworked_of_not_worked fresh, idle, List.nil_append,
    List.nil_append] at queue
  rw [← queue, TaskPool.mem_addedTo, added]

/-- A key that is not safe can be read before it is set. -/
theorem exists_early {first maxTask idx : Nat} (server : Server Store) (closing : Bool)
    (store : Store) (below : idx < maxTask) (risky : ¬Safe n server store first maxTask idx) :
    ∃ acts final, exec (step server closing) (start first maxTask store : Program n Store) acts =
      some final ∧ ¬Reads idx final := by
  obtain ⟨apart, missing⟩ := not_or.mp risky
  obtain ⟨acts, middle, submits, inv, submitted, same, unreplied, batch, worked⟩ :=
    exists_submitted server closing (start_inv (n := n) first maxTask store) rfl
  obtain ⟨worker, reader⟩ : ∃ worker : Fin n, worker = turn (first + (maxTask + idx)) := ⟨_, rfl⟩
  have idle : middle.pool.batch worker = [] := by
    rw [batch]
    rfl
  have fresh : middle.pool.worked worker = false := by
    rw [worked]
    rfl
  have queue := inv.mem_taskQueue submitted unreplied idle fresh
  have gets : .get idx ∈ middle.pool.taskQueue worker := by
    rw [queue, reader]
    exact mem_assigned first (tasks_get below)
  have unset : .set idx ∉ middle.pool.taskQueue worker := by
    rw [queue]
    intro sets
    exact apart ((turn_unique (tasks_nodup maxTask) (tasks_set below) sets).symm.trans reader)
  obtain ⟨front, back, split⟩ := List.append_of_mem gets
  rw [split] at unset
  obtain ⟨after, takes, taken, still, kept⟩ : ∃ after,
      step server closing middle (.take worker) = some after ∧
        after.pool.batch worker = front ++ .get idx :: back ∧
        after.pool.worked worker = false ∧ after.store = middle.store :=
    ⟨{ middle with pool := middle.pool.take worker }, by simp [step, inPool, Task.step, idle],
      by simp [TaskPool.take, split], fresh, rfl⟩
  have unchanged : after.store = store := kept.trans same
  obtain ⟨rest, final, reads, early⟩ := exists_read server closing still taken
    (fun member => unset (List.mem_append_left _ member)) (by rwa [unchanged])
  refine ⟨acts ++ .take worker :: rest, final, ?_, early⟩
  rw [exec_append, submits, Option.bind_some, exec, takes, Option.bind_some, reads]

/-- Every `GetTask` of a key finds in every run what the `SetTask` of the key stores exactly
if the number of threads divides the number of keys, or the value was there from the
beginning.  The counter must not start again inside of the run, unless the number of threads
divides `2 ^ 32`. -/
theorem gets_find_iff (server : Server Store) (closing : Bool) (store : Store)
    {curThreadIdx maxTask idx : Nat} (below : idx < maxTask)
    (rotates : n ∣ 2 ^ 32 ∨ uint32 curThreadIdx + 2 * maxTask ≤ 2 ^ 32) :
    (∀ acts program, exec (step server closing)
        (start curThreadIdx maxTask store : Program n Store) acts = some program →
      ∀ reply, (.get idx, reply) ∈ program.replies → reply = found (value idx)) ↔
      n ∣ maxTask ∨ server.lookup store (key idx) = some (value idx) := by
  have safe : Safe n server store (uint32 curThreadIdx) maxTask idx ↔
      n ∣ maxTask ∨ server.lookup store (key idx) = some (value idx) :=
    or_congr_left (turn_eq_iff below rotates)
  rw [← safe, start_uint32]
  constructor
  · intro always
    by_contra risky
    obtain ⟨acts, final, ran, early⟩ := exists_early server closing store below risky
    exact early (always acts final ran)
  · intro safe acts program ran
    exact (invariant_exec (fun _ _ _ finds stepped => step_finds below safe finds stepped)
      (start_finds server _ _ _ store) ran).reads

end Program

/-! ## A server -/

/-- A database of texts. -/
def perform (store : Text → Option Text) : List Text → RedisReply × (Text → Option Text)
  | [command, key] =>
      if command = "GET".toList then ((store key).elim .nil found, store)
      else (.error "ERR", store)
  | [command, key, value] =>
      if command = "SET".toList then (.status "OK", Function.update store key (some value))
      else (.error "ERR", store)
  | _ => (.error "ERR", store)

/-- The server of this database. -/
def keyValues : Server (Text → Option Text) where
  perform := perform
  lookup := fun store => store
  lookup_set _ _ _ := Function.update_self _ _ _
  lookup_set_of_ne _ _ _ _ other := Function.update_of_ne other _ _
  get_found store key text := by
    cases held : store key with
    | none => simp [perform, held, found]
    | some other => simp [perform, held, found, String.ofList_inj]
  lookup_get _ _ _ := rfl

/-- With two threads, and the counter at 3405691582, the last of five keys is read too early
in some run; with five threads, and the counter at 7, it never is. -/
theorem fiveKeys_find :
    (∃ acts program, exec (Program.step keyValues false)
        (Program.start 3405691582 5 fun _ => none : Program 2 _) acts = some program ∧
      ∃ reply, (.get 4, reply) ∈ program.replies ∧ reply ≠ found (value 4)) ∧
    ∀ acts program, exec (Program.step keyValues false)
        (Program.start 7 5 fun _ => none : Program 5 _) acts = some program →
      ∀ reply, (.get 4, reply) ∈ program.replies → reply = found (value 4) := by
  have two := @Program.gets_find_iff 2 _ _ keyValues false (fun _ => none) 3405691582 5 4
    (by decide) (Or.inl (by decide))
  have five := @Program.gets_find_iff 5 _ _ keyValues false (fun _ => none) 7 5 4
    (by decide) (Or.inr (by decide))
  constructor
  · by_contra never
    push Not at never
    rcases two.mp never with divides | already
    · exact absurd divides (by decide)
    · contradiction
  · exact five.mpr (Or.inl (Nat.dvd_refl 5))

end Cncpp.Redis.Async
