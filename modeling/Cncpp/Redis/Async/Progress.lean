import Cncpp.Redis.Async.Correctness

/-!
# Every task of the program is finished

`main` never leaves its last loop, and the threads of the pool run for ever.  If each of
them goes on where it is, then `main` gets through its two loops, and from some moment on
`done()` has been called once on every task.  With a number of threads that divides the
number of keys, every `GetTask` has then found its value.

The program is a pool with one submitter, so that what is known about runs of the pool
holds of it.
-/

namespace Cncpp.Redis.Async.Program

open Cncpp.Machine
open Cncpp.Task
open Cncpp.Transition

variable {n : Nat} {Store : Type}

/-- `main` and the threads of the pool go on where they are. -/
structure Fair (states : Nat → Program n Store) (acts : Nat → Action n) : Prop where
  submits : Served states acts
    (fun program => program.pending ≠ [] ∧ program.pool.adding () = none) (· = .getThread)
  puts : Served states acts (fun program => program.pool.adding () ≠ none) (· = .put)
  takes : ∀ worker, Served states acts (fun program => program.pool.batch worker = [])
    (· = .take worker)
  works : ∀ worker, Served states acts
    (fun program => program.pool.worked worker = false ∧ program.pool.batch worker ≠ [])
    (· = .work worker)
  addsDone : ∀ worker, Served states acts (fun program => program.pool.worked worker = true)
    (· = .addDone worker)
  takesDone : Served states acts
    (fun program => program.Submitted ∧ program.pool.mainBatch = []) (· = .takeDone)
  callsDone : Served states acts (fun program => program.pool.mainBatch ≠ []) (· = .done)

variable [NeZero n] {server : Server Store} {closing : Bool}

/-! ## `main` leaves its two loops -/

/-- The steps that `main` has in front of it in its two loops. -/
def unsubmitted (program : Program n Store) : Nat :=
  2 * program.pending.length + (program.pool.adding ()).isSome.toNat

theorem step_unsubmitted {program next : Program n Store} {act : Action n}
    (stepped : step server closing program act = some next) :
    next.unsubmitted ≤ program.unsubmitted ∧
      (act = .getThread ∨ act = .put → next.unsubmitted < program.unsubmitted) := by
  cases step_moves stepped with
  | getThread task rest pool pending moved =>
      cases TaskPool.step_moves moved with
      | getThread _ _ idle =>
          have less : unsubmitted
              { program with pool := program.pool.getThread () task, pending := rest } <
              program.unsubmitted := by
            rw [unsubmitted, unsubmitted, pending, idle]
            simp only [TaskPool.getThread, Function.update_self, List.length_cons,
              Option.isSome_some, Option.isSome_none, Bool.toNat_true, Bool.toNat_false]
            omega
          exact ⟨Nat.le_of_lt less, fun _ => less⟩
  | work worker task rest fresh batch => exact ⟨Nat.le_refl _, by simp⟩
  | inPool _ poolAct pool same own calm moved =>
      cases TaskPool.step_moves moved with
      | getThread _ task => exact absurd rfl (own task)
      | work worker _ _ result => exact absurd rfl (calm worker result)
      | take | addDone | takeDone | done =>
          cases same
          exact ⟨Nat.le_refl _, by simp⟩
      | put _ thread task chose =>
          have less : unsubmitted { program with pool := program.pool.addTask () thread task } <
              program.unsubmitted := by
            rw [unsubmitted, unsubmitted, chose]
            simp [TaskPool.addTask]
          exact ⟨Nat.le_of_lt less, fun _ => less⟩

section Run

variable {states : Nat → Program n Store} {acts : Nat → Action n}

theorem leadsTo_submitted (run : Forever (step server closing) states acts)
    (fair : Fair states acts) : LeadsTo states (fun _ => True) Submitted := by
  have busy : LeadsTo states (fun program => ¬program.Submitted) Submitted := by
    refine @leadsTo_of_decreasing _ _ (step server closing) states acts _ _
      (fun act => act = .getThread ∨ act = .put) run unsubmitted ?_ ?_ ?_
    · intro m unsubmitted
      by_cases idle : (states m).pool.adding () = none
      · obtain ⟨later, after, submits⟩ :=
          fair.submits m ⟨fun submitted => unsubmitted ⟨submitted, idle⟩, idle⟩
        exact ⟨later, after, Or.inl submits⟩
      · obtain ⟨later, after, puts⟩ := fair.puts m idle
        exact ⟨later, after, Or.inr puts⟩
    · intro program act next _ stepped
      by_cases submitted : next.Submitted
      · exact Or.inl submitted
      · exact Or.inr ⟨submitted, (step_unsubmitted stepped).1⟩
    · intro program act next _ serving stepped
      by_cases submitted : next.Submitted
      · exact Or.inl submitted
      · exact Or.inr ⟨submitted, (step_unsubmitted stepped).2 serving⟩
  intro m _
  by_cases submitted : (states m).Submitted
  · exact ⟨m, Nat.le_refl m, submitted⟩
  · exact busy m submitted

/-- A run of the program is one of its pool, with the actions that correspond. -/
theorem exists_poolActs (run : Forever (step server closing) states acts) :
    ∃ poolActs : Nat → Task.Action n Unit RedisTask, (∀ m, Same (acts m) (poolActs m)) ∧
      Forever Task.step (fun m => (states m).pool) poolActs := by
  choose poolActs same moved using fun m => step_pool (run m)
  exact ⟨poolActs, same, moved⟩

omit [NeZero n] in
/-- What serves the program serves its pool. -/
theorem served_pool {poolActs : Nat → Task.Action n Unit RedisTask}
    (same : ∀ m, Same (acts m) (poolActs m)) {act : Action n}
    {P : TaskPool n Unit RedisTask → Prop} {Serves : Task.Action n Unit RedisTask → Prop}
    (only : ∀ poolAct, Same act poolAct → Serves poolAct)
    (served : Served states acts (fun program => P program.pool) (· = act)) :
    Served (fun m => (states m).pool) poolActs P Serves := by
  intro m holds
  obtain ⟨later, after, taken⟩ := served m holds
  exact ⟨later, after, only _ (taken ▸ same later)⟩

/-- `main` calls `runInMain` after its two loops. -/
theorem mainIdle_served {poolActs : Nat → Task.Action n Unit RedisTask}
    (run : Forever (step server closing) states acts) (fair : Fair states acts)
    (same : ∀ m, Same (acts m) (poolActs m))
    (poolRun : Forever Task.step (fun m => (states m).pool) poolActs) :
    Served (fun m => (states m).pool) poolActs (fun pool => pool.mainBatch = [])
      (· = .takeDone) := by
  intro m idle
  by_contra never
  have untaken : ∀ later, m ≤ later → poolActs later ≠ .takeDone :=
    fun later after taken => never ⟨later, after, taken⟩
  have stays : ∀ later, m ≤ later → (states later).pool.mainBatch = [] := by
    intro later after
    induction after with
    | refl => exact idle
    | @step later after ih =>
        exact (TaskPool.step_moves (poolRun later)).mainIdle ih (untaken later after)
  obtain ⟨submitted, after, left⟩ := leadsTo_submitted run fair m trivial
  obtain ⟨later, beyond, takes⟩ := fair.takesDone submitted ⟨left, stays submitted after⟩
  have corresponds : Same .takeDone (poolActs later) := takes ▸ same later
  cases taken : poolActs later with
  | takeDone => exact untaken later (Nat.le_trans after beyond) taken
  | getThread | put | take | work | addDone | done =>
      rw [taken] at corresponds
      contradiction

/-- The pool of a fair run is fair. -/
theorem Fair.pool {poolActs : Nat → Task.Action n Unit RedisTask}
    (run : Forever (step server closing) states acts) (fair : Fair states acts)
    (same : ∀ m, Same (acts m) (poolActs m))
    (poolRun : Forever Task.step (fun m => (states m).pool) poolActs) :
    TaskPool.Fair (fun m => (states m).pool) poolActs where
  puts _ := served_pool same (fun _ puts => by cases puts; rfl) fair.puts
  takes worker := served_pool same (fun _ takes => by cases takes; rfl) (fair.takes worker)
  works worker := served_pool same (fun _ works => by cases works; exact ⟨true, rfl⟩)
    (fair.works worker)
  addsDone worker := served_pool same (fun _ adds => by cases adds; rfl) (fair.addsDone worker)
  takesDone := mainIdle_served run fair same poolRun
  callsDone := served_pool same (fun _ calls => by cases calls; rfl) fair.callsDone

/-! ## All tasks -/

/-- `work()` of the tasks returns true. -/
def Succeeds (program : Program n Store) : Prop :=
  ∀ call ∈ program.pool.workCalls, call.result = true

theorem step_succeeds {program next : Program n Store} {act : Action n}
    (succeeds : program.Succeeds) (stepped : step server closing program act = some next) :
    next.Succeeds := by
  cases step_moves stepped with
  | getThread task rest pool pending moved =>
      rwa [Succeeds, workCalls_of_calm (by simp) moved]
  | inPool _ poolAct pool same own calm moved => rwa [Succeeds, workCalls_of_calm calm moved]
  | work worker task rest fresh batch =>
      intro call member
      rw [TaskPool.work_workCalls, List.mem_append, List.mem_singleton] at member
      rcases member with earlier | rfl
      · exact succeeds call earlier
      · rfl

/-- From some moment on `done()` has been called on a task. -/
theorem eventually_done {first maxTask : Nat} {task : RedisTask} (member : task ∈ tasks maxTask)
    (run : Forever (step server closing) states acts) (fair : Fair states acts)
    (inv : ∀ m, Inv first maxTask (states m))
    (tracked : ∀ m, (states m).pool.Tracked)
    (succeeds : ∀ m, (states m).Succeeds) :
    ∃ time, ∀ later, time ≤ later → task ∈ (states later).pool.doneCalls := by
  obtain ⟨poolActs, same, poolRun⟩ := exists_poolActs run
  have poolFair := fair.pool run same poolRun
  obtain ⟨left, _, submitted⟩ := leadsTo_submitted run fair 0 trivial
  have known : task ∈ (states left).pool.submitted := by
    obtain ⟨count, inTurn⟩ := (inv left).inTurn
    have all := inTurn.submitted
    rw [submitted.1, List.append_nil] at all
    rwa [all]
  obtain ⟨worked, _, call, called, rfl⟩ :=
    TaskPool.submitted_leadsTo_called poolRun poolFair task left ⟨tracked left, known⟩
  have passing := (tracked worked).succeeded call.task
    ⟨call, called, rfl, succeeds worked call called⟩
  obtain ⟨time, _, finished⟩ :=
    TaskPool.passing_leadsTo_done poolRun poolFair call.task worked passing
  exact ⟨time, fun later after => poolRun.persists
    (fun _ _ _ finished stepped => (TaskPool.step_moves stepped).doneCalls finished) finished after⟩

/-- `done()` is called once, and on tasks of `main`. -/
theorem Inv.doneCalls {first maxTask : Nat} {program : Program n Store}
    (inv : Inv first maxTask program) :
    program.pool.doneCalls.Nodup ∧
      ∀ task ∈ program.pool.doneCalls, task ∈ tasks maxTask ∧
        task ∈ program.replies.map Prod.fst := by
  refine ⟨inv.pool.conserves.doneOnce, fun task finished => ?_⟩
  obtain ⟨call, called, rfl, _⟩ := inv.pool.conserves.doneAfterWork task finished
  constructor
  · obtain ⟨count, inTurn⟩ := inv.inTurn
    rw [← inTurn.submitted]
    exact List.mem_append_left _ (inv.pool.submissions.added _
      (List.mem_map_of_mem (inv.pool.calls.workedByAssigned called)))
  · rw [inv.replied]
    exact List.mem_map_of_mem called

/-- In every fair run, from some moment on `done()` has been called once on every task, and if
the number of threads divides the number of keys, every `GetTask` has found its value. -/
theorem main_finishes {curThreadIdx maxTask : Nat} {store : Store}
    (run : Forever (step server closing) states acts)
    (first : states 0 = start curThreadIdx maxTask store) (fair : Fair states acts) :
    ∃ time, ∀ later, time ≤ later →
      (states later).pool.doneCalls.Perm (tasks maxTask) ∧
        (n ∣ maxTask → (n ∣ 2 ^ 32 ∨ uint32 curThreadIdx + 2 * maxTask ≤ 2 ^ 32) →
          ∀ idx < maxTask, (.get idx, found (value idx)) ∈ (states later).replies) := by
  have begins : states 0 = start (uint32 curThreadIdx) maxTask store := by
    rw [first, start_uint32]
  have inv := run.invariant (fun _ _ _ inv stepped => step_inv inv stepped)
    (begins ▸ start_inv (uint32 curThreadIdx) maxTask store)
  have succeeds := run.invariant (fun _ _ _ succeeds stepped => step_succeeds succeeds stepped)
    (by rw [first]; exact fun _ absent => absurd absent List.not_mem_nil)
  obtain ⟨poolActs, same, poolRun⟩ := exists_poolActs run
  have tracked := poolRun.invariant
    (fun _ _ _ tracked stepped => TaskPool.step_tracked tracked stepped)
    (by rw [first]; exact TaskPool.start_tracked curThreadIdx)
  obtain ⟨time, finished⟩ := eventually_all fun task member =>
    eventually_done member run fair inv tracked succeeds
  refine ⟨time, fun later after => ⟨?_, fun divides rotates idx below => ?_⟩⟩
  · obtain ⟨once, own⟩ := (inv later).doneCalls
    exact (List.perm_ext_iff_of_nodup once (tasks_nodup maxTask)).mpr fun task =>
      ⟨fun called => (own task called).1, finished later after task⟩
  · have member : .get idx ∈ tasks maxTask := List.mem_of_getElem? (tasks_get below)
    have replied := ((inv later).doneCalls.2 _ (finished later after _ member)).2
    obtain ⟨⟨_, reply⟩, answered, rfl⟩ := List.mem_map.mp replied
    have safe : Safe n server store (uint32 curThreadIdx) maxTask idx :=
      Or.inl ((turn_eq_iff below rotates).mpr divides)
    have finds := run.invariant (fun _ _ _ finds stepped => step_finds below safe finds stepped)
      (begins ▸ start_finds server (uint32 curThreadIdx) maxTask idx store) later
    rwa [← finds.reads reply answered]

end Run

/-! ## A run -/

/-- Two keys and two threads, the tasks of a key on one of them.  Then the threads find nothing
to do. -/
def twoKeys (first second : Fin n) : Nat → Action n
  | 0 | 2 | 4 | 6 => .getThread
  | 1 | 3 | 5 | 7 => .put
  | 8 => .take first
  | 9 => .take second
  | 10 | 14 => .work first
  | 11 | 15 => .work second
  | 12 | 16 => .addDone first
  | 13 | 17 => .addDone second
  | 18 => .takeDone
  | 19 | 20 | 21 | 22 => .done
  | m + 23 => if m % 3 = 0 then .take first else if m % 3 = 1 then .take second else .takeDone

/-- The states of this run. -/
abbrev twoKeysStates (first second : Fin n) : Nat → Program n (Text → Option Text) :=
  follow (step keyValues false) (start 7 2 fun _ => none) (twoKeys first second)

/-- `main` and the threads have nothing to do. -/
structure Quiet (program : Program n Store) : Prop where
  pending : program.pending = []
  pool : program.pool.Quiet

omit [NeZero n] in
theorem Quiet.submitted {program : Program n Store} (quiet : Quiet program) :
    program.Submitted :=
  ⟨quiet.pending, quiet.pool.adding ()⟩

theorem Quiet.take {program : Program n Store} (quiet : Quiet program) (worker : Fin n) :
    ∃ next, step server closing program (.take worker) = some next ∧ Quiet next := by
  obtain ⟨taken, stays⟩ := quiet.pool.take worker
  refine ⟨{ program with pool := program.pool.take worker }, ?_, quiet.pending, stays⟩
  rw [step, inPool, taken, Option.map_some]

theorem Quiet.takeDone {program : Program n Store} (quiet : Quiet program) :
    ∃ next, step server closing program .takeDone = some next ∧ Quiet next := by
  obtain ⟨taken, stays⟩ := quiet.pool.takeDone
  refine ⟨{ program with pool := program.pool.takeDone }, ?_, quiet.pending, stays⟩
  rw [step, if_pos quiet.submitted, inPool, taken, Option.map_some]

theorem twoKeys_goesOn {program : Program n Store} (quiet : Quiet program)
    (first second : Fin n) (m : Nat) :
    ∃ next, step server closing program (twoKeys first second (m + 23)) = some next ∧
      Quiet next := by
  rw [twoKeys]
  split
  · exact quiet.take first
  split
  · exact quiet.take second
  · exact quiet.takeDone

theorem twoKeys_settles :
    Settles (step keyValues false) (start 7 2 fun _ => none) (twoKeys (0 : Fin 2) 1) 23 Quiet where
  enabled := by decide +kernel
  quiet := by refine ⟨?_, fun () => ?_, ?_, ?_, ?_, ?_, ?_⟩ <;> decide +kernel
  goesOn m _ quiet := twoKeys_goesOn quiet 0 1 m

theorem twoKeys_fair : Fair (twoKeysStates (0 : Fin 2) 1) (twoKeys 0 1) where
  submits := twoKeys_settles.served 6 rfl (by decide +kernel)
    fun _ quiet holds => holds.1 quiet.pending
  puts := twoKeys_settles.served 7 rfl (by decide +kernel)
    fun _ quiet chose => chose (quiet.pool.adding ())
  takes worker m _ := by
    match worker with
    | 0 => exact ⟨3 * m + 23, by omega, by simp [twoKeys]⟩
    | 1 => exact ⟨3 * m + 1 + 23, by omega, by simp [twoKeys, Nat.add_mod]⟩
  works worker := by
    have late (program : Program 2 (Text → Option Text)) (quiet : Quiet program) :
        ¬(program.pool.worked worker = false ∧ program.pool.batch worker ≠ []) :=
      fun busy => busy.2 (quiet.pool.batch worker)
    match worker with
    | 0 => exact twoKeys_settles.served 14 rfl (by decide +kernel) late
    | 1 => exact twoKeys_settles.served 15 rfl (by decide +kernel) late
  addsDone worker := by
    have late (program : Program 2 (Text → Option Text)) (quiet : Quiet program) :
        ¬program.pool.worked worker = true :=
      fun success => Bool.false_ne_true ((quiet.pool.worked worker).symm.trans success)
    match worker with
    | 0 => exact twoKeys_settles.served 16 rfl (by decide +kernel) late
    | 1 => exact twoKeys_settles.served 17 rfl (by decide +kernel) late
  takesDone m _ := ⟨3 * m + 2 + 23, by omega, by simp [twoKeys, Nat.add_mod]⟩
  callsDone := twoKeys_settles.served 22 rfl (by decide +kernel)
    fun _ quiet busy => busy quiet.pool.mainBatch

/-- The theorem at this run. -/
theorem twoKeys_finish :
    ∃ time, ∀ later, time ≤ later →
      (twoKeysStates (0 : Fin 2) 1 later).pool.doneCalls.Perm (tasks 2) ∧
        ∀ idx < 2, (.get idx, found (value idx)) ∈ (twoKeysStates (0 : Fin 2) 1 later).replies := by
  obtain ⟨time, finished⟩ := main_finishes twoKeys_settles.forever rfl twoKeys_fair
  refine ⟨time, fun later after => ?_⟩
  obtain ⟨called, answered⟩ := finished later after
  exact ⟨called, answered (by decide) (Or.inl (by decide))⟩

end Cncpp.Redis.Async.Program
