import Cncpp.Cycle.Rotation
import Cncpp.Loop.Bounded
import Cncpp.Task.Core
import Cncpp.Transition.Answer

/-!
# Choosing threads

`TaskPool::getThread` takes the threads in turn: it counts its calls and reduces the count
modulo the number of threads.  The counter has 32 bits and no initialiser, so that its first
value is anything.

The calls of all submitters are in the order of their atomic increments.
-/

namespace Cncpp.Task

open Cncpp.Cycle
open Cncpp.Loop
open Cncpp.Machine
open Cncpp.Transition

/-- The members of `TaskPool` that `init` and `getThread` use. -/
structure PoolThreads where
  curThreadIdx : Nat
  threadSize : Nat
  /-- A thread is known by the number of threads made before it. -/
  threadVec : List Nat
  deriving DecidableEq

namespace PoolThreads

/-- `TaskPool(uint16_t size)`, with the value that `cur_thread_idx_` happens to have. -/
def new (size curThreadIdx : Nat) : PoolThreads :=
  ⟨uint32 curThreadIdx, uint16 size, []⟩

/-- `init`, with the value it returns.  The index of the loop has 16 bits; `none` would mean
that the loop does not end. -/
def init (pool : PoolThreads) : Option (Bool × PoolThreads) :=
  if pool.threadSize < 1 then some (false, pool)
  else
    (run (countedPass (fun idx => uint16 (idx + 1)) pool.threadSize extend)
      (pool.threadSize + 1) (0, pool.threadVec)).map fun threadVec =>
        (true, { pool with threadVec := threadVec })

/-- `getThread`: the index that is passed to `at`, and the thread there. -/
def getThread : Method PoolThreads Unit (Selection Nat)
  | pool, () =>
      (select pool.threadVec (pool.curThreadIdx % pool.threadSize),
        { pool with curThreadIdx := uint32 (pool.curThreadIdx + 1) })

/-- An initialised pool of `n` threads after the counter has reached `count`. -/
def counted (n count : Nat) : PoolThreads :=
  ⟨uint32 count, n, List.range n⟩

theorem counted_uint32 (n count : Nat) : counted n (uint32 count) = counted n count := by
  rw [counted, uint32_of_lt (uint32_lt count), counted]

/-- `init` ends, with one thread for every number below the size. -/
theorem init_new {n : Nat} (positive : 0 < n) (fits : n < 2 ^ 16) (curThreadIdx : Nat) :
    (new n curThreadIdx).init = some (true, counted n curThreadIdx) := by
  have size : (new n curThreadIdx).threadSize = n := uint16_of_lt fits
  have started : ¬n < 1 := by omega
  have counts : ∀ idx < n, uint16 (idx + 1) = idx + 1 :=
    fun idx below => uint16_of_lt (by omega)
  have threads : (new n curThreadIdx).threadVec = [] := rfl
  rw [init, size, if_neg started, threads, run_extend counts]
  rfl

theorem getThread_counted (n i : Nat) :
    (counted n i).getThread () =
      (select (List.range n) (i % 2 ^ 32 % n), counted n (i + 1)) := by
  have next : uint32 (uint32 i + 1) = uint32 (i + 1) := uint32_add_uint32 i 1
  rw [getThread]
  simp only [counted, next]
  rfl

/-- The choices of any number of calls. -/
theorem answers_getThread (n curThreadIdx count : Nat) :
    answers getThread (counted n curThreadIdx) (List.replicate count ()) =
      ((List.range' (uint32 curThreadIdx) count).map fun i =>
          select (List.range n) (i % 2 ^ 32 % n),
        counted n (uint32 curThreadIdx + count)) := by
  rw [← counted_uint32]
  exact answers_replicate (getThread_counted n) (uint32 curThreadIdx) count

end PoolThreads

/-! ## All steps of the pool -/

section System

variable {n : Nat} {Submitter Task : Type} [NeZero n] [DecidableEq Submitter] [DecidableEq Task]

/-- The threads that `getThread` chooses in a run of all threads, in order. -/
def chosen : TaskPool n Submitter Task → List (Action n Submitter Task) → List Nat
  | _, [] => []
  | pool, act :: acts =>
      match step pool act with
      | none => []
      | some next =>
          match act with
          | .getThread submitter _ =>
              ((next.adding submitter).map fun entry => entry.1.val).toList ++ chosen next acts
          | _ => chosen next acts

/-- A step of `getThread` chooses the residue of the counter; no other step uses it. -/
theorem step_curThreadIdx {pool next : TaskPool n Submitter Task}
    {act : Action n Submitter Task} (stepped : step pool act = some next) :
    (∃ submitter task thread, act = .getThread submitter task ∧
        next.adding submitter = some (thread, task) ∧ thread.val = pool.curThreadIdx % n ∧
        next.curThreadIdx = uint32 (pool.curThreadIdx + 1)) ∨
      ((∀ submitter task, act ≠ .getThread submitter task) ∧
        next.curThreadIdx = pool.curThreadIdx) := by
  cases act with
  | getThread submitter task =>
      simp only [step, Option.ite_none_right_eq_some, Option.some.injEq] at stepped
      obtain ⟨_, rfl⟩ := stepped
      exact Or.inl ⟨submitter, task, _, rfl, Function.update_self _ _ _, rfl, rfl⟩
  | put submitter =>
      simp only [step, Option.map_eq_some_iff] at stepped
      obtain ⟨_, _, rfl⟩ := stepped
      exact Or.inr ⟨nofun, rfl⟩
  | take worker =>
      simp only [step, Option.ite_none_right_eq_some, Option.some.injEq] at stepped
      obtain ⟨_, rfl⟩ := stepped
      exact Or.inr ⟨nofun, rfl⟩
  | work worker result =>
      simp only [step] at stepped
      split at stepped
      · cases stepped
        cases result <;> exact Or.inr ⟨nofun, rfl⟩
      · contradiction
  | addDone worker =>
      simp only [step] at stepped
      split at stepped
      · cases stepped
        exact Or.inr ⟨nofun, rfl⟩
      · contradiction
  | takeDone =>
      simp only [step, Option.ite_none_right_eq_some, Option.some.injEq] at stepped
      obtain ⟨_, rfl⟩ := stepped
      exact Or.inr ⟨nofun, rfl⟩
  | done =>
      simp only [step] at stepped
      split at stepped
      · cases stepped
        exact Or.inr ⟨nofun, rfl⟩
      · contradiction

/-- In every run of submitters, workers and the main thread, the choices are residues of
consecutive counts. -/
theorem chosen_eq_residues {pool : TaskPool n Submitter Task} {first : Nat}
    (counter : pool.curThreadIdx = uint32 first) (acts : List (Action n Submitter Task)) :
    chosen pool acts =
      (List.range' first (chosen pool acts).length).map fun i => i % 2 ^ 32 % n := by
  induction acts generalizing pool first with
  | nil => rfl
  | cons act acts ih =>
      rw [chosen]
      cases stepped : step pool act with
      | none => rfl
      | some next =>
          simp only
          rcases step_curThreadIdx stepped with
            ⟨submitter, task, thread, rfl, adding, value, counts⟩ | ⟨others, same⟩
          · rw [counter, uint32_add_uint32] at counts
            rw [counter] at value
            simp only [adding, Option.map_some, Option.toList_some, List.singleton_append,
              List.length_cons, List.range'_succ, List.map_cons]
            rw [value, ← ih counts]
            rfl
          · have rest := ih (same.trans counter)
            cases act with
            | getThread submitter task => exact absurd rfl (others submitter task)
            | put submitter => exact rest
            | take worker => exact rest
            | work worker result => exact rest
            | addDone worker => exact rest
            | takeDone => exact rest
            | done => exact rest

/-- In every run, any `n` submissions in a row go to different threads exactly when `n`
divides `2 ^ 32`, there are fewer submissions, or the counter does not start again. -/
theorem chosen_rotates_iff (curThreadIdx : Nat) (acts : List (Action n Submitter Task)) :
    Rotates n (chosen (start curThreadIdx) acts) ↔
      n ∣ 2 ^ 32 ∨ (chosen (start curThreadIdx) acts).length < n ∨
        uint32 curThreadIdx + (chosen (start curThreadIdx) acts).length ≤ 2 ^ 32 := by
  have counter : (start curThreadIdx : TaskPool n Submitter Task).curThreadIdx =
      uint32 (uint32 curThreadIdx) := (uint32_of_lt (uint32_lt curThreadIdx)).symm
  rw [← rotates_residues_iff (Nat.pos_of_neZero n) (uint32_lt curThreadIdx),
    ← chosen_eq_residues counter]

end System

/-! ## Calls of `getThread` -/

/-- All indices are inside of the table of threads.  Any `n` calls in a row choose different
threads exactly when `n` divides `2 ^ 32`, there are fewer calls, or the counter does not
start again. -/
theorem getThread_roundRobin_iff {n : Nat} (positive : 0 < n) (fits : n < 2 ^ 16)
    (curThreadIdx count : Nat) :
    ∃ pool, (PoolThreads.new n curThreadIdx).init = some (true, pool) ∧
      (∀ selection ∈ (answers PoolThreads.getThread pool (List.replicate count ())).1,
        selection.index < pool.threadVec.length) ∧
      (RoundRobin n pool.threadVec.length
          (answers PoolThreads.getThread pool (List.replicate count ())).1 ↔
        n ∣ 2 ^ 32 ∨ count < n ∨ uint32 curThreadIdx + count ≤ 2 ^ 32) := by
  refine ⟨_, PoolThreads.init_new positive fits curThreadIdx, ?_⟩
  have table : (PoolThreads.counted n curThreadIdx).threadVec.length = n := List.length_range
  rw [PoolThreads.answers_getThread, table]
  constructor
  · intro selection member
    obtain ⟨i, _, rfl⟩ := List.mem_map.mp member
    exact Nat.mod_lt _ positive
  · have exactly := roundRobin_residues_iff (List.nodup_range (n := n))
      (by rwa [List.length_range]) (uint32_lt curThreadIdx) count
    rw [List.length_range] at exactly
    exact exactly

/-- With four threads the rotation goes on when the counter starts again. -/
theorem fourThreads_roundRobin :
    ∃ pool, (PoolThreads.new 4 4294967294).init = some (true, pool) ∧
      RoundRobin 4 pool.threadVec.length
        (answers PoolThreads.getThread pool (List.replicate 9 ())).1 := by
  obtain ⟨pool, initialised, _, exactly⟩ :=
    getThread_roundRobin_iff (by decide : 0 < 4) (by decide) 4294967294 9
  exact ⟨pool, initialised, exactly.mpr (Or.inl (by decide))⟩

/-- With three threads the last choice before the counter starts again is repeated. -/
theorem threeThreads_repeat :
    ∃ pool, (PoolThreads.new 3 4294967295).init = some (true, pool) ∧
      (answers PoolThreads.getThread pool (List.replicate 3 ())).1 =
        [⟨0, some 0⟩, ⟨0, some 0⟩, ⟨1, some 1⟩] ∧
      ¬RoundRobin 3 pool.threadVec.length
        (answers PoolThreads.getThread pool (List.replicate 3 ())).1 := by
  refine ⟨_, rfl, by decide, fun goesRound => ?_⟩
  have window := goesRound.rotates 0
  revert window
  decide

end Cncpp.Task
