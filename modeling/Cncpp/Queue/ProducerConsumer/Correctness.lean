import Cncpp.Queue.ProducerConsumer.Core
import Mathlib.Data.List.Basic

/-!
# No value and no wake-up is lost

Every push comes with a notification, and a thread blocks only where the queue is empty.
Therefore, while a thread is blocked, there are at least as many woken threads as values:
this is the invariant behind the absence of lost wake-ups.  It does not say that a woken
thread gets a value, since `Pop` or a new call of `WaitAndPop` may be first.
-/

namespace Cncpp.Queue

open Cncpp.Transition

namespace ProducerConsumerQueue

variable {Thread T : Type} [DecidableEq Thread]

/-! ## Taking a value -/

omit [DecidableEq Thread] in
/-- `Pop` takes the first value, unless there is none or `Cancel` has been called. -/
theorem pop_cases (queue : ProducerConsumerQueue T) :
    (∃ front rest, queue = ⟨front :: rest, false⟩ ∧ queue.pop = (some front, ⟨rest, false⟩)) ∨
      ((queue.queue = [] ∨ queue.shutdown = true) ∧ queue.pop = (none, queue)) := by
  obtain ⟨values, shutdown⟩ := queue
  cases shutdown with
  | true => exact Or.inr ⟨Or.inr rfl, rfl⟩
  | false =>
      cases values with
      | nil => exact Or.inr ⟨Or.inl rfl, rfl⟩
      | cons front rest => exact Or.inl ⟨front, rest, rfl, rfl⟩

omit [DecidableEq Thread] in
theorem mustWait_iff {queue : ProducerConsumerQueue T} :
    queue.mustWait = true ↔ queue.queue = [] ∧ queue.shutdown = false := by
  rw [mustWait, Bool.and_eq_true, List.isEmpty_iff, Bool.not_eq_true']

/-! ## Accounts and wake-ups -/

/-- What holds in every state of a queue. -/
structure Safe (state : State Thread T) : Prop where
  /-- Every pushed value is taken once, removed by `Cancel`, or still there, in the order of
  the pushes. -/
  accounts : state.popped ++ state.discarded ++ state.queue.queue = state.pushed
  /-- Before `Cancel` nothing has been removed by it. -/
  running : state.queue.shutdown = false → state.discarded = []
  /-- `WaitAndPop` comes back without a value only after `Cancel`. -/
  answers : (Call.waitAndPop, none) ∈ state.outcomes → state.queue.shutdown = true
  /-- While a thread is blocked, `Cancel` has not been called and there is a woken thread for
  every value in the queue. -/
  awake : state.waiting ≠ [] →
    state.queue.shutdown = false ∧ state.queue.queue.length ≤ state.woken.length

omit [DecidableEq Thread] in
theorem popped_finish (state : State Thread T) (call : Call) :
    (state.finish call).popped = state.popped ++ state.queue.pop.1.toList := by
  cases taken : state.queue.pop.1 <;> simp [State.popped, State.finish, taken]

omit [DecidableEq Thread] in
theorem Safe.push {state : State Thread T} (safe : Safe state) (value : T)
    (nobody : state.waiting = []) : Safe (state.push value) where
  accounts := by
    change state.popped ++ state.discarded ++ (state.queue.queue ++ [value]) =
      state.pushed ++ [value]
    rw [← List.append_assoc, safe.accounts]
  running := safe.running
  answers := safe.answers
  awake := fun blocked => absurd nobody blocked

/-- A notification makes up for the value that is pushed. -/
theorem Safe.pushWake {state : State Thread T} (safe : Safe state) (value : T)
    {thread : Thread} (blocked : thread ∈ state.waiting) :
    Safe ((state.push value).wake thread) where
  accounts := by
    change state.popped ++ state.discarded ++ (state.queue.queue ++ [value]) =
      state.pushed ++ [value]
    rw [← List.append_assoc, safe.accounts]
  running := safe.running
  answers := safe.answers
  awake := by
    intro _
    obtain ⟨running, enough⟩ := safe.awake (List.ne_nil_of_mem blocked)
    refine ⟨running, ?_⟩
    change (state.queue.queue ++ [value]).length ≤ (thread :: state.woken).length
    rw [List.length_append, List.length_singleton, List.length_cons]
    exact Nat.succ_le_succ enough

theorem Safe.wake {state : State Thread T} (safe : Safe state) {thread : Thread}
    (blocked : thread ∈ state.waiting) : Safe (state.wake thread) where
  accounts := safe.accounts
  running := safe.running
  answers := safe.answers
  awake := by
    intro _
    obtain ⟨running, enough⟩ := safe.awake (List.ne_nil_of_mem blocked)
    exact ⟨running, Nat.le_succ_of_le enough⟩

omit [DecidableEq Thread] in
theorem Safe.cancel {state : State Thread T} (safe : Safe state) : Safe state.cancel where
  accounts := by
    change state.popped ++ (state.discarded ++ state.queue.queue) ++ [] = state.pushed
    rw [List.append_nil, ← List.append_assoc, safe.accounts]
  running := fun running => by contradiction
  answers := fun _ => rfl
  awake := fun blocked => absurd rfl blocked

omit [DecidableEq Thread] in
/-- A call that ends takes the first value or finds none.  Where a value is left for a
blocked thread, a woken one may be gone with the value that is taken. -/
theorem Safe.finish {state : State Thread T} (safe : Safe state) {call : Call}
    (looked : call = .waitAndPop → state.queue.mustWait = false) {woken : List Thread}
    (fewer : woken = state.woken ∨ call = .waitAndPop ∧ state.woken.length ≤ woken.length + 1) :
    Safe (({ state with woken := woken } : State Thread T).finish call) := by
  rcases pop_cases state.queue with ⟨front, rest, held, taken⟩ | ⟨refused, taken⟩
  · have running : state.queue.shutdown = false := by rw [held]
    have values : state.queue.queue = front :: rest := by rw [held]
    refine ⟨?_, ?_, ?_, ?_⟩
    · rw [popped_finish]
      change state.popped ++ state.queue.pop.1.toList ++ state.discarded ++
        state.queue.pop.2.queue = state.pushed
      rw [taken, ← safe.accounts, safe.running running, values]
      simp
    · exact fun _ => safe.running running
    · intro empty
      change (Call.waitAndPop, none) ∈ state.outcomes ++ [(call, state.queue.pop.1)] at empty
      rw [taken] at empty
      have earlier := safe.answers (by simpa using empty)
      rw [running] at earlier
      contradiction
    · intro blocked
      obtain ⟨_, enough⟩ := safe.awake blocked
      refine ⟨congrArg (fun result => result.2.shutdown) taken, ?_⟩
      change state.queue.pop.2.queue.length ≤ woken.length
      rw [values, List.length_cons] at enough
      rw [taken]
      rcases fewer with rfl | ⟨_, fewer⟩
      · exact Nat.le_of_succ_le enough
      · exact Nat.le_of_succ_le_succ (Nat.le_trans enough fewer)
  · have unchanged : state.queue.pop.2 = state.queue := by rw [taken]
    refine ⟨?_, ?_, ?_, ?_⟩
    · rw [popped_finish]
      change state.popped ++ state.queue.pop.1.toList ++ state.discarded ++
        state.queue.pop.2.queue = state.pushed
      rw [taken]
      simpa using safe.accounts
    · intro running
      exact safe.running (unchanged ▸ running)
    · intro empty
      change state.queue.pop.2.shutdown = true
      rw [unchanged]
      change (Call.waitAndPop, none) ∈ state.outcomes ++ [(call, state.queue.pop.1)] at empty
      rcases List.mem_append.mp empty with earlier | now
      · exact safe.answers earlier
      · rw [taken] at now
        obtain rfl : Call.waitAndPop = call := congrArg Prod.fst (List.mem_singleton.mp now)
        by_contra running
        rw [Bool.not_eq_true] at running
        have waits := mustWait_iff.mpr ⟨refused.resolve_right (by simp [running]), running⟩
        rw [looked rfl] at waits
        contradiction
    · intro blocked
      obtain ⟨running, enough⟩ := safe.awake blocked
      have empty : state.queue.queue = [] := refused.resolve_right (by simp [running])
      refine ⟨by rw [← running]; exact congrArg shutdown unchanged, ?_⟩
      change state.queue.pop.2.queue.length ≤ woken.length
      rw [unchanged, empty]
      exact Nat.zero_le _

omit [DecidableEq Thread] in
/-- A thread blocks only where the queue is empty, and where it does not block it may have
been a woken one. -/
theorem Safe.enter {state : State Thread T} (safe : Safe state) (thread : Thread)
    {woken : List Thread} (fewer : state.woken.length ≤ woken.length + 1) :
    Safe (({ state with woken := woken } : State Thread T).enter thread) := by
  rw [State.enter]
  split
  · rename_i waits
    obtain ⟨empty, running⟩ := mustWait_iff.mp waits
    refine ⟨safe.accounts, safe.running, safe.answers, fun _ => ⟨running, ?_⟩⟩
    change state.queue.queue.length ≤ woken.length
    change state.queue.queue = [] at empty
    rw [empty]
    exact Nat.zero_le _
  · rename_i leaves
    exact safe.finish (fun _ => Bool.eq_false_iff.mpr leaves) (Or.inr ⟨rfl, fewer⟩)

theorem Moves.safe {state next : State Thread T} (moves : Moves state next)
    (safe : Safe state) : Safe next := by
  cases moves with
  | push value nobody => exact safe.push value nobody
  | pushWake value thread blocked => exact safe.pushWake value blocked
  | pop => exact safe.finish (fun same => by contradiction) (Or.inl rfl)
  | waitAndPop thread => exact safe.enter thread (Nat.le_succ _)
  | wake thread blocked => exact safe.wake blocked
  | resume thread ready =>
      refine safe.enter thread ?_
      rw [List.length_erase_of_mem ready]
      exact Nat.le_add_of_sub_le (Nat.le_refl _)
  | cancel => exact safe.cancel

/-- A queue that has just been constructed. -/
def start : State Thread T := {}

omit [DecidableEq Thread] in
theorem start_safe : Safe (start : State Thread T) where
  accounts := rfl
  running := fun _ => rfl
  answers := fun absent => by contradiction
  awake := fun blocked => absurd rfl blocked

/-- Whatever the threads do and whichever of them are notified, no value is lost, duplicated
or overtaken, and no wake-up is lost. -/
theorem run_loses_nothing {acts : List (Action Thread T)} {final : State Thread T}
    (run : exec step start acts = some final) : Safe final :=
  invariant_exec (fun _ _ _ safe stepped => (step_moves stepped).safe safe) start_safe run

/-- Two threads block, one is notified, and the value goes to neither of them. -/
def overtaken : List (Action Bool Nat) :=
  [.waitAndPop false, .waitAndPop true, .push 5 (some true), .pop, .resume true, .cancel,
    .resume false]

/-- The theorem at this run. -/
theorem overtaken_loses_nothing : ∃ final, exec step start overtaken = some final ∧
    final.outcomes = [(.pop, some 5), (.waitAndPop, none)] ∧ Safe final := by
  have run : ∃ final, exec step start overtaken = some final ∧
      final.outcomes = [(.pop, some 5), (.waitAndPop, none)] := ⟨_, rfl, rfl⟩
  obtain ⟨final, ran, outcomes⟩ := run
  exact ⟨final, ran, outcomes, run_loses_nothing ran⟩

end ProducerConsumerQueue

end Cncpp.Queue
