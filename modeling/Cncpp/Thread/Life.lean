import Cncpp.Transition.Run
import Mathlib.Data.List.Basic

/-!
# The life of a thread

`Thread` starts a loop thread that calls `run` until `isStop` answers true.  `start`
stores the flag first and then looks at `thrd_ptr_`, so it takes two steps, between
which the loop thread may act.  `join` never resets `thrd_ptr_`: the pointer tells that
a thread was created once, not that one lives.

The loop threads of one object are kept in the order of their creation.  The owner
calls `start`, `stop` and `join` one after the other.
-/

namespace Cncpp.Thread

open Cncpp.Transition

/-- A loop thread: it is about to test `isStop`, inside of `run`, or has left the loop. -/
inductive LoopThread where
  | testing
  | running
  | dead
  deriving DecidableEq

/-- The loop thread will test `isStop` again. -/
def LoopThread.alive : LoopThread → Bool
  | dead => false
  | _ => true

/-- The `std::thread` that `thrd_ptr_` points to: its loop thread, and whether it has not
been joined. -/
structure StdThread where
  loop : Nat
  joinable : Bool
  deriving DecidableEq

/-- Where the owner is. -/
inductive Owner where
  | idle
  /-- `start` has stored the flag and not yet tested `thrd_ptr_`. -/
  | starting
  deriving DecidableEq

/-- An object of `class Thread` and its loop threads. -/
structure State where
  stopped : Bool
  thrdPtr : Option StdThread
  threads : List LoopThread
  owner : Owner
  /-- History: some `start` has returned, and no `stop` has been called after it. -/
  started : Bool
  deriving DecidableEq

/-- The steps of the owner and of a loop thread. -/
inductive Action where
  | start
  | startReturns
  | stop
  | join
  | loop (index : Nat)
  deriving DecidableEq

/-- After the constructor. -/
def new : State :=
  ⟨true, none, [], .idle, false⟩

/-- The rest of `start` after the flag is stored. -/
def State.startReturns (state : State) : State :=
  match state.thrdPtr with
  | none =>
      { state with
        thrdPtr := some ⟨state.threads.length, true⟩
        threads := state.threads ++ [.testing]
        owner := .idle
        started := true }
  | some _ => { state with owner := .idle, started := true }

/-- `join`, called after `stop`.  It returns when the loop thread is dead. -/
def State.join (state : State) : Option State :=
  match state.thrdPtr with
  | some ⟨index, true⟩ =>
      if state.threads[index]? = some .dead then
        some { state with thrdPtr := some ⟨index, false⟩ }
      else none
  | _ => some state

/-- One pass of `thrdloop` is a test of `isStop` and, if it answers false, a `run`. -/
def LoopThread.next (stopped : Bool) : LoopThread → Option LoopThread
  | testing => some (if stopped then dead else running)
  | running => some testing
  | dead => none

/-- One step. -/
def step : Step State Action
  | state, .start =>
      if state.owner = .idle then some { state with stopped := false, owner := .starting }
      else none
  | state, .startReturns =>
      if state.owner = .starting then some state.startReturns else none
  | state, .stop =>
      if state.owner = .idle then some { state with stopped := true, started := false }
      else none
  | state, .join =>
      if state.owner = .idle ∧ state.stopped = true then state.join else none
  | state, .loop index =>
      (state.threads[index]?).bind fun thread =>
        (thread.next state.stopped).map fun after =>
          { state with threads := state.threads.set index after }

/-- What is expected of the loop threads. -/
structure Safe (state : State) : Prop where
  /-- A started object has a loop thread that will test `isStop` again. -/
  live : state.started = true → ∃ thread ∈ state.threads, thread.alive = true
  /-- There is never more than one. -/
  single : (state.threads.filter LoopThread.alive).length ≤ 1

/-- When `start` tests `thrd_ptr_`, it is null, or its loop thread is alive. -/
def Keeps (state : State) : Action → Prop
  | .startReturns => ∀ pointer ∈ state.thrdPtr,
      ∃ thread ∈ state.threads[pointer.loop]?, thread.alive = true
  | _ => True

/-- The relation of the flag, the pointer and the threads. -/
structure Inv (state : State) : Prop where
  /-- At most one loop thread is ever created. -/
  created : match state.thrdPtr with
    | none => state.threads = []
    | some pointer => pointer.loop = 0 ∧ state.threads.length = 1
  flag : state.started = true ∨ state.owner = .starting → state.stopped = false

theorem new_inv : Inv new where
  created := rfl
  flag := by simp [new]

theorem new_safe : Safe new where
  live := by simp [new]
  single := by simp [new]

/-! ## One step -/

/-- With at most one thread there is at most one live thread. -/
theorem Inv.single {state : State} (inv : Inv state) :
    (state.threads.filter LoopThread.alive).length ≤ 1 := by
  have created := inv.created
  cases pointer : state.thrdPtr with
  | none =>
      rw [pointer] at created
      simp [created]
  | some stdThread =>
      rw [pointer] at created
      exact Nat.le_trans (List.length_filter_le _ _) (Nat.le_of_eq created.2)

/-- With the invariant only the live thread is in question. -/
theorem Inv.safe_iff {state : State} (inv : Inv state) :
    Safe state ↔ (state.started = true → ∃ thread ∈ state.threads, thread.alive = true) :=
  ⟨Safe.live, fun live => ⟨live, inv.single⟩⟩

/-- A loop thread whose flag is not set stays alive. -/
theorem LoopThread.next_alive {thread after : LoopThread}
    (moved : thread.next false = some after) : after.alive = true := by
  cases thread with
  | testing => cases moved; rfl
  | running => cases moved; rfl
  | dead => cases moved

/-- `start` returns with a live thread exactly when the pointer was null or its thread
was alive. -/
theorem startReturns_inv {state : State} (inv : Inv state) (owner : state.owner = .starting) :
    Inv state.startReturns ∧ (Safe state.startReturns ↔ Keeps state .startReturns) := by
  have created := inv.created
  have flag := inv.flag (Or.inr owner)
  cases found : state.thrdPtr with
  | none =>
      rw [found] at created
      have after : Inv state.startReturns := by
        constructor
        · simp [State.startReturns, found, created]
        · simp [State.startReturns, found, flag]
      refine ⟨after, after.safe_iff.trans ?_⟩
      simp [State.startReturns, found, Keeps, LoopThread.alive]
  | some pointer =>
      rw [found] at created
      obtain ⟨only, single⟩ := List.length_eq_one_iff.mp created.2
      have after : Inv state.startReturns := by
        constructor
        · simpa [State.startReturns, found] using created
        · simp [State.startReturns, found, flag]
      refine ⟨after, after.safe_iff.trans ?_⟩
      simp [State.startReturns, found, Keeps, created.1, single]

/-- A step of a loop thread keeps the number of threads, and kills none that is needed. -/
theorem loop_inv {state : State} (inv : Inv state) {index : Nat} {thread after : LoopThread}
    (found : state.threads[index]? = some thread)
    (moved : thread.next state.stopped = some after) :
    Inv { state with threads := state.threads.set index after } ∧
      Safe { state with threads := state.threads.set index after } := by
  have next : Inv { state with threads := state.threads.set index after } := by
    constructor
    · have created := inv.created
      cases pointer : state.thrdPtr with
      | none =>
          rw [pointer] at created
          simp [created]
      | some stdThread =>
          rw [pointer] at created
          simpa using created
    · exact inv.flag
  refine ⟨next, next.safe_iff.mpr fun started => ?_⟩
  rw [inv.flag (Or.inl started)] at moved
  obtain ⟨inside, _⟩ := List.getElem?_eq_some_iff.mp found
  exact ⟨after, List.mem_set inside after, LoopThread.next_alive moved⟩

/-- A step keeps the threads as expected exactly when it meets the condition. -/
theorem step_safe_iff {state next : State} {act : Action} (inv : Inv state)
    (safe : Safe state) (stepped : step state act = some next) :
    Inv next ∧ (Safe next ↔ Keeps state act) := by
  cases act with
  | start =>
      simp only [step, Option.ite_none_right_eq_some, Option.some.injEq] at stepped
      rcases stepped with ⟨_, rfl⟩
      exact ⟨⟨inv.created, fun _ => rfl⟩, iff_of_true ⟨safe.live, safe.single⟩ trivial⟩
  | startReturns =>
      simp only [step, Option.ite_none_right_eq_some, Option.some.injEq] at stepped
      rcases stepped with ⟨owner, rfl⟩
      exact startReturns_inv inv owner
  | stop =>
      simp only [step, Option.ite_none_right_eq_some, Option.some.injEq] at stepped
      rcases stepped with ⟨owner, rfl⟩
      exact ⟨⟨inv.created, by simp [owner]⟩, iff_of_true ⟨by simp, safe.single⟩ trivial⟩
  | join =>
      simp only [step, Option.ite_none_right_eq_some] at stepped
      rcases stepped with ⟨_, joined⟩
      unfold State.join at joined
      split at joined
      · rename_i index found
        simp only [Option.ite_none_right_eq_some, Option.some.injEq] at joined
        rcases joined with ⟨_, rfl⟩
        have created := inv.created
        rw [found] at created
        exact ⟨⟨created, inv.flag⟩, iff_of_true ⟨safe.live, safe.single⟩ trivial⟩
      · cases joined
        exact ⟨inv, iff_of_true safe trivial⟩
  | loop index =>
      obtain ⟨thread, found, moves⟩ := Option.bind_eq_some_iff.mp stepped
      obtain ⟨after, moved, rfl⟩ := Option.map_eq_some_iff.mp moves
      obtain ⟨nextInv, nextSafe⟩ := loop_inv inv found moved
      exact ⟨nextInv, iff_of_true nextSafe trivial⟩

/-- In every run the loop threads are as expected in all states exactly when no `start`
finds a pointer whose loop thread is dead. -/
theorem started_runs_iff_keeps {acts : List Action} {final : State}
    (run : exec step new acts = some final) :
    Throughout step Safe new acts ↔ Along step Keeps new acts :=
  throughout_iff_along (fun _ _ _ inv safe stepped => step_safe_iff inv safe stepped) new_inv
    new_safe run

/-- The thread is stopped inside of `run` and started again before it tests the flag. -/
def restartedInTime : List Action :=
  [.start, .startReturns, .loop 0, .stop, .start, .loop 0, .startReturns, .loop 0]

/-- The theorem at this run. -/
theorem restartedInTime_runs :
    ∃ final, exec step new restartedInTime = some final ∧ final.threads = [.running] ∧
      Throughout step Safe new restartedInTime := by
  have run : ∃ final, exec step new restartedInTime = some final ∧
      final.threads = [.running] := ⟨_, rfl, rfl⟩
  obtain ⟨final, returned, threads⟩ := run
  refine ⟨final, returned, threads, (started_runs_iff_keeps returned).mpr ?_⟩
  refine (along_cons_iff rfl _).mpr ⟨trivial, (along_cons_iff rfl _).mpr ⟨by rintro _ ⟨⟩, ?_⟩⟩
  refine (along_cons_iff rfl _).mpr ⟨trivial, (along_cons_iff rfl _).mpr ⟨trivial, ?_⟩⟩
  refine (along_cons_iff rfl _).mpr ⟨trivial, (along_cons_iff rfl _).mpr ⟨trivial, ?_⟩⟩
  refine (along_cons_iff rfl _).mpr ⟨?_, (along_cons_iff rfl _).mpr ⟨trivial, trivial⟩⟩
  rintro pointer ⟨⟩
  exact ⟨_, rfl, rfl⟩

/-- The thread is started, stopped and joined, and started again. -/
def restartedAfterJoin : List Action :=
  [.start, .startReturns, .stop, .loop 0, .join, .start, .startReturns]

/-- `isStop` answers false, and no loop thread lives. -/
theorem restartedAfterJoin_dead :
    ∃ final, exec step new restartedAfterJoin = some final ∧ final.stopped = false ∧
      final.started = true ∧ final.threads = [.dead] ∧ ¬ Safe final :=
  ⟨_, rfl, rfl, rfl, rfl, fun safe => absurd (safe.live rfl) (by decide)⟩

end Cncpp.Thread
