import Cncpp.Queue.ProducerConsumer.Correctness
import Cncpp.Transition.Forever

/-!
# Progress of the queue

In an infinite run a woken thread gets the mutex in the end, and where a value lies in the
queue with no thread inside of `WaitAndPop`, some thread takes from the queue then or later.
Under these promises every value is taken, unless `Cancel` is called.  After `Cancel`, the
first promise is enough for all threads to leave `WaitAndPop`.
-/

namespace Cncpp.Queue

open Cncpp.Transition

namespace ProducerConsumerQueue

variable {Thread T : Type}

/-- A call of `Pop` or `WaitAndPop`. -/
def Action.Takes : Action Thread T → Prop
  | .pop | .waitAndPop _ => True
  | _ => False

/-- Every thread whose wait is over gets the mutex. -/
def Resumes (states : Nat → State Thread T) (acts : Nat → Action Thread T) : Prop :=
  ∀ thread, Served states acts (fun state => thread ∈ state.woken) (· = .resume thread)

/-- A value that nobody is waiting for is asked for. -/
def Wanted (states : Nat → State Thread T) (acts : Nat → Action Thread T) : Prop :=
  Served states acts
    (fun state => state.queue.queue ≠ [] ∧ state.waiting = [] ∧ state.woken = []) Action.Takes

/-! ## What the calls take -/

/-- A call takes a value where there is one. -/
theorem finish_takes {state : State Thread T} (running : state.queue.shutdown = false)
    (there : state.queue.queue ≠ []) (call : Call) :
    (state.finish call).popped.length = state.popped.length + 1 := by
  rcases pop_cases state.queue with ⟨front, rest, _, taken⟩ | ⟨vacant | stopped, _⟩
  · rw [popped_finish, taken]
    exact List.length_append
  · exact absurd vacant there
  · rw [running] at stopped
    contradiction

/-- A thread that evaluates the loop condition where there is a value takes it. -/
theorem enter_takes {state : State Thread T} (running : state.queue.shutdown = false)
    (there : state.queue.queue ≠ []) (thread : Thread) :
    (state.enter thread).popped.length = state.popped.length + 1 := by
  rw [State.enter, if_neg fun waits => there (mustWait_iff.mp waits).1]
  exact finish_takes running there .waitAndPop

/-- After `Cancel` a thread that evaluates the loop condition leaves with nothing. -/
theorem enter_stopped {state : State Thread T} (stopped : state.queue.shutdown = true)
    (thread : Thread) :
    state.enter thread =
      { state with outcomes := state.outcomes ++ [(Call.waitAndPop, none)] } := by
  have leaves : ¬state.queue.mustWait = true := fun waits => by
    rw [(mustWait_iff.mp waits).2] at stopped
    contradiction
  rcases pop_cases state.queue with ⟨front, rest, held, _⟩ | ⟨_, taken⟩
  · rw [held] at stopped
    contradiction
  · rw [State.enter, if_neg leaves, State.finish, taken]

variable [DecidableEq Thread]

/-- What has been pushed stays so, at its place. -/
theorem Moves.pushed {state next : State Thread T} (moves : Moves state next) :
    state.pushed <+: next.pushed := by
  cases moves with
  | push | pushWake => exact List.prefix_append _ _
  | pop | wake | cancel => exact List.prefix_refl _
  | waitAndPop thread =>
      rw [State.enter]
      split <;> exact List.prefix_refl _
  | resume thread =>
      rw [State.resume, State.enter]
      split <;> exact List.prefix_refl _

theorem Moves.pushed_at {state next : State Thread T} (moves : Moves state next) {place : Nat}
    {value : T} (pushed : state.pushed[place]? = some value) :
    next.pushed[place]? = some value := by
  obtain ⟨more, grown⟩ := moves.pushed
  rw [← grown, List.getElem?_append_left (List.getElem?_eq_some_iff.mp pushed).1, pushed]

/-- A resumption is of a woken thread. -/
theorem step_resume {state next : State Thread T} {thread : Thread}
    (stepped : step state (.resume thread) = some next) :
    thread ∈ state.woken ∧ state.resume thread = next := by
  rw [step, Option.ite_none_right_eq_some, Option.some.injEq] at stepped
  exact stepped

/-! ## A value is taken -/

/-- A value is there to be taken, after `count` others. -/
structure Lacking (count : Nat) (state : State Thread T) : Prop where
  running : state.queue.shutdown = false
  there : state.queue.queue ≠ []
  popped : state.popped.length = count

/-- A further value is taken, or `Cancel` has been called. -/
def Advanced (count : Nat) (state : State Thread T) : Prop :=
  count < state.popped.length ∨ state.queue.shutdown = true

omit [DecidableEq Thread] in
theorem Lacking.finish {count : Nat} {state : State Thread T} (lacking : Lacking count state)
    (call : Call) : Advanced count (state.finish call) :=
  Or.inl (by rw [finish_takes lacking.running lacking.there, lacking.popped]; omega)

omit [DecidableEq Thread] in
theorem Lacking.enter {count : Nat} {state : State Thread T} (lacking : Lacking count state)
    (thread : Thread) : Advanced count (state.enter thread) :=
  Or.inl (by rw [enter_takes lacking.running lacking.there, lacking.popped]; omega)

theorem Lacking.resume {count : Nat} {state : State Thread T} (lacking : Lacking count state)
    (thread : Thread) : Advanced count (state.resume thread) :=
  have fewer : Lacking count { state with woken := state.woken.erase thread } :=
    ⟨lacking.running, lacking.there, lacking.popped⟩
  fewer.enter thread

/-- The value stays until a call takes one, and a woken thread stays woken. -/
theorem Lacking.moves {count : Nat} {state next : State Thread T}
    (lacking : Lacking count state) (moves : Moves state next) :
    (Lacking count next ∧ state.woken ⊆ next.woken) ∨ Advanced count next := by
  have more (value : T) : state.queue.queue ++ [value] ≠ [] :=
    List.append_ne_nil_of_right_ne_nil _ (List.cons_ne_nil _ _)
  cases moves with
  | push value nobody =>
      exact Or.inl ⟨⟨lacking.running, more value, lacking.popped⟩, List.Subset.refl _⟩
  | pushWake value thread blocked =>
      exact Or.inl ⟨⟨lacking.running, more value, lacking.popped⟩, List.subset_cons_self _ _⟩
  | pop => exact Or.inr (lacking.finish .pop)
  | waitAndPop thread => exact Or.inr (lacking.enter thread)
  | wake thread blocked =>
      exact Or.inl ⟨⟨lacking.running, lacking.there, lacking.popped⟩, List.subset_cons_self _ _⟩
  | resume thread ready => exact Or.inr (lacking.resume thread)
  | cancel => exact Or.inr (Or.inr rfl)

/-- A call of `Pop` or `WaitAndPop` takes the value. -/
theorem Lacking.takes {count : Nat} {state next : State Thread T} {act : Action Thread T}
    (lacking : Lacking count state) (takes : act.Takes) (stepped : step state act = some next) :
    Advanced count next := by
  cases act with
  | pop =>
      obtain rfl := Option.some.inj stepped
      exact lacking.finish .pop
  | waitAndPop thread =>
      rw [step, Option.ite_none_left_eq_some, Option.some.injEq] at stepped
      obtain ⟨_, rfl⟩ := stepped
      exact lacking.enter thread
  | push | wake | resume | cancel => exact takes.elim

omit [DecidableEq Thread] in
/-- While a thread is inside of `WaitAndPop`, a value in the queue has a woken thread. -/
theorem Safe.someone_woken {state : State Thread T} (safe : Safe state)
    (there : state.queue.queue ≠ []) (inside : ¬(state.waiting = [] ∧ state.woken = [])) :
    ∃ thread, thread ∈ state.woken := by
  by_cases blocked : state.waiting = []
  · exact List.exists_mem_of_ne_nil _ fun vacant => inside ⟨blocked, vacant⟩
  · have enough := (safe.awake blocked).2
    refine List.exists_mem_of_length_pos (Nat.lt_of_lt_of_le ?_ enough)
    exact List.length_pos_of_ne_nil there

variable {states : Nat → State Thread T} {acts : Nat → Action Thread T}

theorem lacking_leadsTo (run : Forever step states acts) (start : Safe (states 0))
    (resumes : Resumes states acts) (wanted : Wanted states acts) (count : Nat) :
    LeadsTo states (Lacking count) (Advanced count) := by
  intro n lacking
  have safe := run.invariant (fun _ _ _ safe stepped => (step_moves stepped).safe safe) start n
  by_cases inside : (states n).waiting = [] ∧ (states n).woken = []
  · obtain ⟨last, after, takes⟩ := wanted n ⟨lacking.there, inside⟩
    exact reaches_of_serving run
      (fun _ _ _ lacking stepped => (lacking.moves (step_moves stepped)).imp_left And.left)
      (fun _ _ _ lacking takes stepped => lacking.takes takes stepped) lacking after takes
  · obtain ⟨thread, ready⟩ := safe.someone_woken lacking.there inside
    obtain ⟨last, after, resumed⟩ := resumes thread n ready
    refine @reaches_of_serving _ _ step states acts
      (fun state => Lacking count state ∧ thread ∈ state.woken) _ (· = .resume thread) run
      ?_ ?_ n last ⟨lacking, ready⟩ after resumed
    · rintro state act next ⟨lacking, ready⟩ stepped
      exact (lacking.moves (step_moves stepped)).imp_left fun kept => ⟨kept.1, kept.2 ready⟩
    · rintro state _ next ⟨lacking, _⟩ rfl stepped
      obtain ⟨_, rfl⟩ := step_resume stepped
      exact lacking.resume thread

/-- Every pushed value is taken in the end, at its place in the order of the pushes, or
`Cancel` is called. -/
theorem pushed_leadsTo_popped (run : Forever step states acts) (start : Safe (states 0))
    (resumes : Resumes states acts) (wanted : Wanted states acts) (place : Nat) (value : T) :
    LeadsTo states (fun state => state.pushed[place]? = some value)
      (fun state => state.popped[place]? = some value ∨ state.queue.shutdown = true) := by
  have safe := run.invariant (fun _ _ _ safe stepped => (step_moves stepped).safe safe) start
  refine LeadsTo.of_measure (fun state => place + 1 - state.popped.length) fun size => ?_
  rintro n ⟨pushed, rfl⟩
  by_cases stopped : (states n).queue.shutdown = true
  · exact ⟨n, Nat.le_refl n, Or.inl (Or.inr stopped)⟩
  rw [Bool.not_eq_true] at stopped
  have accounts := (safe n).accounts
  rw [(safe n).running stopped, List.append_nil] at accounts
  by_cases early : place < (states n).popped.length
  · refine ⟨n, Nat.le_refl n, Or.inl (Or.inl ?_)⟩
    rw [← pushed, ← accounts, List.getElem?_append_left early]
  · have lacking : Lacking (states n).popped.length (states n) := by
      refine ⟨stopped, fun vacant => early ?_, rfl⟩
      rw [vacant, List.append_nil] at accounts
      rw [accounts]
      exact (List.getElem?_eq_some_iff.mp pushed).1
    obtain ⟨later, after, more | cancelled⟩ :=
      lacking_leadsTo run start resumes wanted _ n lacking
    · have still := run.persists (P := fun state => state.pushed[place]? = some value)
        (fun _ _ _ pushed stepped => (step_moves stepped).pushed_at pushed) pushed after
      exact ⟨later, after, Or.inr ⟨still, by omega⟩⟩
    · exact ⟨later, after, Or.inl (Or.inr cancelled)⟩

/-- One thread is handed a value, another blocks until `Cancel`, which is called again and
again. -/
def handOver : Nat → Action Bool Nat
  | 0 => .waitAndPop false
  | 1 => .push 7 (some false)
  | 2 => .resume false
  | 3 => .waitAndPop true
  | 4 => .cancel
  | 5 => .resume true
  | _ => .cancel

/-- The states of this run. -/
def handOverStates : Nat → State Bool Nat
  | 0 => start
  | n + 1 => (step (handOverStates n) (handOver n)).getD (handOverStates n)

theorem handOver_settled (n : Nat) : handOverStates (n + 6) = handOverStates 6 := by
  induction n with
  | zero => rfl
  | succ n ih =>
      change (step (handOverStates (n + 6)) .cancel).getD (handOverStates (n + 6)) = _
      rw [ih]
      rfl

theorem handOver_forever : Forever step handOverStates handOver
  | 0 | 1 | 2 | 3 | 4 | 5 => rfl
  | n + 6 => by
      change step (handOverStates (n + 6)) .cancel = some (handOverStates (n + 1 + 6))
      rw [handOver_settled n, handOver_settled (n + 1)]
      rfl

theorem handOver_resumes : Resumes handOverStates handOver := by
  intro thread n ready
  match n with
  | 0 | 1 | 3 | 4 => contradiction
  | 2 => exact ⟨2, Nat.le_refl 2, by rw [List.mem_singleton.mp ready]; rfl⟩
  | 5 => exact ⟨5, Nat.le_refl 5, by rw [List.mem_singleton.mp ready]; rfl⟩
  | n + 6 =>
      rw [handOver_settled] at ready
      contradiction

theorem handOver_wanted : Wanted handOverStates handOver := by
  rintro n ⟨held, _, nobody⟩
  match n with
  | 0 | 1 | 3 | 4 | 5 => exact absurd rfl held
  | 2 => contradiction
  | n + 6 =>
      rw [handOver_settled] at held
      exact absurd rfl held

/-- The theorem at this run. -/
theorem handOver_leadsTo_popped :
    LeadsTo handOverStates (fun state => state.pushed[0]? = some 7)
      (fun state => state.popped[0]? = some 7 ∨ state.queue.shutdown = true) :=
  pushed_leadsTo_popped handOver_forever start_safe handOver_resumes handOver_wanted 0 7

/-! ## After `Cancel` -/

/-- After `Cancel` nothing is taken and nobody blocks.  Only a resumption changes who is
woken. -/
theorem Moves.after_cancel {state next : State Thread T} (moves : Moves state next)
    (safe : Safe state) (stopped : state.queue.shutdown = true) :
    next.queue.shutdown = true ∧ next.popped = state.popped ∧ (next.woken = state.woken ∨
      ∃ thread ∈ state.woken, next.woken = state.woken.erase thread) := by
  have nobody : state.waiting = [] := by
    by_contra blocked
    rw [(safe.awake blocked).1] at stopped
    contradiction
  cases moves with
  | push value _ => exact ⟨stopped, rfl, Or.inl rfl⟩
  | pushWake value thread blocked | wake thread blocked =>
      rw [nobody] at blocked
      contradiction
  | pop =>
      rcases pop_cases state.queue with ⟨front, rest, held, _⟩ | ⟨_, taken⟩
      · rw [held] at stopped
        contradiction
      · rw [popped_finish, State.finish, taken]
        exact ⟨stopped, List.append_nil _, Or.inl rfl⟩
  | waitAndPop thread =>
      rw [enter_stopped stopped]
      exact ⟨stopped, by simp [State.popped], Or.inl rfl⟩
  | resume thread ready =>
      rw [State.resume, enter_stopped (by exact stopped)]
      exact ⟨stopped, by simp [State.popped], Or.inr ⟨thread, ready, rfl⟩⟩
  | cancel => exact ⟨rfl, rfl, Or.inl (by rw [State.cancel, nobody, List.nil_append])⟩

/-- `Cancel` has been called, and nobody is blocked any more. -/
structure Stopped (state : State Thread T) : Prop where
  safe : Safe state
  shutdown : state.queue.shutdown = true

theorem Stopped.next {state next : State Thread T} {act : Action Thread T}
    (stopped : Stopped state) (stepped : step state act = some next) : Stopped next :=
  ⟨(step_moves stepped).safe stopped.safe,
    ((step_moves stepped).after_cancel stopped.safe stopped.shutdown).1⟩

omit [DecidableEq Thread] in
theorem Stopped.nobody {state : State Thread T} (stopped : Stopped state) :
    state.waiting = [] := by
  by_contra blocked
  have running := (stopped.safe.awake blocked).1
  rw [stopped.shutdown] at running
  contradiction

/-- Nobody is inside of `WaitAndPop`. -/
def Vacant (state : State Thread T) : Prop :=
  state.waiting = [] ∧ state.woken = []

theorem Stopped.fewer {state next : State Thread T} {act : Action Thread T}
    (stopped : Stopped state) (stepped : step state act = some next) :
    next.woken.length ≤ state.woken.length := by
  rcases ((step_moves stepped).after_cancel stopped.safe stopped.shutdown).2.2 with
    unchanged | ⟨other, _, erased⟩
  · exact Nat.le_of_eq (congrArg List.length unchanged)
  · rw [erased]
    exact List.length_erase_le

omit [DecidableEq Thread] in
theorem Stopped.vacant_or {state : State Thread T} (stopped : Stopped state) :
    Vacant state ∨ state.woken ≠ [] := by
  by_cases empty : state.woken = []
  · exact Or.inl ⟨stopped.nobody, empty⟩
  · exact Or.inr empty

/-- Every resumption is of a thread that leaves `WaitAndPop`, and nobody blocks. -/
theorem stopped_leadsTo_vacant (run : Forever step states acts) (resumes : Resumes states acts) :
    LeadsTo states (fun state => Stopped state ∧ state.woken ≠ [])
      (fun state => Stopped state ∧ Vacant state) := by
  refine @leadsTo_of_decreasing _ _ step states acts _ _ (fun act => ∃ thread, act = .resume thread)
    run (fun state => state.woken.length) ?_ ?_ ?_
  · rintro n ⟨_, occupied⟩
    obtain ⟨thread, ready⟩ := List.exists_mem_of_ne_nil _ occupied
    obtain ⟨later, after, resumed⟩ := resumes thread n ready
    exact ⟨later, after, thread, resumed⟩
  · rintro state act next ⟨stopped, _⟩ stepped
    have still := stopped.next stepped
    rcases still.vacant_or with vacant | occupied
    · exact Or.inl ⟨still, vacant⟩
    · exact Or.inr ⟨⟨still, occupied⟩, stopped.fewer stepped⟩
  · rintro state act next ⟨stopped, _⟩ ⟨thread, rfl⟩ stepped
    have still := stopped.next stepped
    rcases still.vacant_or with vacant | occupied
    · exact Or.inl ⟨still, vacant⟩
    · refine Or.inr ⟨⟨still, occupied⟩, ?_⟩
      obtain ⟨ready, rfl⟩ := step_resume stepped
      rw [State.resume, enter_stopped (by exact stopped.shutdown)]
      change (state.woken.erase thread).length < state.woken.length
      rw [List.length_erase_of_mem ready]
      exact Nat.sub_lt (List.length_pos_of_mem ready) Nat.one_pos

/-- After `Cancel`, all threads leave `WaitAndPop` for good, and no value is taken any more. -/
theorem cancelled_leadsTo_vacant (run : Forever step states acts) (start : Safe (states 0))
    (resumes : Resumes states acts) {n : Nat} (stopped : (states n).queue.shutdown = true) :
    (∃ later, n ≤ later ∧ ∀ m, later ≤ m → Vacant (states m)) ∧
      ∀ m, n ≤ m → (states m).popped = (states n).popped := by
  have safe := run.invariant (fun _ _ _ safe stepped => (step_moves stepped).safe safe) start
  constructor
  · obtain ⟨later, after, reached⟩ : ∃ later, n ≤ later ∧
        (Stopped (states later) ∧ Vacant (states later)) := by
      rcases Stopped.vacant_or ⟨safe n, stopped⟩ with vacant | occupied
      · exact ⟨n, Nat.le_refl n, ⟨safe n, stopped⟩, vacant⟩
      · exact stopped_leadsTo_vacant run resumes n ⟨⟨safe n, stopped⟩, occupied⟩
    refine ⟨later, after, fun m beyond => ?_⟩
    refine (run.persists (P := fun state => Stopped state ∧ Vacant state) ?_ reached beyond).2
    rintro state act next ⟨stopped, vacant⟩ stepped
    have next := stopped.next stepped
    refine ⟨next, next.nobody, ?_⟩
    rcases ((step_moves stepped).after_cancel stopped.safe stopped.shutdown).2.2 with
      unchanged | ⟨other, member, _⟩
    · rw [unchanged, vacant.2]
    · rw [vacant.2] at member
      contradiction
  · intro m beyond
    refine (run.persists
      (P := fun state => Stopped state ∧ state.popped = (states n).popped) ?_
      ⟨⟨safe n, stopped⟩, rfl⟩ beyond).2
    rintro state act next ⟨stopped, same⟩ stepped
    refine ⟨stopped.next stepped, ?_⟩
    rw [← same]
    exact ((step_moves stepped).after_cancel stopped.safe stopped.shutdown).2.1

/-- The theorem at the run above. -/
theorem handOver_leadsTo_vacant :
    (∃ later, 5 ≤ later ∧ ∀ m, later ≤ m → Vacant (handOverStates m)) ∧
      ∀ m, 5 ≤ m → (handOverStates m).popped = (handOverStates 5).popped :=
  cancelled_leadsTo_vacant handOver_forever start_safe handOver_resumes (n := 5) rfl

end ProducerConsumerQueue

end Cncpp.Queue
