import Cncpp.Queue.NonIntrusive.Correctness

/-!
# Dequeuing without interference

Where no `Enqueue` is in progress, a call of `Dequeue` can be run to its end.  The queue
is then determined by its contents, and `Dequeue` removes the first of them.
-/

namespace Cncpp.Queue.NonIntrusive

open Cncpp.Transition

variable {P T : Type}

/-- A call of `Dequeue` from beginning to end: the value, or none where it returns false. -/
def dequeue (queue : State P T) : Option T × State P T :=
  let loaded := consume (consume queue)
  match loaded.consumer with
  | .gotNext _ _ =>
      let returned := consume (consume (consume loaded))
      (returned.returned.getLast?, returned)
  | _ => (none, loaded)

variable [DecidableEq P]

/-- No thread is inside of a call, and the queue holds the values `content`. -/
structure Holds (queue : State P T) (content : List T) : Prop where
  inv : ∃ programs queued, Inv programs queue queued ∧
    queued.map (dataOf queue.heap) = content.map some
  idle : queue.consumer = .idle
  ready : ∀ producer, queue.pending producer = none

/-- A queue at rest after any run holds what has been exchanged and not returned. -/
theorem holds_of_run {programs : P → List T} {front : Addr} {acts : List (Action P)}
    {queue : State P T} (run : exec step (start programs front) acts = some queue)
    (idle : queue.consumer = .idle) (ready : ∀ producer, queue.pending producer = none) :
    Holds queue ((queue.exchanged.map Prod.snd).drop queue.returned.length) := by
  have preserved : ∀ ⦃state act next⦄, (∃ queued, Inv programs state queued) →
      step state act = some next → ∃ queued, Inv programs next queued :=
    fun _ _ _ => step_inv
  obtain ⟨queued, inv⟩ := invariant_exec preserved ⟨[], start_inv programs front⟩ run
  refine ⟨⟨programs, queued, inv, ?_⟩, idle, ready⟩
  have values := inv.values
  rw [idle] at values
  change (queue.returned ++ []).map some ++ _ = _ at values
  rw [List.append_nil] at values
  have dropped := congrArg (List.drop queue.returned.length) values
  rw [List.drop_left' (List.length_map some)] at dropped
  rw [dropped, List.map_drop, List.map_map]
  rfl

/-- One more step of the consumer. -/
theorem consume_inv {programs : P → List T} {queue : State P T}
    (inv : ∃ queued, Inv programs queue queued) :
    ∃ queued, Inv programs (consume queue) queued := by
  obtain ⟨_, inv⟩ := inv
  exact inv.consume

/-- `Dequeue` on an empty queue returns false and leaves it empty. -/
theorem Holds.dequeue_nil {queue : State P T} (holds : Holds queue []) :
    ∃ after, dequeue queue = (none, after) ∧ Holds after [] := by
  obtain ⟨programs, queued, inv, values⟩ := holds.inv
  have nothing : queued = [] := List.map_eq_nil_iff.mp values
  subst nothing
  have alive := inv.alive queue.tail List.mem_cons_self
  have unlinked : (queue.heap queue.tail).next = none := inv.linked.link_last rfl
  have loaded : consume (consume queue) = queue := by
    simp only [consume, holds.idle, unlinked, access, alive, Bool.not_true, Bool.or_false]
    rw [← holds.idle]
  refine ⟨queue, ?_, holds⟩
  simp only [dequeue, loaded, holds.idle]

omit [DecidableEq P] in
/-- Where the front is linked to a node with data, `Dequeue` returns the data. -/
theorem dequeue_of_link {queue : State P T} {node : Addr} {value : T}
    (idle : queue.consumer = .idle) (alive : (queue.heap queue.tail).alive = true)
    (link : (queue.heap queue.tail).next = some node)
    (data : (queue.heap node).data = some value) :
    ∃ after, dequeue queue = (some value, after) ∧
      after = consume (consume (consume (consume (consume queue)))) ∧
      after.consumer = .idle ∧ after.pending = queue.pending ∧
      after.returned = queue.returned ++ [value] ∧ after.exchanged = queue.exchanged := by
  have nodeAlive := alive_of_data data
  have loaded : consume (consume queue) =
      { queue with consumer := .gotNext queue.tail node } := by
    simp only [consume, idle, link, access, alive, Bool.not_true, Bool.or_false]
  have read : consume (consume (consume queue)) =
      { queue with consumer := .gotData queue.tail node value } := by
    rw [loaded]
    simp only [consume, data, access, nodeAlive, Bool.not_true, Bool.or_false]
  have finished : consume (consume (consume (consume (consume queue)))) =
      deleteTail { queue with tail := node, consumer := .stored queue.tail value } queue.tail
        value := by
    rw [read]
    rfl
  refine ⟨_, ?_, rfl, ?_⟩
  · rw [loaded] at finished
    simp only [dequeue, loaded, finished]
    simp [deleteTail]
  · rw [finished]
    exact ⟨rfl, rfl, rfl, rfl⟩

/-- `Dequeue` returns the first value. -/
theorem Holds.dequeue_cons {queue : State P T} {value : T} {rest : List T}
    (holds : Holds queue (value :: rest)) :
    ∃ after, dequeue queue = (some value, after) ∧ Holds after rest := by
  obtain ⟨programs, queued, inv, values⟩ := holds.inv
  cases queued with
  | nil => simp at values
  | cons node nodes =>
      simp only [List.map_cons, List.cons.injEq] at values
      have link : (queue.heap queue.tail).next = some node := by
        rcases inv.linked.covered queue.tail node (adjacent_cons_iff.mpr (Or.inl ⟨rfl, rfl⟩)) with
          stored | ⟨producer, late⟩
        · exact stored
        · rw [holds.ready producer] at late
          contradiction
      obtain ⟨after, result, steps, idle, pending, returned, exchanged⟩ :=
        dequeue_of_link holds.idle (inv.alive queue.tail List.mem_cons_self) link values.1
      obtain ⟨queued, kept⟩ : ∃ queued, Inv programs after queued := by
        rw [steps]
        exact consume_inv (consume_inv (consume_inv (consume_inv (consume_inv ⟨_, inv⟩))))
      refine ⟨after, result, ⟨⟨programs, queued, kept, ?_⟩, idle, ?_⟩⟩
      · have before := inv.values
        have behind := kept.values
        rw [holds.idle] at before
        rw [idle, returned, exchanged, ← before] at behind
        simpa [Consumer.inFlight, values] using behind
      · intro producer
        rw [pending]
        exact holds.ready producer

end Cncpp.Queue.NonIntrusive
