import Cncpp.Loop.Bounded
import Cncpp.Queue.Intrusive.Correctness

/-!
# Destroying the intrusive queue

The destructor dequeues until `Dequeue` returns false and deletes the objects it gets.  The
link of an object is part of it, so that no link of a deleted object may be accessed.  The
destructor runs when no thread is inside of `Dequeue`, and the calls of `Dequeue` that it
makes are not interrupted.
-/

namespace Cncpp.Queue.Intrusive

open Cncpp.Loop
open Cncpp.Transition

variable {P T : Type} [DecidableEq P] [DecidableEq T]

/-- The node whose link the next step of the consumer accesses. -/
def Consumer.touches : Consumer T → Option (Node T)
  | .gotTail tail | .skipped tail | .reload tail => some tail
  | .clearing _ => some .dummy
  | .storing _ prevHead => some prevHead
  | _ => none

/-- `Dequeue` has returned. -/
def Consumer.isIdle : Consumer T → Bool
  | .idle => true
  | _ => false

omit [DecidableEq T] in
theorem Consumer.isIdle_iff {consumer : Consumer T} :
    consumer.isIdle = true ↔ consumer = .idle := by
  cases consumer <;> simp [isIdle]

/-- A running destructor. -/
structure Destruction (P T : Type) where
  queue : State P T
  /-- The objects passed to `delete`. -/
  freed : List (Node T) := []
  /-- The link of a deleted object has been accessed. -/
  faulted : Bool := false

namespace Destruction

/-- One more step of `Dequeue`. -/
def consume (destruction : Destruction P T) : Destruction P T :=
  { destruction with
    queue := Intrusive.consume destruction.queue
    faulted := destruction.faulted ||
      destruction.queue.consumer.touches.any fun node => destruction.freed.contains node }

/-- A step of `Dequeue` in the loop of the destructor.  Where `Dequeue` returns true, the
object is deleted and `Dequeue` is called again. -/
def pass (destruction : Destruction P T) : Pass (Destruction P T) (Destruction P T) :=
  match destruction.queue.consumer with
  | .found tail _ => .again { destruction.consume with freed := destruction.freed ++ [tail] }
  | _ =>
      if destruction.consume.queue.consumer.isIdle then .leave destruction.consume
      else .again destruction.consume

end Destruction

/-- `~MPSCQueueIntrusive`. -/
def destroy (fuel : Nat) (queue : State P T) : Option (Destruction P T) :=
  run Destruction.pass fuel { queue := queue }

/-! ## One step of an uninterrupted call -/

section Step

variable {state : State P T} {queued : List (Node T)}

/-- What a step of the consumer leaves as it is. -/
theorem consume_frame (state : State P T) :
    (consume state).exchanged = state.exchanged ∧
      (∀ producer, (consume state).pending (some producer) = state.pending (some producer)) ∧
      (consume state).inside ⊆ state.inside := by
  have same : state.inside ⊆ state.inside := fun _ member => member
  cases position : state.consumer with
  | idle | skip | clearing =>
      rw [consume, position]
      exact ⟨rfl, fun _ => rfl, same⟩
  | gotTail tail =>
      simp only [consume, position]
      split <;> split <;> exact ⟨rfl, fun _ => rfl, same⟩
  | skipped tail | reload tail =>
      simp only [consume, position]
      split <;> exact ⟨rfl, fun _ => rfl, same⟩
  | found tail next =>
      rw [consume, position]
      exact ⟨rfl, fun _ => rfl, List.filter_subset_self _⟩
  | missing tail =>
      simp only [consume, position]
      split <;> exact ⟨rfl, fun _ => rfl, same⟩
  | exchanging tail | storing tail prevHead =>
      rw [consume, position]
      exact ⟨rfl, fun producer => by simp [exchangeHead, storeLink], same⟩

/-- What the local variables say where nobody interrupts the call. -/
def Undisturbed (state : State P T) : Prop :=
  match state.consumer with
  | .missing tail => state.link tail = none
  | .clearing tail | .exchanging tail => tail = state.head
  | .storing tail prevHead => prevHead = tail
  | .reload tail => state.link tail ≠ none
  | _ => True

/-- Where `Dequeue` has returned false. -/
structure Ended (state : State P T) : Prop where
  idle : state.consumer = .idle
  unlinked : state.link state.tail = none
  last : state.tail = state.head → state.tail = .dummy

/-- A step of an uninterrupted call that is not its last one, or with which it returns. -/
theorem consume_undisturbed (inv : Inv state queued) (undisturbed : Undisturbed state) :
    Undisturbed (consume state) ∧ ((consume state).consumer = .idle →
      (∃ tail next, state.consumer = .found tail next) ∨ Ended (consume state)) := by
  have ok := inv.consumer
  rw [Undisturbed] at undisturbed
  cases position : state.consumer with
  | idle | skip =>
      rw [consume, position]
      exact ⟨trivial, fun returned => by contradiction⟩
  | gotTail tail =>
      rw [position] at ok
      cases ok
      cases stored : state.link state.tail <;> by_cases front : state.tail = .dummy
      · simp only [consume, position, stored, if_pos front]
        exact ⟨trivial, fun _ => Or.inr ⟨rfl, stored, fun _ => front⟩⟩
      · simp only [consume, position, stored, if_neg front]
        exact ⟨stored, fun returned => by contradiction⟩
      · simp only [consume, position, stored, if_pos front]
        exact ⟨trivial, fun returned => by contradiction⟩
      · simp only [consume, position, stored, if_neg front]
        exact ⟨trivial, fun returned => by contradiction⟩
  | skipped tail =>
      cases stored : state.link tail <;> simp only [consume, position, stored]
      · exact ⟨stored, fun returned => by contradiction⟩
      · exact ⟨trivial, fun returned => by contradiction⟩
  | found tail next =>
      rw [consume, position]
      exact ⟨trivial, fun _ => Or.inl ⟨tail, next, rfl⟩⟩
  | missing tail =>
      rw [position] at ok undisturbed
      rcases ok with ⟨rfl, object, _⟩
      by_cases last : state.tail = state.head
      · simp only [consume, position, if_pos last]
        exact ⟨last, fun returned => by contradiction⟩
      · simp only [consume, position, if_neg last]
        exact ⟨trivial, fun _ => Or.inr ⟨rfl, undisturbed, fun same => absurd same last⟩⟩
  | clearing tail =>
      rw [position] at undisturbed
      rw [consume, position]
      exact ⟨undisturbed, fun returned => by contradiction⟩
  | exchanging tail =>
      rw [position] at undisturbed
      rw [consume, position]
      exact ⟨undisturbed.symm, fun returned => by contradiction⟩
  | storing tail prevHead =>
      rw [position] at undisturbed
      rw [consume, position]
      refine ⟨?_, fun returned => by contradiction⟩
      change Function.update state.link prevHead (some .dummy) tail ≠ none
      obtain rfl : prevHead = tail := undisturbed
      rw [Function.update_self]
      exact Option.some_ne_none _
  | reload tail =>
      rw [position] at undisturbed
      cases stored : state.link tail with
      | none => exact absurd stored undisturbed
      | some next =>
          simp only [consume, position, stored]
          exact ⟨trivial, fun returned => by contradiction⟩

omit [DecidableEq P] in
/-- A step accesses links of the chain only, and that of the dummy. -/
theorem Inv.touches (inv : Inv state queued) {node : Node T}
    (touched : state.consumer.touches = some node) :
    node ∈ state.tail :: queued ∨ node = .dummy := by
  have ok := inv.consumer
  cases position : state.consumer with
  | idle | skip | found | missing | exchanging =>
      rw [position] at touched
      contradiction
  | gotTail tail | skipped tail | reload tail =>
      rw [position] at touched ok
      cases touched
      rcases ok with rfl | ⟨rfl, _⟩
      exact Or.inl List.mem_cons_self
  | clearing tail =>
      rw [position] at touched
      cases touched
      exact Or.inr rfl
  | storing tail prevHead =>
      rw [position] at touched
      cases touched
      have late : state.pending none = some (node, .dummy) := by
        rw [inv.own, position]
        rfl
      exact Or.inl (inv.linked.pending_adjacent none node .dummy late).1.left_mem

/-- At most so many steps of the call are left. -/
def Consumer.rank : Consumer T → Nat
  | .idle => 10
  | .gotTail _ => 9
  | .skip _ => 8
  | .skipped _ => 7
  | .missing _ => 6
  | .clearing _ => 5
  | .exchanging _ => 4
  | .storing _ _ => 3
  | .reload _ => 2
  | .found _ _ => 1

/-- A step that is not the last one of a call leaves fewer. -/
theorem consume_rank (state : State P T) (goesOn : (consume state).consumer ≠ .idle) :
    (consume state).consumer.rank < state.consumer.rank := by
  cases position : state.consumer with
  | idle | skip | clearing | exchanging | storing =>
      rw [consume, position]
      exact Nat.lt_succ_self _
  | found =>
      rw [consume, position] at goesOn
      exact absurd rfl goesOn
  | gotTail tail =>
      revert goesOn
      simp only [consume, position]
      split <;> split <;> intro goesOn
      · exact absurd rfl goesOn
      · simp [Consumer.rank]
      · simp [Consumer.rank]
      · simp [Consumer.rank]
  | skipped tail =>
      simp only [consume, position]
      split <;> simp [Consumer.rank]
  | missing tail =>
      revert goesOn
      simp only [consume, position]
      split <;> intro goesOn
      · simp [Consumer.rank]
      · exact absurd rfl goesOn
  | reload tail =>
      revert goesOn
      simp only [consume, position]
      split <;> intro goesOn
      · exact absurd rfl goesOn
      · simp [Consumer.rank]

/-- Only the step that has found a next node returns an object. -/
theorem consume_returned (state : State P T)
    (other : ∀ tail next, state.consumer ≠ .found tail next) :
    (consume state).returned = state.returned := by
  cases position : state.consumer with
  | idle | skip => rw [consume, position]
  | clearing | exchanging | storing =>
      rw [consume, position]
      rfl
  | found tail next => exact absurd position (other tail next)
  | gotTail tail =>
      simp only [consume, position]
      split <;> split <;> rfl
  | skipped tail | missing tail | reload tail =>
      simp only [consume, position]
      split <;> rfl

omit [DecidableEq P] in
/-- Where `Dequeue` has returned false, all objects are returned exactly if no link is late. -/
theorem Inv.all_returned_iff (inv : Inv state queued) (ended : Ended state) :
    state.returned = state.exchanged.map .object ↔
      ∀ producer, state.pending (some producer) = none := by
  have own : state.pending none = none := by
    rw [inv.own, ended.idle]
    rfl
  rw [← inv.values, List.self_eq_append_right]
  rcases inv.linked.front_unlinked ended.unlinked with rfl | ⟨next, rest, thread, rfl, late⟩
  · refine iff_of_true ?_ fun producer => ?_
    · rw [ended.last (Option.some.inj inv.head)]
      rfl
    · by_contra present
      obtain ⟨⟨left, right⟩, late⟩ := Option.ne_none_iff_exists'.mp present
      exact not_adjacent_singleton (inv.linked.pending_adjacent _ left right late).1
  · refine iff_of_false ?_ fun ready => ?_
    · intro vacant
      have nodup := (List.nodup_cons.mp inv.linked.nodup).1
      have front : state.tail = .dummy := by
        by_contra object
        have member := mem_objects.mpr ⟨List.mem_cons_self (l := next :: rest), object⟩
        rw [vacant] at member
        contradiction
      have behind : next = .dummy := by
        by_contra object
        have member := mem_objects.mpr
          ⟨List.mem_cons_of_mem state.tail (List.mem_cons_self (l := rest)), object⟩
        rw [vacant] at member
        contradiction
      rw [front, behind] at nodup
      exact nodup List.mem_cons_self
    · cases thread with
      | none =>
          rw [own] at late
          contradiction
      | some producer =>
          rw [ready producer] at late
          contradiction

end Step

/-! ## The destructor -/

section Destroy

variable {queue : State P T}

/-- In the loop of the destructor, for the queue that is destroyed. -/
structure Draining (queue : State P T) (destruction : Destruction P T) : Prop where
  inv : ∃ queued, Inv destruction.queue queued
  undisturbed : Undisturbed destruction.queue
  returned : destruction.queue.returned = queue.returned ++ destruction.freed
  exchanged : destruction.queue.exchanged = queue.exchanged
  pending : ∀ producer,
    destruction.queue.pending (some producer) = queue.pending (some producer)
  /-- A deleted object is not in the queue. -/
  gone : ∀ node ∈ destruction.freed, node ≠ .dummy ∧ node ∉ destruction.queue.inside
  once : destruction.freed.Nodup
  sound : destruction.faulted = false

/-- No object whose link is accessed has been deleted. -/
theorem Draining.consume_sound {destruction : Destruction P T}
    (draining : Draining queue destruction) : destruction.consume.faulted = false := by
  obtain ⟨queued, inv⟩ := draining.inv
  simp only [Destruction.consume, draining.sound, Bool.false_or]
  cases touched : destruction.queue.consumer.touches with
  | none => rfl
  | some node =>
      rw [Option.any_some, List.contains_eq_mem, decide_eq_false_iff_not]
      intro deleted
      obtain ⟨object, outside⟩ := draining.gone node deleted
      rcases inv.touches touched with member | rfl
      · exact outside ((inv.inside node).mpr (Or.inl (mem_objects.mpr ⟨member, object⟩)))
      · exact object rfl

/-- A step that does not return an object. -/
theorem Draining.consume {destruction : Destruction P T} (draining : Draining queue destruction)
    (other : ∀ tail next, destruction.queue.consumer ≠ .found tail next) :
    Draining queue destruction.consume := by
  obtain ⟨queued, inv⟩ := draining.inv
  obtain ⟨exchanged, pending, inside⟩ := consume_frame destruction.queue
  constructor
  · exact inv.consume
  · exact (consume_undisturbed inv draining.undisturbed).1
  · exact (consume_returned destruction.queue other).trans draining.returned
  · exact exchanged.trans draining.exchanged
  · exact fun producer => (pending producer).trans (draining.pending producer)
  · intro node deleted
    obtain ⟨object, outside⟩ := draining.gone node deleted
    exact ⟨object, fun member => outside (inside member)⟩
  · exact draining.once
  · exact draining.consume_sound

/-- `Dequeue` returns an object, which is deleted. -/
theorem Draining.free {destruction : Destruction P T} (draining : Draining queue destruction)
    {tail next : Node T} (found : destruction.queue.consumer = .found tail next) :
    Draining queue { destruction.consume with freed := destruction.freed ++ [tail] } := by
  obtain ⟨queued, inv⟩ := draining.inv
  obtain ⟨exchanged, pending, inside⟩ := consume_frame destruction.queue
  have ok := inv.consumer
  rw [found] at ok
  obtain ⟨rfl, object, _⟩ := ok
  have member : destruction.queue.tail ∈ destruction.queue.inside :=
    (inv.inside _).mpr (Or.inl (mem_objects.mpr ⟨List.mem_cons_self, object⟩))
  have returns : Intrusive.consume destruction.queue =
      returnTail destruction.queue destruction.queue.tail next := by
    rw [Intrusive.consume, found]
  constructor
  · exact inv.consume
  · exact (consume_undisturbed inv draining.undisturbed).1
  · change (Intrusive.consume destruction.queue).returned = _
    rw [returns, ← List.append_assoc, ← draining.returned]
    rfl
  · exact exchanged.trans draining.exchanged
  · exact fun producer => (pending producer).trans (draining.pending producer)
  · intro node deleted
    rcases List.mem_append.mp deleted with earlier | now
    · obtain ⟨object, outside⟩ := draining.gone node earlier
      exact ⟨object, fun member => outside (inside member)⟩
    · rw [List.mem_singleton.mp now]
      refine ⟨object, ?_⟩
      change _ ∉ (Intrusive.consume destruction.queue).inside
      rw [returns]
      simp [returnTail]
  · refine List.nodup_append.mpr ⟨draining.once, List.nodup_singleton _, ?_⟩
    rintro node earlier _ now rfl
    rw [List.mem_singleton.mp now] at earlier
    exact (draining.gone _ earlier).2 member
  · exact draining.consume_sound

/-- What is left to be done, at most. -/
def Destruction.remaining (destruction : Destruction P T) : Nat :=
  11 * (destruction.queue.exchanged.length - destruction.queue.returned.length) +
    destruction.queue.consumer.rank

omit [DecidableEq P] in
theorem Draining.length_le {destruction : Destruction P T} (draining : Draining queue destruction) :
    destruction.queue.returned.length ≤ destruction.queue.exchanged.length := by
  obtain ⟨queued, inv⟩ := draining.inv
  simpa using inv.safe.order.length_le

/-- Deleting an object, there is less to be done. -/
theorem Draining.free_remaining {destruction : Destruction P T}
    (draining : Draining queue destruction) {tail next : Node T}
    (found : destruction.queue.consumer = .found tail next) :
    destruction.consume.remaining < destruction.remaining := by
  have exchanged := (consume_frame destruction.queue).1
  have returns : Intrusive.consume destruction.queue = returnTail destruction.queue tail next := by
    rw [Intrusive.consume, found]
  have length : (Intrusive.consume destruction.queue).returned.length =
      destruction.queue.returned.length + 1 := by
    rw [returns]
    exact List.length_append
  have idle : (Intrusive.consume destruction.queue).consumer = .idle := by
    rw [returns]
    rfl
  have bound := (draining.free found).length_le
  simp only [Destruction.consume, exchanged, length] at bound
  simp only [Destruction.remaining, Destruction.consume, exchanged, length, idle, found,
    Consumer.rank]
  omega

/-- A step of the loop. -/
theorem Draining.pass {destruction : Destruction P T} (draining : Draining queue destruction) :
    destruction.pass.Meets
      (fun next => Draining queue next ∧ next.remaining < destruction.remaining)
      (fun final => Draining queue final ∧ Ended final.queue) := by
  obtain ⟨queued, inv⟩ := draining.inv
  unfold Destruction.pass
  split
  case h_1 tail next found => exact ⟨draining.free found, draining.free_remaining found⟩
  case h_2 other =>
    split
    case isTrue returned =>
      refine ⟨draining.consume other, ?_⟩
      rcases (consume_undisturbed inv draining.undisturbed).2 (Consumer.isIdle_iff.mp returned) with
        ⟨tail, next, found⟩ | ended
      · exact absurd found (other tail next)
      · exact ended
    case isFalse goesOn =>
      refine ⟨draining.consume other, ?_⟩
      have less := consume_rank destruction.queue fun idle => goesOn (Consumer.isIdle_iff.mpr idle)
      simp only [Destruction.remaining, Destruction.consume, (consume_frame destruction.queue).1,
        consume_returned destruction.queue other]
      exact Nat.add_lt_add_left less _

theorem destroy_drains (inv : ∃ queued, Inv queue queued) (idle : queue.consumer = .idle) :
    ∃ destruction, destroy (11 * (queue.exchanged.length + 1)) queue = some destruction ∧
      Draining queue destruction ∧ Ended destruction.queue := by
  refine run_total Destruction.remaining (fun _ draining => Draining.pass draining) ?_ ?_
  · refine ⟨inv, ?_, (List.append_nil _).symm, rfl, fun _ => rfl, ?_, List.nodup_nil, rfl⟩
    · rw [Undisturbed, idle]
      trivial
    · exact fun node absent => absurd absent List.not_mem_nil
  · simp only [Destruction.remaining, idle, Consumer.rank]
    omega

/-- What the destructor achieves. -/
structure Frees (queue : State P T) (destruction : Destruction P T) : Prop where
  /-- No link of a deleted object is accessed. -/
  sound : destruction.faulted = false
  /-- No object is deleted twice. -/
  once : destruction.freed.Nodup
  /-- The objects that are deleted are the next ones in the order of the exchanges. -/
  order : queue.returned ++ destruction.freed <+: queue.exchanged.map .object
  /-- All objects are returned or deleted exactly if no `Enqueue` is between its last two
  steps. -/
  complete : queue.returned ++ destruction.freed = queue.exchanged.map .object ↔
    ∀ producer, queue.pending (some producer) = none

/-- In every state of every run in which no thread is inside of `Dequeue`, the destructor ends
and accesses no object that it has deleted.  It deletes every object in the queue if and only
if no `Enqueue` is between its last two steps. -/
theorem destroy_intrusive_frees (links : Node T → Option (Node T)) {acts : List (Action P T)}
    (run : exec step (start links) acts = some queue) (idle : queue.consumer = .idle) :
    ∃ destruction, destroy (11 * (queue.exchanged.length + 1)) queue = some destruction ∧
      Frees queue destruction := by
  have preserved : ∀ ⦃state act next⦄, (∃ queued, Inv (P := P) (T := T) state queued) →
      step state act = some next → ∃ queued, Inv next queued :=
    fun _ _ _ => step_inv
  have inv := invariant_exec preserved ⟨[], start_inv links⟩ run
  obtain ⟨destruction, returned, draining, ended⟩ := destroy_drains inv idle
  obtain ⟨queued, last⟩ := draining.inv
  refine ⟨destruction, returned, draining.sound, draining.once, ?_, ?_⟩
  · rw [← draining.returned, ← draining.exchanged]
    exact last.safe.order
  · rw [← draining.returned, ← draining.exchanged, last.all_returned_iff ended]
    exact forall_congr' fun producer => by rw [draining.pending producer]

/-- Two objects are in the queue, and the link to a third is late. -/
def lateLast : List (Action Bool Nat) :=
  [.enqueue false 5, .exchange false, .store false, .enqueue false 6, .exchange false,
    .store false, .enqueue true 7, .exchange true]

/-- The theorem at this run: the first object is deleted, and the other two are left. -/
theorem lateLast_frees :
    ∃ queue, exec step (start fun _ => none) lateLast = some queue ∧
      ∃ destruction, destroy (11 * (queue.exchanged.length + 1)) queue = some destruction ∧
        destruction.freed = [.object 5] ∧ Frees queue destruction := by
  have run : ∃ queue, exec step (start fun _ => none) lateLast = some queue ∧
      queue.consumer = .idle ∧
      (destroy (11 * (queue.exchanged.length + 1)) queue).map Destruction.freed =
        some [.object 5] := ⟨_, rfl, rfl, by decide⟩
  obtain ⟨queue, returned, idle, freed⟩ := run
  obtain ⟨destruction, ended, frees⟩ := destroy_intrusive_frees (fun _ => none) returned idle
  rw [ended] at freed
  exact ⟨queue, returned, destruction, ended, Option.some.inj freed, frees⟩

end Destroy

end Cncpp.Queue.Intrusive
