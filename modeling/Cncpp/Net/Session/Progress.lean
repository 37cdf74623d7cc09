import Cncpp.Net.Session.Pipeline
import Cncpp.Queue.NonIntrusive.Progress

/-!
# Progress from the socket to the callback

In an infinite run of both threads the receiving thread goes on inside of `Enqueue`, and the
other one goes on calling `Dequeue`.  For the queue the run is one in which deliveries
supply the only producer.  So every frame that has been received reaches the callback, even
if deliveries never end.
-/

namespace Cncpp.Net

open Cncpp.Queue
open Cncpp.Transition
open TcpSession (Delivery deliver)

namespace Pipeline

/-- The receiving thread does not stop inside of `Enqueue`, and the other thread goes on. -/
structure Fair (states : Nat → Pipeline) (acts : Nat → Action) : Prop where
  exchanges : Served states acts
    (fun pipeline => pipeline.queue.pending () = none ∧ pipeline.queue.programs () ≠ [])
    (fun act => ∃ node, act = .queue (.exchange () node))
  stores : Served states acts (fun pipeline => pipeline.queue.pending () ≠ none)
    (· = .queue (.store ()))
  consumes : Served states acts (fun _ => True) (· = .queue .consume)

/-- The bytes delivered in the first `n` steps. -/
def received (acts : Nat → Action) (n : Nat) : List UInt8 :=
  (List.range n).flatMap fun place => (acts place).chunk

/-- What a step is for the queue, given the state it leads to. -/
def queueEvent (next : Pipeline) : Action → NonIntrusive.Event Unit MessageObject
  | .deliver _ => .supply next.queue.programs
  | .queue act => .act act

variable {states : Nat → Pipeline} {acts : Nat → Action}

/-- A step of the pipeline is an event of the queue. -/
theorem eventStep_queue {pipeline next : Pipeline} {act : Action}
    (stepped : step pipeline act = some next) :
    NonIntrusive.eventStep pipeline.queue (next.queueEvent act) = some next.queue := by
  cases act with
  | deliver delivery =>
      simp only [step, Option.ite_none_right_eq_some, Option.map_eq_some_iff] at stepped
      obtain ⟨⟨idle, _⟩, session, delivered, rfl⟩ := stepped
      simp [queueEvent, NonIntrusive.eventStep, List.isEmpty_iff.mp idle]
  | queue act =>
      simp only [step, Option.map_eq_some_iff] at stepped
      obtain ⟨queue, stepped, rfl⟩ := stepped
      exact stepped

/-- The queue takes part in the run. -/
theorem forever_queue (run : Forever step states acts) :
    Forever NonIntrusive.eventStep (fun n => (states n).queue)
      (fun n => (states (n + 1)).queueEvent (acts n)) :=
  fun n => eventStep_queue (run n)

theorem Fair.queue (fair : Fair states acts) :
    NonIntrusive.Fair (fun n => (states n).queue)
      (fun n => (states (n + 1)).queueEvent (acts n)) where
  exchanges := by
    intro producer n holds
    obtain ⟨later, after, node, taken⟩ := fair.exchanges n holds
    exact ⟨later, after, node, congrArg (queueEvent _) taken⟩
  stores := by
    intro producer n late
    obtain ⟨later, after, taken⟩ := fair.stores n late
    exact ⟨later, after, congrArg (queueEvent _) taken⟩
  consumes := by
    intro n _
    obtain ⟨later, after, taken⟩ := fair.consumes n trivial
    exact ⟨later, after, congrArg (queueEvent _) taken⟩

theorem forever_inv {heap : Heap} {front : NonIntrusive.Addr} (run : Forever step states acts)
    (started : states 0 = start heap front) (admits : ∀ n, (states n).Admits (acts n)) (n : Nat) :
    Inv (received acts n) (states n) := by
  induction n with
  | zero =>
      rw [started]
      exact start_inv heap front
  | succ n ih =>
      have next := step_inv ih (admits n) (run n)
      rw [received, List.range_succ, List.flatMap_append, List.flatMap_singleton]
      exact next

/-- What the parser has created is what the receiving thread has got to enqueue. -/
theorem Inv.offered {stream : List UInt8} {pipeline : Pipeline} (inv : Inv stream pipeline) :
    NonIntrusive.offered pipeline.queue () = pipeline.session.recivedMsgQueue := by
  obtain ⟨_, queueInv⟩ := inv.queue
  exact queueInv.program ()

/-- However the stream is cut and however the threads interleave, every frame that has been
received by some time is handed to the callback then or later, in order, where the
receiving thread does not stop inside of `Enqueue` and the other thread goes on. -/
theorem received_leadsTo_handed {heap : Heap} {front : NonIntrusive.Addr}
    (run : Forever step states acts) (started : states 0 = start heap front)
    (admits : ∀ n, (states n).Admits (acts n)) (fair : Fair states acts) (n : Nat) :
    ∃ later, n ≤ later ∧ ∃ handed, handed <+: (states later).queue.returned ∧
      List.Forall₂ MessageObject.Represents handed (referenceDecode (received acts n)).1 := by
  have inv := forever_inv run started admits
  have queueRun := forever_queue run
  have sound (place : Nat) : NonIntrusive.Sound (states place).queue :=
    ⟨_, (inv place).queue⟩
  obtain ⟨middle, before, exchanged⟩ :=
    NonIntrusive.offered_leadsTo_exchanged queueRun fair.queue () _ n
      ⟨trivial, Nat.le_refl _⟩
  obtain ⟨later, after, returned⟩ :=
    NonIntrusive.exchanged_leadsTo_returned queueRun fair.queue _ middle
      ⟨sound middle, Nat.le_refl _⟩
  refine ⟨later, before.trans after, (states n).session.recivedMsgQueue, ?_,
    ((inv n).settled.decodes (inv n).fits).queue⟩
  have own : (states n).session.recivedMsgQueue <+:
      NonIntrusive.exchangedBy (states middle).queue () := by
    rw [← (inv n).offered]
    exact List.prefix_of_prefix_length_le (NonIntrusive.offered_grows queueRun () before)
      (List.prefix_append _ _) exchanged
  rw [exchangedBy_unit] at own
  exact own.trans (NonIntrusive.returned_of_exchanged queueRun (sound later) after returned)

/-! ## A run -/

/-- The header of a message without a body, cut in two.  Then the consumer is alone. -/
def cutForever : Nat → Action
  | 0 => .deliver (.data (some [7, 0]))
  | 1 => .queue .consume
  | 2 => .deliver (.data (some [0, 0]))
  | 3 => .queue (.exchange () 1)
  | 4 => .queue .consume
  | 5 => .queue (.store ())
  | _ + 6 => .queue .consume

/-- The states of this run. -/
abbrev cutStates : Nat → Pipeline :=
  follow step (start ⟨fun _ => TcpSession.lengthBuffer, 0⟩ 0) cutForever

theorem cut_settles : Settles step (start ⟨fun _ => TcpSession.lengthBuffer, 0⟩ 0) cutForever 6
    (fun pipeline => NonIntrusive.AtRest pipeline.queue) where
  enabled := by decide +kernel
  quiet _ := ⟨rfl, rfl⟩
  goesOn _ _ rest := ⟨_, rfl, rest.consume⟩

theorem cut_admits (n : Nat) : (cutStates n).Admits (cutForever n) := by
  match n with
  | 0 => exact ⟨(by decide : _ < _), by decide⟩
  | 2 => exact ⟨(by decide : _ < _), by decide⟩
  | 1 | 3 | 4 | 5 | _ + 6 => trivial

theorem cut_fair : Fair cutStates cutForever where
  exchanges := cut_settles.served 3 ⟨1, rfl⟩ (by decide +kernel)
    fun _ rest further => further.2 (rest ()).2
  stores := cut_settles.served 5 rfl (by decide +kernel) fun _ rest late => late (rest ()).1
  consumes := fun n _ => ⟨n + 6, Nat.le_add_right n 6, rfl⟩

/-- The theorem at this run, after the second delivery: a frame without a body has come. -/
theorem cutForever_leadsTo_handed :
    ∃ later, 3 ≤ later ∧ ∃ handed, handed <+: (cutStates later).queue.returned ∧
      List.Forall₂ MessageObject.Represents handed [⟨⟨7, 0⟩, []⟩] := by
  have came : referenceDecode (received cutForever 3) = ([⟨⟨7, 0⟩, []⟩], []) :=
    @referenceDecode_of_split [⟨⟨7, 0⟩, []⟩] [] (fun _ member => by cases member <;> trivial) rfl
  have reaches := received_leadsTo_handed cut_settles.forever rfl cut_admits cut_fair 3
  rw [came] at reaches
  exact reaches

end Pipeline

end Cncpp.Net
