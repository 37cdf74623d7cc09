import Cncpp.Net.Session.Segmentation
import Cncpp.Queue.NonIntrusive.Correctness

/-!
# From the socket to the callback

One thread receives and parses, and passes every message it creates to `Enqueue`.  Another
thread is inside of `processReceivedMsg`: it calls `Dequeue` and hands what it gets to the
callback.  Both act on one `recived_msg_queue_`, and their steps interleave freely.

A delivery is one step.  The parser does not look at the queue, so the calls of `Enqueue`
that it makes are taken behind the delivery, in their order, each in its two steps.  The
delivery that completes a frame with a body is no step: the process ends in it.
-/

namespace Cncpp.Net

open Cncpp.Loop
open Cncpp.Queue
open Cncpp.Transition
open TcpSession (Delivery deliver)

/-- A session and its queue.  The list of messages in the session is the history of those
that the parser has created. -/
structure Pipeline where
  session : TcpSession
  queue : NonIntrusive.State Unit MessageObject

namespace Pipeline

/-- A delivery, or a step of a thread in the queue. -/
inductive Action where
  | deliver (delivery : Delivery)
  | queue (act : NonIntrusive.Action Unit)

/-- The bytes that a step brings. -/
def Action.chunk : Action → List UInt8
  | deliver delivery => delivery.chunk
  | queue _ => []

/-- Before the first delivery. -/
def start (heap : Heap) (front : NonIntrusive.Addr) : Pipeline :=
  ⟨TcpSession.fresh heap, NonIntrusive.start (fun _ => []) front⟩

/-- One step of one thread.  The receiving thread takes the next delivery when its calls of
`Enqueue` have returned. -/
def step : Step Pipeline Action
  | pipeline, .deliver delivery =>
      if (pipeline.queue.programs ()).isEmpty ∧ pipeline.queue.pending () = none then
        (deliver pipeline.session delivery).map fun next =>
          { session := next
            queue := { pipeline.queue with
              programs := fun _ =>
                next.recivedMsgQueue.drop pipeline.session.recivedMsgQueue.length } }
      else none
  | pipeline, .queue act =>
      (NonIntrusive.step pipeline.queue act).map fun next => { pipeline with queue := next }

/-- What the types and the ownership of the buffers promise of a delivery, with the bound on
the unread bytes. -/
def Admits (pipeline : Pipeline) : Action → Prop
  | .deliver delivery => delivery.Admissible pipeline.session ∧ delivery.Fits pipeline.session
  | .queue _ => True

/-- What the two threads achieve together, for the bytes delivered so far. -/
structure Handles (stream : List UInt8) (pipeline : Pipeline) : Prop where
  /-- The process goes on only on frames without a body. -/
  bodiless : Bodiless stream
  /-- It does so on all of them. -/
  goesOn : pipeline.queue.programs () = [] → pipeline.queue.pending () = none →
    ∀ delivery : Delivery, delivery.Admissible pipeline.session →
      delivery.Fits pipeline.session →
        ((step pipeline (.deliver delivery)).isSome ↔ Bodiless (stream ++ delivery.chunk))
  /-- The messages handed to the callback stand for the first frames of the stream. -/
  inOrder : List.Forall₂ MessageObject.Represents pipeline.queue.returned
    ((referenceDecode stream).1.take pipeline.queue.returned.length)
  /-- No deleted node has been accessed. -/
  sound : pipeline.queue.faulted = false
  /-- No node has been deleted twice. -/
  once : pipeline.queue.deletions.Nodup
  /-- Where the receiving thread is done and `Dequeue` is about to find no link, all frames
  have been handed over. -/
  complete : pipeline.queue.programs () = [] → pipeline.queue.pending () = none →
    ∀ tail, pipeline.queue.consumer = .gotTail tail →
      NonIntrusive.nextOf pipeline.queue.heap tail = none →
      List.Forall₂ MessageObject.Represents pipeline.queue.returned (referenceDecode stream).1

/-! ## The parser only adds messages -/

theorem recivedMsgQueue_parseHead {session headed : TcpSession} {goesOn : Bool}
    (read : session.parseHead = some (goesOn, headed)) :
    headed.recivedMsgQueue = session.recivedMsgQueue := by
  unfold TcpSession.parseHead at read
  split at read
  · cases read
    rfl
  · split at read
    · cases read
      rfl
    · obtain ⟨⟨readed, image, ring⟩, _, same⟩ := Option.map_eq_some_iff.mp read
      simp only at same
      split at same
      · cases same
        rfl
      · cases same
        rfl

theorem parseBody_adds {created : List MessageObject} {session : TcpSession}
    (before : created <+: session.recivedMsgQueue) :
    (TcpSession.parseBody session).Meets (fun next => created <+: next.recivedMsgQueue)
      (fun result => ∀ final, result = some final → created <+: final.recivedMsgQueue) := by
  unfold TcpSession.parseBody
  simp only
  split
  · rintro final same
    cases same
    exact before
  · split
    · rintro final same
      contradiction
    · split
      · rintro final same
        cases same
        exact before
      · split
        · rintro final same
          contradiction
        · exact before.trans (List.prefix_append _ _)

theorem parsePass_adds {created : List MessageObject} (session : TcpSession)
    (before : created <+: session.recivedMsgQueue) :
    (TcpSession.parsePass session).Meets (fun next => created <+: next.recivedMsgQueue)
      (fun result => ∀ final, result = some final → created <+: final.recivedMsgQueue) := by
  unfold TcpSession.parsePass
  split
  · rintro final same
    contradiction
  · rename_i stopped read
    rintro final same
    cases same
    rw [recivedMsgQueue_parseHead read]
    exact before
  · rename_i headed read
    apply parseBody_adds
    rw [recivedMsgQueue_parseHead read]
    exact before

theorem parseToMessage_adds {created : List MessageObject} {session final : TcpSession}
    (before : created <+: session.recivedMsgQueue)
    (returned : session.parseToMessage = some final) : created <+: final.recivedMsgQueue := by
  have ran := Option.join_eq_some_iff.mp returned
  exact run_partial parsePass_adds before ran final rfl

/-- A delivery adds to the messages that the parser has created. -/
theorem deliver_adds {session next : TcpSession} {delivery : Delivery}
    (delivered : deliver session delivery = some next) :
    session.recivedMsgQueue <+: next.recivedMsgQueue := by
  have before := List.prefix_refl session.recivedMsgQueue
  cases delivery with
  | buffer supplied =>
      cases supplied with
      | none =>
          refine parseToMessage_adds ?_ delivered
          exact before
      | some object =>
          refine parseToMessage_adds ?_ delivered
          exact before
  | data raw =>
      obtain ⟨written, _, parsed⟩ := Option.bind_eq_some_iff.mp delivered
      refine parseToMessage_adds ?_ parsed
      exact before
  | start =>
      cases delivered
      exact before

/-! ## Runs of both threads -/

/-- The invariant, for the bytes delivered so far. -/
structure Inv (stream : List UInt8) (pipeline : Pipeline) : Prop where
  settled : pipeline.session.Settled stream
  fits : pipeline.session.recievedBuffer.unread.length < 2 ^ 32
  queue : ∃ queued,
    NonIntrusive.Inv (fun _ => pipeline.session.recivedMsgQueue) pipeline.queue queued

theorem start_inv (heap : Heap) (front : NonIntrusive.Addr) : Inv [] (start heap front) where
  settled := TcpSession.fresh_settled heap
  fits := by simp [start, TcpSession.fresh]
  queue := ⟨[], NonIntrusive.start_inv (fun _ => []) front⟩

theorem step_inv {stream : List UInt8} {pipeline next : Pipeline} {act : Action}
    (inv : Inv stream pipeline) (admits : pipeline.Admits act)
    (stepped : step pipeline act = some next) : Inv (stream ++ act.chunk) next := by
  obtain ⟨queued, queueInv⟩ := inv.queue
  cases act with
  | deliver delivery =>
      simp only [step, Option.ite_none_right_eq_some, Option.map_eq_some_iff] at stepped
      obtain ⟨⟨idle, _⟩, session, delivered, rfl⟩ := stepped
      obtain ⟨settled, small, _⟩ :=
        TcpSession.deliver_settled inv.settled admits.1 delivered
      obtain ⟨added, grown⟩ := deliver_adds delivered
      refine ⟨settled, small admits.2, queued, queueInv.reprogram ?_⟩
      intro producer
      have before := queueInv.program producer
      rw [List.isEmpty_iff.mp idle, List.append_nil] at before
      rw [before, ← grown, List.drop_left]
  | queue act =>
      simp only [step, Option.map_eq_some_iff] at stepped
      obtain ⟨queue, stepped, rfl⟩ := stepped
      have grown := NonIntrusive.step_inv ⟨queued, queueInv⟩ stepped
      rw [Action.chunk, List.append_nil]
      exact ⟨inv.settled, inv.fits, grown⟩

theorem exec_inv {stream : List UInt8} {pipeline final : Pipeline} {acts : List Action}
    (inv : Inv stream pipeline) (admits : Along step Admits pipeline acts)
    (run : exec step pipeline acts = some final) :
    Inv (stream ++ acts.flatMap Action.chunk) final := by
  induction acts generalizing stream pipeline with
  | nil =>
      cases run
      rw [List.flatMap_nil, List.append_nil]
      exact inv
  | cons act acts ih =>
      obtain ⟨next, first, rest⟩ := (exec_cons_eq_some_iff _ _ _ _ _).mp run
      obtain ⟨ok, later⟩ := (along_cons_iff first acts).mp admits
      rw [List.flatMap_cons, ← List.append_assoc]
      exact ih (step_inv inv ok first) later rest

/-- With one producer everything that has been exchanged is its own. -/
theorem exchangedBy_unit (queue : NonIntrusive.State Unit MessageObject) :
    NonIntrusive.exchangedBy queue () = queue.exchanged.map Prod.snd := by
  rw [NonIntrusive.exchangedBy, List.filter_eq_self.mpr fun _ _ => decide_eq_true rfl]

theorem Inv.handles {stream : List UInt8} {pipeline : Pipeline} (inv : Inv stream pipeline) :
    Handles stream pipeline := by
  obtain ⟨queued, queueInv⟩ := inv.queue
  have decodes := inv.settled.decodes inv.fits
  have safe := queueInv.safe
  have program := queueInv.program ()
  rw [exchangedBy_unit] at program
  have first : pipeline.queue.returned <+: pipeline.session.recivedMsgQueue := by
    rw [← program]
    exact safe.order.trans (List.prefix_append _ _)
  constructor
  · exact MessageObject.body_eq_nil_of_represents decodes.queue
  · intro done returned delivery admissible fits
    rw [← TcpSession.deliver_isSome_iff inv.settled admissible fits]
    simp [step, done, returned]
  · rw [List.prefix_iff_eq_take.mp first, List.length_take]
    rw [Nat.min_eq_left first.length_le]
    exact List.forall₂_take _ decodes.queue
  · exact safe.sound
  · exact safe.once
  · intro done returned tail position unlinked
    rcases safe.empty tail position unlinked with all | ⟨producer, _, _, late, _⟩
    · rw [done, List.append_nil] at program
      have whole : pipeline.queue.returned = pipeline.session.recivedMsgQueue := by
        rw [← program]
        apply safe.order.eq_of_length
        rw [List.length_map, all]
      rw [whole]
      exact decodes.queue
    · rw [show producer = () from rfl, returned] at late
      contradiction

/-- However the stream is cut into deliveries and however the two threads interleave, the
process goes on as long as no complete frame has a body.  The callback gets the messages of
the first frames that the reference decoder finds, in order and each once, and all of them
once both threads have caught up. -/
theorem run_handles (heap : Heap) (front : NonIntrusive.Addr) {acts : List Action}
    {final : Pipeline} (admits : Along step Admits (start heap front) acts)
    (run : exec step (start heap front) acts = some final) :
    Handles (acts.flatMap Action.chunk) final :=
  (exec_inv (start_inv heap front) admits run).handles

/-- A header cut in two, with the consumer looking in between. -/
def cutHeader : List Action :=
  [.deliver (.data (some [7, 0])), .queue .consume, .deliver (.data (some [0, 0])),
    .queue (.exchange () 1), .queue .consume, .queue (.store ()), .deliver .start,
    .queue .consume, .queue .consume, .queue .consume, .queue .consume, .queue .consume]

/-- The theorem at this run. -/
theorem cutHeader_handles :
    ∃ final, exec step (start ⟨fun _ => TcpSession.lengthBuffer, 0⟩ 0) cutHeader = some final ∧
      final.queue.returned.length = 1 ∧ Handles [7, 0, 0, 0] final := by
  have run : ∃ final, exec step (start ⟨fun _ => TcpSession.lengthBuffer, 0⟩ 0) cutHeader =
      some final ∧ final.queue.returned.length = 1 := ⟨_, rfl, rfl⟩
  obtain ⟨final, ran, returned⟩ := run
  refine ⟨final, ran, returned, run_handles ⟨fun _ => TcpSession.lengthBuffer, 0⟩ 0 ?_ ran⟩
  refine (along_cons_iff rfl _).mpr ⟨⟨(by decide : _ < _), by decide⟩, ?_⟩
  refine (along_cons_iff rfl _).mpr ⟨trivial, ?_⟩
  refine (along_cons_iff rfl _).mpr ⟨⟨(by decide : _ < _), by decide⟩, ?_⟩
  refine (along_cons_iff rfl _).mpr ⟨trivial, ?_⟩
  refine (along_cons_iff rfl _).mpr ⟨trivial, ?_⟩
  refine (along_cons_iff rfl _).mpr ⟨trivial, ?_⟩
  refine (along_cons_iff rfl _).mpr ⟨⟨trivial, by decide⟩, ?_⟩
  exact ⟨trivial, fun _ _ => ⟨trivial, fun _ _ => ⟨trivial, fun _ _ => ⟨trivial, fun _ _ =>
    ⟨trivial, fun _ _ => trivial⟩⟩⟩⟩⟩

end Pipeline

end Cncpp.Net
