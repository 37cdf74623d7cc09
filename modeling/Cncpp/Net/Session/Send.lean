import Cncpp.Net.Buffer.Message
import Cncpp.Transition.Run

/-!
# Sending sessions

`sendMsgDirect` hands the address and the length of a message to `async_send` and never
looks at how many of its bytes were transmitted: the completion handler only tests that
there was no error.  The handler keeps the session alive, not the message.

The socket is described by what it promises.  It transmits the buffers in the order of the
calls and puts a non-empty prefix of each on the wire, as it finds it in memory then.  The
handler runs later and is told the length of the prefix.  Between these steps the callers
may do anything to memory: change a message that they have sent, destroy it, or use its
storage for something else.
-/

namespace Cncpp.Net

open Cncpp.Memory
open Cncpp.Transition

/-- A buffer that was given to `async_send`. -/
structure Issued where
  /-- The address of the first byte. -/
  data : Nat
  size : Nat
  /-- History: the bytes of the message at the call. -/
  given : List UInt8
  deriving DecidableEq

/-- The sending half of a session together with its socket and the memory. -/
structure SendingSession where
  memory : Nat → UInt8
  /-- Buffers given to `async_send` that have not been transmitted, oldest first. -/
  issued : List Issued
  /-- Sizes reported with success to handlers that have not run. -/
  reported : List Nat
  /-- Everything the socket has put on the wire. -/
  wire : List UInt8
  /-- How often a handler has logged a failed send. -/
  failures : Nat
  /-- History: the bytes of all messages, in the order of the calls. -/
  accepted : List UInt8

namespace SendingSession

/-- A session that has sent nothing. -/
def fresh (memory : Nat → UInt8) : SendingSession :=
  ⟨memory, [], [], [], 0, []⟩

/-- The storage of the message starts at the address. -/
def Holds (session : SendingSession) (address : Nat) (msg : Message) : Prop :=
  window session.memory address msg.size = msg.bytes

instance (session : SendingSession) (address : Nat) (msg : Message) :
    Decidable (session.Holds address msg) :=
  inferInstanceAs (Decidable (_ = _))

/-- `sendMsgDirect` on a message whose `begin()` is the address.  It issues one
`async_send` of `begin()` and `size()`. -/
def sendMsgDirect (session : SendingSession) (address : Nat) (msg : Message) :
    SendingSession :=
  { session with
    issued := session.issued ++ [⟨address, msg.size, msg.bytes⟩]
    accepted := session.accepted ++ msg.bytes }

/-- Both overloads of `sendMsg`.  The one on `Message&&` does not move the message. -/
def sendMsg (session : SendingSession) (address : Nat) (msg : Message) : SendingSession :=
  session.sendMsgDirect address msg

/-- The completion handler of `sendMsgDirect`, called with an error or a size. -/
def onSent (session : SendingSession) (ec : Bool) (size : Nat) : SendingSession :=
  if ¬ ec ∧ size ≠ 0 then session else { session with failures := session.failures + 1 }

/-- The prefix lengths that the socket may choose for a buffer of a length. -/
def MayTransmit (length size : Nat) : Prop :=
  size ≤ length ∧ (length ≠ 0 → 0 < size)

instance (length size : Nat) : Decidable (MayTransmit length size) :=
  inferInstanceAs (Decidable (_ ∧ _))

/-- Calls of the session, what the callers do to memory, transmissions by the socket, and
runs of a handler. -/
inductive Action where
  | sendMsg (address : Nat) (msg : Message)
  | change (memory : Nat → UInt8)
  | transmit (size : Nat)
  | runHandler (index : Nat)

/-- One action. -/
def step : Step SendingSession Action
  | session, .sendMsg address msg =>
      if session.Holds address msg then some (session.sendMsg address msg) else none
  | session, .change memory => some { session with memory := memory }
  | session, .transmit size =>
      match session.issued with
      | [] => none
      | buffer :: rest =>
          if MayTransmit buffer.size size then
            some { session with
              issued := rest
              reported := session.reported ++ [size]
              wire := session.wire ++ window session.memory buffer.data size }
          else none
  | session, .runHandler index =>
      (session.reported[index]?).map fun size =>
        { session with reported := session.reported.eraseIdx index }.onSent false size

/-- The socket transmits the whole buffer, and finds in it what was there at the call. -/
def Whole (session : SendingSession) : Action → Prop
  | .transmit size => ∀ buffer ∈ session.issued.head?,
      size = buffer.size ∧ window session.memory buffer.data buffer.size = buffer.given
  | _ => True

/-- Every handler has run. -/
def Quiet (session : SendingSession) : Prop :=
  session.issued = [] ∧ session.reported = []

/-- What is on the wire and what is still issued are the messages. -/
def Complete (session : SendingSession) : Prop :=
  session.wire ++ session.issued.flatMap Issued.given = session.accepted

/-- The buffers that are issued are the last messages, and the wire carries no more than
the messages before them. -/
structure Bounded (session : SendingSession) : Prop where
  sizes : ∀ buffer ∈ session.issued, buffer.given.length = buffer.size
  split : ∃ before, session.accepted = before ++ session.issued.flatMap Issued.given ∧
    session.wire.length ≤ before.length

/-- A handler does not touch the traffic. -/
theorem onSent_traffic (session : SendingSession) (ec : Bool) (size : Nat) :
    (session.onSent ec size).wire = session.wire ∧
      (session.onSent ec size).issued = session.issued ∧
      (session.onSent ec size).accepted = session.accepted := by
  unfold onSent
  split
  · exact ⟨rfl, rfl, rfl⟩
  · exact ⟨rfl, rfl, rfl⟩

/-- A transmission in detail. -/
theorem step_transmit_eq_some_iff {session next : SendingSession} {size : Nat} :
    step session (.transmit size) = some next ↔
      ∃ buffer rest, session.issued = buffer :: rest ∧ MayTransmit buffer.size size ∧
        next = { session with
          issued := rest
          reported := session.reported ++ [size]
          wire := session.wire ++ window session.memory buffer.data size } := by
  cases issued : session.issued with
  | nil => simp [step, issued]
  | cons buffer rest =>
      simp only [step, issued, Option.ite_none_right_eq_some, Option.some.injEq, List.cons.injEq]
      constructor
      · rintro ⟨may, rfl⟩
        exact ⟨buffer, rest, ⟨rfl, rfl⟩, may, rfl⟩
      · rintro ⟨_, _, ⟨rfl, rfl⟩, may, rfl⟩
        exact ⟨may, rfl⟩

/-- A list of bytes is continued by a part of a buffer as the messages go on exactly if it
was right before and the part is the whole buffer. -/
theorem append_eq_append_iff_whole {wire sent part given : List UInt8}
    (bounded : wire.length ≤ sent.length) (within : part.length ≤ given.length) :
    wire ++ part = sent ++ given ↔ wire = sent ∧ part = given := by
  constructor
  · intro same
    have lengths := congrArg List.length same
    rw [List.length_append, List.length_append] at lengths
    exact List.append_inj same (by omega)
  · rintro ⟨rfl, rfl⟩
    rfl

/-- A step keeps completeness exactly when it is not a transmission of something else than
the message, and no step restores it. -/
theorem step_complete_iff {session next : SendingSession} {act : Action}
    (bounded : session.Bounded) (stepped : step session act = some next) :
    next.Bounded ∧ (next.Complete ↔ session.Complete ∧ session.Whole act) := by
  obtain ⟨before, split, behind⟩ := bounded.split
  cases act with
  | sendMsg address msg =>
      simp only [step, Option.ite_none_right_eq_some, Option.some.injEq] at stepped
      obtain ⟨_, rfl⟩ := stepped
      have issued : (session.sendMsg address msg).issued.flatMap Issued.given =
          session.issued.flatMap Issued.given ++ msg.bytes := by
        simp [sendMsg, sendMsgDirect]
      have accepted : (session.sendMsg address msg).accepted = session.accepted ++ msg.bytes :=
        rfl
      refine ⟨⟨?_, before, ?_, behind⟩, ?_⟩
      · intro buffer member
        rcases List.mem_append.mp member with old | new
        · exact bounded.sizes buffer old
        · rw [List.mem_singleton.mp new]
          exact length_window _ _ _
      · rw [accepted, issued, split, List.append_assoc]
      · rw [Complete, accepted, issued, ← List.append_assoc, List.append_cancel_right_eq]
        exact (iff_of_eq (and_true _)).symm
  | change memory =>
      cases stepped
      exact ⟨⟨bounded.sizes, before, split, behind⟩, (iff_of_eq (and_true _)).symm⟩
  | transmit size =>
      obtain ⟨buffer, rest, issued, may, rfl⟩ := step_transmit_eq_some_iff.mp stepped
      rw [issued, List.flatMap_cons] at split
      have given := bounded.sizes buffer (by rw [issued]; exact List.mem_cons_self)
      have part : (window session.memory buffer.data size).length ≤ buffer.given.length := by
        rw [length_window, given]
        exact may.1
      refine ⟨⟨?_, before ++ buffer.given, ?_, ?_⟩, ?_⟩
      · intro other member
        exact bounded.sizes other (by rw [issued]; exact List.mem_cons_of_mem _ member)
      · rw [split, List.append_assoc]
      · rw [List.length_append, List.length_append]
        exact Nat.add_le_add behind part
      · have whole : session.Whole (.transmit size) ↔
            window session.memory buffer.data size = buffer.given := by
          rw [Whole, issued]
          simp only [List.head?_cons, Option.mem_some_iff, forall_eq']
          constructor
          · rintro ⟨rfl, same⟩
            exact same
          · intro same
            have full : size = buffer.size := by
              rw [← given, ← same, length_window]
            exact ⟨full, full ▸ same⟩
        rw [whole, Complete, Complete, split, issued, List.flatMap_cons, ← List.append_assoc,
          ← List.append_assoc, List.append_cancel_right_eq,
          append_eq_append_iff_whole behind part, List.append_cancel_right_eq,
          List.append_cancel_right_eq]
  | runHandler index =>
      simp only [step, Option.map_eq_some_iff] at stepped
      obtain ⟨size, _, rfl⟩ := stepped
      obtain ⟨wire, issued, accepted⟩ :=
        onSent_traffic { session with reported := session.reported.eraseIdx index } false size
      refine ⟨⟨?_, before, ?_, ?_⟩, ?_⟩
      · rw [issued]
        exact bounded.sizes
      · rw [accepted, issued]
        exact split
      · rw [wire]
        exact behind
      · rw [Complete, wire, issued, accepted]
        exact (iff_of_eq (and_true _)).symm

/-- The messages of a run, in the order of the calls. -/
def sent (acts : List Action) : List Message :=
  acts.filterMap fun act =>
    match act with
    | .sendMsg _ msg => some msg
    | _ => none

/-- The history records the messages of the run. -/
theorem exec_accepted {session final : SendingSession} {acts : List Action}
    (run : exec step session acts = some final) :
    final.accepted = session.accepted ++ (sent acts).flatMap fun msg => msg.bytes := by
  induction acts generalizing session with
  | nil =>
      cases run
      simp [sent]
  | cons act acts ih =>
      obtain ⟨next, first, rest⟩ := (exec_cons_eq_some_iff step session final act acts).mp run
      rw [ih rest]
      cases act with
      | sendMsg address msg =>
          simp only [step, Option.ite_none_right_eq_some, Option.some.injEq] at first
          obtain ⟨_, rfl⟩ := first
          simp [sendMsg, sendMsgDirect, sent]
      | change memory =>
          cases first
          rfl
      | transmit size =>
          obtain ⟨_, _, _, _, rfl⟩ := step_transmit_eq_some_iff.mp first
          rfl
      | runHandler index =>
          simp only [step, Option.map_eq_some_iff] at first
          obtain ⟨size, _, rfl⟩ := first
          rw [(onSent_traffic _ false size).2.2]
          rfl

/-- Once every handler has run, the wire carries the messages whole and in call order
exactly when every transmission of the run was one of the whole buffer, and the storage of
the message still held then what it held at the call. -/
theorem wire_eq_sent_iff {memory : Nat → UInt8} {acts : List Action} {final : SendingSession}
    (run : exec step (fresh memory) acts = some final) (quiet : final.Quiet) :
    final.wire = ((sent acts).flatMap fun msg => msg.bytes) ↔
      Along step Whole (fresh memory) acts := by
  have bounded : (fresh memory).Bounded :=
    ⟨by simp [fresh], [], rfl, Nat.le_refl _⟩
  have complete := last_iff_along (fun _ _ _ inv taken => step_complete_iff inv taken) bounded run
  have accepted := exec_accepted run
  rw [Complete, quiet.1, accepted] at complete
  simpa [Complete, fresh] using complete

/-- A message of one code and no body. -/
def bareMessage (code : UInt16) : Message :=
  (Message.new (fun _ => 0) 8).setMsgCode code

/-- A memory with message 1 at address 100 and message 2 at address 200. -/
def twoMessages : Nat → UInt8 :=
  fun address => if address = 100 then 1 else if address = 200 then 2 else 0

/-- Two messages, each transmitted whole; the first one is changed behind its transmission,
and the handlers run in the other order. -/
def wholeSends : List Action :=
  [.sendMsg 100 (bareMessage 1), .sendMsg 200 (bareMessage 2), .transmit 4,
    .change (write twoMessages 100 [9, 9, 9, 9]), .transmit 4, .runHandler 1, .runHandler 0]

/-- The wire theorem at these sends. -/
theorem wholeSends_wire :
    ∃ final, exec step (fresh twoMessages) wholeSends = some final ∧
      final.wire = [1, 0, 0, 0, 2, 0, 0, 0] := by
  have run : ∃ final, exec step (fresh twoMessages) wholeSends = some final ∧ final.Quiet :=
    ⟨_, rfl, rfl, rfl⟩
  obtain ⟨final, ran, quiet⟩ := run
  refine ⟨final, ran, ((wire_eq_sent_iff ran quiet).mpr ?_).trans (by decide)⟩
  refine (along_cons_iff rfl _).mpr ⟨trivial, ?_⟩
  refine (along_cons_iff rfl _).mpr ⟨trivial, ?_⟩
  refine (along_cons_iff rfl _).mpr ⟨by rintro buffer ⟨⟩; decide, ?_⟩
  refine (along_cons_iff rfl _).mpr ⟨trivial, ?_⟩
  refine (along_cons_iff rfl _).mpr ⟨by rintro buffer ⟨⟩; decide, ?_⟩
  exact (along_cons_iff rfl _).mpr ⟨trivial, (along_cons_iff rfl _).mpr ⟨trivial, trivial⟩⟩

/-- One message whose first byte alone is transmitted. -/
def shortSend : List Action :=
  [.sendMsg 100 (bareMessage 1), .transmit 1, .runHandler 0]

/-- After the short send every handler has run and the rest of the message is lost. -/
theorem shortSend_loses :
    ∃ final, exec step (fresh twoMessages) shortSend = some final ∧ final.Quiet ∧
      final.wire ≠ (sent shortSend).flatMap fun msg => msg.bytes :=
  ⟨_, rfl, ⟨rfl, rfl⟩, by decide⟩

end SendingSession

end Cncpp.Net
