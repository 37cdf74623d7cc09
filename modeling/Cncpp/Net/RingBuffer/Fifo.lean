import Cncpp.Net.RingBuffer.Correctness
import Cncpp.Stream.Fifo
import Cncpp.Transition.Run

/-!
# The ring buffer as a byte stream

The operations of `RingBuffer` refine those of an abstract first-in first-out
stream of bytes.  `perform` is the call on the ring buffer and `specify` the
operation on the stream; `perform_refines` relates one call, and the run theorem
every finite sequence of calls on an initially empty ring buffer.
-/

namespace Cncpp.Net.RingBuffer

open Cncpp.Machine
open Cncpp.Memory
open Cncpp.Stream
open Cncpp.Transition

/-- The caller fills its own buffer object at address `p`. -/
def place (ring : RingBuffer) (p : Addr) (buf : BaseBuffer) : RingBuffer :=
  { ring with heap := { cell := Function.update ring.heap.cell p buf
                        next := max ring.heap.next (p + 1) } }

/-- Calls on a ring buffer.  `emplaceBack` passes a null pointer or a buffer
object of the caller, given by its address and its contents. -/
inductive Operation where
  | writeString (str : List UInt8)
  | writeData (data : Option (List UInt8))
  | writeMessage (msg : Message)
  | emplaceBack (supplied : Option (Addr × BaseBuffer))
  | allocBuff
  | read (size : Nat)

namespace Operation

/-- The bytes that a call hands over to the ring buffer. -/
def incoming : Operation → List UInt8
  | writeString str => str
  | writeData data => data.getD []
  | writeMessage msg => msg.bytes
  | emplaceBack (some supplied) => supplied.2.unread
  | emplaceBack none => []
  | allocBuff => []
  | read _ => []

/-- The call on the ring buffer, with the bytes that a read delivers.  `none`
means that the call does not return. -/
def perform : Operation → RingBuffer → Option (List UInt8 × RingBuffer)
  | writeString str, ring => (ring.writeString str).map fun result => ([], result.2)
  | writeData data, ring => (ring.writeData data).map fun result => ([], result.2)
  | writeMessage msg, ring => (ring.writeMessage msg).map fun result => ([], result.2)
  | emplaceBack none, ring => some ([], ring.emplaceBack none)
  | emplaceBack (some supplied), ring =>
      some ([], (ring.place supplied.1 supplied.2).emplaceBack (some supplied.1))
  | allocBuff, ring => some ([], ring.allocBuff.2)
  | read size, ring =>
      (ring.read Destination.memory (fun _ => 0) size).map fun result =>
        (window result.2.1 0 result.1, result.2.2)

/-- The operation on the stream. -/
def specify (op : Operation) (stream : Fifo UInt8) : List UInt8 × Fifo UInt8 :=
  match op with
  | read size => stream.pop size
  | _ => ([], stream.push op.incoming)

/-- What the caller promises: the bytes present after the call can be counted in
32 bits, and a supplied buffer is usable and not one the ring buffer holds. -/
def Admissible (ring : RingBuffer) (op : Operation) : Prop :=
  ring.unread.length + op.incoming.length < 2 ^ 32 ∧
    ∀ supplied, op = emplaceBack (some supplied) →
      supplied.1 ∉ ring.owned ∧ supplied.2.Usable

end Operation

/-- The ring buffer holds exactly the pending bytes of the stream. -/
structure Refines (ring : RingBuffer) (stream : Fifo UInt8) : Prop where
  valid : ring.Valid
  unread : ring.unread = stream.pending
  fits : ring.unread.length < 2 ^ 32

theorem empty_refines (heap : Heap) : (empty heap).Refines Fifo.empty where
  valid := empty_valid heap
  unread := rfl
  fits := by simp

/-- Filling a buffer of the caller does not disturb the ring buffer. -/
theorem Valid.place {ring : RingBuffer} (valid : ring.Valid) {p : Addr}
    (fresh : p ∉ ring.owned) (buf : BaseBuffer) :
    (ring.place p buf).Valid ∧ (ring.place p buf).unread = ring.unread := by
  have others : ∀ q ∈ ring.owned, (ring.place p buf).heap.cell q = ring.heap.cell q := by
    intro q member
    apply Function.update_of_ne
    rintro rfl
    exact fresh member
  refine ⟨⟨valid.nodup, ?_, ?_⟩, ?_⟩
  · intro q member
    exact Nat.lt_of_lt_of_le (valid.allocated q member) (Nat.le_max_left _ _)
  · intro q member
    rw [others q member]
    exact valid.usable q member
  · apply List.flatMap_congr
    intro q member
    rw [others q (List.mem_append_left _ member)]

/-- A read delivers what the stream delivers. -/
theorem Refines.read {ring : RingBuffer} {stream : Fifo UInt8} (refines : ring.Refines stream)
    (size : Nat) :
    ∃ after, (Operation.read size).perform ring = some ((stream.pop size).1, after) ∧
      after.Refines (stream.pop size).2 := by
  have count := canReadSize_of_lt refines.fits
  rcases Nat.lt_or_ge ring.canReadSize size with tooMuch | within
  · have unchanged := read_too_much Destination.memory (fun _ => 0) tooMuch
    rw [count, refines.unread] at tooMuch
    rw [stream.pop_of_lt tooMuch]
    refine ⟨ring, ?_, refines⟩
    rw [Operation.perform, unchanged]
    rfl
  · obtain ⟨after, returned, valid, unread⟩ :=
      refines.valid.read Destination.memory (fun _ => 0) within
    rw [count, refines.unread] at within
    obtain ⟨bytes, rest⟩ := stream.pop_of_le within
    have length : (stream.pending.take size).length = size := by
      rw [List.length_take]
      omega
    refine ⟨after, ?_, ⟨valid, ?_, ?_⟩⟩
    · rw [Operation.perform, returned, Option.map_some, bytes, refines.unread]
      have readBack := window_write (fun _ => (0 : UInt8)) 0 (stream.pending.take size)
      rw [length] at readBack
      exact congrArg (fun delivered => some (delivered, after)) readBack
    · rw [unread, rest, refines.unread]
    · rw [unread, List.length_drop]
      have fits := refines.fits
      omega

/-- One admissible call returns, delivers what the stream delivers and leaves the
ring buffer in step with the stream. -/
theorem perform_refines {ring : RingBuffer} {stream : Fifo UInt8}
    (refines : ring.Refines stream) {op : Operation} (admissible : op.Admissible ring) :
    ∃ after, op.perform ring = some ((op.specify stream).1, after) ∧
      after.Refines (op.specify stream).2 := by
  -- every call but `read` returns no bytes and appends the incoming ones
  have accepted : ∀ {after : RingBuffer} {items : List UInt8}, items = op.incoming →
      after.Valid → after.unread = ring.unread ++ items →
      after.Refines (stream.push op.incoming) := by
    rintro after items rfl valid unread
    refine ⟨valid, ?_, ?_⟩
    · rw [unread, refines.unread, Fifo.pending_push]
    · rw [unread, List.length_append]
      exact admissible.1
  have bound := admissible.1
  cases op with
  | writeString str =>
      have short : str.length < 2 ^ 32 := by
        simp only [Operation.incoming] at bound
        omega
      obtain ⟨after, returned, valid, unread⟩ := refines.valid.writeString short
      exact ⟨after, by simp [Operation.perform, returned, Operation.specify],
        accepted rfl valid unread⟩
  | writeData data =>
      have short : (data.getD []).length < 2 ^ 32 := by
        simp only [Operation.incoming] at bound
        omega
      obtain ⟨after, returned, valid, unread⟩ := refines.valid.writeData short
      exact ⟨after, by simp [Operation.perform, returned, Operation.specify],
        accepted rfl valid unread⟩
  | writeMessage msg =>
      have size : msg.bytes.length = msg.size := by simp [BaseBuffer.bytes]
      have short : msg.size < 2 ^ 32 := by
        simp only [Operation.incoming] at bound
        omega
      obtain ⟨after, returned, valid, unread⟩ := refines.valid.writeMessage short
      exact ⟨after, by simp [Operation.perform, returned, Operation.specify],
        accepted rfl valid unread⟩
  | emplaceBack supplied =>
      cases supplied with
      | none => exact ⟨ring, rfl, accepted rfl refines.valid (by simp [Operation.incoming])⟩
      | some supplied =>
          obtain ⟨fresh, usable⟩ := admissible.2 supplied rfl
          obtain ⟨placed, kept⟩ := refines.valid.place fresh supplied.2
          have atP : (ring.place supplied.1 supplied.2).heap.cell supplied.1 = supplied.2 :=
            Function.update_self _ _ _
          obtain ⟨valid, unread⟩ := placed.emplaceBack (p := supplied.1) fresh
            (Nat.lt_of_lt_of_le (Nat.lt_succ_self _) (Nat.le_max_right _ _))
            (by rw [atP]; exact usable)
          rw [atP, kept] at unread
          exact ⟨_, rfl, accepted rfl valid unread⟩
  | allocBuff =>
      have handed := refines.valid.allocBuff
      exact ⟨_, rfl, accepted rfl handed.valid (by rw [handed.unread]; simp [Operation.incoming])⟩
  | read size => exact refines.read size

/-! ## Runs -/

/-- A ring buffer together with everything it has accepted and delivered. -/
structure Log where
  ring : RingBuffer
  accepted : List UInt8
  delivered : List UInt8

/-- One call, recorded in the log. -/
def step : Step Log Operation := fun log op =>
  (op.perform log.ring).map fun result =>
    ⟨result.2, log.accepted ++ op.incoming, log.delivered ++ result.1⟩

/-- The log of an empty ring buffer. -/
def Log.start (heap : Heap) : Log := ⟨empty heap, [], []⟩

/-- The log agrees with some stream that the ring buffer refines. -/
def Log.Consistent (log : Log) : Prop :=
  ∃ stream : Fifo UInt8, log.ring.Refines stream ∧ stream.accepted = log.accepted ∧
    stream.delivered = log.delivered

theorem step_consistent {log : Log} {op : Operation} (consistent : log.Consistent)
    (admissible : op.Admissible log.ring) :
    ∃ next, step log op = some next ∧ next.Consistent := by
  rcases consistent with ⟨stream, refines, accepted, delivered⟩
  obtain ⟨after, returned, refined⟩ := perform_refines refines admissible
  refine ⟨_, by rw [step, returned]; rfl, (op.specify stream).2, refined, ?_, ?_⟩
  · change _ = log.accepted ++ op.incoming
    rw [← accepted]
    cases op with
    | read size =>
        simp only [Operation.specify, Operation.incoming, Fifo.pop, List.append_nil]
        split <;> rfl
    | writeString str => rfl
    | writeData data => rfl
    | writeMessage msg => rfl
    | emplaceBack supplied => rfl
    | allocBuff => rfl
  · change _ = log.delivered ++ (op.specify stream).1
    rw [← delivered]
    have pushed : ∀ items : List UInt8,
        (stream.push items).delivered = stream.delivered ++ [] := by
      intro items
      rw [List.append_nil]
      exact List.take_append_of_le_length stream.taken_le
    cases op with
    | read size => exact stream.delivered_pop size
    | writeString str => exact pushed _
    | writeData data => exact pushed _
    | writeMessage msg => exact pushed _
    | emplaceBack supplied => exact pushed _
    | allocBuff => exact pushed _

/-- What a consistent log says about the ring buffer it has arrived at. -/
theorem Log.Consistent.stream {log : Log} (consistent : log.Consistent) :
    log.accepted = log.delivered ++ log.ring.unread ∧
      log.ring.canReadSize = log.accepted.length - log.delivered.length := by
  rcases consistent with ⟨stream, refines, accepted, delivered⟩
  have whole := stream.delivered_append_pending
  rw [accepted, delivered, ← refines.unread] at whole
  refine ⟨whole.symm, ?_⟩
  rw [canReadSize_of_lt refines.fits, ← whole, List.length_append]
  omega

/-- Every finite sequence of admissible calls on an empty ring buffer returns.
Afterwards nothing has been lost, duplicated or reordered, `canReadSize` is the
number of bytes accepted and not delivered, a read within it delivers exactly
the next bytes, and a read beyond it does nothing. -/
theorem run_is_fifo (heap : Heap) {ops : List Operation}
    (admissible : Along step (fun log op => op.Admissible log.ring) (Log.start heap) ops) :
    ∃ log, exec step (Log.start heap) ops = some log ∧
      log.accepted = log.delivered ++ log.ring.unread ∧
      log.ring.canReadSize = log.accepted.length - log.delivered.length ∧
      (∀ toBuf size, size ≤ log.ring.canReadSize → ∃ after,
        log.ring.read Destination.memory toBuf size =
            some (size, write toBuf 0 ((log.accepted.drop log.delivered.length).take size),
              after) ∧
          after.unread = log.accepted.drop (log.delivered.length + size)) ∧
      (∀ toBuf size, log.ring.canReadSize < size →
        log.ring.read Destination.memory toBuf size = some (0, toBuf, log.ring)) := by
  have start : (Log.start heap).Consistent := ⟨Fifo.empty, empty_refines heap, rfl, rfl⟩
  obtain ⟨log, returned, consistent⟩ :=
    exec_total (fun _ _ inv allowed => step_consistent inv allowed) start admissible
  obtain ⟨whole, count⟩ := consistent.stream
  have rest : log.accepted.drop log.delivered.length = log.ring.unread := by
    rw [whole, List.drop_left]
  refine ⟨log, returned, whole, count, ?_, ?_⟩
  · intro toBuf size within
    rcases consistent with ⟨stream, refines, _, _⟩
    obtain ⟨after, readBack, _, remaining⟩ :=
      refines.valid.read Destination.memory toBuf within
    refine ⟨after, ?_, ?_⟩
    · rw [readBack, rest]
      rfl
    · rw [remaining, ← List.drop_drop, rest]
  · intro toBuf size tooMuch
    exact read_too_much Destination.memory toBuf tooMuch

/-- Two bytes in a buffer of four. -/
def suppliedBuffer : BaseBuffer :=
  ⟨⟨4, fun offset => UInt8.ofNat offset⟩, 0, 2, 4⟩

/-- Writes, a supplied buffer, and a read across the two. -/
def mixedCalls : List Operation :=
  [.writeString [1, 2, 3], .emplaceBack (some (7, suppliedBuffer)), .read 4,
    .writeData (some [9])]

theorem mixedCalls_admissible :
    Along step (fun log op => op.Admissible log.ring)
      (Log.start ⟨fun _ => suppliedBuffer, 0⟩) mixedCalls := by
  refine (along_cons_iff rfl _).mpr ⟨⟨by decide, by rintro _ ⟨⟩⟩, ?_⟩
  refine (along_cons_iff rfl _).mpr ⟨⟨by decide, ?_⟩, ?_⟩
  · rintro supplied same
    cases same
    refine ⟨by decide, ?_⟩
    exact
      { rd_le_wr := by decide
        wr_le_len := by decide
        len_le_allocated := by decide
        len_lt := by decide
        len_pos := by decide }
  · refine (along_cons_iff rfl _).mpr ⟨⟨by decide, by rintro _ ⟨⟩⟩, ?_⟩
    exact (along_cons_iff rfl _).mpr ⟨⟨by decide, by rintro _ ⟨⟩⟩, trivial⟩

/-- The stream theorem at these calls. -/
theorem mixedCalls_fifo :
    ∃ log, exec step (Log.start ⟨fun _ => suppliedBuffer, 0⟩) mixedCalls = some log ∧
      log.accepted = log.delivered ++ log.ring.unread := by
  obtain ⟨log, returned, whole, _⟩ := run_is_fifo _ mixedCalls_admissible
  exact ⟨log, returned, whole⟩

end Cncpp.Net.RingBuffer
