import Cncpp.Net.Buffer.Message
import Cncpp.Stream.Framing

/-!
# The wire format

A frame on the wire is a four-byte header followed by as many body bytes as the
header announces.  `wireReader` is the reference for the incremental parser of a
session: it looks at the whole remaining input at once.
-/

namespace Cncpp.Net

open Cncpp.Machine
open Cncpp.Stream

/-- A header and the bytes that go with it. -/
structure Frame where
  head : MsgHeader
  body : List UInt8
  deriving DecidableEq

namespace Frame

/-- The frame on the wire. -/
def bytes (frame : Frame) : List UInt8 :=
  frame.head.bytes ++ frame.body

/-- The header announces exactly the body. -/
def Complete (frame : Frame) : Prop :=
  frame.body.length = frame.head.msgLen.toNat

theorem length_bytes (frame : Frame) :
    frame.bytes.length = headerLen + frame.body.length := by
  rw [bytes, List.length_append, MsgHeader.length_bytes]

end Frame

/-- Take a header and the body it announces from the front of the input. -/
def nextFrame (input : List UInt8) : Option (Frame × List UInt8) :=
  if input.length < headerLen then none
  else
    let head := MsgHeader.ofBytes input
    let rest := input.drop headerLen
    if rest.length < head.msgLen.toNat then none
    else some (⟨head, rest.take head.msgLen.toNat⟩, rest.drop head.msgLen.toNat)

theorem ofBytes_append {input : List UInt8} (enough : headerLen ≤ input.length)
    (more : List UInt8) :
    MsgHeader.ofBytes (input ++ more) = MsgHeader.ofBytes input := by
  match input, enough with
  | _ :: _ :: _ :: _ :: _, _ => rfl

theorem nextFrame_eq_some_iff {input rest : List UInt8} {frame : Frame} :
    nextFrame input = some (frame, rest) ↔ frame.Complete ∧ input = frame.bytes ++ rest := by
  unfold nextFrame
  constructor
  · intro taken
    split at taken
    · contradiction
    · rename_i enough
      simp only at taken
      split at taken
      · contradiction
      · rename_i whole
        cases taken
        have four : (input.take headerLen).length = headerLen := by
          rw [List.length_take]
          omega
        have header : (MsgHeader.ofBytes input).bytes = input.take headerLen := by
          rw [← MsgHeader.bytes_ofBytes four]
          congr 1
          rw [← ofBytes_append (Nat.le_of_eq four.symm) (input.drop headerLen),
            List.take_append_drop]
        constructor
        · change ((input.drop headerLen).take _).length = (MsgHeader.ofBytes input).msgLen.toNat
          rw [List.length_take]
          omega
        · rw [Frame.bytes, header, List.append_assoc, List.take_append_drop,
            List.take_append_drop]
  · rintro ⟨complete, rfl⟩
    have header : MsgHeader.ofBytes (frame.bytes ++ rest) = frame.head := by
      rw [Frame.bytes, List.append_assoc, MsgHeader.ofBytes_bytes_append]
    have behind : (frame.bytes ++ rest).drop headerLen = frame.body ++ rest := by
      rw [Frame.bytes, List.append_assoc]
      exact List.drop_left' (MsgHeader.length_bytes frame.head)
    have enough : ¬ (frame.bytes ++ rest).length < headerLen := by
      rw [List.length_append, Frame.length_bytes]
      omega
    have whole : ¬ (frame.body ++ rest).length < frame.head.msgLen.toNat := by
      rw [List.length_append, complete]
      omega
    simp only [if_neg enough, header, behind, if_neg whole]
    rw [List.take_left' complete, List.drop_left' complete]

/-- The reader of wire frames. -/
def wireReader : FrameReader UInt8 Frame where
  next := nextFrame
  shorter := by
    intro input frame rest taken
    rcases nextFrame_eq_some_iff.mp taken with ⟨_, rfl⟩
    have positive : 0 < headerLen := by decide
    rw [List.length_append, Frame.length_bytes]
    omega
  extend := by
    intro input frame rest taken more
    rcases nextFrame_eq_some_iff.mp taken with ⟨complete, rfl⟩
    exact nextFrame_eq_some_iff.mpr ⟨complete, List.append_assoc _ _ _⟩

/-- The reference decoder: the complete frames of a byte stream and the suffix
that does not contain one. -/
def referenceDecode (stream : List UInt8) : List Frame × List UInt8 :=
  wireReader.decode stream

/-- Complete frames followed by an incomplete rest are exactly what the reference
decoder finds. -/
theorem referenceDecode_of_split {frames : List Frame} {rest : List UInt8}
    (complete : ∀ frame ∈ frames, frame.Complete) (incomplete : nextFrame rest = none) :
    referenceDecode (frames.flatMap Frame.bytes ++ rest) = (frames, rest) := by
  have stopped : wireReader.decode rest = ([], rest) := wireReader.decode_of_none incomplete
  rw [referenceDecode, wireReader.decode_flatMap_append
    (fun frame member more => nextFrame_eq_some_iff.mpr ⟨complete frame member, rfl⟩), stopped]
  simp

/-! ## Streams of bare headers -/

/-- No complete frame of the stream has a body. -/
def Bodiless (stream : List UInt8) : Prop :=
  ∀ frame ∈ (referenceDecode stream).1, frame.body = []

/-- A frame at the front of a stream is one that the reference decoder finds. -/
theorem Bodiless.body_eq_nil {stream rest : List UInt8} (bodiless : Bodiless stream)
    {frames : List Frame} (complete : ∀ frame ∈ frames, frame.Complete)
    (split : frames.flatMap Frame.bytes ++ rest = stream) {frame : Frame}
    (member : frame ∈ frames) : frame.body = [] := by
  apply bodiless
  rw [← split, referenceDecode, wireReader.decode_flatMap_append
    fun frame member more => nextFrame_eq_some_iff.mpr ⟨complete frame member, rfl⟩]
  exact List.mem_append_left _ member

/-- More bytes do not take a frame away. -/
theorem Bodiless.of_append {stream more : List UInt8} (bodiless : Bodiless (stream ++ more)) :
    Bodiless stream := by
  intro frame member
  apply bodiless
  rw [referenceDecode, wireReader.decode_append]
  exact List.mem_append_left _ member

end Cncpp.Net
