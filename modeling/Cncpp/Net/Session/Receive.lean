import Cncpp.Net.Session.Core
import Mathlib.Data.List.Forall2
import Cncpp.Net.RingBuffer.Fifo

/-!
# Correctness of the incremental parser

Whatever the chunks in which a stream arrives, the frames that `parseToMessage`
has taken, a header that waits for its body and the unread bytes of the ring
buffer add up to the stream.  As long as the unread bytes can be counted in 32
bits, the parser stops only where no further frame is complete, so its frames
are those of the reference decoder.  The process ends in the parser only where the
stream has a complete frame with a body.
-/

namespace Cncpp.Net

open Cncpp.Loop
open Cncpp.Machine
open Cncpp.Memory
open Cncpp.Transition

namespace MessageObject

/-- What an enqueued object has to do with the frame it was created for: the frame has
no body, and the object is a message with the header of the frame. -/
structure Represents (object : MessageObject) (frame : Frame) : Prop where
  intact : object.overwritten = 0
  noBody : frame.body = []
  message : ∃ memory, object.message =
    (Message.new memory frame.head.msgLen.toNat).setHeader frame.head

/-- Copying a body over a new object and setting the header: no body is copied, or the
call of `setHeader` has no result. -/
theorem setHeader_new (memory : Nat → UInt8) (frame : Frame) :
    (∃ msg, (destination.memcpy (new memory frame.head.msgLen.toNat) 0 frame.body).setHeader
      frame.head = some msg ∧ msg.Represents frame) ∨
    (destination.memcpy (new memory frame.head.msgLen.toNat) 0 frame.body).setHeader
      frame.head = none ∧ frame.body ≠ [] := by
  by_cases noBody : frame.body = []
  · left
    refine ⟨{ new memory frame.head.msgLen.toNat with
      message := (Message.new memory frame.head.msgLen.toNat).setHeader frame.head }, ?_,
      rfl, noBody, memory, rfl⟩
    rw [noBody, destination.memcpy_nil]
    rfl
  · right
    have copied : (destination.memcpy (new memory frame.head.msgLen.toNat) 0
        frame.body).overwritten ≠ 0 := by
      simp [destination, new, noBody]
    refine ⟨?_, noBody⟩
    rw [setHeader, call, if_neg copied, Option.map_none]

/-- Only frames without a body have a message. -/
theorem body_eq_nil_of_represents {queue : List MessageObject} {frames : List Frame}
    (represents : List.Forall₂ Represents queue frames) : ∀ frame ∈ frames, frame.body = [] := by
  induction represents with
  | nil => simp
  | cons first rest ih => simpa [first.noBody] using ih

end MessageObject

namespace TcpSession

/-- The bytes of the stream that no message has taken: a header already read, and
the unread bytes of the ring buffer. -/
def pendingBytes (session : TcpSession) : List UInt8 :=
  (if session.parseHeadOk then session.curHeader.bytes else []) ++
    session.recievedBuffer.unread

/-- The invariant of the parser for the stream received so far. -/
structure Inv (stream : List UInt8) (session : TcpSession) : Prop where
  valid : session.recievedBuffer.Valid
  split : session.taken.flatMap Frame.bytes ++ session.pendingBytes = stream
  complete : ∀ frame ∈ session.taken, frame.Complete
  queue : List.Forall₂ MessageObject.Represents session.recivedMsgQueue session.taken

/-- The parser cannot go on: the next header or body is not counted as readable. -/
def Stopped (session : TcpSession) : Prop :=
  session.recievedBuffer.canReadSize <
    if session.parseHeadOk then session.curHeader.msgLen.toNat else headerLen

/-- Decreases with every pass. -/
def variant (session : TcpSession) : Nat :=
  session.recievedBuffer.unread.length + if session.parseHeadOk then 1 else 0

/-- Parsing only consumes, and it cannot consume past a multiple of `2 ^ 32`. -/
structure Consumes (before after : TcpSession) : Prop where
  unread_le : after.recievedBuffer.unread.length ≤ before.recievedBuffer.unread.length
  overfull : 2 ^ 32 ≤ before.recievedBuffer.unread.length →
    2 ^ 32 ≤ after.recievedBuffer.unread.length

theorem Consumes.refl (session : TcpSession) : Consumes session session :=
  ⟨Nat.le_refl _, id⟩

theorem Consumes.trans {first second third : TcpSession} (left : Consumes first second)
    (right : Consumes second third) : Consumes first third :=
  ⟨Nat.le_trans right.unread_le left.unread_le, fun large => right.overfull (left.overfull large)⟩

/-- Dropping at most `canReadSize` bytes. -/
theorem consumes_of_drop {before after : TcpSession} {size : Nat}
    (within : size ≤ before.recievedBuffer.canReadSize)
    (dropped : after.recievedBuffer.unread = before.recievedBuffer.unread.drop size) :
    Consumes before after := by
  rw [RingBuffer.canReadSize_eq, uint32] at within
  refine ⟨?_, ?_⟩
  · rw [dropped, List.length_drop]
    exact Nat.sub_le _ _
  · intro large
    rw [dropped, List.length_drop]
    omega

/-! ## One pass -/

/-- Reading the header: either there are too few bytes, or the header moves from
the ring buffer into `cur_header_`. -/
theorem parseHead_spec {stream : List UInt8} {session : TcpSession}
    (inv : Inv stream session) :
    (session.parseHead = some (false, session) ∧ session.Stopped) ∨
      ∃ headed, session.parseHead = some (true, headed) ∧ headed.Inv stream ∧
        headed.parseHeadOk = true ∧ headed.variant ≤ session.variant ∧
        Consumes session headed := by
  unfold parseHead
  by_cases headOk : session.parseHeadOk = true
  · right
    exact ⟨session, by simp [headOk], inv, headOk, Nat.le_refl _, Consumes.refl session⟩
  · by_cases tooFew : session.recievedBuffer.canReadSize < headerLen
    · left
      simp only [headOk, tooFew, if_true, Bool.false_eq_true, if_false, true_and]
      simp [Stopped, headOk, tooFew]
    · right
      have within : headerLen ≤ session.recievedBuffer.canReadSize := Nat.not_lt.mp tooFew
      obtain ⟨after, returned, valid, unread⟩ := inv.valid.read Destination.memory
        (fun offset => session.curHeader.bytes.getD offset 0) within
      have present := session.recievedBuffer.canReadSize_le
      have four : (session.recievedBuffer.unread.take headerLen).length = headerLen := by
        rw [List.length_take]
        omega
      have image : window (Destination.memory.memcpy
          (fun offset => session.curHeader.bytes.getD offset 0) 0
          (session.recievedBuffer.unread.take headerLen)) 0 headerLen =
          session.recievedBuffer.unread.take headerLen := by
        have readBack := window_write (fun offset => session.curHeader.bytes.getD offset 0) 0
          (session.recievedBuffer.unread.take headerLen)
        rw [four] at readBack
        exact readBack
      refine ⟨{ session with
        recievedBuffer := after
        curHeader := MsgHeader.ofBytes (session.recievedBuffer.unread.take headerLen)
        parseHeadOk := true }, ?_, ⟨valid, ?_, inv.complete, inv.queue⟩, rfl, ?_,
        consumes_of_drop within unread⟩
      · simp only [headOk, tooFew, Bool.false_eq_true, if_false, returned, Option.map_some,
          image, Nat.lt_irrefl]
      · rw [← inv.split]
        simp only [pendingBytes, headOk, Bool.false_eq_true, if_false, if_true, List.nil_append,
          MsgHeader.bytes_ofBytes four, unread, List.take_append_drop]
      · simp only [variant, headOk, Bool.false_eq_true, if_false, if_true, unread,
          List.length_drop]
        have positive : 0 < headerLen := by decide
        omega

/-- Reading the body: there are too few bytes, the frame is taken, or it has a body and
the process ends. -/
theorem parseBody_meets {stream : List UInt8} {session : TcpSession}
    (inv : Inv stream session) (headOk : session.parseHeadOk = true) :
    (parseBody session).Meets
      (fun next => next.Inv stream ∧ next.variant < session.variant ∧ Consumes session next)
      (fun result => result = some session ∧ session.Stopped ∨
        result = none ∧ ¬ Bodiless stream) := by
  unfold parseBody
  by_cases tooFew : session.recievedBuffer.canReadSize < session.curHeader.msgLen.toNat
  · simp only [tooFew, if_true]
    exact Or.inl ⟨rfl, by simp [Stopped, headOk, tooFew]⟩
  · have within : session.curHeader.msgLen.toNat ≤ session.recievedBuffer.canReadSize :=
      Nat.not_lt.mp tooFew
    obtain ⟨after, returned, valid, unread⟩ := inv.valid.read MessageObject.destination
      (MessageObject.new session.freshMemory session.curHeader.msgLen.toNat) within
    have present := session.recievedBuffer.canReadSize_le
    let frame : Frame :=
      ⟨session.curHeader, session.recievedBuffer.unread.take session.curHeader.msgLen.toNat⟩
    have complete : frame.Complete := by
      change (session.recievedBuffer.unread.take session.curHeader.msgLen.toNat).length =
        session.curHeader.msgLen.toNat
      rw [List.length_take]
      omega
    have image : window (MessageObject.destination.memcpy
        (MessageObject.new session.freshMemory session.curHeader.msgLen.toNat) 0
        (session.recievedBuffer.unread.take session.curHeader.msgLen.toNat)).image 0
        session.curHeader.msgLen.toNat = frame.body := by
      have readBack := window_write session.freshMemory 0 frame.body
      rw [complete] at readBack
      exact readBack
    have front : session.pendingBytes = frame.bytes ++ after.unread := by
      simp only [pendingBytes, headOk, if_true]
      rw [unread, Frame.bytes, List.append_assoc, List.take_append_drop]
    have allComplete : ∀ other ∈ session.taken ++ [frame], other.Complete := by
      intro other member
      rcases List.mem_append.mp member with old | new
      · exact inv.complete other old
      · rw [List.mem_singleton.mp new]
        exact complete
    have split : (session.taken ++ [frame]).flatMap Frame.bytes ++ after.unread = stream := by
      rw [← inv.split, front, List.flatMap_append, List.flatMap_singleton, List.append_assoc]
    simp only [tooFew, if_false, returned, ne_eq, not_true_eq_false, image]
    rcases MessageObject.setHeader_new session.freshMemory frame with
      ⟨msg, set, represents⟩ | ⟨ended, hasBody⟩
    · rw [set]
      simp only [Pass.meets_again]
      refine ⟨⟨valid, split, allComplete, ?_⟩, ?_, consumes_of_drop within unread⟩
      · exact List.rel_append inv.queue (List.Forall₂.cons represents List.Forall₂.nil)
      · simp only [variant, headOk, if_true, Bool.false_eq_true, if_false, unread,
          List.length_drop]
        omega
    · rw [ended]
      exact Or.inr ⟨rfl, fun bodiless => hasBody (bodiless.body_eq_nil allComplete split
        (List.mem_append_right _ (List.mem_singleton_self frame)))⟩

/-- One pass of the parser. -/
theorem parsePass_meets {stream : List UInt8} (start session : TcpSession)
    (inv : session.Inv stream ∧ Consumes start session) :
    (parsePass session).Meets
      (fun next => (next.Inv stream ∧ Consumes start next) ∧ next.variant < session.variant)
      (fun result => (∃ final, result = some final ∧ final.Inv stream ∧ final.Stopped ∧
        Consumes start final) ∨ result = none ∧ ¬ Bodiless stream) := by
  rcases inv with ⟨inv, consumed⟩
  unfold parsePass
  rcases parseHead_spec inv with
    ⟨stoppedHere, stopped⟩ | ⟨headed, goesOn, headedInv, headOk, less, used⟩
  · rw [stoppedHere]
    exact Or.inl ⟨session, rfl, inv, stopped, consumed⟩
  · rw [goesOn]
    have body := parseBody_meets headedInv headOk
    cases decision : parseBody headed with
    | again next =>
        simp only [decision, Pass.meets_again] at body ⊢
        rcases body with ⟨nextInv, decreased, usedToo⟩
        exact ⟨⟨nextInv, (consumed.trans used).trans usedToo⟩, by omega⟩
    | leave result =>
        simp only [decision, Pass.meets_leave] at body ⊢
        exact body.imp_left fun here =>
          ⟨headed, here.1, headedInv, here.2, consumed.trans used⟩

theorem parseFuel_eq (session : TcpSession) :
    session.parseFuel = session.recievedBuffer.unread.length + 2 := by
  simp [parseFuel, RingBuffer.unread, List.length_flatMap]

/-- The loop of `parseToMessage` is left, where it has to stop or where the process ends. -/
theorem parseToMessage_spec {stream : List UInt8} {session : TcpSession}
    (inv : Inv stream session) :
    (∃ final, session.parseToMessage = some final ∧ final.Inv stream ∧ final.Stopped ∧
      Consumes session final) ∨ session.parseToMessage = none ∧ ¬ Bodiless stream := by
  have enough : session.variant < session.parseFuel := by
    rw [parseFuel_eq, variant]
    split <;> omega
  have start : session.Inv stream ∧ Consumes session session := ⟨inv, Consumes.refl session⟩
  obtain ⟨result, returned, left⟩ := run_total variant (parsePass_meets session) start enough
  have parsed : session.parseToMessage = result := by
    rw [parseToMessage, returned]
    rfl
  rw [parsed]
  exact left

/-- Where the unread bytes can be counted, a stopped parser has no complete frame
in front of it. -/
theorem nextFrame_of_stopped {session : TcpSession} (stopped : session.Stopped)
    (fits : session.recievedBuffer.unread.length < 2 ^ 32) :
    nextFrame session.pendingBytes = none := by
  rw [Stopped, RingBuffer.canReadSize_of_lt fits] at stopped
  by_cases headOk : session.parseHeadOk = true
  · simp only [headOk, if_true] at stopped
    have enough : ¬ (session.curHeader.bytes ++
        session.recievedBuffer.unread).length < headerLen := by
      rw [List.length_append, MsgHeader.length_bytes]
      omega
    have behind : (session.curHeader.bytes ++ session.recievedBuffer.unread).drop headerLen =
        session.recievedBuffer.unread :=
      List.drop_left' (MsgHeader.length_bytes session.curHeader)
    simp only [pendingBytes, headOk, if_true, nextFrame, if_neg enough, behind,
      MsgHeader.ofBytes_bytes_append, stopped]
  · simp only [headOk, Bool.false_eq_true, if_false] at stopped
    simp only [pendingBytes, headOk, Bool.false_eq_true, if_false, List.nil_append, nextFrame,
      stopped, if_true]

end TcpSession

end Cncpp.Net
