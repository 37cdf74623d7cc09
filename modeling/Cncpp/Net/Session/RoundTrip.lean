import Cncpp.Net.Session.Segmentation

/-!
# The round trip of messages

Messages are encoded by the members of `Message` and decoded by a session.
`parseToMessage` copies every body over the message object instead of into it, and the
process ends with the first one, so messages come back as they were sent exactly when
none of them has a body.
-/

namespace Cncpp.Net

open Cncpp.Machine
open Cncpp.Memory
open Cncpp.Transition

/-- What a sender puts into a message: the message type, the body, and the size
and storage with which the message was constructed. -/
structure Outgoing where
  code : UInt16
  body : List UInt8
  size : Nat
  memory : Nat → UInt8
  body_le : body.length ≤ 65535
  size_lt : size + headerLen < 2 ^ 32

namespace Outgoing

/-- The header that announces the body. -/
def head (out : Outgoing) : MsgHeader :=
  ⟨out.code, UInt16.ofNat out.body.length⟩

/-- The frame on the wire. -/
def frame (out : Outgoing) : Frame :=
  ⟨out.head, out.body⟩

/-- `setMsgCode`, `writeBody` and `setMsgLen` on a new message. -/
def encode (out : Outgoing) : Message :=
  (((Message.new out.memory out.size).setMsgCode out.code).writeBody out.body).2.setMsgLen
    (UInt16.ofNat out.body.length)

theorem frame_complete (out : Outgoing) : out.frame.Complete := by
  have small : out.body.length < UInt16.size := Nat.lt_succ_of_le out.body_le
  exact (UInt16.toNat_ofNat_of_lt' small).symm

/-- The sender's members produce the frame. -/
theorem encode_bytes (out : Outgoing) : out.encode.bytes = out.frame.bytes := by
  have new := Message.new_wellFormed out.memory out.size_lt
  obtain ⟨coded, noBody, code⟩ := new.setMsgCode out.code
  rw [Message.unread_new] at noBody
  have small : ((Message.new out.memory out.size).setMsgCode out.code).size +
      out.body.length < 2 ^ 32 := by
    rw [coded.size_eq, noBody, List.length_nil]
    exact Nat.lt_of_le_of_lt (Nat.add_le_add_left out.body_le _) (by decide)
  obtain ⟨_, written, body, kept⟩ := coded.writeBody small
  obtain ⟨final, unread, header⟩ := written.setMsgLen (UInt16.ofNat out.body.length)
  have codeKept := congrArg (List.take 2) kept
  rw [take_window _ (by decide), take_window _ (by decide), code] at codeKept
  rw [codeKept] at header
  rw [encode, final.bytes_eq, header, unread, body, noBody]
  rfl

end Outgoing

namespace MessageObject

/-- The object is a message that has arrived as it was sent. -/
structure Carries (object : MessageObject) (out : Outgoing) : Prop where
  msgCode : object.call Message.getMsgCode = some out.code
  msgLen : object.call Message.getMsgLen = some (UInt16.ofNat out.body.length)
  size : object.call (fun msg => msg.size) = some (headerLen + out.body.length)
  readBody : object.call Message.readBody = some out.body

/-- What was created for a frame reads back an empty body. -/
theorem Represents.readBody_eq_nil {object : MessageObject} {frame : Frame}
    (represents : object.Represents frame) (complete : frame.Complete) {body : List UInt8}
    (returned : object.call Message.readBody = some body) : body = [] := by
  have zero : frame.head.msgLen.toNat = 0 := by
    rw [← complete, represents.noBody, List.length_nil]
  obtain ⟨memory, built⟩ := represents.message
  rw [zero] at built
  obtain ⟨wellFormed, _, stored⟩ :=
    (Message.new_wellFormed memory (by decide : 0 + headerLen < 2 ^ 32)).setHeader frame.head
  rw [call, if_pos represents.intact, built, Message.readBody, (wellFormed.getHeader stored).2,
    zero] at returned
  cases returned
  rfl

/-- What was created for the frame of a message carries that message. -/
theorem Represents.carries {object : MessageObject} {out : Outgoing}
    (represents : object.Represents out.frame) : object.Carries out := by
  have noBody : out.body = [] := represents.noBody
  have zero : out.frame.head.msgLen.toNat = 0 := by
    rw [← out.frame_complete]
    exact congrArg List.length noBody
  obtain ⟨memory, built⟩ := represents.message
  rw [zero] at built
  obtain ⟨wellFormed, unread, stored⟩ :=
    (Message.new_wellFormed memory (by decide : 0 + headerLen < 2 ^ 32)).setHeader out.frame.head
  obtain ⟨code, len⟩ := wellFormed.getHeader stored
  have intact := represents.intact
  constructor
  · rw [call, if_pos intact, built, code]
    rfl
  · rw [call, if_pos intact, built, len]
    rfl
  · rw [call, if_pos intact, built, wellFormed.size_eq, unread, noBody]
    rfl
  · rw [call, if_pos intact, built, Message.readBody, len, zero, noBody]
    rfl

end MessageObject

namespace TcpSession

/-- One message per pair, in order, each as it was sent. -/
def RoundTrips (session : TcpSession) (outs : List Outgoing) : Prop :=
  List.Forall₂ MessageObject.Carries session.recivedMsgQueue outs

/-- Correct messages have no body, whatever frames they were created for. -/
theorem body_eq_nil_of_forall₂ {queue : List MessageObject} {frames : List Frame}
    {outs : List Outgoing} (represents : List.Forall₂ MessageObject.Represents queue frames)
    (complete : ∀ frame ∈ frames, frame.Complete)
    (carries : List.Forall₂ MessageObject.Carries queue outs) :
    ∀ out ∈ outs, out.body = [] := by
  induction represents generalizing outs with
  | nil =>
      cases carries
      simp
  | cons first rest ih =>
      cases carries with
      | cons carried others =>
          intro out member
          rcases List.mem_cons.mp member with rfl | later
          · exact first.readBody_eq_nil (complete _ List.mem_cons_self) carried.readBody
          · exact ih (fun frame inside => complete frame (List.mem_cons_of_mem _ inside)) others
              out later

/-- Too many unread bytes once are too many at the end. -/
theorem exec_overfull {deliveries : List Delivery} {stream : List UInt8}
    {session final : TcpSession} (settled : session.Settled stream)
    (admissible : Along deliver (fun session delivery => delivery.Admissible session) session
      deliveries)
    (run : exec deliver session deliveries = some final) :
    Along deliver (fun session delivery => delivery.Fits session) session deliveries ∨
      2 ^ 32 ≤ final.recievedBuffer.unread.length := by
  have stays : ∀ ⦃session delivery next⦄,
      ((∃ stream, session.Settled stream) ∧
        2 ^ 32 ≤ session.recievedBuffer.unread.length) →
      delivery.Admissible session → deliver session delivery = some next →
      (∃ stream, next.Settled stream) ∧ 2 ^ 32 ≤ next.recievedBuffer.unread.length := by
    rintro session delivery next ⟨⟨stream, settled⟩, overfull⟩ allowed returned
    obtain ⟨afterSettled, _, large⟩ := deliver_settled settled allowed returned
    refine ⟨⟨_, afterSettled⟩, large ?_⟩
    rw [Delivery.Fits, Nat.not_lt]
    exact Nat.le_add_right_of_le overfull
  induction deliveries generalizing stream session with
  | nil => exact Or.inl trivial
  | cons delivery rest ih =>
      obtain ⟨next, first, remaining⟩ := (exec_cons_eq_some_iff _ _ _ _ _).mp run
      obtain ⟨nextSettled, _, large⟩ := deliver_settled settled admissible.1 first
      have later := admissible.2 next first
      by_cases fits : delivery.Fits session
      · rcases ih nextSettled later remaining with fitting | overfull
        · exact Or.inl ((along_cons_iff first rest).mpr ⟨fits, fitting⟩)
        · exact Or.inr overfull
      · exact Or.inr (invariant_along stays ⟨⟨_, nextSettled⟩, large fits⟩ later remaining).2

theorem headerLen_mul_le (frames : List Frame) :
    headerLen * frames.length ≤ (frames.flatMap Frame.bytes).length := by
  induction frames with
  | nil => exact Nat.le_refl _
  | cons frame rest ih =>
      rw [List.flatMap_cons, List.length_append, List.length_cons, Frame.length_bytes]
      rw [Nat.mul_succ]
      omega

/-- As many frames as messages without a body leave nothing of the stream. -/
theorem unread_eq_nil_of_lengths {session : TcpSession} {outs : List Outgoing}
    (inv : session.Inv ((outs.map Outgoing.frame).flatMap Frame.bytes))
    (noBody : ∀ out ∈ outs, out.body = []) (count : session.taken.length = outs.length) :
    session.recievedBuffer.unread.length = 0 := by
  have sent : ((outs.map Outgoing.frame).flatMap Frame.bytes).length =
      headerLen * outs.length := by
    clear inv count
    induction outs with
    | nil => rfl
    | cons out rest ih =>
        have first := noBody out List.mem_cons_self
        rw [List.map_cons, List.flatMap_cons, List.length_append, Frame.length_bytes,
          ih fun other inside => noBody other (List.mem_cons_of_mem _ inside)]
        change headerLen + out.body.length + _ = _
        rw [first, List.length_nil, Nat.add_zero, List.length_cons, Nat.mul_succ, Nat.add_comm]
  have taken := headerLen_mul_le session.taken
  have total := congrArg List.length inv.split
  rw [List.length_append, pendingBytes, List.length_append, sent, ← count] at total
  omega

/-- The stream of a list of messages, cut in any way into deliveries, comes back as
these messages exactly when none of them has a body and the unread bytes can
always be counted. -/
theorem roundTrips_iff (heap : Heap) (outs : List Outgoing) {deliveries : List Delivery}
    (admissible : Along deliver (fun session delivery => delivery.Admissible session)
      (fresh heap) deliveries)
    (stream : deliveries.flatMap Delivery.chunk = outs.flatMap fun out => out.encode.bytes) :
    (∃ session, exec deliver (fresh heap) deliveries = some session ∧
      session.RoundTrips outs) ↔
    (∀ out ∈ outs, out.body = []) ∧
      Along deliver (fun session delivery => delivery.Fits session) (fresh heap)
        deliveries := by
  have framed : deliveries.flatMap Delivery.chunk =
      (outs.map Outgoing.frame).flatMap Frame.bytes := by
    rw [stream, List.flatMap_map]
    exact List.flatMap_congr fun out _ => out.encode_bytes
  have reached := exec_settled (fresh_settled heap) admissible
  rw [List.nil_append, framed] at reached
  constructor
  · rintro ⟨session, returned, trips⟩
    rcases reached with ⟨_, same, settled⟩ | ⟨ended, _⟩
    · cases returned.symm.trans same
      have noBody := body_eq_nil_of_forall₂ settled.inv.queue settled.inv.complete trips
      refine ⟨noBody, ?_⟩
      rcases exec_overfull (fresh_settled heap) admissible returned with fits | overfull
      · exact fits
      · have count : session.taken.length = outs.length :=
          settled.inv.queue.length_eq.symm.trans trips.length_eq
        rw [unread_eq_nil_of_lengths settled.inv noBody count] at overfull
        contradiction
    · rw [ended] at returned
      contradiction
  · rintro ⟨noBody, fits⟩
    have complete : ∀ frame ∈ outs.map Outgoing.frame, frame.Complete := by
      intro frame member
      obtain ⟨out, _, rfl⟩ := List.mem_map.mp member
      exact out.frame_complete
    have exhausted : nextFrame [] = none := rfl
    have frames := referenceDecode_of_split complete exhausted
    rw [List.append_nil] at frames
    rcases reached with ⟨session, returned, settled⟩ | ⟨_, body⟩
    · refine ⟨session, returned, ?_⟩
      have small := exec_fits (fresh_settled heap) (by simp [fresh]) (admissible.and fits)
        returned
      have queue := (settled.decodes small).queue
      rw [frames, List.forall₂_map_right_iff] at queue
      exact queue.imp fun _ _ represents => represents.carries
    · refine absurd ?_ body
      rw [Bodiless, frames]
      exact List.forall_mem_map.mpr noBody

/-- Two messages without a body. -/
def bareMessages : List Outgoing :=
  [⟨1, [], 8, fun _ => 0, by decide, by decide⟩, ⟨2, [], 8, fun _ => 0, by decide, by decide⟩]

/-- Their stream, cut inside the first header. -/
def bareDeliveries : List Delivery :=
  [.data (some [1, 0]), .data (some [0, 0, 2, 0, 0, 0])]

/-- The round trip theorem at these messages. -/
theorem bareMessages_roundTrip :
    ∃ session, exec deliver (fresh ⟨fun _ => lengthBuffer, 0⟩) bareDeliveries = some session ∧
      session.RoundTrips bareMessages := by
  have admissible : Along deliver (fun session delivery => delivery.Admissible session)
      (fresh ⟨fun _ => lengthBuffer, 0⟩) bareDeliveries := by
    refine (along_cons_iff rfl _).mpr ⟨(by decide : _ < _), ?_⟩
    exact (along_cons_iff rfl _).mpr ⟨(by decide : _ < _), trivial⟩
  refine (roundTrips_iff ⟨fun _ => lengthBuffer, 0⟩ bareMessages admissible (by decide)).mpr
    ⟨by decide, ?_⟩
  refine (along_cons_iff rfl _).mpr ⟨by decide, ?_⟩
  exact (along_cons_iff rfl _).mpr ⟨by decide, trivial⟩

/-- A message with the one-byte body `a`. -/
def oneLetter : Outgoing :=
  ⟨1, [97], 8, fun _ => 0, by decide, by decide⟩

/-- The call that delivers the message with body `a` has no result. -/
theorem oneLetter_not_roundTrip :
    [Delivery.data (some [1, 0, 1, 0, 97])].flatMap Delivery.chunk =
        [oneLetter].flatMap (fun out => out.encode.bytes) ∧
      ¬ ∃ session, exec deliver (fresh ⟨fun _ => lengthBuffer, 0⟩)
          [.data (some [1, 0, 1, 0, 97])] = some session ∧ session.RoundTrips [oneLetter] := by
  have ended : exec deliver (fresh ⟨fun _ => lengthBuffer, 0⟩)
      [.data (some [1, 0, 1, 0, 97])] = none := rfl
  refine ⟨by decide, ?_⟩
  rintro ⟨session, returned, _⟩
  rw [ended] at returned
  contradiction

end TcpSession

end Cncpp.Net
