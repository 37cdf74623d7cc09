import Cncpp.Net.Session.Receive

/-!
# Framing does not depend on segmentation

A stream reaches a session in deliveries: buffers handed to `onReceive`, raw
bytes handed to its other overload, and the buffers that `start` takes from the
pool in between.  As long as no complete frame has a body, the session has taken
exactly the frames that the reference decoder finds in the concatenated bytes,
after any run of deliveries.  The delivery that completes a frame with a body does
not return: the process ends in `parseToMessage`.
-/

namespace Cncpp.Net.TcpSession

open Cncpp.Transition

/-- Calls through which received bytes reach a session.  `buffer` passes a null
pointer or a buffer object, given by its address and its contents; `start` takes
the next buffer to receive into from the pool. -/
inductive Delivery where
  | buffer (supplied : Option (Addr × BaseBuffer))
  | data (raw : Option (List UInt8))
  | start

namespace Delivery

/-- The bytes that the call hands over. -/
def chunk : Delivery → List UInt8
  | buffer supplied => (supplied.map fun object => object.2.unread).getD []
  | data raw => raw.getD []
  | start => []

/-- What the types and the ownership of the buffers promise. -/
def Admissible (session : TcpSession) : Delivery → Prop
  | buffer supplied => ∀ object ∈ supplied,
      object.1 ∉ session.recievedBuffer.owned ∧ object.2.Usable
  | data raw => (raw.getD []).length < 2 ^ 32
  | start => True

/-- The unread bytes can still be counted in 32 bits after the call. -/
def Fits (session : TcpSession) (delivery : Delivery) : Prop :=
  session.recievedBuffer.unread.length + delivery.chunk.length < 2 ^ 32

instance (session : TcpSession) (delivery : Delivery) : Decidable (delivery.Fits session) :=
  inferInstanceAs (Decidable (_ < _))

end Delivery

/-- The call on the session. -/
def deliver : Step TcpSession Delivery
  | session, .buffer none => session.onReceive none
  | session, .buffer (some object) =>
      { session with
        recievedBuffer := session.recievedBuffer.place object.1 object.2 }.onReceive
        (some object.1)
  | session, .data raw => session.onReceiveData raw
  | session, .start =>
      some { session with recievedBuffer := session.recievedBuffer.allocBuff.2 }

/-- What holds between two deliveries. -/
structure Settled (stream : List UInt8) (session : TcpSession) : Prop where
  inv : session.Inv stream
  stopped : session.Stopped

theorem fresh_settled (heap : Heap) : (fresh heap).Settled [] where
  inv := ⟨RingBuffer.empty_valid heap, rfl, by simp [fresh], List.Forall₂.nil⟩
  stopped := by
    change (RingBuffer.empty heap).canReadSize < headerLen
    have short := RingBuffer.canReadSize_le (RingBuffer.empty heap)
    rw [RingBuffer.unread_empty, List.length_nil] at short
    exact Nat.lt_of_le_of_lt short (by decide)

/-- New bytes at the end of the ring buffer are new bytes at the end of the stream. -/
theorem Inv.received {stream chunk : List UInt8} {session : TcpSession}
    (inv : session.Inv stream) {ring : RingBuffer} (valid : ring.Valid)
    (unread : ring.unread = session.recievedBuffer.unread ++ chunk) :
    { session with recievedBuffer := ring }.Inv (stream ++ chunk) where
  valid := valid
  split := by
    rw [← inv.split]
    simp only [pendingBytes, unread, List.append_assoc]
  complete := inv.complete
  queue := inv.queue

/-- The ring buffer's part of a delivery: the chunk is appended. -/
theorem deliver_eq_parse {session : TcpSession} (valid : session.recievedBuffer.Valid)
    {delivery : Delivery} (admissible : delivery.Admissible session) :
    ∃ ring : RingBuffer, ring.Valid ∧
      ring.unread = session.recievedBuffer.unread ++ delivery.chunk ∧
      (deliver session delivery = parseToMessage { session with recievedBuffer := ring } ∨
        deliver session delivery = some { session with recievedBuffer := ring } ∧
          delivery.chunk = []) := by
  cases delivery with
  | buffer supplied =>
      cases supplied with
      | none =>
          exact ⟨session.recievedBuffer, valid, (List.append_nil _).symm, Or.inl rfl⟩
      | some object =>
          obtain ⟨fresh, usable⟩ := admissible object rfl
          obtain ⟨placed, kept⟩ := valid.place fresh object.2
          have atP : (session.recievedBuffer.place object.1 object.2).heap.cell object.1 =
              object.2 := Function.update_self _ _ _
          obtain ⟨emplaced, unread⟩ := placed.emplaceBack (p := object.1) fresh
            (Nat.lt_of_lt_of_le (Nat.lt_succ_self _) (Nat.le_max_right _ _))
            (by rw [atP]; exact usable)
          rw [atP, kept] at unread
          exact ⟨_, emplaced, unread, Or.inl rfl⟩
  | data raw =>
      have short : (raw.getD []).length < 2 ^ 32 := admissible
      obtain ⟨after, returned, written, unread⟩ := valid.writeData short
      refine ⟨after, written, unread, Or.inl ?_⟩
      change session.onReceiveData raw = _
      rw [onReceiveData, returned, Option.bind_some]
  | start =>
      have handed := valid.allocBuff
      refine ⟨_, handed.valid, ?_, Or.inr ⟨rfl, rfl⟩⟩
      rw [handed.unread]
      exact (List.append_nil _).symm

/-- One delivery: it returns, the stream grows by the chunk, and the unread bytes
grow by at most the chunk.  They do not shrink below `2 ^ 32` from above.  Otherwise the
process ends in it, and the stream has a frame with a body. -/
theorem deliver_spec {stream : List UInt8} {session : TcpSession}
    (settled : session.Settled stream) {delivery : Delivery}
    (admissible : delivery.Admissible session) :
    (∃ next, deliver session delivery = some next ∧
      next.Settled (stream ++ delivery.chunk) ∧
      (delivery.Fits session → next.recievedBuffer.unread.length < 2 ^ 32) ∧
      (¬ delivery.Fits session → 2 ^ 32 ≤ next.recievedBuffer.unread.length)) ∨
    deliver session delivery = none ∧ ¬ Bodiless (stream ++ delivery.chunk) := by
  obtain ⟨ring, valid, unread, parsed | ⟨kept, noChunk⟩⟩ :=
    deliver_eq_parse settled.inv.valid admissible
  · have received := settled.inv.received valid unread
    rw [parsed]
    refine (parseToMessage_spec received).imp_left ?_
    rintro ⟨final, returned, finalInv, stopped, consumed⟩
    have total : ring.unread.length =
        session.recievedBuffer.unread.length + delivery.chunk.length := by
      rw [unread, List.length_append]
    refine ⟨final, returned, ⟨finalInv, stopped⟩, ?_, ?_⟩
    · intro fits
      rw [Delivery.Fits, ← total] at fits
      exact Nat.lt_of_le_of_lt consumed.unread_le fits
    · intro overfull
      rw [Delivery.Fits, ← total] at overfull
      exact consumed.overfull (Nat.not_lt.mp overfull)
  · left
    have same : ring.unread = session.recievedBuffer.unread := by
      rw [unread, noChunk, List.append_nil]
    refine ⟨_, kept, ⟨settled.inv.received valid unread, ?_⟩, ?_, ?_⟩
    · have stopped := settled.stopped
      rw [Stopped, RingBuffer.canReadSize_eq] at stopped ⊢
      rw [same]
      exact stopped
    · intro fits
      rw [Delivery.Fits, noChunk] at fits
      rw [same]
      exact fits
    · intro overfull
      rw [Delivery.Fits, noChunk] at overfull
      rw [same]
      exact Nat.not_lt.mp overfull

/-- A delivery that returns. -/
theorem deliver_settled {stream : List UInt8} {session next : TcpSession}
    (settled : session.Settled stream) {delivery : Delivery}
    (admissible : delivery.Admissible session) (delivered : deliver session delivery = some next) :
    next.Settled (stream ++ delivery.chunk) ∧
      (delivery.Fits session → next.recievedBuffer.unread.length < 2 ^ 32) ∧
      (¬ delivery.Fits session → 2 ^ 32 ≤ next.recievedBuffer.unread.length) := by
  rcases deliver_spec settled admissible with ⟨after, returns, spec⟩ | ⟨ended, _⟩
  · cases delivered.symm.trans returns
    exact spec
  · rw [ended] at delivered
    contradiction

/-! ## Runs -/

/-- The session has got exactly as far in the stream as the reference decoder. -/
structure Decodes (stream : List UInt8) (session : TcpSession) : Prop where
  frames : session.taken = (referenceDecode stream).1
  /-- No complete frame is left unprocessed. -/
  exhausted : nextFrame (referenceDecode stream).2 = none
  /-- A header is waiting exactly when a whole one is left. -/
  headOk : session.parseHeadOk = true ↔ headerLen ≤ (referenceDecode stream).2.length
  /-- The waiting header is the one left in front. -/
  head : session.parseHeadOk = true →
    session.curHeader = MsgHeader.ofBytes (referenceDecode stream).2
  unread : session.recievedBuffer.unread =
    if session.parseHeadOk then (referenceDecode stream).2.drop headerLen
    else (referenceDecode stream).2
  queue : List.Forall₂ MessageObject.Represents session.recivedMsgQueue
    (referenceDecode stream).1

/-- A settled session whose unread bytes can be counted decodes the stream. -/
theorem Settled.decodes {stream : List UInt8} {session : TcpSession}
    (settled : session.Settled stream) (fits : session.recievedBuffer.unread.length < 2 ^ 32) :
    session.Decodes stream := by
  have incomplete := nextFrame_of_stopped settled.stopped fits
  have decoded : referenceDecode stream = (session.taken, session.pendingBytes) := by
    rw [← settled.inv.split]
    exact referenceDecode_of_split settled.inv.complete incomplete
  have stopped := settled.stopped
  rw [Stopped, RingBuffer.canReadSize_of_lt fits] at stopped
  by_cases headOk : session.parseHeadOk = true
  · have pending : session.pendingBytes =
        session.curHeader.bytes ++ session.recievedBuffer.unread := by
      simp only [pendingBytes, headOk, if_true]
    constructor
    · rw [decoded]
    · exact wireReader.next_decode_snd stream
    · rw [decoded, pending, List.length_append, MsgHeader.length_bytes]
      exact ⟨fun _ => Nat.le_add_right _ _, fun _ => headOk⟩
    · intro _
      rw [decoded, pending, MsgHeader.ofBytes_bytes_append]
    · rw [decoded, if_pos headOk, pending]
      exact (List.drop_left' (MsgHeader.length_bytes session.curHeader)).symm
    · rw [decoded]
      exact settled.inv.queue
  · have pending : session.pendingBytes = session.recievedBuffer.unread := by
      simp only [pendingBytes, headOk, Bool.false_eq_true, if_false, List.nil_append]
    simp only [headOk, Bool.false_eq_true, if_false] at stopped
    constructor
    · rw [decoded]
    · exact wireReader.next_decode_snd stream
    · rw [decoded, pending]
      exact ⟨fun waiting => absurd waiting headOk,
        fun enough => absurd stopped (Nat.not_lt.mpr enough)⟩
    · intro waiting
      exact absurd waiting headOk
    · rw [decoded, if_neg headOk, pending]
    · rw [decoded]
      exact settled.inv.queue

/-- Decoding goes on where it stopped: the frames taken earlier stay, and those that
follow are decoded from the bytes left over and the new ones. -/
theorem Decodes.resume {first second : List UInt8} {before after : TcpSession}
    (earlier : before.Decodes first) (later : after.Decodes (first ++ second)) :
    after.taken =
      before.taken ++ (referenceDecode ((referenceDecode first).2 ++ second)).1 := by
  rw [later.frames, earlier.frames]
  exact congrArg Prod.fst (wireReader.decode_append first second)

/-- Whether a delivery returns tells the frames: it does where no complete frame of the
stream has a body. -/
theorem deliver_isSome_iff {stream : List UInt8} {session : TcpSession}
    (settled : session.Settled stream) {delivery : Delivery}
    (admissible : delivery.Admissible session) (fits : delivery.Fits session) :
    (deliver session delivery).isSome ↔ Bodiless (stream ++ delivery.chunk) := by
  rcases deliver_spec settled admissible with ⟨next, returned, after, small, _⟩ | ⟨ended, body⟩
  · rw [returned]
    exact iff_of_true rfl
      (MessageObject.body_eq_nil_of_represents (after.decodes (small fits)).queue)
  · rw [ended]
    exact iff_of_false (by decide) body

/-- The step of a run, for the stream as a whole: every admissible delivery returns,
and afterwards the session is settled for all bytes delivered so far, or the stream has a
frame with a body and the process has ended. -/
theorem exec_settled {deliveries : List Delivery} {stream : List UInt8} {session : TcpSession}
    (settled : session.Settled stream)
    (admissible : Along deliver (fun session delivery => delivery.Admissible session) session
      deliveries) :
    (∃ final, exec deliver session deliveries = some final ∧
      final.Settled (stream ++ deliveries.flatMap Delivery.chunk)) ∨
    exec deliver session deliveries = none ∧
      ¬ Bodiless (stream ++ deliveries.flatMap Delivery.chunk) := by
  induction deliveries generalizing stream session with
  | nil =>
      left
      refine ⟨session, rfl, ?_⟩
      rw [List.flatMap_nil, List.append_nil]
      exact settled
  | cons delivery rest ih =>
      rw [List.flatMap_cons, ← List.append_assoc, exec]
      rcases deliver_spec settled admissible.1 with ⟨next, first, nextSettled, _⟩ | ⟨ended, body⟩
      · rw [first]
        exact ih nextSettled (admissible.2 next first)
      · rw [ended]
        exact Or.inr ⟨rfl, fun bodiless => body bodiless.of_append⟩

/-- The unread bytes stay countable along a run whose deliveries fit. -/
theorem exec_fits {deliveries : List Delivery} {stream : List UInt8}
    {session final : TcpSession} (settled : session.Settled stream)
    (fits : session.recievedBuffer.unread.length < 2 ^ 32)
    (admissible : Along deliver
      (fun session delivery => delivery.Admissible session ∧ delivery.Fits session) session
      deliveries)
    (run : exec deliver session deliveries = some final) :
    final.recievedBuffer.unread.length < 2 ^ 32 := by
  have preserved : ∀ ⦃session delivery next⦄,
      ((∃ stream, session.Settled stream) ∧
        session.recievedBuffer.unread.length < 2 ^ 32) →
      delivery.Admissible session ∧ delivery.Fits session →
      deliver session delivery = some next →
      (∃ stream, next.Settled stream) ∧ next.recievedBuffer.unread.length < 2 ^ 32 := by
    rintro session delivery next ⟨⟨stream, settled⟩, _⟩ ⟨allowed, fits⟩ returned
    obtain ⟨afterSettled, small, _⟩ := deliver_settled settled allowed returned
    exact ⟨⟨_, afterSettled⟩, small fits⟩
  exact (invariant_along preserved ⟨⟨stream, settled⟩, fits⟩ admissible run).2

/-- However a stream is cut into deliveries, every call returns and the session has
decoded exactly what the reference decoder finds in the stream, if and only if no complete
frame of the stream has a body.  Two ways of cutting such a stream therefore end in the
same frames, the same waiting header and the same unread bytes. -/
theorem run_decodes_iff (heap : Heap) {deliveries : List Delivery}
    (admissible : Along deliver
      (fun session delivery => delivery.Admissible session ∧ delivery.Fits session)
      (fresh heap) deliveries) :
    (∃ session, exec deliver (fresh heap) deliveries = some session ∧
      session.Decodes (deliveries.flatMap Delivery.chunk)) ↔
    Bodiless (deliveries.flatMap Delivery.chunk) := by
  have types : Along deliver (fun session delivery => delivery.Admissible session)
      (fresh heap) deliveries := admissible.mono fun _ _ both => both.1
  constructor
  · rintro ⟨session, _, decodes⟩
    exact MessageObject.body_eq_nil_of_represents decodes.queue
  · intro bodiless
    rcases exec_settled (fresh_settled heap) types with ⟨session, returned, settled⟩ | ⟨_, body⟩
    · refine ⟨session, returned, Settled.decodes settled ?_⟩
      exact exec_fits (fresh_settled heap) (by simp [fresh]) admissible returned
    · exact absurd bodiless body

/-- The bytes `0, 0` in a buffer of four. -/
def lengthBuffer : BaseBuffer :=
  ⟨⟨4, fun _ => 0⟩, 0, 2, 4⟩

/-- A header cut in two, a second header and the start of its body. -/
def cutDeliveries : List Delivery :=
  [.data (some [7, 0]), .start, .buffer (some (9, lengthBuffer)), .data (some [5]),
    .data (some [0, 2, 0, 1])]

theorem cutDeliveries_admissible :
    Along deliver
      (fun session delivery => delivery.Admissible session ∧ delivery.Fits session)
      (fresh ⟨fun _ => lengthBuffer, 0⟩) cutDeliveries := by
  refine (along_cons_iff rfl _).mpr ⟨⟨(by decide : _ < _), by decide⟩, ?_⟩
  refine (along_cons_iff rfl _).mpr ⟨⟨trivial, by decide⟩, ?_⟩
  refine (along_cons_iff rfl _).mpr ⟨⟨?_, by decide⟩, ?_⟩
  · rintro object same
    cases same
    refine ⟨by decide, ?_⟩
    exact
      { rd_le_wr := by decide
        wr_le_len := by decide
        len_le_allocated := by decide
        len_lt := by decide
        len_pos := by decide }
  · refine (along_cons_iff rfl _).mpr ⟨⟨(by decide : _ < _), by decide⟩, ?_⟩
    exact (along_cons_iff rfl _).mpr ⟨⟨(by decide : _ < _), by decide⟩, trivial⟩

/-- The decoding theorem at these deliveries. -/
theorem cutDeliveries_decode :
    ∃ session, exec deliver (fresh ⟨fun _ => lengthBuffer, 0⟩) cutDeliveries = some session ∧
      session.taken = [⟨⟨7, 0⟩, []⟩] ∧ session.parseHeadOk = true ∧
      session.curHeader = ⟨5, 2⟩ ∧ session.recievedBuffer.unread = [1] := by
  have complete : ∀ frame ∈ [(⟨⟨7, 0⟩, []⟩ : Frame)], frame.Complete := by
    intro frame member
    cases List.mem_singleton.mp member
    rfl
  have incomplete : nextFrame [5, 0, 2, 0, 1] = none := rfl
  have stream : referenceDecode (cutDeliveries.flatMap Delivery.chunk) =
      ([⟨⟨7, 0⟩, []⟩], [5, 0, 2, 0, 1]) := referenceDecode_of_split complete incomplete
  have bodiless : Bodiless (cutDeliveries.flatMap Delivery.chunk) := by
    rw [Bodiless, stream]
    simp
  obtain ⟨session, returned, decodes⟩ := (run_decodes_iff _ cutDeliveries_admissible).mpr bodiless
  have waiting : session.parseHeadOk = true := by
    rw [decodes.headOk, stream]
    decide
  refine ⟨session, returned, ?_, waiting, ?_, ?_⟩
  · rw [decodes.frames, stream]
  · rw [decodes.head waiting, stream]
    rfl
  · rw [decodes.unread, if_pos waiting, stream]
    rfl

/-- A frame with eight body bytes in one delivery, and a bare header behind it. -/
def bodyDeliveries : List Delivery :=
  [.data (some [1, 0, 8, 0, 97, 98, 99, 100, 101, 102, 103, 104]), .data (some [2, 0, 0, 0])]

/-- The process ends in the first delivery, so that the session does not decode the
stream. -/
theorem bodyDeliveries_end :
    Along deliver
      (fun session delivery => delivery.Admissible session ∧ delivery.Fits session)
      (fresh ⟨fun _ => lengthBuffer, 0⟩) bodyDeliveries ∧
    ¬ ∃ session, exec deliver (fresh ⟨fun _ => lengthBuffer, 0⟩) bodyDeliveries = some session ∧
      session.Decodes (bodyDeliveries.flatMap Delivery.chunk) := by
  have ended : deliver (fresh ⟨fun _ => lengthBuffer, 0⟩)
      (.data (some [1, 0, 8, 0, 97, 98, 99, 100, 101, 102, 103, 104])) = none := rfl
  constructor
  · refine ⟨⟨(by decide : _ < _), by decide⟩, fun next delivered => ?_⟩
    rw [ended] at delivered
    contradiction
  · rintro ⟨session, returned, _⟩
    rw [bodyDeliveries, exec, ended] at returned
    contradiction

end Cncpp.Net.TcpSession
