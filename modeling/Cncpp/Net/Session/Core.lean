import Cncpp.Net.RingBuffer.Correctness
import Cncpp.Net.Session.Frame

/-!
# Receiving sessions

The receiving half of `TcpSession`: the ring buffer of received bytes, the
two-phase parser that survives between calls, and the queue of messages it
creates.  The queue is modelled by its contents, since one thread parses.

`parseToMessage` reads the body with `recieved_buffer_.read(msg, msg_len)`, and
`msg` is a `Message*`.  Of the two overloads of `read` only the one on `void*`
accepts a pointer, so the body bytes are copied over the `Message` object itself
and not into its storage.  A `MessageObject` therefore keeps the object
representation next to the value.  Once a byte of it has been overwritten, the
members of the message have no defined result any more.  The next call is
`setHeader`, which writes through the pointer to the storage, and this pointer is
what the first bytes of a body have replaced.  Such a write has no defined result:
the model lets the process end there.  What a body longer than the object does to
other memory is left out.
-/

namespace Cncpp.Net

open Cncpp.Loop
open Cncpp.Memory

/-- A `Message` on the free store. -/
structure MessageObject where
  /-- The value that the members of `Message` left behind. -/
  message : Message
  /-- The bytes of the object itself. -/
  image : Nat → UInt8
  /-- How many of its leading bytes have been overwritten from outside. -/
  overwritten : Nat

namespace MessageObject

/-- `new Message(size)`. -/
def new (memory : Nat → UInt8) (size : Nat) : MessageObject :=
  ⟨Message.new memory size, memory, 0⟩

/-- `memcpy` to the address of the object. -/
def destination : Destination MessageObject where
  memcpy object offset bytes :=
    { object with
      image := write object.image offset bytes
      overwritten :=
        if bytes = [] then object.overwritten
        else max object.overwritten (offset + bytes.length) }
  memcpy_nil := by
    intro object offset
    simp
  memcpy_append := by
    intro object offset first second
    by_cases noFirst : first = []
    · subst noFirst
      simp
    · by_cases noSecond : second = []
      · subst noSecond
        simp
      · simp [noFirst, noSecond, write_write_append, Nat.add_assoc]

/-- Call a member of the message.  The call has no defined result on an object
whose representation was overwritten. -/
def call {α : Type} (object : MessageObject) (member : Message → α) : Option α :=
  if object.overwritten = 0 then some (member object.message) else none

/-- `msg->setHeader(head)`, a member like the others. -/
def setHeader (object : MessageObject) (head : MsgHeader) : Option MessageObject :=
  (object.call (Message.setHeader · head)).map fun message => { object with message := message }

end MessageObject

/-- The receiving members of `class TcpSession`. -/
structure TcpSession where
  recievedBuffer : RingBuffer
  recivedMsgQueue : List MessageObject
  parseHeadOk : Bool
  curHeader : MsgHeader
  /-- History: for every message created, its header and the bytes that were read
  from the ring buffer for it. -/
  taken : List Frame

namespace TcpSession

/-- A session as constructed, in a given heap. -/
def fresh (heap : Heap) : TcpSession :=
  ⟨RingBuffer.empty heap, [], false, MsgHeader.zero, []⟩

/-- The storage that the next allocation finds. -/
def freshMemory (session : TcpSession) : Nat → UInt8 :=
  (session.recievedBuffer.heap.cell session.recievedBuffer.heap.next).data.cells

/-- The part of a pass of `parseToMessage` that reads the header.  The result
says whether the loop goes on to the body; `none` is a read that does not return. -/
def parseHead (session : TcpSession) : Option (Bool × TcpSession) :=
  if session.parseHeadOk then some (true, session)
  else if session.recievedBuffer.canReadSize < headerLen then some (false, session)
  else
    (session.recievedBuffer.read Destination.memory
        (fun offset => session.curHeader.bytes.getD offset 0) headerLen).map
      fun (readed, image, ring) =>
        let received := { session with
          recievedBuffer := ring
          curHeader := MsgHeader.ofBytes (window image 0 headerLen) }
        if readed < headerLen then (false, received)
        else (true, { received with parseHeadOk := true })

/-- The part of a pass of `parseToMessage` that reads the body and enqueues the
message.  `none` is a read that does not return, or a process that has ended. -/
def parseBody (session : TcpSession) : Pass TcpSession (Option TcpSession) :=
  let msgLen := session.curHeader.msgLen.toNat
  if session.recievedBuffer.canReadSize < msgLen then .leave (some session)
  else
    match session.recievedBuffer.read MessageObject.destination
        (MessageObject.new session.freshMemory msgLen) msgLen with
    | none => .leave none
    | some (readed, msg, ring) =>
        let received := { session with
          recievedBuffer := ring
          taken := session.taken ++ [⟨session.curHeader, window msg.image 0 readed⟩] }
        if msgLen ≠ readed then .leave (some received)
        else
          match msg.setHeader session.curHeader with
          | none => .leave none
          | some msg =>
              .again { received with
                parseHeadOk := false
                recivedMsgQueue := received.recivedMsgQueue ++ [msg] }

/-- One pass of the loop of `parseToMessage`.  The test of `parse_head_ok_` between
the two parts always succeeds, since a header has just been read or was there. -/
def parsePass (session : TcpSession) : Pass TcpSession (Option TcpSession) :=
  match session.parseHead with
  | none => .leave none
  | some (false, stopped) => .leave (some stopped)
  | some (true, headed) => parseBody headed

/-- A bound on the passes: every pass consumes a byte or finishes a body. -/
def parseFuel (session : TcpSession) : Nat :=
  (session.recievedBuffer.buffers.map fun p =>
    (session.recievedBuffer.heap.cell p).canRdSize).sum + 2

/-- `parseToMessage`. -/
def parseToMessage (session : TcpSession) : Option TcpSession :=
  (run parsePass session.parseFuel session).join

/-- `onReceive(const BaseBufferPtr& buf)`. -/
def onReceive (session : TcpSession) (buf : BaseBufferPtr) : Option TcpSession :=
  parseToMessage { session with recievedBuffer := session.recievedBuffer.emplaceBack buf }

/-- `onReceive(const char* buf, const uint32_t& size)`. -/
def onReceiveData (session : TcpSession) (data : Option (List UInt8)) : Option TcpSession :=
  (session.recievedBuffer.writeData data).bind fun written =>
    parseToMessage { session with recievedBuffer := written.2 }

end TcpSession

end Cncpp.Net
