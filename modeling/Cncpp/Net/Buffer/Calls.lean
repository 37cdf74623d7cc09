import Cncpp.Net.Buffer.Message
import Cncpp.Transition.Answer
import Mathlib.Algebra.GroupWithZero.Nat

/-!
# Calls on a message

A message is for carrying a header and a body, which is what a `Letter` is: two fields
that are overwritten and a body that grows at its end.  A `Message` keeps both in one
block of storage, at fixed offsets, and moves the block when a body does not fit.  Every
run of calls on a message is answered as the same run on a letter, as long as the bodies
fit into a `uint32_t` with the header.
-/

namespace Cncpp.Net

open Cncpp.Machine
open Cncpp.Memory
open Cncpp.Transition

namespace Message

/-- The calls that access a header or a body. -/
inductive Call where
  | setMsgCode (code : UInt16)
  | setMsgLen (len : UInt16)
  | setHeader (head : MsgHeader)
  | writeBody (body : List UInt8)
  | readBody

namespace Call

/-- The code that a call stores. -/
def code? : Call → Option UInt16
  | setMsgCode code => some code
  | setHeader head => some head.msgCode
  | _ => none

/-- The length field that a call stores. -/
def len? : Call → Option UInt16
  | setMsgLen len => some len
  | setHeader head => some head.msgLen
  | _ => none

/-- The bytes that a call adds to the body. -/
def added : Call → List UInt8
  | writeBody body => body
  | _ => []

end Call

/-- The last code that the calls store. -/
def lastCode (calls : List Call) : Option UInt16 :=
  (calls.filterMap Call.code?).getLast?

/-- The last length field that the calls store. -/
def lastLen (calls : List Call) : Option UInt16 :=
  (calls.filterMap Call.len?).getLast?

/-- All strings given to `writeBody`, in order. -/
def written (calls : List Call) : List UInt8 :=
  calls.flatMap Call.added

/-- What a call returns. -/
inductive Reply where
  | done
  | count (accepted : Nat)
  | text (body : List UInt8)
  deriving DecidableEq

/-- One call on a message. -/
def call : Method Message Call Reply
  | msg, .setMsgCode code => (.done, msg.setMsgCode code)
  | msg, .setMsgLen len => (.done, msg.setMsgLen len)
  | msg, .setHeader head => (.done, msg.setHeader head)
  | msg, .writeBody body => (.count (msg.writeBody body).1, (msg.writeBody body).2)
  | msg, .readBody => (.text msg.readBody, msg)

end Message

/-! ## Letters -/

/-- A header and a body, kept apart. -/
structure Letter where
  header : MsgHeader
  body : List UInt8

namespace Letter

open Message (Call Reply)

/-- The first `msgLen` bytes of the body, once that many are there. -/
def announced (letter : Letter) : List UInt8 :=
  if letter.header.msgLen.toNat ≤ letter.body.length then
    letter.body.take letter.header.msgLen.toNat
  else []

/-- One call on a letter. -/
def call : Method Letter Call Reply
  | letter, .setMsgCode code =>
      (.done, { letter with header := { letter.header with msgCode := code } })
  | letter, .setMsgLen len =>
      (.done, { letter with header := { letter.header with msgLen := len } })
  | letter, .setHeader head => (.done, { letter with header := head })
  | letter, .writeBody body => (.count body.length, { letter with body := letter.body ++ body })
  | letter, .readBody => (.text letter.announced, letter)

theorem call_msgCode (letter : Letter) (act : Call) :
    (letter.call act).2.header.msgCode = act.code?.getD letter.header.msgCode := by
  cases act <;> rfl

theorem call_msgLen (letter : Letter) (act : Call) :
    (letter.call act).2.header.msgLen = act.len?.getD letter.header.msgLen := by
  cases act <;> rfl

theorem call_body (letter : Letter) (act : Call) :
    (letter.call act).2.body = letter.body ++ act.added := by
  cases act with
  | writeBody body => rfl
  | setMsgCode code => exact (List.append_nil letter.body).symm
  | setMsgLen len => exact (List.append_nil letter.body).symm
  | setHeader head => exact (List.append_nil letter.body).symm
  | readBody => exact (List.append_nil letter.body).symm

theorem answers_msgCode (letter : Letter) (calls : List Call) :
    (answers Letter.call letter calls).2.header.msgCode =
      (Message.lastCode calls).getD letter.header.msgCode :=
  answers_overwritten (fun letter => letter.header.msgCode) call_msgCode letter calls

theorem answers_msgLen (letter : Letter) (calls : List Call) :
    (answers Letter.call letter calls).2.header.msgLen =
      (Message.lastLen calls).getD letter.header.msgLen :=
  answers_overwritten (fun letter => letter.header.msgLen) call_msgLen letter calls

theorem answers_body (letter : Letter) (calls : List Call) :
    (answers Letter.call letter calls).2.body = letter.body ++ Message.written calls :=
  answers_appended Letter.body call_body letter calls

end Letter

namespace Message

/-! ## A message holds a letter -/

/-- The storage of the message shows the letter: the header bytes and behind them the
body. -/
structure Holds (msg : Message) (letter : Letter) : Prop where
  wellFormed : msg.WellFormed
  header : window msg.data.cells 0 headerLen = letter.header.bytes
  body : msg.unread = letter.body

/-- The two halves of the stored header. -/
theorem window_header (msg : Message) {head : MsgHeader}
    (stored : window msg.data.cells 0 headerLen = head.bytes) :
    window msg.data.cells 0 2 = uint16Bytes head.msgCode ∧
      window msg.data.cells 2 2 = uint16Bytes head.msgLen := by
  have halves : window msg.data.cells 0 2 ++ window msg.data.cells 2 2 =
      uint16Bytes head.msgCode ++ uint16Bytes head.msgLen := by
    rw [← MsgHeader.bytes, ← stored, headerLen, window_add msg.data.cells 0 2 2]
  exact List.append_inj halves (length_window msg.data.cells 0 2)

/-- A fresh message holds an empty body behind the bytes that its storage came with. -/
theorem new_holds (memory : Nat → UInt8) {size : Nat} (fits : size + headerLen < 2 ^ 32) :
    (new memory size).Holds
      ⟨MsgHeader.ofBytes (window (new memory size).data.cells 0 headerLen), []⟩ where
  wellFormed := new_wellFormed memory fits
  header := (MsgHeader.bytes_ofBytes (length_window _ _ _)).symm
  body := unread_new memory size

namespace Holds

variable {msg : Message} {letter : Letter}

theorem getMsgCode_eq (holds : msg.Holds letter) : msg.getMsgCode = letter.header.msgCode :=
  (holds.wellFormed.getHeader holds.header).1

theorem getMsgLen_eq (holds : msg.Holds letter) : msg.getMsgLen = letter.header.msgLen :=
  (holds.wellFormed.getHeader holds.header).2

theorem size_eq (holds : msg.Holds letter) : msg.size = headerLen + letter.body.length := by
  rw [holds.wellFormed.size_eq, holds.body]

theorem canRdSize_eq (holds : msg.Holds letter) : msg.canRdSize = letter.body.length := by
  rw [← BaseBuffer.length_unread, holds.body]

theorem setHeader (holds : msg.Holds letter) (head : MsgHeader) :
    (msg.setHeader head).Holds { letter with header := head } := by
  obtain ⟨wellFormed, sameBody, stored⟩ := holds.wellFormed.setHeader head
  exact ⟨wellFormed, stored, sameBody.trans holds.body⟩

theorem setMsgLen (holds : msg.Holds letter) (len : UInt16) :
    (msg.setMsgLen len).Holds { letter with header := { letter.header with msgLen := len } } := by
  obtain ⟨wellFormed, sameBody, stored⟩ := holds.wellFormed.setMsgLen len
  refine ⟨wellFormed, ?_, sameBody.trans holds.body⟩
  rw [stored, (msg.window_header holds.header).1]
  rfl

/-- `setMsgCode` writes two bytes, and the two behind them stay. -/
theorem setMsgCode (holds : msg.Holds letter) (code : UInt16) :
    (msg.setMsgCode code).Holds
      { letter with header := { letter.header with msgCode := code } } := by
  obtain ⟨wellFormed, sameBody, stored⟩ := holds.wellFormed.setMsgCode code
  have behind : window (msg.setMsgCode code).data.cells 2 2 = uint16Bytes letter.header.msgLen := by
    rw [Message.setMsgCode, setData_cells, window_write_after _ _ (by simp)]
    exact (msg.window_header holds.header).2
  refine ⟨wellFormed, ?_, sameBody.trans holds.body⟩
  rw [headerLen, window_add _ 0 2 2, stored, behind]
  rfl

/-- `writeBody` is answered with the length of the string, and the body grows by it. -/
theorem writeBody (holds : msg.Holds letter) {body : List UInt8}
    (fits : headerLen + letter.body.length + body.length < 2 ^ 32) :
    (msg.writeBody body).1 = body.length ∧
      (msg.writeBody body).2.Holds { letter with body := letter.body ++ body } := by
  rw [← holds.size_eq] at fits
  obtain ⟨accepted, wellFormed, longer, kept⟩ := holds.wellFormed.writeBody fits
  refine ⟨accepted, wellFormed, kept.trans holds.header, ?_⟩
  rw [longer, holds.body]

/-- `readBody` returns the announced part of the body. -/
theorem readBody_eq (holds : msg.Holds letter) : msg.readBody = letter.announced := by
  unfold Message.readBody Letter.announced
  rw [holds.getMsgLen_eq, holds.canRdSize_eq]
  by_cases whole : letter.header.msgLen.toNat ≤ letter.body.length
  · have readable : letter.header.msgLen.toNat ≤ msg.canRdSize := by
      rw [holds.canRdSize_eq]
      exact whole
    rw [if_pos whole, if_neg (Nat.not_lt.mpr whole), msg.window_beginRd readable, holds.body]
  · rw [if_neg whole, if_pos (Nat.lt_of_not_le whole)]

/-- One call on a message is answered as on the letter it holds. -/
theorem call (holds : msg.Holds letter) (act : Call)
    (fits : headerLen + letter.body.length + act.added.length < 2 ^ 32) :
    (msg.call act).1 = (letter.call act).1 ∧ (msg.call act).2.Holds (letter.call act).2 := by
  cases act with
  | setMsgCode code => exact ⟨rfl, holds.setMsgCode code⟩
  | setMsgLen len => exact ⟨rfl, holds.setMsgLen len⟩
  | setHeader head => exact ⟨rfl, holds.setHeader head⟩
  | writeBody body =>
      obtain ⟨accepted, grown⟩ := holds.writeBody fits
      exact ⟨congrArg Reply.count accepted, grown⟩
  | readBody => exact ⟨congrArg Reply.text holds.readBody_eq, holds⟩

end Holds

/-- The message holds the letter, and all bodies still to be written fit behind its own. -/
def HoldsBefore (msg : Message) (letter : Letter) (calls : List Call) : Prop :=
  msg.Holds letter ∧ headerLen + letter.body.length + (written calls).length < 2 ^ 32

theorem HoldsBefore.call ⦃msg : Message⦄ ⦃letter : Letter⦄ ⦃act : Call⦄ ⦃calls : List Call⦄
    (holdsBefore : msg.HoldsBefore letter (act :: calls)) :
    (msg.call act).1 = (letter.call act).1 ∧
      (msg.call act).2.HoldsBefore (letter.call act).2 calls := by
  obtain ⟨holds, fits⟩ := holdsBefore
  rw [written, List.flatMap_cons, List.length_append, ← written] at fits
  obtain ⟨sameReply, next⟩ := holds.call act (by omega)
  refine ⟨sameReply, next, ?_⟩
  rw [letter.call_body, List.length_append]
  omega

/-- A run of calls on a message is answered as on the letter it holds, as long as the
bodies fit. -/
theorem HoldsBefore.answers {msg : Message} {letter : Letter} {calls : List Call}
    (holdsBefore : msg.HoldsBefore letter calls) :
    (Transition.answers Message.call msg calls).1 =
        (Transition.answers Letter.call letter calls).1 ∧
      (Transition.answers Message.call msg calls).2.Holds
        (Transition.answers Letter.call letter calls).2 := by
  obtain ⟨sameReplies, final⟩ := answers_simulation HoldsBefore.call holdsBefore
  exact ⟨sameReplies, final.1⟩

/-- Whatever is called on a fresh message, its header holds the last code and the last
length stored, its body holds all strings written, each of which was accepted whole, and
reading the announced part of the body changes nothing. -/
theorem calls_keep_apart (memory : Nat → UInt8) {size : Nat}
    (sizeFits : size + headerLen < 2 ^ 32) {calls : List Call}
    (bodyFits : headerLen + (written calls).length < 2 ^ 32) {replies : List Reply}
    {msg : Message} (ran : answers call (new memory size) calls = (replies, msg)) :
    msg.getMsgCode = (lastCode calls).getD (new memory size).getMsgCode ∧
      msg.getMsgLen = (lastLen calls).getD (new memory size).getMsgLen ∧
      msg.size = headerLen + (written calls).length ∧
      window msg.data.cells headerLen (msg.size - headerLen) = written calls ∧
      (∀ (index : Nat) (body : List UInt8), calls[index]? = some (Call.writeBody body) →
        replies[index]? = some (Reply.count body.length)) ∧
      msg.call .readBody =
        (.text (if msg.getMsgLen.toNat ≤ (written calls).length then
          (written calls).take msg.getMsgLen.toNat else []), msg) := by
  have fresh := new_holds memory sizeFits
  have before : (new memory size).HoldsBefore _ calls := ⟨fresh, bodyFits⟩
  obtain ⟨sameReplies, holds⟩ := before.answers
  rw [ran] at sameReplies holds
  have code := holds.getMsgCode_eq
  rw [Letter.answers_msgCode, ← fresh.getMsgCode_eq] at code
  have len := holds.getMsgLen_eq
  rw [Letter.answers_msgLen, ← fresh.getMsgLen_eq] at len
  have body := Letter.answers_body
    ⟨MsgHeader.ofBytes (window (new memory size).data.cells 0 headerLen), []⟩ calls
  rw [List.nil_append] at body
  have length := holds.size_eq
  rw [body] at length
  refine ⟨code, len, length, ?_, ?_, ?_⟩
  · have unread := holds.body
    rw [body, BaseBuffer.unread, holds.canRdSize_eq, holds.wellFormed.rd_eq_headerLen,
      body] at unread
    rw [length, Nat.add_sub_cancel_left]
    exact unread
  · intro index body made
    change replies = _ at sameReplies
    rw [sameReplies]
    exact answers_getElem?_of_constant
      (fun letter : Letter => (rfl : (letter.call (.writeBody body)).1 = .count body.length))
      _ made
  · change (Reply.text msg.readBody, msg) = _
    rw [holds.readBody_eq, Letter.announced, ← holds.getMsgLen_eq, body]

/-- A body is written before and after the length field, and the second part of it does
not fit into the buffer. -/
theorem calls_keep_apart_growing :
    let calls := [Call.setMsgCode 7, .writeBody [1, 2, 3], .setMsgLen 2, .writeBody [4, 5]]
    let msg := (answers call (new (fun _ => 0) 4) calls).2
    msg.getMsgCode = 7 ∧ msg.getMsgLen = 2 ∧
      window msg.data.cells headerLen (msg.size - headerLen) = [1, 2, 3, 4, 5] ∧
      msg.readBody = [1, 2] := by
  intro calls msg
  have apart := calls_keep_apart (fun _ => 0) (by decide : 4 + headerLen < 2 ^ 32)
    (by decide : headerLen + (written calls).length < 2 ^ 32) rfl
  refine ⟨apart.1, apart.2.1, apart.2.2.2.1, ?_⟩
  decide

end Message

end Cncpp.Net
