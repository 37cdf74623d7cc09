import Cncpp.Net.Buffer.BaseBuffer

/-!
# Messages

A `Message` is a `BaseBuffer` that keeps its first four bytes for the header:
`msg_code` and `msg_len`, each a little-endian `uint16_t`.  The constructor and
`Reset` place both offsets behind the header, so the unread bytes of a fresh
message are the bytes of its body.
-/

namespace Cncpp.Net

open Cncpp.Machine
open Cncpp.Memory

/-- `struct MsgHeader`. -/
structure MsgHeader where
  msgCode : UInt16
  msgLen : UInt16
  deriving DecidableEq

/-- `HEADER_LEN`, that is `sizeof(MsgHeader)`. -/
def headerLen : Nat := 4

namespace MsgHeader

/-- The default member initialisers. -/
def zero : MsgHeader := ⟨0, 0⟩

/-- The object representation of a header. -/
def bytes (head : MsgHeader) : List UInt8 :=
  uint16Bytes head.msgCode ++ uint16Bytes head.msgLen

@[simp]
theorem length_bytes (head : MsgHeader) : head.bytes.length = headerLen :=
  rfl

/-- The header with the given object representation. -/
def ofBytes : List UInt8 → MsgHeader
  | codeLow :: codeHigh :: lenLow :: lenHigh :: _ =>
      ⟨uint16OfBytes codeLow codeHigh, uint16OfBytes lenLow lenHigh⟩
  | _ => zero

@[simp]
theorem ofBytes_bytes_append (head : MsgHeader) (rest : List UInt8) :
    ofBytes (head.bytes ++ rest) = head := by
  simp [bytes, ofBytes, uint16Bytes]

@[simp]
theorem ofBytes_bytes (head : MsgHeader) : ofBytes head.bytes = head := by
  simpa using ofBytes_bytes_append head []

/-- Four bytes are the representation of the header they are read as. -/
theorem bytes_ofBytes {raw : List UInt8} (four : raw.length = headerLen) :
    (ofBytes raw).bytes = raw := by
  match raw, four with
  | [codeLow, codeHigh, lenLow, lenHigh], _ => simp [ofBytes, bytes]

end MsgHeader

/-- `class Message : public BaseBuffer`. -/
structure Message extends BaseBuffer

namespace Message

/-- `Reset()`. -/
def Reset (msg : Message) : Message :=
  ⟨{ msg.reset with rdOffset := headerLen, wrOffset := headerLen }⟩

/-- `Message(uint32_t size)`. -/
def new (memory : Nat → UInt8) (size : Nat) : Message :=
  Reset ⟨BaseBuffer.new memory (uint32 (size + headerLen))⟩

/-- `setHeader`. -/
def setHeader (msg : Message) (head : MsgHeader) : Message :=
  ⟨msg.setData head.bytes 0⟩

/-- `setMsgCode`. -/
def setMsgCode (msg : Message) (code : UInt16) : Message :=
  ⟨msg.setData (uint16Bytes code) 0⟩

/-- `setMsgLen`. -/
def setMsgLen (msg : Message) (len : UInt16) : Message :=
  ⟨msg.setData (uint16Bytes len) 2⟩

/-- The `uint16_t` at position `pos`, which stays 0 where `get_data` refuses. -/
def getUInt16 (msg : Message) (pos : Int) : UInt16 :=
  match msg.getData 2 pos with
  | some [low, high] => uint16OfBytes low high
  | _ => 0

/-- `getMsgCode`. -/
def getMsgCode (msg : Message) : UInt16 :=
  msg.getUInt16 0

/-- `getMsgLen`. -/
def getMsgLen (msg : Message) : UInt16 :=
  msg.getUInt16 2

/-- The growth path of `writeBody`: when the body does not fit, the bytes written
so far move to a new vector that is just large enough. -/
def growFor (msg : Message) (body : List UInt8) : Message :=
  if msg.canWrSize < body.length then
    let len := uint32 (body.length + msg.size)
    ⟨{ msg.toBaseBuffer with
        len := len
        data := (CharVector.zeros len).copyTo 0 (window msg.data.cells 0 msg.wrOffset) }⟩
  else msg

/-- `writeBody`. -/
def writeBody (msg : Message) (body : List UInt8) : Nat × Message :=
  let written := (msg.growFor body).appendString body
  (written.1, ⟨written.2⟩)

/-- `readBody`, which does not consume the body. -/
def readBody (msg : Message) : List UInt8 :=
  let bodyLen := msg.getMsgLen.toNat
  if msg.canRdSize < bodyLen then [] else window msg.data.cells msg.rdOffset bodyLen

/-! ## The layout of a message -/

/-- Between operations a message holds its header, and its unread bytes start
right behind it. -/
structure WellFormed (msg : Message) : Prop extends BaseBuffer.WellFormed msg.toBaseBuffer where
  rd_eq_headerLen : msg.rdOffset = headerLen

theorem WellFormed.headerLen_le_wr {msg : Message} (wellFormed : msg.WellFormed) :
    headerLen ≤ msg.wrOffset := by
  rw [← wellFormed.rd_eq_headerLen]
  exact wellFormed.rd_le_wr

theorem WellFormed.headerLen_le_len {msg : Message} (wellFormed : msg.WellFormed) :
    headerLen ≤ msg.len :=
  Nat.le_trans wellFormed.headerLen_le_wr wellFormed.wr_le_len

theorem new_wellFormed (memory : Nat → UInt8) {size : Nat}
    (fits : size + headerLen < 2 ^ 32) : (new memory size).WellFormed := by
  have len : (new memory size).len = size + headerLen := uint32_of_lt fits
  constructor
  · constructor
    · constructor
      · exact Nat.le_refl _
      · rw [len]
        exact Nat.le_add_left _ _
      · simp [new, Reset, BaseBuffer.new, BaseBuffer.reset, CharVector.empty]
    · rw [len]
      exact fits
  · rfl

@[simp]
theorem unread_new (memory : Nat → UInt8) (size : Nat) : (new memory size).unread = [] :=
  rfl

/-- The bytes of a message are its header bytes followed by its body. -/
theorem WellFormed.bytes_eq {msg : Message} (wellFormed : msg.WellFormed) :
    msg.bytes = window msg.data.cells 0 headerLen ++ msg.unread := by
  have behind := wellFormed.headerLen_le_wr
  have size : msg.size = headerLen + msg.canRdSize := by
    rw [BaseBuffer.canRdSize_eq_sub, wellFormed.rd_eq_headerLen]
    change msg.wrOffset = _
    omega
  rw [BaseBuffer.bytes, size, window_add, Nat.zero_add, BaseBuffer.unread,
    wellFormed.rd_eq_headerLen]

theorem WellFormed.size_eq {msg : Message} (wellFormed : msg.WellFormed) :
    msg.size = headerLen + msg.unread.length := by
  have behind := wellFormed.headerLen_le_wr
  rw [BaseBuffer.length_unread, BaseBuffer.canRdSize_eq_sub, wellFormed.rd_eq_headerLen]
  change msg.wrOffset = _
  omega

/-! ## Header accesses -/

/-- Overwriting a part of the header leaves the offsets and the body alone. -/
theorem WellFormed.setData {msg : Message} (wellFormed : msg.WellFormed)
    (raw : List UInt8) (pos : Nat) : (⟨msg.setData raw pos⟩ : Message).WellFormed := by
  unfold BaseBuffer.setData BaseBuffer.setDatas
  split
  · exact wellFormed
  · exact
      { rd_le_wr := wellFormed.rd_le_wr
        wr_le_len := wellFormed.wr_le_len
        len_le_allocated := wellFormed.len_le_allocated
        len_lt := wellFormed.len_lt
        rd_eq_headerLen := wellFormed.rd_eq_headerLen }

theorem setData_cells (msg : Message) (raw : List UInt8) (pos : Nat) :
    (msg.setData raw pos).data.cells = write msg.data.cells pos raw := by
  unfold BaseBuffer.setData BaseBuffer.setDatas
  split
  · rename_i noData
    rw [noData, write_nil]
  · rfl

theorem WellFormed.unread_setData {msg : Message} (wellFormed : msg.WellFormed)
    {raw : List UInt8} {pos : Nat} (inside : pos + raw.length ≤ headerLen) :
    (msg.setData raw pos).unread = msg.unread := by
  have offsets : (msg.setData raw pos).rdOffset = msg.rdOffset ∧
      (msg.setData raw pos).canRdSize = msg.canRdSize := by
    unfold BaseBuffer.setData BaseBuffer.setDatas
    split
    · exact ⟨rfl, rfl⟩
    · exact ⟨rfl, rfl⟩
  rw [BaseBuffer.unread, offsets.1, offsets.2, setData_cells]
  apply window_write_after
  rw [wellFormed.rd_eq_headerLen]
  exact inside

/-- In a well-formed message both header fields are readable. -/
theorem WellFormed.getUInt16_eq {msg : Message} (wellFormed : msg.WellFormed)
    {pos : Nat} (inside : pos + 2 ≤ headerLen) :
    msg.getUInt16 pos = uint16OfBytes (msg.data.cells pos) (msg.data.cells (pos + 1)) := by
  have room := wellFormed.headerLen_le_len
  have small : pos + 2 ≤ 4 := inside
  have unsigned : ((pos : Int) % 2 ^ 32).toNat = pos := by omega
  have sum : uint32 (pos + 2) = pos + 2 := uint32_of_lt (by omega)
  have inRange : ¬ (msg.len < pos ∨ msg.len < pos + 2) := by omega
  have range : msg.getDataRange 2 pos = some ((pos : Int), 2) := by
    simp only [BaseBuffer.getDataRange, unsigned, sum, if_neg inRange]
  unfold getUInt16 BaseBuffer.getData
  rw [range]
  rfl

/-- The header of a message is readable through both accessors. -/
theorem WellFormed.getHeader {msg : Message} (wellFormed : msg.WellFormed) {head : MsgHeader}
    (stored : window msg.data.cells 0 headerLen = head.bytes) :
    msg.getMsgCode = head.msgCode ∧ msg.getMsgLen = head.msgLen := by
  have cells : [msg.data.cells 0, msg.data.cells 1, msg.data.cells 2, msg.data.cells 3] =
      head.bytes := stored
  have header := congrArg MsgHeader.ofBytes cells
  rw [MsgHeader.ofBytes_bytes] at header
  have code := wellFormed.getUInt16_eq (by decide : 0 + 2 ≤ headerLen)
  have len := wellFormed.getUInt16_eq (by decide : 2 + 2 ≤ headerLen)
  rw [← header]
  exact ⟨code, len⟩

/-- `setHeader` replaces the header and nothing else. -/
theorem WellFormed.setHeader {msg : Message} (wellFormed : msg.WellFormed) (head : MsgHeader) :
    (msg.setHeader head).WellFormed ∧ (msg.setHeader head).unread = msg.unread ∧
      window (msg.setHeader head).data.cells 0 headerLen = head.bytes := by
  refine ⟨wellFormed.setData head.bytes 0, ?_, ?_⟩
  · exact wellFormed.unread_setData (Nat.le_of_eq (Nat.zero_add _))
  · rw [Message.setHeader, setData_cells]
    exact window_write msg.data.cells 0 head.bytes

/-- `setMsgCode` replaces the first half of the header. -/
theorem WellFormed.setMsgCode {msg : Message} (wellFormed : msg.WellFormed) (code : UInt16) :
    (msg.setMsgCode code).WellFormed ∧ (msg.setMsgCode code).unread = msg.unread ∧
      window (msg.setMsgCode code).data.cells 0 2 = uint16Bytes code := by
  refine ⟨wellFormed.setData (uint16Bytes code) 0, ?_, ?_⟩
  · exact wellFormed.unread_setData (by simp [headerLen])
  · rw [Message.setMsgCode, setData_cells]
    exact window_write msg.data.cells 0 (uint16Bytes code)

/-- `setMsgLen` replaces the second half of the header. -/
theorem WellFormed.setMsgLen {msg : Message} (wellFormed : msg.WellFormed) (len : UInt16) :
    (msg.setMsgLen len).WellFormed ∧ (msg.setMsgLen len).unread = msg.unread ∧
      window (msg.setMsgLen len).data.cells 0 headerLen =
        window msg.data.cells 0 2 ++ uint16Bytes len := by
  refine ⟨wellFormed.setData (uint16Bytes len) 2, ?_, ?_⟩
  · exact wellFormed.unread_setData (by simp [headerLen])
  · rw [Message.setMsgLen, setData_cells]
    exact window_write_append msg.data.cells 0 2 (uint16Bytes len)

/-! ## Bodies -/

theorem growFor_rdOffset (msg : Message) (body : List UInt8) :
    (msg.growFor body).rdOffset = msg.rdOffset := by
  unfold growFor
  split <;> rfl

theorem growFor_wrOffset (msg : Message) (body : List UInt8) :
    (msg.growFor body).wrOffset = msg.wrOffset := by
  unfold growFor
  split <;> rfl

/-- Growing keeps every byte written so far. -/
theorem growFor_window (msg : Message) (body : List UInt8) {start size : Nat}
    (inside : start + size ≤ msg.wrOffset) :
    window (msg.growFor body).data.cells start size = window msg.data.cells start size := by
  unfold growFor
  split
  · change window (write _ 0 (window msg.data.cells 0 msg.wrOffset)) start size = _
    apply window_congr
    intro offset _ below
    have early : offset < (window msg.data.cells 0 msg.wrOffset).length := by
      rw [length_window]
      omega
    have copied := write_add (CharVector.zeros (uint32 (body.length + msg.size))).cells 0
      (window msg.data.cells 0 msg.wrOffset) early
    rw [Nat.zero_add] at copied
    rw [copied]
    simp [window]
  · rfl

/-- Growing a well-formed buffer gives a well-formed buffer, with or without a
header in front. -/
theorem growFor_toWellFormed {msg : Message} (wellFormed : msg.toBaseBuffer.WellFormed)
    {body : List UInt8} (fits : msg.size + body.length < 2 ^ 32) :
    (msg.growFor body).toBaseBuffer.WellFormed := by
  unfold Message.growFor
  split
  · have total : uint32 (body.length + msg.size) = body.length + msg.size :=
      uint32_of_lt (by omega)
    have size : msg.size = msg.wrOffset := rfl
    constructor
    · constructor
      · exact wellFormed.rd_le_wr
      · change msg.wrOffset ≤ uint32 (body.length + msg.size)
        omega
      · exact Nat.le_refl _
    · exact uint32_lt _
  · exact wellFormed

theorem WellFormed.growFor {msg : Message} (wellFormed : msg.WellFormed)
    {body : List UInt8} (fits : msg.size + body.length < 2 ^ 32) :
    (msg.growFor body).WellFormed where
  toWellFormed := growFor_toWellFormed wellFormed.toWellFormed fits
  rd_eq_headerLen := by
    rw [growFor_rdOffset]
    exact wellFormed.rd_eq_headerLen

/-- After growing, the whole body fits. -/
theorem growFor_room (msg : Message) {body : List UInt8} (fits : msg.size + body.length < 2 ^ 32) :
    body.length ≤ (msg.growFor body).canWrSize := by
  rw [BaseBuffer.canWrSize_eq_sub]
  have room := msg.canWrSize_eq_sub
  unfold Message.growFor
  split
  · have total : uint32 (body.length + msg.size) = body.length + msg.size :=
      uint32_of_lt (by omega)
    change body.length ≤ uint32 (body.length + msg.size) - msg.wrOffset
    have size : msg.size = msg.wrOffset := rfl
    omega
  · omega

/-- `writeBody` accepts the whole body, whether or not the buffer has to grow. -/
theorem WellFormed.writeBody {msg : Message} (wellFormed : msg.WellFormed)
    {body : List UInt8} (fits : msg.size + body.length < 2 ^ 32) :
    (msg.writeBody body).1 = body.length ∧
      (msg.writeBody body).2.WellFormed ∧
      (msg.writeBody body).2.unread = msg.unread ++ body ∧
      window (msg.writeBody body).2.data.cells 0 headerLen =
        window msg.data.cells 0 headerLen := by
  have grown := wellFormed.growFor fits
  have room := msg.growFor_room fits
  have narrow : body.take (uint32 body.length) = body := by
    rw [uint32_of_lt (by omega), List.take_length]
  have accepted : (msg.writeBody body).1 = body.length := by
    change ((msg.growFor body).appendString body).1 = _
    rw [BaseBuffer.appendString, narrow, BaseBuffer.appendData_fst]
    omega
  have result : (msg.writeBody body).2.toBaseBuffer = ((msg.growFor body).appendData body).2 := by
    change ((msg.growFor body).appendString body).2 = _
    rw [BaseBuffer.appendString, narrow]
  have whole : body.take ((msg.growFor body).appendData body).1 = body := by
    rw [BaseBuffer.appendData_fst, Nat.min_eq_left room, List.take_length]
  have oldUnread : (msg.growFor body).unread = msg.unread := by
    rw [BaseBuffer.unread, BaseBuffer.unread, BaseBuffer.canRdSize_eq_sub,
      BaseBuffer.canRdSize_eq_sub, growFor_rdOffset, growFor_wrOffset]
    apply growFor_window
    have order := wellFormed.rd_le_wr
    omega
  refine ⟨accepted, ?_, ?_, ?_⟩
  · refine { toWellFormed := ?_, rd_eq_headerLen := ?_ }
    · rw [result]
      exact grown.toWellFormed.appendData body
    · rw [result, BaseBuffer.appendData_rdOffset]
      exact grown.rd_eq_headerLen
  · rw [result, grown.toWellFormed.unread_appendData, whole, oldUnread]
  · rw [result, BaseBuffer.appendData_cells, growFor_wrOffset,
      window_write_before _ _ (by simpa using wellFormed.headerLen_le_wr)]
    exact growFor_window msg body (by simpa using wellFormed.headerLen_le_wr)

end Message

end Cncpp.Net
