import Cncpp.Net.Buffer.Message

/-!
# Copying and moving buffers

The special member functions of `BaseBuffer` and `Message` treat the storage and
the three numbers separately.  A copy takes over `len_` but reserves only
`wr_offset_` bytes; a move swaps the storages but leaves `len_` and the offsets
of the source as they are.  Afterwards a buffer may state a capacity that it has
not allocated.

This module states, for every member, the exact condition under which its result
is bounded again.  Whole runs are treated in `Lifecycle.Correctness`.
-/

namespace Cncpp.Net

open Cncpp.Machine
open Cncpp.Memory

namespace BaseBuffer

/-- A buffer after its default member initialisers. -/
def blank : BaseBuffer := ⟨CharVector.empty, 0, 0, 0⟩

/-- The statements shared by the copying members.  `data_.clear()` leaves the
block of the target in place, and `reserve` asks for the written bytes only. -/
def copyFrom (memory : Nat → UInt8) (target source : BaseBuffer) : BaseBuffer where
  data := (target.data.reserve memory source.wrOffset).copyTo 0
    (window source.data.cells 0 source.wrOffset)
  rdOffset := source.rdOffset
  wrOffset := source.wrOffset
  len := source.len

/-- The statements shared by the moving members: the new target and what is left
of the source.  Only the storages are swapped. -/
def moveFrom (target source : BaseBuffer) : BaseBuffer × BaseBuffer :=
  (source, { source with data := target.data })

/-- `BaseBuffer(const BaseBuffer&)`. -/
def copyConstruct (memory : Nat → UInt8) (source : BaseBuffer) : BaseBuffer :=
  copyFrom memory blank source

/-- `BaseBuffer(BaseBuffer&&)`. -/
def moveConstruct (source : BaseBuffer) : BaseBuffer × BaseBuffer :=
  moveFrom blank source

/-- `operator=(const BaseBuffer&)`. -/
def copyAssign (memory : Nat → UInt8) (target source : BaseBuffer) : BaseBuffer :=
  copyFrom memory target source

/-- `operator=(BaseBuffer&&)`. -/
def moveAssign (target source : BaseBuffer) : BaseBuffer × BaseBuffer :=
  moveFrom target source

/-- A copy is bounded exactly when its block holds the stated capacity. -/
theorem copyFrom_bounded_iff (memory : Nat → UInt8) (target : BaseBuffer)
    {source : BaseBuffer} (bounded : source.Bounded) :
    (copyFrom memory target source).Bounded ↔
      source.len ≤ max target.data.allocated source.wrOffset := by
  have allocated : (copyFrom memory target source).data.allocated =
      max target.data.allocated source.wrOffset := by
    simp [copyFrom]
  constructor
  · intro copied
    rw [← allocated]
    exact copied.len_le_allocated
  · intro holds
    exact ⟨bounded.rd_le_wr, bounded.wr_le_len, by rw [allocated]; exact holds⟩

/-- The source of a move is left bounded exactly when the block it receives
holds the capacity it keeps stating. -/
theorem moveFrom_snd_bounded_iff (target : BaseBuffer) {source : BaseBuffer}
    (bounded : source.Bounded) :
    (moveFrom target source).2.Bounded ↔ source.len ≤ target.data.allocated := by
  constructor
  · intro moved
    exact moved.len_le_allocated
  · intro holds
    exact ⟨bounded.rd_le_wr, bounded.wr_le_len, holds⟩

end BaseBuffer

namespace Message

/-- `Message(const Message&)`.  The base is default-constructed first. -/
def copyConstruct (memory : Nat → UInt8) (source : Message) : Message :=
  ⟨BaseBuffer.copyFrom memory (BaseBuffer.new memory maxBufferSize) source.toBaseBuffer⟩

/-- `Message(Message&&)`.  The base is default-constructed first. -/
def moveConstruct (memory : Nat → UInt8) (source : Message) : Message × Message :=
  let moved := BaseBuffer.moveFrom (BaseBuffer.new memory maxBufferSize) source.toBaseBuffer
  (⟨moved.1⟩, ⟨moved.2⟩)

/-- `operator=(const Message&)`. -/
def copyAssign (memory : Nat → UInt8) (target source : Message) : Message :=
  ⟨BaseBuffer.copyFrom memory target.toBaseBuffer source.toBaseBuffer⟩

/-- `operator=(Message&&)`. -/
def moveAssign (target source : Message) : Message × Message :=
  let moved := BaseBuffer.moveFrom target.toBaseBuffer source.toBaseBuffer
  (⟨moved.1⟩, ⟨moved.2⟩)

end Message

/-! ## Members by class -/

/-- The class whose member function is called. -/
inductive BufferClass where
  | baseBuffer
  | message
  deriving DecidableEq

namespace BufferClass

/-- Whether an object of class `object` can be passed where the members of
`self` expect their own class.  A `Message` is a `BaseBuffer`. -/
def accepts : BufferClass → BufferClass → Bool
  | .baseBuffer, _ => true
  | .message, object => object = .message

/-- The constructor from a size. -/
def construct (cls : BufferClass) (memory : Nat → UInt8) (size : Nat) : BaseBuffer :=
  match cls with
  | .baseBuffer => BaseBuffer.new memory size
  | .message => (Message.new memory size).toBaseBuffer

/-- The copy constructor. -/
def copyConstruct (cls : BufferClass) (memory : Nat → UInt8) (source : BaseBuffer) :
    BaseBuffer :=
  match cls with
  | .baseBuffer => BaseBuffer.copyConstruct memory source
  | .message => (Message.copyConstruct memory ⟨source⟩).toBaseBuffer

/-- The move constructor. -/
def moveConstruct (cls : BufferClass) (memory : Nat → UInt8) (source : BaseBuffer) :
    BaseBuffer × BaseBuffer :=
  match cls with
  | .baseBuffer => BaseBuffer.moveConstruct source
  | .message =>
      let moved := Message.moveConstruct memory ⟨source⟩
      (moved.1.toBaseBuffer, moved.2.toBaseBuffer)

/-- The copy assignment. -/
def copyAssign (cls : BufferClass) (memory : Nat → UInt8) (target source : BaseBuffer) :
    BaseBuffer :=
  match cls with
  | .baseBuffer => BaseBuffer.copyAssign memory target source
  | .message => (Message.copyAssign memory ⟨target⟩ ⟨source⟩).toBaseBuffer

/-- The move assignment. -/
def moveAssign (cls : BufferClass) (target source : BaseBuffer) : BaseBuffer × BaseBuffer :=
  match cls with
  | .baseBuffer => BaseBuffer.moveAssign target source
  | .message =>
      let moved := Message.moveAssign ⟨target⟩ ⟨source⟩
      (moved.1.toBaseBuffer, moved.2.toBaseBuffer)

/-- The bytes that a copy or move constructor has allocated before it looks at
its argument. -/
def initialAllocation : BufferClass → Nat
  | .baseBuffer => 0
  | .message => maxBufferSize

/-- The largest size a constructor accepts without wrapping. -/
def SizeFits (cls : BufferClass) (size : Nat) : Prop :=
  match cls with
  | .baseBuffer => size < 2 ^ 32
  | .message => size + headerLen < 2 ^ 32

instance (cls : BufferClass) (size : Nat) : Decidable (cls.SizeFits size) := by
  cases cls <;> exact Nat.decLt _ _

theorem construct_wellFormed (cls : BufferClass) (memory : Nat → UInt8) {size : Nat}
    (fits : cls.SizeFits size) : (cls.construct memory size).WellFormed := by
  cases cls with
  | baseBuffer => exact BaseBuffer.new_wellFormed memory fits
  | message => exact (Message.new_wellFormed memory fits).toWellFormed

theorem copyConstruct_bounded_iff (cls : BufferClass) (memory : Nat → UInt8)
    {source : BaseBuffer} (bounded : source.Bounded) :
    (cls.copyConstruct memory source).Bounded ↔
      source.len ≤ max cls.initialAllocation source.wrOffset := by
  cases cls with
  | baseBuffer => exact BaseBuffer.copyFrom_bounded_iff memory BaseBuffer.blank bounded
  | message =>
      have base := BaseBuffer.copyFrom_bounded_iff memory
        (BaseBuffer.new memory maxBufferSize) bounded
      rw [BaseBuffer.allocated_new] at base
      exact base

theorem moveConstruct_fst (cls : BufferClass) (memory : Nat → UInt8) (source : BaseBuffer) :
    (cls.moveConstruct memory source).1 = source := by
  cases cls <;> rfl

theorem moveConstruct_snd_len (cls : BufferClass) (memory : Nat → UInt8)
    (source : BaseBuffer) : (cls.moveConstruct memory source).2.len = source.len := by
  cases cls <;> rfl

theorem moveConstruct_snd_bounded_iff (cls : BufferClass) (memory : Nat → UInt8)
    {source : BaseBuffer} (bounded : source.Bounded) :
    (cls.moveConstruct memory source).2.Bounded ↔ source.len ≤ cls.initialAllocation := by
  cases cls with
  | baseBuffer => exact BaseBuffer.moveFrom_snd_bounded_iff BaseBuffer.blank bounded
  | message =>
      have base := BaseBuffer.moveFrom_snd_bounded_iff
        (BaseBuffer.new memory maxBufferSize) bounded
      rw [BaseBuffer.allocated_new] at base
      exact base

theorem copyAssign_eq (cls : BufferClass) (memory : Nat → UInt8)
    (target source : BaseBuffer) :
    cls.copyAssign memory target source = BaseBuffer.copyFrom memory target source := by
  cases cls <;> rfl

theorem moveAssign_eq (cls : BufferClass) (target source : BaseBuffer) :
    cls.moveAssign target source = BaseBuffer.moveFrom target source := by
  cases cls <;> rfl

end BufferClass

/-! ## Calls on one object -/

/-- An object together with the class it was created as. -/
structure BufferObject where
  cls : BufferClass
  buf : BaseBuffer

/-- A member call that changes only the object it is made on. -/
inductive Mutation where
  | reset
  | messageReset
  | appendData (data : List UInt8)
  | appendString (data : List UInt8)
  | writeBody (body : List UInt8)
  | consumeRd (size : Nat)
  | consumeWr (size : Nat)

namespace Mutation

/-- The object after the call.  Members of `Message` need a `Message`, a body has
to fit a `uint32_t` together with what is there, and a caller consumes only
what is readable or writable. -/
def apply (object : BufferObject) : Mutation → Option BaseBuffer
  | .reset => some object.buf.reset
  | .messageReset =>
      if object.cls = .message then some (Message.Reset ⟨object.buf⟩).toBaseBuffer else none
  | .appendData data => some (object.buf.appendData data).2
  | .appendString data => some (object.buf.appendString data).2
  | .writeBody body =>
      if object.cls = .message ∧ object.buf.size + body.length < 2 ^ 32 then
        some (Message.writeBody ⟨object.buf⟩ body).2.toBaseBuffer
      else none
  | .consumeRd size =>
      if size ≤ object.buf.canRdSize then some (object.buf.consumeRd size) else none
  | .consumeWr size =>
      if size ≤ object.buf.canWrSize then some (object.buf.consumeWr size) else none

/-- `Reset` places the offsets behind the header, wherever the capacity ends. -/
def Keeps (object : BufferObject) : Mutation → Prop
  | .messageReset => headerLen ≤ object.buf.len
  | _ => True

/-- The copy made by `append_data` stays inside of the allocation. -/
def AppendInside (buf : BaseBuffer) (data : List UInt8) : Prop :=
  buf.wrOffset + (buf.appendData data).1 ≤ buf.data.allocated

/-- Every byte that the call writes lies inside of the allocation of the object.
`writeBody` writes twice: the old bytes into the larger vector, then the body. -/
def WritesInside (object : BufferObject) : Mutation → Prop
  | .appendData data => AppendInside object.buf data
  | .appendString data => AppendInside object.buf (data.take (uint32 data.length))
  | .writeBody body =>
      let grown := Message.growFor ⟨object.buf⟩ body
      grown.wrOffset ≤ grown.data.allocated ∧
        AppendInside grown.toBaseBuffer (body.take (uint32 body.length))
  | _ => True

theorem appendInside_of_wellFormed {buf : BaseBuffer} (wellFormed : buf.WellFormed)
    (data : List UInt8) : AppendInside buf data := by
  have room := buf.canWrSize_eq_sub
  have inside := wellFormed.wr_le_len
  have backed := wellFormed.len_le_allocated
  rw [AppendInside, BaseBuffer.appendData_fst]
  omega

/-- A bounded object never writes outside of its allocation. -/
theorem writesInside_of_wellFormed {object : BufferObject} (wellFormed : object.buf.WellFormed)
    {mutation : Mutation} {result : BaseBuffer} (applied : mutation.apply object = some result) :
    mutation.WritesInside object := by
  cases mutation with
  | appendData data => exact appendInside_of_wellFormed wellFormed data
  | appendString data => exact appendInside_of_wellFormed wellFormed _
  | writeBody body =>
      simp only [apply, Option.ite_none_right_eq_some] at applied
      have base : (⟨object.buf⟩ : Message).toBaseBuffer.WellFormed := wellFormed
      have grown := Message.growFor_toWellFormed base applied.1.2
      exact ⟨Nat.le_trans grown.wr_le_len grown.len_le_allocated,
        appendInside_of_wellFormed grown _⟩
  | reset => trivial
  | messageReset => trivial
  | consumeRd size => trivial
  | consumeWr size => trivial

/-- The result of a call on a well-formed object: its capacity is a `uint32_t`,
and it is bounded exactly under `Keeps`. -/
theorem apply_bounded_iff {object : BufferObject} (wellFormed : object.buf.WellFormed)
    {mutation : Mutation} {result : BaseBuffer} (applied : mutation.apply object = some result) :
    result.len < 2 ^ 32 ∧ (result.Bounded ↔ mutation.Keeps object) := by
  have always : ∀ {buf : BaseBuffer}, buf.WellFormed →
      buf.len < 2 ^ 32 ∧ (buf.Bounded ↔ True) :=
    fun kept => ⟨kept.len_lt, iff_true_intro kept.toBounded⟩
  cases mutation with
  | reset =>
      cases applied
      exact always wellFormed.reset
  | messageReset =>
      simp only [apply, Option.ite_none_right_eq_some, Option.some.injEq] at applied
      rcases applied with ⟨_, rfl⟩
      refine ⟨wellFormed.len_lt, ?_⟩
      constructor
      · intro bounded
        exact bounded.wr_le_len
      · intro room
        exact ⟨Nat.le_refl _, room, wellFormed.len_le_allocated⟩
  | appendData data =>
      cases applied
      exact always (wellFormed.appendData data)
  | appendString data =>
      cases applied
      exact always (wellFormed.appendData _)
  | writeBody body =>
      simp only [apply, Option.ite_none_right_eq_some, Option.some.injEq] at applied
      rcases applied with ⟨⟨_, fits⟩, rfl⟩
      have base : (⟨object.buf⟩ : Message).toBaseBuffer.WellFormed := wellFormed
      have grown := Message.growFor_toWellFormed base fits
      exact always (grown.appendData _)
  | consumeRd size =>
      simp only [apply, Option.ite_none_right_eq_some, Option.some.injEq] at applied
      rcases applied with ⟨within, rfl⟩
      exact always (wellFormed.consumeRd within)
  | consumeWr size =>
      simp only [apply, Option.ite_none_right_eq_some, Option.some.injEq] at applied
      rcases applied with ⟨within, rfl⟩
      exact always (wellFormed.consumeWr within)

end Mutation

end Cncpp.Net
