import Cncpp.Net.Buffer.Message
import Mathlib.Algebra.Group.Int.Defs
import Mathlib.Algebra.GroupWithZero.Nat

/-!
# Positional accesses

`get_data` and `set_data` access the storage at a position that is given as a number.
`get_data` compares the position and the end of the range with `len_`, both as `uint32_t`, so
that an end that wraps can pass; `set_data` compares nothing.  The accessors of the header
are built on both, and rely on the four bytes that the constructor of `Message` adds to the
size, where the sum can wrap as well.
-/

namespace Cncpp.Net

open Cncpp.Machine
open Cncpp.Memory

/-- A position of the storage lies in a range that is given by its start and its size. -/
def Touches (range : Option (Int × Nat)) (position : Int) : Prop :=
  ∃ start size, range = some (start, size) ∧ start ≤ position ∧ position < start + (size : Int)

theorem not_touches_none (position : Int) : ¬Touches none position := by
  rintro ⟨start, size, same, -⟩
  contradiction

theorem touches_some_iff {start : Int} {size : Nat} {position : Int} :
    Touches (some (start, size)) position ↔ start ≤ position ∧ position < start + (size : Int) := by
  constructor
  · rintro ⟨_, _, same, within⟩
    cases same
    exact within
  · exact fun within => ⟨start, size, rfl, within⟩

namespace BaseBuffer

/-- The range of the storage that `set_data` writes. -/
def setDataRange (data : List UInt8) (pos : Nat) : Option (Int × Nat) :=
  if data = [] then none else some (pos, data.length)

/-- The value that `get_data` returns. -/
def getDataReturned (buf : BaseBuffer) (len : Nat) (pos : Int) : Nat :=
  match buf.getDataRange len pos with
  | none => 0
  | some range => range.2

/-- All positions of the range are positions below `len_`. -/
def Inside (buf : BaseBuffer) (range : Option (Int × Nat)) : Prop :=
  ∀ position, Touches range position → 0 ≤ position ∧ position < buf.len

/-- `get_data` returns 0 and reads nothing, or it returns `len` and reads inside of the
buffer, with sums of unbounded integers. -/
def GetDataSafe (buf : BaseBuffer) (len : Nat) (pos : Int) : Prop :=
  (buf.getDataReturned len pos = 0 ∧
      ∀ position, ¬Touches (buf.getDataRange len pos) position) ∨
    (buf.getDataReturned len pos = len ∧ 0 ≤ pos ∧ pos + len ≤ buf.len)

/-- A range that is not inside of the buffer, but whose start and end are below `len_` again
modulo `2 ^ 32`. -/
def WrapsInside (buf : BaseBuffer) (len : Nat) (pos : Int) : Prop :=
  (0 ≤ pos ∧ pos ≤ buf.len ∧ 2 ^ 32 ≤ pos + len ∧ pos + len ≤ 2 ^ 32 + buf.len) ∨
    (pos < 0 ∧ len ≠ 0 ∧ 2 ^ 32 + pos ≤ buf.len ∧
      (2 ^ 32 + (pos + len) ≤ buf.len ∨ (0 ≤ pos + len ∧ pos + len ≤ buf.len)))

/-! ## Ranges and cells -/

theorem within_of_touches_setDataRange {data : List UInt8} {pos : Nat} {position : Int}
    (touches : Touches (setDataRange data pos) position) :
    (pos : Int) ≤ position ∧ position < pos + (data.length : Int) := by
  rw [setDataRange] at touches
  split at touches
  · exact absurd touches (not_touches_none position)
  · exact touches_some_iff.mp touches

/-- `set_data` changes no cell outside of its range. -/
theorem setData_cells_of_not_touches (buf : BaseBuffer) {data : List UInt8} {pos offset : Nat}
    (outside : ¬Touches (setDataRange data pos) offset) :
    (buf.setData data pos).data.cells offset = buf.data.cells offset := by
  unfold setDataRange at outside
  unfold setData setDatas
  split
  · rfl
  · rename_i someData
    rw [if_neg someData, touches_some_iff] at outside
    by_cases before : offset < pos
    · exact write_of_lt _ data before
    · exact write_of_ge _ data (by omega)

/-- The test of `get_data` lets a range pass. -/
def Passes (buf : BaseBuffer) (len : Nat) (pos : Int) : Prop :=
  pos % 2 ^ 32 ≤ buf.len ∧ (pos + len) % 2 ^ 32 ≤ buf.len

instance (buf : BaseBuffer) (len : Nat) (pos : Int) : Decidable (buf.Passes len pos) :=
  inferInstanceAs (Decidable (_ ∧ _))

/-- The two comparisons of `uint32_t` values, as comparisons of integers. -/
theorem getDataRange_eq (buf : BaseBuffer) (len : Nat) (pos : Int) :
    buf.getDataRange len pos = if buf.Passes len pos then some (pos, len) else none := by
  have start : ((pos % 2 ^ 32).toNat : Int) = pos % 2 ^ 32 := by omega
  have last : (uint32 ((pos % 2 ^ 32).toNat + len) : Int) = (pos + len) % 2 ^ 32 := by
    rw [uint32]
    omega
  simp only [getDataRange]
  by_cases passes : buf.Passes len pos
  · have allowed : ¬(buf.len < (pos % 2 ^ 32).toNat ∨
        buf.len < uint32 ((pos % 2 ^ 32).toNat + len)) := by
      rw [Passes] at passes
      omega
    rw [if_neg allowed, if_pos passes]
  · have refused : buf.len < (pos % 2 ^ 32).toNat ∨
        buf.len < uint32 ((pos % 2 ^ 32).toNat + len) := by
      rw [Passes] at passes
      omega
    rw [if_pos refused, if_neg passes]

theorem getDataRange_of_some (buf : BaseBuffer) {len : Nat} {pos : Int} {read : Int × Nat}
    (range : buf.getDataRange len pos = some read) : read = (pos, len) := by
  rw [getDataRange_eq] at range
  split at range
  · exact (Option.some.inj range).symm
  · contradiction

theorem within_of_touches_getDataRange {buf : BaseBuffer} {len : Nat} {pos position : Int}
    (touches : Touches (buf.getDataRange len pos) position) :
    pos ≤ position ∧ position < pos + len := by
  rw [getDataRange_eq] at touches
  split at touches
  · exact touches_some_iff.mp touches
  · exact absurd touches (not_touches_none position)

/-- What `get_data` reads depends on the cells in its range only. -/
theorem getData_congr {buf other : BaseBuffer} {len : Nat} {pos : Int} (nonneg : 0 ≤ pos)
    (sameLen : buf.len = other.len)
    (agree : ∀ offset : Nat, Touches (buf.getDataRange len pos) offset →
      buf.data.cells offset = other.data.cells offset) :
    buf.getData len pos = other.getData len pos := by
  have sameRange : other.getDataRange len pos = buf.getDataRange len pos := by
    rw [getDataRange, getDataRange, sameLen]
  rw [getData, getData, sameRange]
  cases range : buf.getDataRange len pos with
  | none => rfl
  | some read =>
      rw [range] at agree
      have same := buf.getDataRange_of_some range
      subst same
      simp only [Option.map_some, Option.some.injEq]
      apply window_congr
      intro offset low high
      exact agree offset (touches_some_iff.mpr (by omega))

/-! ## Reading at a position -/

/-- A call that is refused is safe, and one that passes is safe when it reads nothing or the
range is inside. -/
theorem getDataSafe_iff (buf : BaseBuffer) (len : Nat) (pos : Int) :
    buf.GetDataSafe len pos ↔
      (buf.Passes len pos → len = 0 ∨ (0 ≤ pos ∧ pos + len ≤ buf.len)) := by
  rw [GetDataSafe, getDataReturned, getDataRange_eq]
  by_cases passes : buf.Passes len pos
  · rw [if_pos passes]
    simp only [passes, true_implies, true_and, touches_some_iff]
    constructor
    · rintro (⟨zero, -⟩ | inside)
      · exact .inl zero
      · exact .inr inside
    · rintro (zero | inside)
      · exact .inl ⟨zero, by omega⟩
      · exact .inr inside
  · rw [if_neg passes]
    constructor
    · exact fun _ => (absurd · passes)
    · exact fun _ => .inl ⟨rfl, not_touches_none⟩

/-- A range that starts at a valid position passes and is not inside when its end wraps. -/
theorem passes_outside_iff_of_nonneg {buf : BaseBuffer} {len : Nat} {pos : Int}
    (bufFits : buf.len < 2 ^ 32) (lenFits : len < 2 ^ 32) (nonneg : 0 ≤ pos)
    (high : pos < 2 ^ 31) :
    buf.Passes len pos ∧ buf.len < pos + len ↔
      pos ≤ buf.len ∧ 2 ^ 32 ≤ pos + len ∧ pos + len ≤ 2 ^ 32 + buf.len := by
  have start : pos % 2 ^ 32 = pos := Int.emod_eq_of_lt nonneg (by omega)
  rw [Passes, start]
  omega

/-- A range that starts before the buffer passes when its start, moved up by `2 ^ 32`, and its
end are below `len_`. -/
theorem passes_iff_of_neg {buf : BaseBuffer} {len : Nat} {pos : Int}
    (bufFits : buf.len < 2 ^ 32) (lenFits : len < 2 ^ 32) (low : -2 ^ 31 ≤ pos)
    (negative : pos < 0) :
    buf.Passes len pos ↔ 2 ^ 32 + pos ≤ buf.len ∧
      (2 ^ 32 + (pos + len) ≤ buf.len ∨ (0 ≤ pos + len ∧ pos + len ≤ buf.len)) := by
  have start : pos % 2 ^ 32 = 2 ^ 32 + pos := by omega
  rw [Passes, start]
  omega

/-- `get_data` is safe exactly where the range does not wrap into the buffer. -/
theorem getDataSafe_iff_not_wrapsInside {buf : BaseBuffer} {len : Nat} {pos : Int}
    (bufFits : buf.len < 2 ^ 32) (lenFits : len < 2 ^ 32) (low : -2 ^ 31 ≤ pos)
    (high : pos < 2 ^ 31) : buf.GetDataSafe len pos ↔ ¬buf.WrapsInside len pos := by
  rw [getDataSafe_iff, WrapsInside]
  by_cases nonneg : 0 ≤ pos
  · have outside := passes_outside_iff_of_nonneg bufFits lenFits nonneg high
    grind
  · have passes := passes_iff_of_neg bufFits lenFits low (by omega)
    grind

end BaseBuffer

namespace Message

/-! ## The header accessors -/

/-- The methods that access the header. -/
inductive Accessor where
  | setHeader (head : MsgHeader)
  | setMsgCode (code : UInt16)
  | setMsgLen (len : UInt16)
  | getMsgCode
  | getMsgLen

/-- One call of an accessor: the range of the storage that it accesses, and the message after
it. -/
def access (msg : Message) : Accessor → Option (Int × Nat) × Message
  | .setHeader head => (BaseBuffer.setDataRange head.bytes 0, msg.setHeader head)
  | .setMsgCode code => (BaseBuffer.setDataRange (uint16Bytes code) 0, msg.setMsgCode code)
  | .setMsgLen len => (BaseBuffer.setDataRange (uint16Bytes len) 2, msg.setMsgLen len)
  | .getMsgCode => (msg.getDataRange 2 0, msg)
  | .getMsgLen => (msg.getDataRange 2 2, msg)

/-- Every call of a run of accessors stays below `len_`. -/
def AccessesInside : Message → List Accessor → Prop
  | _, [] => True
  | msg, accessor :: accesses =>
      msg.Inside (msg.access accessor).1 ∧ (msg.access accessor).2.AccessesInside accesses

theorem access_len (msg : Message) (accessor : Accessor) :
    (msg.access accessor).2.len = msg.len := by
  cases accessor <;> rfl

/-- An accessor changes no cell outside of the range it is answered with. -/
theorem access_cells_of_not_touches (msg : Message) (accessor : Accessor) {offset : Nat}
    (outside : ¬Touches (msg.access accessor).1 offset) :
    (msg.access accessor).2.data.cells offset = msg.data.cells offset := by
  cases accessor with
  | setHeader head => exact msg.setData_cells_of_not_touches outside
  | setMsgCode code => exact msg.setData_cells_of_not_touches outside
  | setMsgLen len => exact msg.setData_cells_of_not_touches outside
  | getMsgCode => rfl
  | getMsgLen => rfl

/-- Every accessor stays in the four bytes of the header. -/
theorem access_touches_header {msg : Message} {accessor : Accessor} {position : Int}
    (touches : Touches (msg.access accessor).1 position) :
    0 ≤ position ∧ position < headerLen := by
  rw [headerLen]
  cases accessor with
  | setHeader head =>
      change Touches (BaseBuffer.setDataRange head.bytes 0) position at touches
      have within := BaseBuffer.within_of_touches_setDataRange touches
      rw [MsgHeader.length_bytes, headerLen] at within
      omega
  | setMsgCode code =>
      change Touches (BaseBuffer.setDataRange (uint16Bytes code) 0) position at touches
      have within := BaseBuffer.within_of_touches_setDataRange touches
      rw [length_uint16Bytes] at within
      omega
  | setMsgLen len =>
      change Touches (BaseBuffer.setDataRange (uint16Bytes len) 2) position at touches
      have within := BaseBuffer.within_of_touches_setDataRange touches
      rw [length_uint16Bytes] at within
      omega
  | getMsgCode =>
      have within := BaseBuffer.within_of_touches_getDataRange touches
      omega
  | getMsgLen =>
      have within := BaseBuffer.within_of_touches_getDataRange touches
      omega

/-- With room for the header every run of accessors stays inside. -/
theorem accessesInside_of_headerLen_le {msg : Message} (room : headerLen ≤ msg.len)
    (accesses : List Accessor) : msg.AccessesInside accesses := by
  induction accesses generalizing msg with
  | nil => trivial
  | cons accessor accesses ih =>
      refine ⟨?_, ih ?_⟩
      · intro position touches
        have within := access_touches_header touches
        omega
      · rw [access_len]
        exact room

/-- `setHeader` writes the last byte of the header in any case. -/
theorem setHeader_outside {msg : Message} (short : msg.len < headerLen) (head : MsgHeader) :
    ¬msg.AccessesInside [.setHeader head] := by
  intro inside
  have last : Touches (msg.access (.setHeader head)).1 3 := by
    apply touches_some_iff.mpr
    rw [MsgHeader.length_bytes]
    decide
  have below := (inside.1 3 last).2
  rw [headerLen] at short
  omega

/-- The accessors of a fresh message stay inside exactly when the size of the storage did not
wrap. -/
theorem accessesInside_new_iff (memory : Nat → UInt8) {size : Nat} (sizeFits : size < 2 ^ 32) :
    (∀ accesses, (new memory size).AccessesInside accesses) ↔ size + headerLen < 2 ^ 32 := by
  have len : (new memory size).len = uint32 (size + headerLen) := rfl
  constructor
  · intro inside
    apply Nat.lt_of_not_le
    intro wraps
    refine setHeader_outside ?_ MsgHeader.zero (inside _)
    rw [len, uint32]
    rw [headerLen] at wraps ⊢
    omega
  · intro fits accesses
    apply accessesInside_of_headerLen_le
    rw [len, uint32_of_lt fits]
    exact Nat.le_add_left _ _

end Message

/-- `get_data` is safe exactly where the range does not wrap into the buffer, and the header
accessors of a fresh message stay below `len_` exactly when four bytes more than its size fit
into a `uint32_t`. -/
theorem positional_inside_iff {buf : BaseBuffer} {len : Nat} {pos : Int}
    (bufFits : buf.len < 2 ^ 32) (lenFits : len < 2 ^ 32) (low : -2 ^ 31 ≤ pos)
    (high : pos < 2 ^ 31) (memory : Nat → UInt8) {size : Nat} (sizeFits : size < 2 ^ 32) :
    (buf.GetDataSafe len pos ↔ ¬buf.WrapsInside len pos) ∧
      ((∀ accesses, (Message.new memory size).AccessesInside accesses) ↔
        size + headerLen < 2 ^ 32) :=
  ⟨BaseBuffer.getDataSafe_iff_not_wrapsInside bufFits lenFits low high,
    Message.accessesInside_new_iff memory sizeFits⟩

/-- Four bytes at position 2 of a buffer of sixteen bytes, and a message of the default size. -/
theorem positional_inside_default :
    (BaseBuffer.new (fun _ => 0) 16).GetDataSafe 4 2 ∧
      ∀ accesses, (Message.new (fun _ => 0) maxBufferSize).AccessesInside accesses := by
  have exactly := @positional_inside_iff (BaseBuffer.new (fun _ => 0) 16) 4 2 (by decide)
    (by decide) (by decide) (by decide) (fun _ => 0) maxBufferSize (by decide)
  exact ⟨exactly.1.mpr (by simp [BaseBuffer.WrapsInside]), exactly.2.mpr (by decide)⟩

/-- At position 1 of a buffer of sixteen bytes the largest `uint32_t` is accepted as a length,
and a message whose size is four bytes below `2 ^ 32` has no storage for its header. -/
theorem positional_outside :
    ¬(BaseBuffer.new (fun _ => 0) 16).GetDataSafe 4294967295 1 ∧
      ¬(Message.new (fun _ => 0) 4294967292).AccessesInside [.setHeader MsgHeader.zero] := by
  constructor
  · rw [BaseBuffer.getDataSafe_iff]
    intro safe
    rcases safe (by decide) with zero | ⟨-, inside⟩
    · contradiction
    · exact absurd inside (by decide)
  · exact Message.setHeader_outside (by decide) MsgHeader.zero

end Cncpp.Net
