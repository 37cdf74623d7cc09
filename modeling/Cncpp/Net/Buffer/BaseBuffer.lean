import Cncpp.Machine.Word
import Cncpp.Memory.Window
import Mathlib.Algebra.Group.Int.Defs

/-!
# Byte buffers

A `BaseBuffer` owns the storage of a `std::vector<char>` and keeps a read
offset, a write offset and the capacity it believes it has.  The vector itself
stays empty: the class writes through `begin()` into reserved storage, so the
storage is modelled by the number of bytes it has allocated and by the contents
of the cells.  Fresh storage holds whatever the allocator returns, which is the
`memory` argument of the constructors.
-/

namespace Cncpp.Net

open Cncpp.Machine
open Cncpp.Memory

/-- `MAX_BUFFER_SIZE`. -/
def maxBufferSize : Nat := 100000

/-- The storage behind `std::vector<char> data_`. -/
structure CharVector where
  /-- Bytes the vector is guaranteed to have allocated. -/
  allocated : Nat
  cells : Nat → UInt8

namespace CharVector

/-- A default-initialised vector owns no storage. -/
def empty : CharVector := ⟨0, fun _ => 0⟩

/-- `reserve(count)` on a vector without elements.  Enough storage is kept as it
is; otherwise a new block is taken from the allocator. -/
def reserve (memory : Nat → UInt8) (count : Nat) (vector : CharVector) : CharVector :=
  if count ≤ vector.allocated then vector else ⟨count, memory⟩

/-- `std::vector<char>(count)`, whose elements are value-initialised. -/
def zeros (count : Nat) : CharVector := ⟨count, fun _ => 0⟩

/-- `memcpy` or `std::copy` to position `start` of the storage. -/
def copyTo (vector : CharVector) (start : Nat) (bytes : List UInt8) : CharVector :=
  { vector with cells := write vector.cells start bytes }

@[simp]
theorem allocated_reserve (memory : Nat → UInt8) (count : Nat) (vector : CharVector) :
    (reserve memory count vector).allocated = max vector.allocated count := by
  unfold reserve
  split
  · omega
  · change count = max vector.allocated count
    omega

@[simp]
theorem allocated_copyTo (vector : CharVector) (start : Nat) (bytes : List UInt8) :
    (vector.copyTo start bytes).allocated = vector.allocated :=
  rfl

end CharVector

/-- `class BaseBuffer`. -/
structure BaseBuffer where
  data : CharVector
  rdOffset : Nat
  wrOffset : Nat
  len : Nat

namespace BaseBuffer

/-- `BaseBuffer(uint32_t size)`. -/
def new (memory : Nat → UInt8) (size : Nat) : BaseBuffer where
  data := CharVector.empty.reserve memory size
  rdOffset := 0
  wrOffset := 0
  len := size

def reset (buf : BaseBuffer) : BaseBuffer :=
  { buf with rdOffset := 0, wrOffset := 0 }

def available (buf : BaseBuffer) : Bool :=
  decide (buf.rdOffset < buf.wrOffset)

def size (buf : BaseBuffer) : Nat :=
  buf.wrOffset

def canRdSize (buf : BaseBuffer) : Nat :=
  if buf.wrOffset ≤ buf.rdOffset then 0 else buf.wrOffset - buf.rdOffset

def consumeRd (buf : BaseBuffer) (size : Nat) : BaseBuffer :=
  { buf with rdOffset := uint32 (buf.rdOffset + size) }

def canWrSize (buf : BaseBuffer) : Nat :=
  if buf.len ≤ buf.wrOffset then 0 else buf.len - buf.wrOffset

def consumeWr (buf : BaseBuffer) (size : Nat) : BaseBuffer :=
  { buf with wrOffset := uint32 (buf.wrOffset + size) }

/-- `append_data(const char* data, uint32_t size)`.  The list holds the `size`
bytes behind the pointer; a null pointer is the empty list. -/
def appendData (buf : BaseBuffer) (data : List UInt8) : Nat × BaseBuffer :=
  if data = [] then (0, buf)
  else
    let canWr := min data.length buf.canWrSize
    if canWr = 0 then (canWr, buf)
    else
      (canWr, { buf with
        data := buf.data.copyTo buf.wrOffset (data.take canWr)
        wrOffset := uint32 (buf.wrOffset + canWr) })

/-- `append_data(const std::string& data)`, which narrows the length of the
string to `uint32_t`. -/
def appendString (buf : BaseBuffer) (data : List UInt8) : Nat × BaseBuffer :=
  buf.appendData (data.take (uint32 data.length))

/-- `set_datas`. -/
def setDatas (buf : BaseBuffer) (data : List UInt8) (pos : Nat) : BaseBuffer :=
  if data = [] then buf else { buf with data := buf.data.copyTo pos data }

/-- `set_data`. -/
def setData (buf : BaseBuffer) (data : List UInt8) (pos : Nat) : BaseBuffer :=
  buf.setDatas data pos

/-- The range of the storage that `get_data` reads, or `none` where it returns 0
without reading.  The comparison converts the signed `pos` to `uint32_t`. -/
def getDataRange (buf : BaseBuffer) (len : Nat) (pos : Int) : Option (Int × Nat) :=
  let unsignedPos := (pos % 2 ^ 32).toNat
  if buf.len < unsignedPos ∨ buf.len < uint32 (unsignedPos + len) then none
  else some (pos, len)

/-- The bytes that `get_data` puts into `toBuf`. -/
def getData (buf : BaseBuffer) (len : Nat) (pos : Int) : Option (List UInt8) :=
  (buf.getDataRange len pos).map fun range => window buf.data.cells range.1.toNat range.2

/-- The bytes that have been written and not yet read. -/
def unread (buf : BaseBuffer) : List UInt8 :=
  window buf.data.cells buf.rdOffset buf.canRdSize

/-- The bytes `[begin(), begin() + size())`. -/
def bytes (buf : BaseBuffer) : List UInt8 :=
  window buf.data.cells 0 buf.size

/-! ## The representation invariant -/

/-- The offsets are ordered and lie inside of the allocated storage. -/
structure Bounded (buf : BaseBuffer) : Prop where
  rd_le_wr : buf.rdOffset ≤ buf.wrOffset
  wr_le_len : buf.wrOffset ≤ buf.len
  len_le_allocated : buf.len ≤ buf.data.allocated

instance (buf : BaseBuffer) : Decidable buf.Bounded :=
  decidable_of_iff
    (buf.rdOffset ≤ buf.wrOffset ∧ buf.wrOffset ≤ buf.len ∧ buf.len ≤ buf.data.allocated)
    ⟨fun ⟨first, second, third⟩ => ⟨first, second, third⟩,
      fun ⟨first, second, third⟩ => ⟨first, second, third⟩⟩

/-- A bounded buffer whose capacity is a `uint32_t`. -/
structure WellFormed (buf : BaseBuffer) : Prop extends Bounded buf where
  len_lt : buf.len < 2 ^ 32

theorem canRdSize_eq_sub (buf : BaseBuffer) : buf.canRdSize = buf.wrOffset - buf.rdOffset := by
  unfold canRdSize
  split <;> omega

theorem canWrSize_eq_sub (buf : BaseBuffer) : buf.canWrSize = buf.len - buf.wrOffset := by
  unfold canWrSize
  split <;> omega

@[simp]
theorem length_unread (buf : BaseBuffer) : buf.unread.length = buf.canRdSize := by
  simp [unread]

theorem available_iff (buf : BaseBuffer) : buf.available = true ↔ 0 < buf.canRdSize := by
  rw [canRdSize_eq_sub, available, decide_eq_true_iff]
  omega

theorem unread_eq_nil_iff (buf : BaseBuffer) : buf.unread = [] ↔ buf.canRdSize = 0 := by
  rw [← List.length_eq_zero_iff, length_unread]

theorem unread_eq_nil_of_not_available {buf : BaseBuffer} (drained : ¬ buf.available = true) :
    buf.unread = [] := by
  rw [available_iff] at drained
  exact buf.unread_eq_nil_iff.mpr (by omega)

@[simp]
theorem allocated_new (memory : Nat → UInt8) (size : Nat) :
    (new memory size).data.allocated = size := by
  simp [new, CharVector.empty]

theorem new_wellFormed (memory : Nat → UInt8) {size : Nat} (fits : size < 2 ^ 32) :
    (new memory size).WellFormed where
  rd_le_wr := Nat.le_refl _
  wr_le_len := Nat.zero_le _
  len_le_allocated := by
    rw [allocated_new]
    exact Nat.le_refl _
  len_lt := fits

@[simp]
theorem unread_new (memory : Nat → UInt8) (size : Nat) : (new memory size).unread = [] :=
  rfl

theorem WellFormed.reset {buf : BaseBuffer} (wellFormed : buf.WellFormed) :
    buf.reset.WellFormed where
  rd_le_wr := Nat.le_refl _
  wr_le_len := Nat.zero_le _
  len_le_allocated := wellFormed.len_le_allocated
  len_lt := wellFormed.len_lt

@[simp]
theorem unread_reset (buf : BaseBuffer) : buf.reset.unread = [] :=
  rfl

/-! ## Consuming -/

/-- Reading from the front: the first `count` unread bytes are at `beginRd()`,
and consuming them drops exactly those. -/
theorem window_beginRd (buf : BaseBuffer) {count : Nat} (within : count ≤ buf.canRdSize) :
    window buf.data.cells buf.rdOffset count = buf.unread.take count :=
  (take_window buf.data.cells within).symm

theorem WellFormed.consumeRd_rdOffset {buf : BaseBuffer} (wellFormed : buf.WellFormed)
    {count : Nat} (within : count ≤ buf.canRdSize) :
    (buf.consumeRd count).rdOffset = buf.rdOffset + count := by
  rw [canRdSize_eq_sub] at within
  have order := wellFormed.rd_le_wr
  have inside := wellFormed.wr_le_len
  have fits := wellFormed.len_lt
  exact uint32_of_lt (by omega)

theorem WellFormed.consumeRd {buf : BaseBuffer} (wellFormed : buf.WellFormed)
    {count : Nat} (within : count ≤ buf.canRdSize) : (buf.consumeRd count).WellFormed where
  rd_le_wr := by
    rw [wellFormed.consumeRd_rdOffset within]
    rw [canRdSize_eq_sub] at within
    have order := wellFormed.rd_le_wr
    change buf.rdOffset + count ≤ buf.wrOffset
    omega
  wr_le_len := wellFormed.wr_le_len
  len_le_allocated := wellFormed.len_le_allocated
  len_lt := wellFormed.len_lt

theorem WellFormed.canRdSize_consumeRd {buf : BaseBuffer} (wellFormed : buf.WellFormed)
    {count : Nat} (within : count ≤ buf.canRdSize) :
    (buf.consumeRd count).canRdSize = buf.canRdSize - count := by
  rw [canRdSize_eq_sub, canRdSize_eq_sub, wellFormed.consumeRd_rdOffset within]
  exact (Nat.sub_sub _ _ _).symm

theorem WellFormed.unread_consumeRd {buf : BaseBuffer} (wellFormed : buf.WellFormed)
    {count : Nat} (within : count ≤ buf.canRdSize) :
    (buf.consumeRd count).unread = buf.unread.drop count := by
  rw [unread, wellFormed.canRdSize_consumeRd within, wellFormed.consumeRd_rdOffset within,
    unread, drop_window _ within]
  rfl

theorem WellFormed.consumeWr {buf : BaseBuffer} (wellFormed : buf.WellFormed)
    {count : Nat} (within : count ≤ buf.canWrSize) : (buf.consumeWr count).WellFormed := by
  rw [canWrSize_eq_sub] at within
  have order := wellFormed.rd_le_wr
  have inside := wellFormed.wr_le_len
  have fits := wellFormed.len_lt
  have position : (buf.consumeWr count).wrOffset = buf.wrOffset + count :=
    uint32_of_lt (by omega)
  constructor
  · constructor
    · rw [position]
      exact Nat.le_add_right_of_le order
    · rw [position]
      change buf.wrOffset + count ≤ buf.len
      omega
    · exact wellFormed.len_le_allocated
  · exact fits

/-! ## Appending -/

theorem appendData_fst (buf : BaseBuffer) (data : List UInt8) :
    (buf.appendData data).1 = min data.length buf.canWrSize := by
  unfold appendData
  split
  · rename_i noData
    simp [noData]
  · simp only
    split <;> rfl

/-- What `appendData` does to the offsets, without case distinctions. -/
theorem WellFormed.appendData_wrOffset {buf : BaseBuffer} (wellFormed : buf.WellFormed)
    (data : List UInt8) :
    (buf.appendData data).2.wrOffset = buf.wrOffset + min data.length buf.canWrSize := by
  have inside := wellFormed.wr_le_len
  have fits := wellFormed.len_lt
  have room := buf.canWrSize_eq_sub
  unfold appendData
  split
  · rename_i noData
    simp [noData]
  · simp only
    split
    · rename_i full
      simp [full]
    · exact uint32_of_lt (by omega)

theorem appendData_cells (buf : BaseBuffer) (data : List UInt8) :
    (buf.appendData data).2.data.cells =
      write buf.data.cells buf.wrOffset (data.take (buf.appendData data).1) := by
  rw [appendData_fst]
  unfold appendData
  split
  · rename_i noData
    simp [noData]
  · simp only
    split
    · rename_i full
      simp [full]
    · rfl

@[simp]
theorem appendData_rdOffset (buf : BaseBuffer) (data : List UInt8) :
    (buf.appendData data).2.rdOffset = buf.rdOffset := by
  unfold appendData
  split
  · rfl
  · simp only
    split <;> rfl

@[simp]
theorem appendData_len (buf : BaseBuffer) (data : List UInt8) :
    (buf.appendData data).2.len = buf.len := by
  unfold appendData
  split
  · rfl
  · simp only
    split <;> rfl

@[simp]
theorem appendData_allocated (buf : BaseBuffer) (data : List UInt8) :
    (buf.appendData data).2.data.allocated = buf.data.allocated := by
  unfold appendData
  split
  · rfl
  · simp only
    split <;> rfl

theorem WellFormed.appendData {buf : BaseBuffer} (wellFormed : buf.WellFormed)
    (data : List UInt8) : (buf.appendData data).2.WellFormed := by
  have room := buf.canWrSize_eq_sub
  have inside := wellFormed.wr_le_len
  have order := wellFormed.rd_le_wr
  constructor
  · constructor
    · rw [appendData_rdOffset, wellFormed.appendData_wrOffset]
      omega
    · rw [appendData_len, wellFormed.appendData_wrOffset]
      omega
    · rw [appendData_len, appendData_allocated]
      exact wellFormed.len_le_allocated
  · rw [appendData_len]
    exact wellFormed.len_lt

/-- The bytes accepted by `appendData` are appended to the unread bytes. -/
theorem WellFormed.unread_appendData {buf : BaseBuffer} (wellFormed : buf.WellFormed)
    (data : List UInt8) :
    (buf.appendData data).2.unread = buf.unread ++ data.take (buf.appendData data).1 := by
  have order := wellFormed.rd_le_wr
  have accepted : (data.take (buf.appendData data).1).length = (buf.appendData data).1 := by
    rw [appendData_fst, List.length_take]
    omega
  have size : (buf.appendData data).2.canRdSize =
      buf.canRdSize + (data.take (buf.appendData data).1).length := by
    rw [accepted, canRdSize_eq_sub, canRdSize_eq_sub, appendData_rdOffset,
      wellFormed.appendData_wrOffset, appendData_fst]
    omega
  have position : buf.wrOffset = buf.rdOffset + buf.canRdSize := by
    rw [canRdSize_eq_sub]
    omega
  rw [unread, appendData_rdOffset, size, appendData_cells, position, window_write_append]
  rfl

end BaseBuffer

end Cncpp.Net
