import Cncpp.Loop.Bounded
import Cncpp.Net.Buffer.Message
import Mathlib.Logic.Function.Basic

/-!
# The ring buffer

`RingBuffer` is a list of shared buffers.  Writing appends to the last buffer
and takes new ones from a pool; reading consumes from the first buffer and puts
drained ones into the pool.  A buffer is an object with an identity, so the
model keeps the objects in a heap and the lists hold their addresses.

The source checks list elements for null, but only non-null pointers are ever
inserted.  Lists therefore hold addresses, and the null checks remain where a
pointer comes in from outside.
-/

namespace Cncpp.Net

open Cncpp.Loop
open Cncpp.Machine
open Cncpp.Memory

universe u

/-- The address of a `BaseBuffer` object. -/
abbrev Addr := Nat

/-- `BaseBufferPtr`; `none` is the null pointer. -/
abbrev BaseBufferPtr := Option Addr

/-- The `BaseBuffer` objects.  Addresses from `next` on have not been handed out. -/
structure Heap where
  cell : Addr → BaseBuffer
  next : Addr

namespace Heap

/-- Replace the object at an address. -/
def set (heap : Heap) (p : Addr) (buf : BaseBuffer) : Heap :=
  { heap with cell := Function.update heap.cell p buf }

/-- `std::make_shared<BaseBuffer>()`.  The storage of the new buffer holds what
the heap held there. -/
def make (heap : Heap) : Addr × Heap :=
  (heap.next,
    { cell := Function.update heap.cell heap.next
        (BaseBuffer.new (heap.cell heap.next).data.cells maxBufferSize)
      next := heap.next + 1 })

@[simp]
theorem set_same (heap : Heap) (p : Addr) (buf : BaseBuffer) : (heap.set p buf).cell p = buf :=
  Function.update_self _ _ _

theorem set_other (heap : Heap) {p q : Addr} (different : q ≠ p) (buf : BaseBuffer) :
    (heap.set p buf).cell q = heap.cell q :=
  Function.update_of_ne different _ _

theorem make_other (heap : Heap) {q : Addr} (old : q < heap.next) :
    heap.make.2.cell q = heap.cell q :=
  Function.update_of_ne (Nat.ne_of_lt old) _ _

end Heap

/-- `template <uint32_t N> class BufferPool`. -/
structure BufferPool (N : Nat) where
  bufferPool : List Addr

namespace BufferPool

variable {N : Nat}

/-- `getBuffer`: the oldest pooled buffer, reset, or a new one. -/
def getBuffer (pool : BufferPool N) (heap : Heap) : Addr × BufferPool N × Heap :=
  match pool.bufferPool with
  | [] => (heap.make.1, pool, heap.make.2)
  | p :: rest => (p, ⟨rest⟩, heap.set p (heap.cell p).reset)

/-- `putBuffer`. -/
def putBuffer (pool : BufferPool N) (ptr : BaseBufferPtr) : BufferPool N :=
  match ptr with
  | none => pool
  | some p => if N ≤ pool.bufferPool.length then pool else ⟨pool.bufferPool ++ [p]⟩

end BufferPool

/-- `class RingBuffer`, together with the heap its pointers refer to. -/
structure RingBuffer where
  heap : Heap
  buffers : List Addr
  pool : BufferPool 1000

/-- What `memcpy(toBuf + offset, ...)` does to the object behind `toBuf`.  Copying
two adjacent ranges is copying their concatenation. -/
structure Destination (δ : Type u) where
  memcpy : δ → Nat → List UInt8 → δ
  memcpy_nil : ∀ dest offset, memcpy dest offset [] = dest
  memcpy_append : ∀ dest offset first second,
    memcpy (memcpy dest offset first) (offset + first.length) second =
      memcpy dest offset (first ++ second)

/-- Plain memory as a destination. -/
def Destination.memory : Destination (Nat → UInt8) where
  memcpy := write
  memcpy_nil := write_nil
  memcpy_append := write_write_append

namespace RingBuffer

/-- A `RingBuffer` as constructed, in a given heap. -/
def empty (heap : Heap) : RingBuffer :=
  ⟨heap, [], ⟨[]⟩⟩

/-- `emplace_back`. -/
def emplaceBack (ring : RingBuffer) (buf : BaseBufferPtr) : RingBuffer :=
  match buf with
  | none => ring
  | some p =>
      if (ring.heap.cell p).available then { ring with buffers := ring.buffers ++ [p] } else ring

/-- `canReadSize`: the sum is taken in 64 bits and returned in 32. -/
def canReadSize (ring : RingBuffer) : Nat :=
  uint32 (ring.buffers.foldl
    (fun size p => uint64 (size + (ring.heap.cell p).canRdSize)) 0)

/-- `allocBuff`. -/
def allocBuff (ring : RingBuffer) : Addr × RingBuffer :=
  let taken := ring.pool.getBuffer ring.heap
  (taken.1, { ring with pool := taken.2.1, heap := taken.2.2 })

/-! ## Reading -/

/-- The variables of the read loop. -/
structure Reading (δ : Type u) where
  ring : RingBuffer
  dest : δ
  rdIdx : Nat

/-- Drop the drained buffer at the front into the pool. -/
def recycleFront (ring : RingBuffer) (front : Addr) (rest : List Addr) : RingBuffer :=
  { ring with pool := ring.pool.putBuffer (some front), buffers := rest }

/-- Consume from the buffer at the front. -/
def consumeFront (ring : RingBuffer) (front : Addr) (count : Nat) : RingBuffer :=
  { ring with heap := ring.heap.set front ((ring.heap.cell front).consumeRd count) }

/-- One pass of the `while (rd_idx < size)` loop of `read`. -/
def readPass {δ : Type u} (dst : Destination δ) (size : Nat) (state : Reading δ) :
    Pass (Reading δ) (Reading δ) :=
  if state.rdIdx < size then
    match state.ring.buffers with
    | [] => .leave state
    | front :: rest =>
        let buf := state.ring.heap.cell front
        if buf.available then
          let willRead := min buf.canRdSize (size - state.rdIdx)
          .again
            { ring := state.ring.consumeFront front willRead
              dest := dst.memcpy state.dest state.rdIdx
                (window buf.data.cells buf.rdOffset willRead)
              rdIdx := state.rdIdx + willRead }
        else
          .again { state with ring := state.ring.recycleFront front rest }
  else .leave state

/-- `read(void* toBuf, size)`: the number of bytes read, the destination and the
ring buffer afterwards.  The bound on the passes is one for each buffer and
each byte; `none` would mean that it does not suffice. -/
def read {δ : Type u} (dst : Destination δ) (ring : RingBuffer) (toBuf : δ) (size : Nat) :
    Option (Nat × δ × RingBuffer) :=
  if ring.canReadSize < size then some (0, toBuf, ring)
  else
    (run (readPass dst size) (size + ring.buffers.length + 1) ⟨ring, toBuf, 0⟩).map
      fun state => (state.rdIdx, state.dest, state.ring)

/-! ## Writing -/

/-- The variables of the write loop. -/
structure Writing where
  ring : RingBuffer
  writed : Nat

/-- Append as much as fits to the buffer `p`. -/
def appendTo (state : Writing) (p : Addr) (data : List UInt8) : Writing :=
  let appended := (state.ring.heap.cell p).appendData (data.drop state.writed)
  { ring := { state.ring with heap := state.ring.heap.set p appended.2 }
    writed := uint32 (state.writed + appended.1) }

/-- Append to a buffer from the pool and link it at the back. -/
def appendToNew (state : Writing) (data : List UInt8) : Writing :=
  let alloc := state.ring.allocBuff
  let appended := appendTo { state with ring := alloc.2 } alloc.1 data
  { appended with
    ring := { appended.ring with buffers := appended.ring.buffers ++ [alloc.1] } }

/-- One pass of the `while (writed < size)` loop of `writeString` and
`writeData`. -/
def writePass (data : List UInt8) (state : Writing) : Pass Writing Writing :=
  if state.writed < data.length then
    match state.ring.buffers.getLast? with
    | none => .again (appendToNew state data)
    | some back =>
        if (state.ring.heap.cell back).canWrSize = 0 then .again (appendToNew state data)
        else .again (appendTo state back data)
  else .leave state

/-- The write loop.  A pass writes at least one byte or takes an unusable buffer
out of the pool. -/
def writeLoop (ring : RingBuffer) (data : List UInt8) : Option Writing :=
  run (writePass data) (data.length + ring.pool.bufferPool.length + 1) ⟨ring, 0⟩

/-- `writeString`.  The returned count is converted to `bool`. -/
def writeString (ring : RingBuffer) (str : List UInt8) : Option (Bool × RingBuffer) :=
  if str = [] then some (false, ring)
  else
    (writeLoop ring (str.take (uint32 str.length))).map fun state =>
      (decide (state.writed ≠ 0), state.ring)

/-- `writeData(data, size)`; the list holds the `size` bytes behind the pointer. -/
def writeData (ring : RingBuffer) (data : Option (List UInt8)) : Option (Bool × RingBuffer) :=
  match data with
  | none => some (false, ring)
  | some bytes =>
      if bytes = [] then some (false, ring)
      else (writeLoop ring bytes).map fun state => (true, state.ring)

/-- `writeMessage`. -/
def writeMessage (ring : RingBuffer) (msg : Message) : Option (Bool × RingBuffer) :=
  ring.writeString msg.bytes

end RingBuffer

end Cncpp.Net
