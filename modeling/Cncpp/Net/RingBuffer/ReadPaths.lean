import Cncpp.Net.RingBuffer.Fifo

/-!
# The three ways of reading

`read(void*, size)`, `read(BaseBuffer&, size)` and `readAsString(size)` are copies of one
loop that differ in what they do with the next bytes.  The loop is run once with a log of
the copies; each of the three is that run followed by its own copies.

Of a destination it is recorded whether everything has been written inside of its storage.
-/

namespace Cncpp.Net.RingBuffer

open Cncpp.Loop
open Cncpp.Machine
open Cncpp.Memory
open Cncpp.Transition

universe u

variable {δ : Type u}

/-! ## The loops -/

/-- One pass of the loops.  `copy dest rdIdx bytes` is what is done with the next bytes. -/
def copyPass (copy : δ → Nat → List UInt8 → δ) (size : Nat) (state : Reading δ) :
    Pass (Reading δ) (Reading δ) :=
  if state.rdIdx < size then
    match state.ring.buffers with
    | [] => .leave state
    | front :: rest =>
        let buf := state.ring.heap.cell front
        if buf.available then
          let willRead := min buf.canRdSize (size - state.rdIdx)
          .again
            { ring := state.ring.consumeFront front willRead
              dest := copy state.dest state.rdIdx (window buf.data.cells buf.rdOffset willRead)
              rdIdx := state.rdIdx + willRead }
        else
          .again { state with ring := state.ring.recycleFront front rest }
  else .leave state

/-- The test and the loop: `rd_idx`, the destination and the ring buffer afterwards. -/
def readInto (copy : δ → Nat → List UInt8 → δ) (ring : RingBuffer) (dest : δ) (size : Nat) :
    Option (Nat × δ × RingBuffer) :=
  if ring.canReadSize < size then some (0, dest, ring)
  else
    (run (copyPass copy size) (size + ring.buffers.length + 1) ⟨ring, dest, 0⟩).map
      fun state => (state.rdIdx, state.dest, state.ring)

/-- Storage of `size` bytes. -/
structure Block where
  cells : Nat → UInt8
  size : Nat
  /-- Everything has been written inside of the storage so far. -/
  inside : Bool

/-- `memcpy` to a position of the storage. -/
def Block.memcpy (block : Block) (position : Nat) (bytes : List UInt8) : Block :=
  { block with
    cells := write block.cells position bytes
    inside := block.inside && decide (position + bytes.length ≤ block.size) }

/-- `read(void* toBuf, size)`. -/
def readMemory (ring : RingBuffer) (toBuf : Block) (size : Nat) :
    Option (Nat × Block × RingBuffer) :=
  ring.readInto Block.memcpy toBuf size

/-- A `BaseBuffer` that is written to. -/
structure Target where
  buf : BaseBuffer
  /-- Everything has been written inside of the storage so far. -/
  inside : Bool

/-- `memcpy(toBuf.beginWr(), ...)` and `toBuf.consume_wr(...)`. -/
def Target.append (target : Target) (_ : Nat) (bytes : List UInt8) : Target :=
  { buf := BaseBuffer.consumeWr
      { target.buf with data := target.buf.data.copyTo target.buf.wrOffset bytes } bytes.length
    inside := target.inside &&
      decide (target.buf.wrOffset + bytes.length ≤ target.buf.data.allocated) }

/-- `read(BaseBuffer& toBuf, size)`. -/
def readBuffer (ring : RingBuffer) (toBuf : Target) (size : Nat) :
    Option (Nat × Target × RingBuffer) :=
  ring.readInto Target.append toBuf size

/-- `readAsString`: the string, whether everything was written inside of `arr`, and the ring
buffer afterwards.  The vector `arr` has no elements; `memory` is what lies at `&arr[0]`. -/
def readAsString (ring : RingBuffer) (memory : Nat → UInt8) (size : Nat) :
    Option (List UInt8 × Bool × RingBuffer) :=
  (ring.readInto Block.memcpy ⟨memory, 0, true⟩ size).map fun (rdIdx, arr, after) =>
    (window arr.cells 0 rdIdx, arr.inside, after)

/-- `read` is the loop for the destinations of `Destination`. -/
theorem read_eq_readInto (dst : Destination δ) (ring : RingBuffer) (toBuf : δ) (size : Nat) :
    ring.read dst toBuf size = ring.readInto dst.memcpy toBuf size :=
  rfl

/-! ## The log of the copies -/

/-- The position of a copy in the request, and the bytes. -/
abbrev Copy := Nat × List UInt8

/-- Log a copy. -/
def logged (copies : List Copy) (rdIdx : Nat) (bytes : List UInt8) : List Copy :=
  copies ++ [(rdIdx, bytes)]

/-- Make the copies of a log. -/
def replay (copy : δ → Nat → List UInt8 → δ) (dest : δ) (copies : List Copy) : δ :=
  copies.foldl (fun dest made => copy dest made.1 made.2) dest

/-- The bytes of a log. -/
def copied (copies : List Copy) : List UInt8 :=
  copies.flatMap Prod.snd

@[simp]
theorem replay_nil (copy : δ → Nat → List UInt8 → δ) (dest : δ) : replay copy dest [] = dest :=
  rfl

@[simp]
theorem replay_cons (copy : δ → Nat → List UInt8 → δ) (dest : δ) (made : Copy)
    (copies : List Copy) :
    replay copy dest (made :: copies) = replay copy (copy dest made.1 made.2) copies :=
  rfl

@[simp]
theorem copied_cons (made : Copy) (copies : List Copy) :
    copied (made :: copies) = made.2 ++ copied copies :=
  List.flatMap_cons

theorem length_copied_logged (copies : List Copy) (rdIdx : Nat) (bytes : List UInt8) :
    (copied (logged copies rdIdx bytes)).length = (copied copies).length + bytes.length := by
  rw [copied, logged, List.flatMap_append, List.length_append, List.flatMap_singleton]
  rfl

theorem replay_logged (copy : δ → Nat → List UInt8 → δ) (dest : δ) (copies : List Copy)
    (rdIdx : Nat) (bytes : List UInt8) :
    replay copy dest (logged copies rdIdx bytes) =
      copy (replay copy dest copies) rdIdx bytes := by
  rw [replay, logged, List.foldl_concat]
  rfl

/-- The state of a loop that has made the copies of the log. -/
def Reading.replay (copy : δ → Nat → List UInt8 → δ) (dest : δ) (state : Reading (List Copy)) :
    Reading δ :=
  ⟨state.ring, RingBuffer.replay copy dest state.dest, state.rdIdx⟩

theorem copyPass_replay (copy : δ → Nat → List UInt8 → δ) (dest : δ) (size : Nat)
    (state : Reading (List Copy)) :
    copyPass copy size (state.replay copy dest) =
      (copyPass logged size state).map (Reading.replay copy dest) (Reading.replay copy dest) := by
  by_cases more : state.rdIdx < size
  · cases listed : state.ring.buffers with
    | nil => simp [copyPass, Reading.replay, Pass.map, more, listed]
    | cons front rest =>
        by_cases canRead : (state.ring.heap.cell front).available = true
        · simp [copyPass, Reading.replay, Pass.map, more, listed, canRead, replay_logged]
        · simp [copyPass, Reading.replay, Pass.map, more, listed, canRead]
  · simp [copyPass, Reading.replay, Pass.map, more]

/-- Every loop makes the copies of the logging loop. -/
theorem readInto_eq_replay (copy : δ → Nat → List UInt8 → δ) (ring : RingBuffer) (dest : δ)
    (size : Nat) :
    ring.readInto copy dest size = (ring.readInto logged [] size).map fun (rdIdx, copies, after) =>
      (rdIdx, replay copy dest copies, after) := by
  unfold readInto
  split
  · rfl
  · have simulated := run_map (copyPass_replay copy dest size) (size + ring.buffers.length + 1)
      ⟨ring, [], 0⟩
    simp only [Reading.replay, replay_nil] at simulated
    rw [simulated, Option.map_map, Option.map_map]
    rfl

/-! ## What the log holds -/

/-- The copies are not empty and follow each other from a position on. -/
def Consecutive (start : Nat) : List Copy → Prop
  | [] => True
  | (position, bytes) :: copies =>
      position = start ∧ bytes ≠ [] ∧ Consecutive (start + bytes.length) copies

theorem Consecutive.logged {start : Nat} {copies : List Copy}
    (consecutive : Consecutive start copies) {bytes : List UInt8} (nonempty : bytes ≠ []) :
    Consecutive start (logged copies (start + (copied copies).length) bytes) := by
  induction copies generalizing start with
  | nil => exact ⟨Nat.add_zero _, nonempty, trivial⟩
  | cons made copies ih =>
      obtain ⟨here, filled, following⟩ := consecutive
      refine ⟨here, filled, ?_⟩
      have position : start + (copied (made :: copies)).length =
          start + made.2.length + (copied copies).length := by
        rw [copied_cons, List.length_append, Nat.add_assoc]
      rw [position]
      exact ih following

/-- The invariant of the logging loop. -/
structure CopyInv (ring : RingBuffer) (size : Nat) (state : Reading (List Copy)) : Prop where
  bounded : state.rdIdx ≤ size
  consecutive : Consecutive 0 state.dest
  length : (copied state.dest).length = state.rdIdx
  /-- Before the first copy only drained buffers have been dropped. -/
  untouched : state.dest = [] → state.ring.unread = ring.unread

/-- One more copy in the log keeps the invariant, whatever happens to the ring buffer. -/
theorem CopyInv.logged {ring : RingBuffer} {size : Nat} {state : Reading (List Copy)}
    (inv : CopyInv ring size state) (after : RingBuffer) {bytes : List UInt8}
    (nonempty : bytes ≠ []) (fits : state.rdIdx + bytes.length ≤ size) :
    CopyInv ring size
      ⟨after, RingBuffer.logged state.dest state.rdIdx bytes, state.rdIdx + bytes.length⟩ where
  bounded := fits
  consecutive := by
    have following := inv.consecutive.logged nonempty
    rw [Nat.zero_add, inv.length] at following
    exact following
  length := by
    rw [length_copied_logged, inv.length]
  untouched := fun noCopy =>
    absurd noCopy (List.append_ne_nil_of_right_ne_nil _ (List.cons_ne_nil _ _))

theorem copyPass_meets (ring : RingBuffer) (size : Nat) (state : Reading (List Copy))
    (inv : CopyInv ring size state) :
    (copyPass RingBuffer.logged size state).Meets
      (fun next => CopyInv ring size next ∧
        size - next.rdIdx + next.ring.buffers.length <
          size - state.rdIdx + state.ring.buffers.length)
      (fun result => CopyInv ring size result ∧
        (result.rdIdx = size ∨ result.ring.buffers = [])) := by
  have bounded := inv.bounded
  unfold copyPass
  split
  · split
    · rename_i noBuffers
      exact ⟨inv, Or.inr noBuffers⟩
    · rename_i front rest listed
      simp only
      split
      · rename_i canRead
        rw [BaseBuffer.available_iff] at canRead
        let willRead := min (state.ring.heap.cell front).canRdSize (size - state.rdIdx)
        have positive : 0 < willRead := by omega
        have fits : state.rdIdx + willRead ≤ size := by omega
        let bytes := window (state.ring.heap.cell front).data.cells
          (state.ring.heap.cell front).rdOffset willRead
        have length : bytes.length = willRead := length_window _ _ _
        have nonempty : bytes ≠ [] := by
          intro noCopy
          rw [noCopy, List.length_nil] at length
          omega
        refine ⟨?_, ?_⟩
        · have next := inv.logged (state.ring.consumeFront front willRead) nonempty
            (by rwa [length])
          rw [length] at next
          exact next
        · change size - (state.rdIdx + willRead) + state.ring.buffers.length < _
          omega
      · rename_i drained
        refine ⟨⟨bounded, inv.consecutive, inv.length, fun noCopy => ?_⟩, ?_⟩
        · rw [unread_recycleFront listed drained]
          exact inv.untouched noCopy
        · rw [listed, List.length_cons]
          change size - state.rdIdx + rest.length < _
          omega
  · rename_i done
    exact ⟨inv, Or.inl (by omega)⟩

/-- In every state of the ring buffer the loop returns, and where something can be read it
makes a copy. -/
theorem copies_of_le (ring : RingBuffer) {size : Nat} (positive : 0 < size)
    (within : size ≤ ring.canReadSize) :
    ∃ copies after, ring.readInto logged [] size = some ((copied copies).length, copies, after) ∧
      Consecutive 0 copies ∧ copies ≠ [] := by
  have enough : ¬ring.canReadSize < size := Nat.not_lt.mpr within
  have start : CopyInv ring size ⟨ring, [], 0⟩ :=
    ⟨Nat.zero_le _, trivial, rfl, fun _ => rfl⟩
  obtain ⟨result, returned, inv, done⟩ :=
    run_total (fun state => size - state.rdIdx + state.ring.buffers.length)
      (copyPass_meets ring size) start
      (show size - 0 + ring.buffers.length < size + ring.buffers.length + 1 by omega)
  refine ⟨result.dest, result.ring, ?_, inv.consecutive, fun noCopy => ?_⟩
  · rw [readInto, if_neg enough, returned, Option.map_some, inv.length]
  · have length := inv.length
    have unread := congrArg List.length (inv.untouched noCopy)
    have most := ring.canReadSize_le
    rw [noCopy] at length
    rcases done with all | noBuffers
    · rw [all] at length
      exact Nat.ne_of_lt positive length
    · rw [RingBuffer.unread, noBuffers, List.flatMap_nil, List.length_nil] at unread
      omega

/-- A destination that collects the bytes. -/
def collected : Destination (List UInt8) where
  memcpy dest _ bytes := dest ++ bytes
  memcpy_nil dest _ := List.append_nil dest
  memcpy_append dest _ first second := List.append_assoc dest first second

theorem replay_collected (dest : List UInt8) (copies : List Copy) :
    replay collected.memcpy dest copies = dest ++ copied copies := by
  induction copies generalizing dest with
  | nil => exact (List.append_nil dest).symm
  | cons made copies ih =>
      rw [replay_cons, ih, copied_cons, ← List.append_assoc]
      rfl

/-- In a valid ring buffer the copies are the next unread bytes. -/
theorem Valid.copies {ring : RingBuffer} (valid : ring.Valid) {size : Nat} (positive : 0 < size)
    (within : size ≤ ring.canReadSize) :
    ∃ copies after, ring.readInto logged [] size = some (size, copies, after) ∧
      Consecutive 0 copies ∧ copied copies = ring.unread.take size ∧ after.Valid ∧
      after.unread = ring.unread.drop size := by
  obtain ⟨copies, after, logs, consecutive, _⟩ := copies_of_le ring positive within
  obtain ⟨rest, delivers, restValid, unread⟩ := valid.read collected [] within
  have same := readInto_eq_replay collected.memcpy ring [] size
  rw [← read_eq_readInto, delivers, logs, Option.map_some] at same
  simp only [replay_collected, Option.some.injEq, Prod.mk.injEq] at same
  obtain ⟨count, bytes, rfl⟩ := same
  exact ⟨copies, rest, by rw [logs, ← count], consecutive, bytes.symm, restValid, unread⟩

/-! ## Where the copies go -/

theorem replay_memcpy_cells {start : Nat} {copies : List Copy}
    (consecutive : Consecutive start copies) (block : Block) :
    (replay Block.memcpy block copies).cells = write block.cells start (copied copies) := by
  induction copies generalizing start block with
  | nil => exact (write_nil _ _).symm
  | cons made copies ih =>
      obtain ⟨rfl, _, following⟩ := consecutive
      rw [replay_cons, ih following, copied_cons]
      exact write_write_append block.cells made.1 made.2 (copied copies)

theorem replay_memcpy_inside {start : Nat} {copies : List Copy}
    (consecutive : Consecutive start copies) {block : Block}
    (fits : start + (copied copies).length ≤ block.size) :
    (replay Block.memcpy block copies).inside = block.inside := by
  induction copies generalizing start block with
  | nil => rfl
  | cons made copies ih =>
      obtain ⟨rfl, _, following⟩ := consecutive
      rw [copied_cons, List.length_append, ← Nat.add_assoc] at fits
      have here : made.1 + made.2.length ≤ block.size := by omega
      have later := @ih _ following (block.memcpy made.1 made.2) fits
      rw [replay_cons, later, Block.memcpy, decide_eq_true here, Bool.and_true]

/-- What has been written outside of the storage stays written. -/
theorem replay_memcpy_outside {block : Block} (outside : block.inside = false)
    (copies : List Copy) : (replay Block.memcpy block copies).inside = false := by
  induction copies generalizing block with
  | nil => exact outside
  | cons made copies ih =>
      rw [replay_cons]
      apply ih
      rw [Block.memcpy, outside, Bool.false_and]

/-- Every copy to a vector without elements is outside of it. -/
theorem replay_memcpy_empty {start : Nat} {copies : List Copy}
    (consecutive : Consecutive start copies) (anyCopy : copies ≠ []) (memory : Nat → UInt8) :
    (replay Block.memcpy ⟨memory, 0, true⟩ copies).inside = false := by
  cases copies with
  | nil => exact absurd rfl anyCopy
  | cons made copies =>
      obtain ⟨_, nonempty, _⟩ := consecutive
      have positive : 0 < made.2.length := List.length_pos_iff.mpr nonempty
      have outside : ¬made.1 + made.2.length ≤ 0 := by omega
      rw [replay_cons]
      apply replay_memcpy_outside
      rw [Block.memcpy, decide_eq_false outside, Bool.and_false]

theorem replay_append {target : Target} {copies : List Copy}
    (fits : target.buf.wrOffset + (copied copies).length ≤ target.buf.len)
    (backed : target.buf.len ≤ target.buf.data.allocated) (len_lt : target.buf.len < 2 ^ 32) :
    replay Target.append target copies =
      { buf := { target.buf with
          data := target.buf.data.copyTo target.buf.wrOffset (copied copies)
          wrOffset := target.buf.wrOffset + (copied copies).length }
        inside := target.inside } := by
  induction copies generalizing target with
  | nil => simp [copied, CharVector.copyTo]
  | cons made copies ih =>
      rw [copied_cons, List.length_append] at fits
      have here : target.buf.wrOffset + made.2.length ≤ target.buf.data.allocated := by omega
      have position : (target.append made.1 made.2).buf.wrOffset =
          target.buf.wrOffset + made.2.length := by
        change uint32 (target.buf.wrOffset + made.2.length) = _
        exact uint32_of_lt (by omega)
      have same : (target.append made.1 made.2).inside = target.inside := by
        rw [Target.append, decide_eq_true here, Bool.and_true]
      have later : (target.append made.1 made.2).buf.wrOffset + (copied copies).length ≤
          (target.append made.1 made.2).buf.len := by
        rw [position]
        change _ ≤ target.buf.len
        omega
      rw [replay_cons, ih later backed len_lt, same, position, copied_cons, List.length_append,
        Nat.add_assoc]
      simp [Target.append, BaseBuffer.consumeWr, CharVector.copyTo, write_write_append]

/-! ## Comparing the paths -/

/-- Destinations that a caller passes: storage with room for `size` bytes. -/
structure Prepared (size : Nat) (toBuf : Block) (target : Target) : Prop where
  room : size ≤ toBuf.size
  unwritten : toBuf.inside = true
  canWrite : size ≤ target.buf.canWrSize
  backed : target.buf.len ≤ target.buf.data.allocated
  len_lt : target.buf.len < 2 ^ 32
  untouched : target.inside = true

/-- `read(void*, size)` delivers `bytes` inside of its destination. -/
def MemoryDelivers (ring : RingBuffer) (toBuf : Block) (bytes : List UInt8)
    (after : RingBuffer) : Prop :=
  ∃ filled, ring.readMemory toBuf bytes.length = some (bytes.length, filled, after) ∧
    filled.inside = true ∧ filled.cells = write toBuf.cells 0 bytes

/-- `read(BaseBuffer&, size)` delivers `bytes` inside of the storage of the buffer. -/
def BufferDelivers (ring : RingBuffer) (target : Target) (bytes : List UInt8)
    (after : RingBuffer) : Prop :=
  ∃ filled, ring.readBuffer target bytes.length = some (bytes.length, filled, after) ∧
    filled.inside = true ∧ filled.buf.wrOffset = target.buf.wrOffset + bytes.length ∧
    filled.buf.data.cells = write target.buf.data.cells target.buf.wrOffset bytes

/-- `readAsString` delivers `bytes`, and writes inside of `arr`. -/
def StringDelivers (ring : RingBuffer) (memory : Nat → UInt8) (bytes : List UInt8)
    (after : RingBuffer) : Prop :=
  ring.readAsString memory bytes.length = some (bytes, true, after)

/-- The three paths agree on a request. -/
structure PathsAgree (ring : RingBuffer) (size : Nat) (toBuf : Block) (target : Target)
    (memory : Nat → UInt8) : Prop where
  delivered : size ≤ ring.canReadSize → ∃ bytes after, bytes.length = size ∧
    MemoryDelivers ring toBuf bytes after ∧ BufferDelivers ring target bytes after ∧
      StringDelivers ring memory bytes after
  refused : ring.canReadSize < size → ring.readMemory toBuf size = some (0, toBuf, ring) ∧
    ring.readBuffer target size = some (0, target, ring) ∧
      ring.readAsString memory size = some ([], true, ring)

/-- In a valid ring buffer the two paths into storage of the caller deliver the next bytes and
leave the same ring buffer. -/
theorem Valid.read_storage {ring : RingBuffer} (valid : ring.Valid) {size : Nat}
    (positive : 0 < size) (within : size ≤ ring.canReadSize) {toBuf : Block} {target : Target}
    (prepared : Prepared size toBuf target) :
    ∃ after, MemoryDelivers ring toBuf (ring.unread.take size) after ∧
      BufferDelivers ring target (ring.unread.take size) after ∧
      after.unread = ring.unread.drop size := by
  obtain ⟨copies, after, logs, consecutive, bytes, _, unread⟩ := valid.copies positive within
  have length : (ring.unread.take size).length = size := by
    have most := ring.canReadSize_le
    rw [List.length_take]
    omega
  have total : (copied copies).length = size := by rw [bytes, length]
  obtain ⟨room, unwritten, canWrite, backed, len_lt, untouched⟩ := prepared
  rw [BaseBuffer.canWrSize_eq_sub] at canWrite
  have appended := @replay_append target copies (by omega) backed len_lt
  refine ⟨after, ⟨replay Block.memcpy toBuf copies, ?_, ?_, ?_⟩,
    ⟨replay Target.append target copies, ?_, ?_, ?_, ?_⟩, unread⟩
  · rw [length, readMemory, readInto_eq_replay, logs, Option.map_some]
  · rw [replay_memcpy_inside consecutive (by omega), unwritten]
  · rw [replay_memcpy_cells consecutive, bytes]
  · rw [length, readBuffer, readInto_eq_replay, logs, Option.map_some]
  · rw [appended, untouched]
  · rw [appended, bytes]
  · rw [appended, bytes]
    rfl

/-- The three paths agree exactly on the requests that are refused: `readAsString` writes
every byte that it reads outside of its vector. -/
theorem paths_agree_iff (ring : RingBuffer) {size : Nat} (positive : 0 < size) (toBuf : Block)
    (target : Target) (memory : Nat → UInt8) :
    PathsAgree ring size toBuf target memory ↔ ring.canReadSize < size := by
  constructor
  · intro agree
    by_contra enough
    obtain ⟨bytes, after, length, _, _, string⟩ := agree.delivered (by omega)
    obtain ⟨copies, rest, logs, consecutive, anyCopy⟩ := copies_of_le ring positive (by omega)
    have outside := replay_memcpy_empty consecutive anyCopy memory
    rw [StringDelivers, readAsString, length, readInto_eq_replay, logs] at string
    simp only [Option.map_some, Option.some.injEq, Prod.mk.injEq] at string
    rw [outside] at string
    exact absurd string.2.1 (by decide)
  · intro tooMuch
    refine ⟨fun within => absurd tooMuch (Nat.not_lt.mpr within), fun _ => ⟨?_, ?_, ?_⟩⟩
    · exact if_pos tooMuch
    · exact if_pos tooMuch
    · rw [readAsString, readInto, if_pos tooMuch]
      rfl

/-- One byte in a ring buffer. -/
def oneByte : RingBuffer :=
  (empty ⟨fun _ => suppliedBuffer, 0⟩ |>.place 0 ⟨⟨4, fun _ => 97⟩, 0, 1, 4⟩).emplaceBack (some 0)

/-- A request for two bytes is refused on all three paths. -/
theorem paths_agree_oneByte :
    PathsAgree oneByte 2 ⟨fun _ => 0, 2, true⟩ ⟨suppliedBuffer, true⟩ (fun _ => 0) :=
  (paths_agree_iff oneByte (by decide) _ _ _).mpr (by decide)

/-- The byte can be read, and `readAsString` writes it outside of its vector. -/
theorem readAsString_writes_outside :
    oneByte.canReadSize = 1 ∧
      ¬PathsAgree oneByte 1 ⟨fun _ => 0, 1, true⟩ ⟨⟨⟨4, fun _ => 0⟩, 0, 0, 4⟩, true⟩
        (fun _ => 0) := by
  refine ⟨rfl, fun agree => ?_⟩
  obtain ⟨bytes, after, length, _, _, string⟩ := agree.delivered (by decide)
  have outside :
      (oneByte.readAsString (fun _ => 0) 1).map (fun result => result.2.1) = some false := rfl
  rw [StringDelivers, length] at string
  rw [string] at outside
  exact absurd outside (by simp)

/-- After every run of admissible calls the two paths into storage of the caller deliver the
same next bytes inside of it, and leave the same ring buffer. -/
theorem run_read_storage (heap : Heap) {ops : List Operation}
    (admissible : Along step (fun log op => op.Admissible log.ring) (Log.start heap) ops) :
    ∃ log, exec step (Log.start heap) ops = some log ∧
      ∀ size toBuf target, 0 < size → size ≤ log.ring.canReadSize → Prepared size toBuf target →
        ∃ after, MemoryDelivers log.ring toBuf (log.ring.unread.take size) after ∧
          BufferDelivers log.ring target (log.ring.unread.take size) after ∧
          after.unread = log.ring.unread.drop size := by
  have start : (Log.start heap).Consistent := ⟨Stream.Fifo.empty, empty_refines heap, rfl, rfl⟩
  obtain ⟨log, returned, consistent⟩ :=
    exec_total (fun _ _ inv allowed => step_consistent inv allowed) start admissible
  obtain ⟨stream, refines, _, _⟩ := consistent
  exact ⟨log, returned, fun size toBuf target positive within prepared =>
    refines.valid.read_storage positive within prepared⟩

end Cncpp.Net.RingBuffer
