import Cncpp.Net.RingBuffer.Core

/-!
# Correctness of the ring buffer operations

The unread bytes of a ring buffer are the unread bytes of its buffers in list
order.  In a valid ring buffer no object is listed twice and every listed or
pooled buffer is usable.  Each operation is shown to keep validity and to act on
the unread bytes as a byte queue; the loops of `read` and of the writers go
through the total-correctness rule.
-/

namespace Cncpp.Net

open Cncpp.Loop
open Cncpp.Machine
open Cncpp.Memory

universe u

namespace BaseBuffer

/-- A well-formed buffer with room for at least one byte once it is reset. -/
structure Usable (buf : BaseBuffer) : Prop extends WellFormed buf where
  len_pos : 0 < buf.len

theorem new_usable (memory : Nat → UInt8) : (new memory maxBufferSize).Usable where
  toWellFormed := new_wellFormed memory (by decide)
  len_pos := by
    change 0 < maxBufferSize
    decide

theorem Usable.reset {buf : BaseBuffer} (usable : buf.Usable) : buf.reset.Usable where
  toWellFormed := usable.toWellFormed.reset
  len_pos := usable.len_pos

theorem Usable.consumeRd {buf : BaseBuffer} (usable : buf.Usable) {count : Nat}
    (within : count ≤ buf.canRdSize) : (buf.consumeRd count).Usable where
  toWellFormed := usable.toWellFormed.consumeRd within
  len_pos := usable.len_pos

theorem Usable.appendData {buf : BaseBuffer} (usable : buf.Usable) (data : List UInt8) :
    (buf.appendData data).2.Usable where
  toWellFormed := usable.toWellFormed.appendData data
  len_pos := by
    rw [appendData_len]
    exact usable.len_pos

/-- A usable buffer that has just been reset has room. -/
theorem Usable.canWrSize_reset {buf : BaseBuffer} (usable : buf.Usable) :
    0 < buf.reset.canWrSize := by
  rw [canWrSize_eq_sub]
  exact usable.len_pos

end BaseBuffer

namespace RingBuffer

/-- The bytes that have been accepted and not yet read. -/
def unread (ring : RingBuffer) : List UInt8 :=
  ring.buffers.flatMap fun p => (ring.heap.cell p).unread

/-- The buffers the ring buffer refers to, listed or pooled. -/
def owned (ring : RingBuffer) : List Addr :=
  ring.buffers ++ ring.pool.bufferPool

/-- No object is owned twice, and every owned object exists and is usable. -/
structure Valid (ring : RingBuffer) : Prop where
  nodup : ring.owned.Nodup
  allocated : ∀ p ∈ ring.owned, p < ring.heap.next
  usable : ∀ p ∈ ring.owned, (ring.heap.cell p).Usable

theorem empty_valid (heap : Heap) : (empty heap).Valid where
  nodup := List.nodup_nil
  allocated := by simp [owned, empty]
  usable := by simp [owned, empty]

@[simp]
theorem unread_empty (heap : Heap) : (empty heap).unread = [] :=
  rfl

/-- Changing an object that is not listed does not change what is listed. -/
theorem flatMap_unread_set {heap : Heap} {buffers : List Addr} {p : Addr}
    (absent : p ∉ buffers) (buf : BaseBuffer) :
    (buffers.flatMap fun q => ((heap.set p buf).cell q).unread) =
      buffers.flatMap fun q => (heap.cell q).unread := by
  apply List.flatMap_congr
  intro q member
  have different : q ≠ p := by
    rintro rfl
    exact absent member
  rw [heap.set_other different]

/-! ## `canReadSize` -/

theorem foldl_canRdSize (heap : Heap) (buffers : List Addr) (start : Nat) :
    uint64 (buffers.foldl (fun size p => uint64 (size + (heap.cell p).canRdSize)) start) =
      uint64 (start + (buffers.flatMap fun p => (heap.cell p).unread).length) := by
  induction buffers generalizing start with
  | nil => rfl
  | cons p rest ih =>
      rw [List.foldl_cons, ih, uint64_add_uint64, List.flatMap_cons, List.length_append,
        BaseBuffer.length_unread, Nat.add_assoc]

/-- `canReadSize` counts the unread bytes, modulo the width of its result. -/
theorem canReadSize_eq (ring : RingBuffer) : ring.canReadSize = uint32 ring.unread.length := by
  rw [canReadSize, ← uint32_uint64, foldl_canRdSize, uint32_uint64, Nat.zero_add, unread]

theorem canReadSize_le (ring : RingBuffer) : ring.canReadSize ≤ ring.unread.length := by
  rw [canReadSize_eq]
  exact uint32_le _

theorem canReadSize_of_lt {ring : RingBuffer} (fits : ring.unread.length < 2 ^ 32) :
    ring.canReadSize = ring.unread.length := by
  rw [canReadSize_eq, uint32_of_lt fits]

/-! ## Reading -/

section Reading

variable {ring : RingBuffer} {front : Addr} {rest : List Addr}

theorem Valid.recycleFront (valid : ring.Valid) (listed : ring.buffers = front :: rest) :
    (ring.recycleFront front rest).Valid := by
  have nodup : (front :: rest ++ ring.pool.bufferPool).Nodup := by
    have all := valid.nodup
    rw [owned, listed] at all
    exact all
  have subset : ∀ p ∈ (ring.recycleFront front rest).owned, p ∈ ring.owned := by
    intro p member
    rw [owned, listed]
    simp only [owned, RingBuffer.recycleFront, BufferPool.putBuffer] at member
    split at member
    · exact List.mem_cons_of_mem front member
    · simp only [List.mem_append, List.mem_singleton] at member
      simp only [List.cons_append, List.mem_cons, List.mem_append]
      rcases member with inRest | inPool | same
      · exact Or.inr (Or.inl inRest)
      · exact Or.inr (Or.inr inPool)
      · exact Or.inl same
  constructor
  · simp only [owned, RingBuffer.recycleFront, BufferPool.putBuffer]
    split
    · exact (List.nodup_cons.mp nodup).2
    · rw [← List.append_assoc, (List.perm_append_singleton front _).nodup_iff]
      exact nodup
  · intro p member
    exact valid.allocated p (subset p member)
  · intro p member
    exact valid.usable p (subset p member)

theorem unread_recycleFront (listed : ring.buffers = front :: rest)
    (drained : ¬ (ring.heap.cell front).available = true) :
    (ring.recycleFront front rest).unread = ring.unread := by
  rw [unread, unread, listed, List.flatMap_cons,
    BaseBuffer.unread_eq_nil_of_not_available drained]
  rfl

theorem Valid.front_not_mem (valid : ring.Valid) (listed : ring.buffers = front :: rest) :
    front ∉ rest := by
  have nodup := valid.nodup
  rw [owned, listed, List.cons_append] at nodup
  intro member
  exact (List.nodup_cons.mp nodup).1 (List.mem_append_left _ member)

theorem front_mem_owned (listed : ring.buffers = front :: rest) : front ∈ ring.owned := by
  rw [owned, listed]
  exact List.mem_append_left _ List.mem_cons_self

/-- Changing one owned object to a usable one keeps the ring buffer valid. -/
theorem Valid.set (valid : ring.Valid) (p : Addr) {buf : BaseBuffer} (usable : buf.Usable) :
    ({ ring with heap := ring.heap.set p buf } : RingBuffer).Valid where
  nodup := valid.nodup
  allocated := valid.allocated
  usable := by
    intro q member
    by_cases same : q = p
    · subst same
      rw [Heap.set_same]
      exact usable
    · rw [Heap.set_other _ same]
      exact valid.usable q member

theorem Valid.consumeFront (valid : ring.Valid) (listed : ring.buffers = front :: rest)
    {count : Nat} (within : count ≤ (ring.heap.cell front).canRdSize) :
    (ring.consumeFront front count).Valid :=
  valid.set front ((valid.usable front (front_mem_owned listed)).consumeRd within)

theorem Valid.unread_consumeFront (valid : ring.Valid) (listed : ring.buffers = front :: rest)
    {count : Nat} (within : count ≤ (ring.heap.cell front).canRdSize) :
    (ring.consumeFront front count).unread = ring.unread.drop count := by
  have wellFormed := (valid.usable front (front_mem_owned listed)).toWellFormed
  have short : count ≤ (ring.heap.cell front).unread.length := by
    rw [BaseBuffer.length_unread]
    exact within
  rw [unread, unread, RingBuffer.consumeFront, listed, List.flatMap_cons, List.flatMap_cons,
    Heap.set_same, flatMap_unread_set (valid.front_not_mem listed),
    wellFormed.unread_consumeRd within, List.drop_append_of_le_length short]

/-- The bytes copied from the front buffer are the next unread bytes. -/
theorem take_unread_of_front (listed : ring.buffers = front :: rest)
    {count : Nat} (within : count ≤ (ring.heap.cell front).canRdSize) :
    window (ring.heap.cell front).data.cells (ring.heap.cell front).rdOffset count =
      ring.unread.take count := by
  have short : count ≤ (ring.heap.cell front).unread.length := by
    rw [BaseBuffer.length_unread]
    exact within
  rw [BaseBuffer.window_beginRd _ within, unread, listed, List.flatMap_cons,
    List.take_append_of_le_length short]

end Reading

/-- The invariant of the read loop: the destination has received the bytes that
the ring buffer has lost. -/
structure ReadInv {δ : Type u} (dst : Destination δ) (size : Nat) (toBuf : δ)
    (bytes : List UInt8) (state : Reading δ) : Prop where
  valid : state.ring.Valid
  bounded : state.rdIdx ≤ size
  dest : state.dest = dst.memcpy toBuf 0 (bytes.take state.rdIdx)
  unread : state.ring.unread = bytes.drop state.rdIdx

theorem readPass_meets {δ : Type u} (dst : Destination δ) {size : Nat} (toBuf : δ)
    {bytes : List UInt8} (available : size ≤ bytes.length) (state : Reading δ)
    (inv : ReadInv dst size toBuf bytes state) :
    (readPass dst size state).Meets
      (fun next => ReadInv dst size toBuf bytes next ∧
        size - next.rdIdx + next.ring.buffers.length <
          size - state.rdIdx + state.ring.buffers.length)
      (fun result => ReadInv dst size toBuf bytes result ∧ result.rdIdx = size) := by
  have bounded := inv.bounded
  unfold readPass
  split
  · rename_i more
    split
    · rename_i noBuffers
      exfalso
      have length := congrArg List.length inv.unread
      rw [RingBuffer.unread, noBuffers, List.length_drop] at length
      simp only [List.flatMap_nil, List.length_nil] at length
      omega
    · rename_i front rest listed
      simp only
      split
      · rename_i canRead
        rw [BaseBuffer.available_iff] at canRead
        let willRead := min (state.ring.heap.cell front).canRdSize (size - state.rdIdx)
        have within : willRead ≤ (state.ring.heap.cell front).canRdSize := Nat.min_le_left _ _
        have positive : 0 < willRead := by omega
        have fits : state.rdIdx + willRead ≤ size := by omega
        have length : (bytes.take state.rdIdx).length = state.rdIdx := by
          rw [List.length_take]
          omega
        refine ⟨⟨inv.valid.consumeFront listed within, fits, ?_, ?_⟩, ?_⟩
        · change dst.memcpy state.dest state.rdIdx (window _ _ willRead) = _
          rw [take_unread_of_front listed within, inv.dest, inv.unread]
          have joined := dst.memcpy_append toBuf 0 (bytes.take state.rdIdx)
            ((bytes.drop state.rdIdx).take willRead)
          rw [length, Nat.zero_add] at joined
          rw [joined, ← List.take_add]
        · change (state.ring.consumeFront front willRead).unread = _
          rw [inv.valid.unread_consumeFront listed within, inv.unread, List.drop_drop]
        · change size - (state.rdIdx + willRead) + state.ring.buffers.length < _
          omega
      · rename_i drained
        refine ⟨⟨inv.valid.recycleFront listed, bounded, inv.dest, ?_⟩, ?_⟩
        · rw [unread_recycleFront listed drained]
          exact inv.unread
        · rw [listed, List.length_cons]
          change size - state.rdIdx + rest.length < _
          omega
  · rename_i done
    exact ⟨inv, by omega⟩

/-- `read` of at most `canReadSize` bytes delivers exactly the next unread ones. -/
theorem Valid.read {δ : Type u} (dst : Destination δ) {ring : RingBuffer} (valid : ring.Valid)
    (toBuf : δ) {size : Nat} (within : size ≤ ring.canReadSize) :
    ∃ after, ring.read dst toBuf size =
        some (size, dst.memcpy toBuf 0 (ring.unread.take size), after) ∧
      after.Valid ∧ after.unread = ring.unread.drop size := by
  have enough : ¬ ring.canReadSize < size := Nat.not_lt.mpr within
  have available : size ≤ ring.unread.length := Nat.le_trans within ring.canReadSize_le
  have start : ReadInv dst size toBuf ring.unread ⟨ring, toBuf, 0⟩ :=
    ⟨valid, Nat.zero_le _, (dst.memcpy_nil _ _).symm, rfl⟩
  obtain ⟨result, returned, inv, done⟩ :=
    run_total (fun state => size - state.rdIdx + state.ring.buffers.length)
      (readPass_meets dst toBuf available) start
      (show size - 0 + ring.buffers.length < size + ring.buffers.length + 1 by omega)
  refine ⟨result.ring, ?_, inv.valid, ?_⟩
  · rw [RingBuffer.read, if_neg enough, returned, Option.map_some, inv.dest, done]
  · rw [inv.unread, done]

/-- `read` of more than the unread bytes does nothing. -/
theorem read_too_much {δ : Type u} (dst : Destination δ) {ring : RingBuffer} (toBuf : δ)
    {size : Nat} (tooMuch : ring.canReadSize < size) :
    ring.read dst toBuf size = some (0, toBuf, ring) :=
  if_pos tooMuch

/-! ## Writing -/

/-- Linking an object that is not owned yet appends its unread bytes. -/
theorem Valid.link {ring : RingBuffer} (valid : ring.Valid) {p : Addr} (fresh : p ∉ ring.owned)
    (allocated : p < ring.heap.next) (usable : (ring.heap.cell p).Usable) :
    ({ ring with buffers := ring.buffers ++ [p] } : RingBuffer).Valid ∧
      ({ ring with buffers := ring.buffers ++ [p] } : RingBuffer).unread =
        ring.unread ++ (ring.heap.cell p).unread := by
  have owner : ({ ring with buffers := ring.buffers ++ [p] } : RingBuffer).owned.Perm
      (p :: ring.owned) := by
    simp only [owned, List.append_assoc, List.singleton_append]
    exact List.perm_middle
  refine ⟨⟨?_, ?_, ?_⟩, ?_⟩
  · exact owner.nodup_iff.mpr (List.nodup_cons.mpr ⟨fresh, valid.nodup⟩)
  · intro q member
    rcases List.mem_cons.mp (owner.mem_iff.mp member) with rfl | old
    · exact allocated
    · exact valid.allocated q old
  · intro q member
    rcases List.mem_cons.mp (owner.mem_iff.mp member) with rfl | old
    · exact usable
    · exact valid.usable q old
  · simp [unread]

/-- What `allocBuff` hands out: an empty buffer with room that is not owned any more. -/
structure Handed (before : RingBuffer) (p : Addr) (after : RingBuffer) : Prop where
  valid : after.Valid
  fresh : p ∉ after.owned
  allocated : p < after.heap.next
  unread : after.unread = before.unread
  usable : (after.heap.cell p).Usable
  empty : (after.heap.cell p).unread = []
  room : 0 < (after.heap.cell p).canWrSize

/-- A new buffer, where the pool is empty. -/
theorem Valid.make {ring : RingBuffer} (valid : ring.Valid) :
    Handed ring ring.heap.make.1 { ring with heap := ring.heap.make.2 } := by
  have kept : ∀ p ∈ ring.owned, ring.heap.make.2.cell p = ring.heap.cell p := fun p member =>
    ring.heap.make_other (valid.allocated p member)
  have made : ring.heap.make.2.cell ring.heap.next =
      BaseBuffer.new (ring.heap.cell ring.heap.next).data.cells maxBufferSize :=
    Function.update_self _ _ _
  constructor
  · constructor
    · exact valid.nodup
    · intro p member
      exact Nat.lt_succ_of_lt (valid.allocated p member)
    · intro p member
      change (ring.heap.make.2.cell p).Usable
      rw [kept p member]
      exact valid.usable p member
  · intro member
    exact Nat.lt_irrefl _ (valid.allocated ring.heap.next member)
  · exact Nat.lt_succ_self _
  · apply List.flatMap_congr
    intro p member
    change (ring.heap.make.2.cell p).unread = _
    rw [kept p (List.mem_append_left _ member)]
  · change (ring.heap.make.2.cell ring.heap.next).Usable
    rw [made]
    exact BaseBuffer.new_usable _
  · change (ring.heap.make.2.cell ring.heap.next).unread = []
    rw [made, BaseBuffer.unread_new]
  · change 0 < (ring.heap.make.2.cell ring.heap.next).canWrSize
    rw [made, BaseBuffer.canWrSize_eq_sub]
    change 0 < maxBufferSize
    decide

/-- The oldest pooled buffer, reset. -/
theorem Valid.takePooled {ring : RingBuffer} (valid : ring.Valid) {p : Addr} {rest : List Addr}
    (pooled : ring.pool.bufferPool = p :: rest) :
    Handed ring p
      { ring with heap := ring.heap.set p (ring.heap.cell p).reset, pool := ⟨rest⟩ } := by
  have owner : ring.owned.Perm (p :: (ring.buffers ++ rest)) := by
    rw [owned, pooled]
    exact List.perm_middle
  obtain ⟨absent, nodup⟩ := List.nodup_cons.mp (owner.nodup_iff.mp valid.nodup)
  have old : ∀ q ∈ ring.buffers ++ rest, q ∈ ring.owned := fun q member =>
    owner.mem_iff.mpr (List.mem_cons_of_mem _ member)
  have itself : p ∈ ring.owned := owner.mem_iff.mpr List.mem_cons_self
  have usable := valid.usable p itself
  have changed := valid.set p usable.reset
  have atP : (ring.heap.set p (ring.heap.cell p).reset).cell p = (ring.heap.cell p).reset :=
    ring.heap.set_same _ _
  constructor
  · constructor
    · exact nodup
    · intro q member
      exact valid.allocated q (old q member)
    · intro q member
      exact changed.usable q (old q member)
  · exact absent
  · exact valid.allocated p itself
  · exact flatMap_unread_set (fun member => absent (List.mem_append_left _ member)) _
  · exact changed.usable p itself
  · change ((ring.heap.set p (ring.heap.cell p).reset).cell p).unread = []
    rw [atP, BaseBuffer.unread_reset]
  · change 0 < ((ring.heap.set p (ring.heap.cell p).reset).cell p).canWrSize
    rw [atP]
    exact usable.canWrSize_reset

/-- Where the buffer that `allocBuff` returns comes from, and what it is. -/
theorem Valid.allocBuff {ring : RingBuffer} (valid : ring.Valid) :
    Handed ring ring.allocBuff.1 ring.allocBuff.2 := by
  cases pooled : ring.pool.bufferPool with
  | nil =>
      simp only [RingBuffer.allocBuff, BufferPool.getBuffer, pooled]
      exact valid.make
  | cons p rest =>
      simp only [RingBuffer.allocBuff, BufferPool.getBuffer, pooled]
      exact valid.takePooled pooled

/-- The invariant of the write loop: what has been written is unread. -/
structure WriteInv (data before : List UInt8) (state : Writing) : Prop where
  valid : state.ring.Valid
  bounded : state.writed ≤ data.length
  unread : state.ring.unread = before ++ data.take state.writed

section Writing

variable {state : Writing} {p : Addr} {data : List UInt8}

/-- How much one append to a buffer with room takes. -/
theorem appendTo_writed (more : state.writed < data.length) (fits : data.length < 2 ^ 32)
    (room : 0 < (state.ring.heap.cell p).canWrSize) :
    state.writed < (appendTo state p data).writed ∧
      (appendTo state p data).writed ≤ data.length ∧
      (appendTo state p data).writed = state.writed +
        ((state.ring.heap.cell p).appendData (data.drop state.writed)).1 := by
  have accepted := (state.ring.heap.cell p).appendData_fst (data.drop state.writed)
  rw [List.length_drop] at accepted
  have sum : (appendTo state p data).writed = state.writed +
      ((state.ring.heap.cell p).appendData (data.drop state.writed)).1 :=
    uint32_of_lt (by omega)
  refine ⟨?_, ?_, sum⟩
  · omega
  · omega

/-- The bytes taken by one append continue what was written before. -/
theorem take_append_take_drop (more : state.writed < data.length)
    (fits : data.length < 2 ^ 32) (room : 0 < (state.ring.heap.cell p).canWrSize)
    (before : List UInt8) :
    before ++ data.take state.writed ++ (data.drop state.writed).take
        ((state.ring.heap.cell p).appendData (data.drop state.writed)).1 =
      before ++ data.take (appendTo state p data).writed := by
  rw [(appendTo_writed more fits room).2.2, List.take_add, List.append_assoc]

/-- Appending to the last listed buffer. -/
theorem WriteInv.appendTo_last {before : List UInt8} (inv : WriteInv data before state)
    (last : state.ring.buffers.getLast? = some p) (more : state.writed < data.length)
    (fits : data.length < 2 ^ 32) (room : 0 < (state.ring.heap.cell p).canWrSize) :
    WriteInv data before (appendTo state p data) := by
  rcases List.getLast?_eq_some_iff.mp last with ⟨init, listed⟩
  have member : p ∈ state.ring.owned := by
    rw [owned, listed]
    simp
  have absent : p ∉ init := by
    have nodup := inv.valid.nodup
    rw [owned, listed, List.append_assoc] at nodup
    intro inInit
    exact (List.nodup_append.mp nodup).2.2 p inInit p (by simp) rfl
  have usable := inv.valid.usable p member
  refine ⟨inv.valid.set p (usable.appendData _), (appendTo_writed more fits room).2.1, ?_⟩
  have old : state.ring.unread =
      (init.flatMap fun q => (state.ring.heap.cell q).unread) ++
        (state.ring.heap.cell p).unread := by
    rw [RingBuffer.unread, listed]
    simp
  have grown : (appendTo state p data).ring.unread = state.ring.unread ++
      (data.drop state.writed).take
        ((state.ring.heap.cell p).appendData (data.drop state.writed)).1 := by
    change (state.ring.buffers.flatMap fun q =>
      ((state.ring.heap.set p ((state.ring.heap.cell p).appendData
        (data.drop state.writed)).2).cell q).unread) = _
    rw [listed, List.flatMap_append, flatMap_unread_set absent, List.flatMap_singleton,
      Heap.set_same, usable.toWellFormed.unread_appendData, ← List.append_assoc, ← old]
  rw [grown, inv.unread]
  exact take_append_take_drop more fits room before

/-- Appending to a buffer that `allocBuff` supplies. -/
theorem WriteInv.appendToNew {before : List UInt8} (inv : WriteInv data before state)
    (more : state.writed < data.length) (fits : data.length < 2 ^ 32) :
    WriteInv data before (appendToNew state data) ∧
      state.writed < (RingBuffer.appendToNew state data).writed := by
  have handed := inv.valid.allocBuff
  let p := state.ring.allocBuff.1
  let middle : Writing := ⟨state.ring.allocBuff.2, state.writed⟩
  have moreThere : middle.writed < data.length := more
  have taken := appendTo_writed moreThere fits handed.room
  have filled : (appendTo middle p data).ring.heap.cell p =
      ((middle.ring.heap.cell p).appendData (data.drop state.writed)).2 := Heap.set_same _ _ _
  have changed : (appendTo middle p data).ring.Valid :=
    handed.valid.set p (handed.usable.appendData (data.drop state.writed))
  have kept : (appendTo middle p data).ring.unread = state.ring.unread := by
    rw [← handed.unread]
    exact flatMap_unread_set (fun listed => handed.fresh (List.mem_append_left _ listed)) _
  have usable : ((appendTo middle p data).ring.heap.cell p).Usable := by
    rw [filled]
    exact handed.usable.appendData _
  obtain ⟨valid, unread⟩ := changed.link handed.fresh handed.allocated usable
  refine ⟨⟨valid, taken.2.1, ?_⟩, taken.1⟩
  refine unread.trans ?_
  rw [kept, filled, handed.usable.toWellFormed.unread_appendData, handed.empty, List.nil_append,
    inv.unread]
  exact take_append_take_drop moreThere fits handed.room before

/-- One pass of the write loop. -/
theorem writePass_meets {before : List UInt8} (fits : data.length < 2 ^ 32) (state : Writing)
    (inv : WriteInv data before state) :
    (writePass data state).Meets
      (fun next => WriteInv data before next ∧
        data.length - next.writed < data.length - state.writed)
      (fun result => WriteInv data before result ∧ result.writed = data.length) := by
  unfold writePass
  split
  · rename_i more
    split
    · obtain ⟨restored, progress⟩ := inv.appendToNew more fits
      exact ⟨restored, by omega⟩
    · rename_i back last
      split
      · obtain ⟨restored, progress⟩ := inv.appendToNew more fits
        exact ⟨restored, by omega⟩
      · rename_i someRoom
        have room : 0 < (state.ring.heap.cell back).canWrSize := Nat.pos_of_ne_zero someRoom
        have progress := (appendTo_writed more fits room).1
        exact ⟨inv.appendTo_last last more fits room, by omega⟩
  · rename_i done
    have bounded := inv.bounded
    exact ⟨inv, by omega⟩

end Writing

/-- The write loop terminates having appended all of its bytes. -/
theorem Valid.writeLoop {ring : RingBuffer} (valid : ring.Valid) {data : List UInt8}
    (fits : data.length < 2 ^ 32) :
    ∃ result, ring.writeLoop data = some result ∧ result.ring.Valid ∧
      result.writed = data.length ∧ result.ring.unread = ring.unread ++ data := by
  have start : WriteInv data ring.unread ⟨ring, 0⟩ :=
    ⟨valid, Nat.zero_le _, by simp⟩
  obtain ⟨result, returned, inv, done⟩ :=
    run_total (fun state => data.length - state.writed) (writePass_meets fits) start
      (show data.length - 0 < data.length + ring.pool.bufferPool.length + 1 by omega)
  refine ⟨result, returned, inv.valid, done, ?_⟩
  rw [inv.unread, done, List.take_length]

/-- `writeString` appends the whole string. -/
theorem Valid.writeString {ring : RingBuffer} (valid : ring.Valid) {str : List UInt8}
    (fits : str.length < 2 ^ 32) :
    ∃ after, ring.writeString str = some (decide (str ≠ []), after) ∧ after.Valid ∧
      after.unread = ring.unread ++ str := by
  by_cases noData : str = []
  · subst noData
    exact ⟨ring, rfl, valid, by simp⟩
  · obtain ⟨result, returned, resultValid, done, unread⟩ := valid.writeLoop fits
    have narrow : str.take (uint32 str.length) = str := by
      rw [uint32_of_lt fits, List.take_length]
    refine ⟨result.ring, ?_, resultValid, unread⟩
    rw [RingBuffer.writeString, if_neg noData, narrow, returned, Option.map_some, done]
    simp [noData]

/-- `writeData` appends all bytes behind a non-null pointer. -/
theorem Valid.writeData {ring : RingBuffer} (valid : ring.Valid) {data : Option (List UInt8)}
    (fits : (data.getD []).length < 2 ^ 32) :
    ∃ after, ring.writeData data = some (decide (data.getD [] ≠ []), after) ∧ after.Valid ∧
      after.unread = ring.unread ++ data.getD [] := by
  cases data with
  | none => exact ⟨ring, rfl, valid, by simp⟩
  | some bytes =>
      rw [Option.getD_some] at fits ⊢
      by_cases noData : bytes = []
      · subst noData
        exact ⟨ring, rfl, valid, by simp⟩
      · obtain ⟨result, returned, resultValid, _, unread⟩ := valid.writeLoop fits
        refine ⟨result.ring, ?_, resultValid, unread⟩
        simp [RingBuffer.writeData, noData, returned]

/-- `writeMessage` appends the header and the body of the message. -/
theorem Valid.writeMessage {ring : RingBuffer} (valid : ring.Valid) {msg : Message}
    (fits : msg.size < 2 ^ 32) :
    ∃ after, ring.writeMessage msg = some (decide (msg.bytes ≠ []), after) ∧ after.Valid ∧
      after.unread = ring.unread ++ msg.bytes := by
  apply valid.writeString
  rw [BaseBuffer.bytes, length_window]
  exact fits

/-! ## Buffers from outside -/

/-- Linking an object that is not yet owned appends its unread bytes; an object
without unread bytes is not linked. -/
theorem Valid.emplaceBack {ring : RingBuffer} (valid : ring.Valid) {p : Addr}
    (fresh : p ∉ ring.owned) (allocated : p < ring.heap.next)
    (usable : (ring.heap.cell p).Usable) :
    (ring.emplaceBack (some p)).Valid ∧
      (ring.emplaceBack (some p)).unread = ring.unread ++ (ring.heap.cell p).unread := by
  unfold RingBuffer.emplaceBack
  simp only
  split
  · exact valid.link fresh allocated usable
  · rename_i drained
    refine ⟨valid, ?_⟩
    rw [BaseBuffer.unread_eq_nil_of_not_available drained, List.append_nil]

end RingBuffer

end Cncpp.Net
