import Cncpp.Net.RingBuffer.Correctness
import Cncpp.Transition.Run

/-!
# Ownership of buffers

A buffer circulates between the caller, who obtains it from `allocBuff` and hands it back
to `emplace_back`, the list of the ring buffer, and its pool.  An operation may use the
buffers of the ring buffer and new ones; all others are foreign to it and stay as they
are.  It follows that no buffer is at two places.
-/

namespace Cncpp.Net.RingBuffer

open Cncpp.Loop
open Cncpp.Machine
open Cncpp.Memory
open Cncpp.Transition

/-- The buffer exists and belongs to somebody else. -/
def Foreign (ring : RingBuffer) (p : Addr) : Prop :=
  p < ring.heap.next ∧ p ∉ ring.owned

/-- An operation leads from `before` to `after` without using a foreign buffer. -/
structure Grows (before after : RingBuffer) : Prop where
  next_le : before.heap.next ≤ after.heap.next
  foreign : ∀ p, before.Foreign p → p ∉ after.owned ∧ after.heap.cell p = before.heap.cell p

/-- The pooled buffers are drained, and there are not too many. -/
structure Clean (ring : RingBuffer) : Prop where
  drained : ∀ p ∈ ring.pool.bufferPool, (ring.heap.cell p).unread = []
  limit : ring.pool.bufferPool.length ≤ 1000

theorem empty_clean (heap : Heap) : (empty heap).Clean where
  drained := by simp [empty]
  limit := by simp [empty]

namespace Grows

variable {before middle after : RingBuffer}

theorem refl (ring : RingBuffer) : Grows ring ring :=
  ⟨Nat.le_refl _, fun _ foreign => ⟨foreign.2, rfl⟩⟩

theorem trans (first : Grows before middle) (second : Grows middle after) :
    Grows before after := by
  refine ⟨Nat.le_trans first.next_le second.next_le, fun p foreign => ?_⟩
  obtain ⟨absent, same⟩ := first.foreign p foreign
  obtain ⟨stillAbsent, stillSame⟩ :=
    second.foreign p ⟨Nat.lt_of_lt_of_le foreign.1 first.next_le, absent⟩
  exact ⟨stillAbsent, stillSame.trans same⟩

/-- A foreign buffer stays foreign. -/
theorem still_foreign (grows : Grows before after) {p : Addr} (foreign : before.Foreign p) :
    after.Foreign p :=
  ⟨Nat.lt_of_lt_of_le foreign.1 grows.next_le, (grows.foreign p foreign).1⟩

/-- Changing a buffer that is not foreign. -/
theorem set (grows : Grows before after) {p : Addr} (inside : ¬ before.Foreign p)
    (buf : BaseBuffer) : Grows before { after with heap := after.heap.set p buf } := by
  refine ⟨grows.next_le, fun q foreign => ?_⟩
  obtain ⟨absent, same⟩ := grows.foreign q foreign
  have different : q ≠ p := by
    rintro rfl
    exact inside foreign
  exact ⟨absent, (after.heap.set_other different buf).trans same⟩

/-- Linking a buffer that is not foreign. -/
theorem link (grows : Grows before after) {p : Addr} (inside : ¬ before.Foreign p) :
    Grows before { after with buffers := after.buffers ++ [p] } := by
  refine ⟨grows.next_le, fun q foreign => ?_⟩
  obtain ⟨absent, same⟩ := grows.foreign q foreign
  refine ⟨fun member => ?_, same⟩
  simp only [owned, List.mem_append, List.mem_singleton] at member absent
  rcases member with (listed | rfl) | pooled
  · exact absent (Or.inl listed)
  · exact inside foreign
  · exact absent (Or.inr pooled)

end Grows

theorem not_foreign_of_owned {ring : RingBuffer} {p : Addr} (owned : p ∈ ring.owned) :
    ¬ ring.Foreign p :=
  fun foreign => foreign.2 owned

/-- A listed buffer is not in the pool. -/
theorem Valid.listed_not_pooled {ring : RingBuffer} (valid : ring.Valid) {p : Addr}
    (listed : p ∈ ring.buffers) : p ∉ ring.pool.bufferPool := by
  intro pooled
  exact (List.nodup_append.mp valid.nodup).2.2 p listed p pooled rfl

/-- Changing a buffer outside of the pool. -/
theorem Clean.set {ring : RingBuffer} (clean : ring.Clean) {p : Addr}
    (outside : p ∉ ring.pool.bufferPool) (buf : BaseBuffer) :
    ({ ring with heap := ring.heap.set p buf } : RingBuffer).Clean := by
  refine ⟨fun q member => ?_, clean.limit⟩
  have different : q ≠ p := by
    rintro rfl
    exact outside member
  change ((ring.heap.set p buf).cell q).unread = []
  rw [ring.heap.set_other different]
  exact clean.drained q member

/-! ## `allocBuff` -/

/-- The buffer that `allocBuff` takes is pooled or new, and its offsets are zero. -/
theorem Valid.allocBuff_grows {ring : RingBuffer} (valid : ring.Valid) (clean : ring.Clean) :
    Grows ring ring.allocBuff.2 ∧ ring.allocBuff.2.Clean ∧ ¬ ring.Foreign ring.allocBuff.1 ∧
      (ring.allocBuff.2.heap.cell ring.allocBuff.1).rdOffset = 0 ∧
        (ring.allocBuff.2.heap.cell ring.allocBuff.1).wrOffset = 0 := by
  cases pooled : ring.pool.bufferPool with
  | nil =>
      have alloc : ring.allocBuff =
          (ring.heap.next, { ring with heap := ring.heap.make.2 }) := by
        simp only [RingBuffer.allocBuff, BufferPool.getBuffer, pooled]
        rfl
      have made : ring.heap.make.2.cell ring.heap.next =
          BaseBuffer.new (ring.heap.cell ring.heap.next).data.cells maxBufferSize :=
        Function.update_self _ _ _
      rw [alloc]
      refine ⟨⟨Nat.le_succ _, fun p foreign => ?_⟩, ⟨?_, clean.limit⟩, ?_, ?_, ?_⟩
      · exact ⟨foreign.2, ring.heap.make_other foreign.1⟩
      · intro p member
        have old := valid.allocated p (List.mem_append_right _ member)
        change (ring.heap.make.2.cell p).unread = []
        rw [ring.heap.make_other old]
        exact clean.drained p member
      · exact fun foreign => Nat.lt_irrefl _ foreign.1
      · exact congrArg BaseBuffer.rdOffset made
      · exact congrArg BaseBuffer.wrOffset made
  | cons p rest =>
      have alloc : ring.allocBuff =
          (p, { ring with heap := ring.heap.set p (ring.heap.cell p).reset, pool := ⟨rest⟩ }) := by
        simp only [RingBuffer.allocBuff, BufferPool.getBuffer, pooled]
      have member : p ∈ ring.owned := by
        rw [owned, pooled]
        simp
      have distinct : p ∉ rest := by
        have nodup := (List.nodup_append.mp valid.nodup).2.1
        rw [pooled] at nodup
        exact (List.nodup_cons.mp nodup).1
      have there := ring.heap.set_same p (ring.heap.cell p).reset
      have inPool : ∀ q ∈ rest, q ∈ ring.pool.bufferPool := by
        intro q inRest
        rw [pooled]
        exact List.mem_cons_of_mem p inRest
      rw [alloc]
      refine ⟨⟨Nat.le_refl _, fun q foreign => ?_⟩, ⟨?_, ?_⟩, not_foreign_of_owned member, ?_, ?_⟩
      · refine ⟨fun still => foreign.2 ?_, ?_⟩
        · rcases List.mem_append.mp still with listed | inRest
          · exact List.mem_append_left _ listed
          · exact List.mem_append_right _ (inPool q inRest)
        · apply ring.heap.set_other
          rintro rfl
          exact foreign.2 member
      · intro q inRest
        have different : q ≠ p := by
          rintro rfl
          exact distinct inRest
        change ((ring.heap.set p (ring.heap.cell p).reset).cell q).unread = []
        rw [ring.heap.set_other different]
        exact clean.drained q (inPool q inRest)
      · have limit := clean.limit
        rw [pooled] at limit
        exact Nat.le_of_succ_le limit
      · exact congrArg BaseBuffer.rdOffset there
      · exact congrArg BaseBuffer.wrOffset there

/-! ## Reading and writing -/

section Passes

variable {data : List UInt8}

theorem Valid.readPass_grows {δ : Type} (dst : Destination δ) (size : Nat) {state : Reading δ}
    (valid : state.ring.Valid) (clean : state.ring.Clean) :
    (readPass dst size state).Meets
      (fun next => Grows state.ring next.ring ∧ next.ring.Clean)
      (fun result => result.ring = state.ring) := by
  unfold readPass
  split
  · split
    · rfl
    · rename_i front rest listed
      have inList : front ∈ state.ring.buffers := by
        rw [listed]
        exact List.mem_cons_self
      have member := not_foreign_of_owned (front_mem_owned listed)
      simp only
      split
      · exact ⟨(Grows.refl _).set member _, clean.set (valid.listed_not_pooled inList) _⟩
      · rename_i drained
        have empty := BaseBuffer.unread_eq_nil_of_not_available drained
        have cases : ∀ p ∈ (state.ring.pool.putBuffer (some front)).bufferPool,
            p ∈ state.ring.pool.bufferPool ∨ p = front := by
          intro p pooled
          unfold BufferPool.putBuffer at pooled
          simp only at pooled
          split at pooled
          · exact Or.inl pooled
          · simpa using pooled
        refine ⟨⟨Nat.le_refl _, fun p foreign => ⟨fun still => foreign.2 ?_, rfl⟩⟩, ?_, ?_⟩
        · rw [owned, listed]
          rcases List.mem_append.mp still with inRest | pooled
          · exact List.mem_append_left _ (List.mem_cons_of_mem _ inRest)
          · rcases cases p pooled with old | rfl
            · exact List.mem_append_right _ old
            · exact List.mem_append_left _ List.mem_cons_self
        · intro p pooled
          rcases cases p pooled with old | rfl
          · exact clean.drained p old
          · exact empty
        · change (state.ring.pool.putBuffer (some front)).bufferPool.length ≤ 1000
          unfold BufferPool.putBuffer
          simp only
          split
          · exact clean.limit
          · rename_i more
            rw [List.length_append, List.length_singleton]
            exact Nat.lt_of_not_le more
  · rfl

/-- `read` returns whatever is asked for, and uses no foreign buffer. -/
theorem Valid.read_grows {δ : Type} (dst : Destination δ) {ring : RingBuffer}
    (valid : ring.Valid) (clean : ring.Clean) (toBuf : δ) (size : Nat) :
    ∃ result, ring.read dst toBuf size = some result ∧ result.2.2.Valid ∧
      Grows ring result.2.2 ∧ result.2.2.Clean := by
  rcases Nat.lt_or_ge ring.canReadSize size with tooMuch | within
  · exact ⟨_, read_too_much dst toBuf tooMuch, valid, Grows.refl ring, clean⟩
  · have available : size ≤ ring.unread.length := Nat.le_trans within ring.canReadSize_le
    have start : ReadInv dst size toBuf ring.unread ⟨ring, toBuf, 0⟩ ∧
        Grows ring ring ∧ ring.Clean :=
      ⟨⟨valid, Nat.zero_le _, (dst.memcpy_nil _ _).symm, rfl⟩, Grows.refl ring, clean⟩
    have pass : ∀ state : Reading δ, (ReadInv dst size toBuf ring.unread state ∧
        Grows ring state.ring ∧ state.ring.Clean) →
        (readPass dst size state).Meets
          (fun next => (ReadInv dst size toBuf ring.unread next ∧
            Grows ring next.ring ∧ next.ring.Clean) ∧
              size - next.rdIdx + next.ring.buffers.length <
                size - state.rdIdx + state.ring.buffers.length)
          (fun result => result.ring.Valid ∧ Grows ring result.ring ∧ result.ring.Clean) := by
      rintro state ⟨inv, grows, stillClean⟩
      have both := (readPass_meets dst toBuf available state inv).and
        (inv.valid.readPass_grows dst size stillClean)
      refine both.mono ?_ ?_
      · rintro next ⟨⟨restored, decreased⟩, more, nextClean⟩
        exact ⟨⟨restored, grows.trans more, nextClean⟩, decreased⟩
      · rintro result ⟨⟨restored, _⟩, same⟩
        rw [same]
        exact ⟨inv.valid, grows, stillClean⟩
    obtain ⟨result, returned, post⟩ :=
      run_total (fun state : Reading δ => size - state.rdIdx + state.ring.buffers.length) pass start
        (show size - 0 + ring.buffers.length < size + ring.buffers.length + 1 by omega)
    refine ⟨(result.rdIdx, result.dest, result.ring), ?_, post⟩
    rw [RingBuffer.read, if_neg (Nat.not_lt.mpr within), returned, Option.map_some]

theorem Valid.writePass_grows {state : Writing} (valid : state.ring.Valid)
    (clean : state.ring.Clean) :
    (writePass data state).Meets
      (fun next => Grows state.ring next.ring ∧ next.ring.Clean)
      (fun result => result.ring = state.ring) := by
  have new : Grows state.ring (RingBuffer.appendToNew state data).ring ∧
      (RingBuffer.appendToNew state data).ring.Clean := by
    obtain ⟨grows, allocClean, inside, _⟩ := valid.allocBuff_grows clean
    have fresh := valid.allocBuff.fresh
    have outside : state.ring.allocBuff.1 ∉ state.ring.allocBuff.2.pool.bufferPool :=
      fun pooled => fresh (List.mem_append_right _ pooled)
    refine ⟨(grows.set inside _).link inside, ?_⟩
    have filled := allocClean.set outside (((state.ring.allocBuff.2.heap.cell
      state.ring.allocBuff.1).appendData (data.drop state.writed)).2)
    exact ⟨filled.drained, filled.limit⟩
  unfold writePass
  split
  · split
    · exact new
    · rename_i back last
      split
      · exact new
      · have listed : back ∈ state.ring.buffers := List.mem_of_getLast? last
        have member := not_foreign_of_owned (List.mem_append_left _ listed)
        exact ⟨(Grows.refl _).set member _, clean.set (valid.listed_not_pooled listed) _⟩
  · rfl

/-- The write loop returns and uses no foreign buffer. -/
theorem Valid.writeLoop_grows {ring : RingBuffer} (valid : ring.Valid) (clean : ring.Clean)
    (fits : data.length < 2 ^ 32) :
    ∃ result, ring.writeLoop data = some result ∧ result.ring.Valid ∧
      Grows ring result.ring ∧ result.ring.Clean := by
  have start : WriteInv data ring.unread ⟨ring, 0⟩ ∧ Grows ring ring ∧ ring.Clean :=
    ⟨⟨valid, Nat.zero_le _, by simp⟩, Grows.refl ring, clean⟩
  have pass : ∀ state : Writing, (WriteInv data ring.unread state ∧
      Grows ring state.ring ∧ state.ring.Clean) →
      (writePass data state).Meets
        (fun next => (WriteInv data ring.unread next ∧
          Grows ring next.ring ∧ next.ring.Clean) ∧
            data.length - next.writed < data.length - state.writed)
        (fun result => result.ring.Valid ∧ Grows ring result.ring ∧ result.ring.Clean) := by
    rintro state ⟨inv, grows, stillClean⟩
    have both := (writePass_meets fits state inv).and (inv.valid.writePass_grows stillClean)
    refine both.mono ?_ ?_
    · rintro next ⟨⟨restored, decreased⟩, more, nextClean⟩
      exact ⟨⟨restored, grows.trans more, nextClean⟩, decreased⟩
    · rintro result ⟨_, same⟩
      rw [same]
      exact ⟨inv.valid, grows, stillClean⟩
  exact run_total (fun state => data.length - state.writed) pass start
    (show data.length - 0 < data.length + ring.pool.bufferPool.length + 1 by omega)

/-- `writeString` takes as much of the string as 32 bits can count. -/
theorem Valid.writeString_grows {ring : RingBuffer} (valid : ring.Valid) (clean : ring.Clean)
    (str : List UInt8) :
    ∃ result, ring.writeString str = some result ∧ result.2.Valid ∧ Grows ring result.2 ∧
      result.2.Clean := by
  unfold RingBuffer.writeString
  split
  · exact ⟨_, rfl, valid, Grows.refl ring, clean⟩
  · have fits : (str.take (uint32 str.length)).length < 2 ^ 32 :=
      Nat.lt_of_le_of_lt (List.length_take_le _ _) (uint32_lt _)
    obtain ⟨result, returned, post⟩ := valid.writeLoop_grows clean fits
    rw [returned]
    exact ⟨_, rfl, post⟩

theorem Valid.writeData_grows {ring : RingBuffer} (valid : ring.Valid) (clean : ring.Clean)
    {bytes : Option (List UInt8)} (fits : (bytes.getD []).length < 2 ^ 32) :
    ∃ result, ring.writeData bytes = some result ∧ result.2.Valid ∧ Grows ring result.2 ∧
      result.2.Clean := by
  cases bytes with
  | none => exact ⟨_, rfl, valid, Grows.refl ring, clean⟩
  | some bytes =>
      rw [Option.getD_some] at fits
      by_cases noData : bytes = []
      · exact ⟨_, by rw [RingBuffer.writeData, if_pos noData], valid, Grows.refl ring, clean⟩
      · obtain ⟨result, returned, post⟩ := valid.writeLoop_grows clean fits
        exact ⟨_, by rw [RingBuffer.writeData, if_neg noData, returned]; rfl, post⟩

end Passes

/-! ## Runs -/

/-- A ring buffer and a caller. -/
structure Custody where
  ring : RingBuffer
  /-- The buffers that the caller has obtained and not handed back. -/
  held : List Addr
  /-- History: the offsets of the buffers when `allocBuff` returned them. -/
  issued : List (Nat × Nat)

/-- The calls, and what the caller does with a buffer in between. -/
inductive Act where
  | allocBuff
  | fill (p : Addr) (buf : BaseBuffer)
  | emplaceBack (ptr : BaseBufferPtr)
  | drop (p : Addr)
  | writeString (str : List UInt8)
  | writeData (data : Option (List UInt8))
  | writeMessage (msg : Message)
  | read (size : Nat)

namespace Custody

/-- An empty ring buffer, and no buffer held. -/
def start (heap : Heap) : Custody :=
  ⟨empty heap, [], []⟩

/-- One step. -/
def step : Step Custody Act
  | state, .allocBuff =>
      let (p, ring) := state.ring.allocBuff
      some
        { ring := ring
          held := p :: state.held
          issued := state.issued ++ [((ring.heap.cell p).rdOffset, (ring.heap.cell p).wrOffset)] }
  | state, .fill p buf =>
      some { state with ring := { state.ring with heap := state.ring.heap.set p buf } }
  | state, .emplaceBack ptr =>
      some
        { state with
          ring := state.ring.emplaceBack ptr
          held := match ptr with
            | none => state.held
            | some p => state.held.erase p }
  | state, .drop p => some { state with held := state.held.erase p }
  | state, .writeString str =>
      (state.ring.writeString str).map fun result => { state with ring := result.2 }
  | state, .writeData data =>
      (state.ring.writeData data).map fun result => { state with ring := result.2 }
  | state, .writeMessage msg =>
      (state.ring.writeMessage msg).map fun result => { state with ring := result.2 }
  | state, .read size =>
      (state.ring.read Destination.memory (fun _ => 0) size).map fun result =>
        { state with ring := result.2.2 }

/-- What the caller promises: it fills and hands over only buffers it holds, and keeps
them usable.  A size is a `uint32_t`. -/
def Admissible (state : Custody) : Act → Prop
  | .fill p buf => p ∈ state.held ∧ buf.Usable
  | .emplaceBack ptr => ∀ p ∈ ptr, p ∈ state.held
  | .writeData data => (data.getD []).length < 2 ^ 32
  | _ => True

/-- What is expected of the buffers. -/
structure Safe (state : Custody) : Prop where
  /-- No buffer is twice in the list, the pool and the hands of the caller. -/
  unique : (state.ring.buffers ++ state.ring.pool.bufferPool ++ state.held).Nodup
  /-- No pooled buffer has an unread byte. -/
  drained : ∀ p ∈ state.ring.pool.bufferPool, (state.ring.heap.cell p).unread = []
  /-- `allocBuff` has returned only buffers with both offsets zero. -/
  issued : ∀ offsets ∈ state.issued, offsets = (0, 0)
  limit : state.ring.pool.bufferPool.length ≤ 1000

/-- The ring buffer is valid, and the buffers of the caller are foreign to it. -/
structure Inv (state : Custody) : Prop where
  valid : state.ring.Valid
  clean : state.ring.Clean
  held : state.held.Nodup
  foreign : ∀ p ∈ state.held, state.ring.Foreign p
  usable : ∀ p ∈ state.held, (state.ring.heap.cell p).Usable
  issued : ∀ offsets ∈ state.issued, offsets = (0, 0)

theorem start_inv (heap : Heap) : (start heap).Inv where
  valid := empty_valid heap
  clean := empty_clean heap
  held := List.nodup_nil
  foreign := by simp [start]
  usable := by simp [start]
  issued := by simp [start]

theorem Inv.safe {state : Custody} (inv : state.Inv) : state.Safe where
  unique := by
    apply List.nodup_append.mpr
    refine ⟨inv.valid.nodup, inv.held, ?_⟩
    rintro p owned q holding rfl
    exact (inv.foreign p holding).2 owned
  drained := inv.clean.drained
  issued := inv.issued
  limit := inv.clean.limit

/-- An operation that uses no foreign buffer leaves those of the caller alone. -/
theorem Inv.grow {state : Custody} (inv : state.Inv) {after : RingBuffer} (valid : after.Valid)
    (grows : Grows state.ring after) (clean : after.Clean) :
    Inv { state with ring := after } where
  valid := valid
  clean := clean
  held := inv.held
  foreign := fun p holding => grows.still_foreign (inv.foreign p holding)
  usable := by
    intro p holding
    change (after.heap.cell p).Usable
    rw [(grows.foreign p (inv.foreign p holding)).2]
    exact inv.usable p holding
  issued := inv.issued

theorem Inv.erase {state : Custody} (inv : state.Inv) (p : Addr) :
    Inv { state with held := state.held.erase p } where
  valid := inv.valid
  clean := inv.clean
  held := inv.held.erase p
  foreign := fun q holding => inv.foreign q (List.mem_of_mem_erase holding)
  usable := fun q holding => inv.usable q (List.mem_of_mem_erase holding)
  issued := inv.issued

theorem Inv.allocBuff {state : Custody} (inv : state.Inv) :
    ∃ next, step state .allocBuff = some next ∧ next.Inv := by
  have handed := inv.valid.allocBuff
  obtain ⟨grows, clean, inside, rdOffset, wrOffset⟩ := inv.valid.allocBuff_grows inv.clean
  have grown := inv.grow handed.valid grows clean
  refine ⟨_, rfl, ⟨handed.valid, clean, ?_, ?_, ?_, ?_⟩⟩
  · exact List.nodup_cons.mpr ⟨fun holding => inside (inv.foreign _ holding), inv.held⟩
  · intro p holding
    rcases List.mem_cons.mp holding with rfl | old
    · exact ⟨handed.allocated, handed.fresh⟩
    · exact grown.foreign p old
  · intro p holding
    rcases List.mem_cons.mp holding with rfl | old
    · exact handed.usable
    · exact grown.usable p old
  · intro offsets member
    rcases List.mem_append.mp member with old | last
    · exact inv.issued offsets old
    · rw [List.mem_singleton.mp last]
      exact Prod.ext rdOffset wrOffset

theorem Inv.fill {state : Custody} (inv : state.Inv) {p : Addr} (holding : p ∈ state.held)
    {buf : BaseBuffer} (usable : buf.Usable) :
    Inv { state with ring := { state.ring with heap := state.ring.heap.set p buf } } where
  valid := inv.valid.set p usable
  clean := inv.clean.set (fun pooled => (inv.foreign p holding).2 (List.mem_append_right _ pooled))
    buf
  held := inv.held
  foreign := inv.foreign
  usable := by
    intro q member
    by_cases same : q = p
    · rw [same]
      change ((state.ring.heap.set p buf).cell p).Usable
      rw [Heap.set_same]
      exact usable
    · change ((state.ring.heap.set p buf).cell q).Usable
      rw [Heap.set_other _ same]
      exact inv.usable q member
  issued := inv.issued

theorem Inv.emplaceBack {state : Custody} (inv : state.Inv) {p : Addr}
    (holding : p ∈ state.held) :
    Inv { state with
      ring := state.ring.emplaceBack (some p)
      held := state.held.erase p } := by
  have foreign := inv.foreign p holding
  obtain ⟨valid, _⟩ := inv.valid.emplaceBack foreign.2 foreign.1 (inv.usable p holding)
  have erased := inv.erase p
  have absent : p ∉ state.held.erase p := fun still => (inv.held.mem_erase_iff.mp still).1 rfl
  unfold RingBuffer.emplaceBack at valid ⊢
  simp only at valid ⊢
  split at valid
  · rename_i available
    rw [if_pos available]
    refine ⟨valid, ⟨inv.clean.drained, inv.clean.limit⟩, erased.held, ?_, erased.usable,
      inv.issued⟩
    intro q still
    refine ⟨(erased.foreign q still).1, fun member => ?_⟩
    simp only [owned, List.mem_append, List.mem_singleton] at member
    rcases member with (listed | rfl) | pooled
    · exact (erased.foreign q still).2 (List.mem_append_left _ listed)
    · exact absent still
    · exact (erased.foreign q still).2 (List.mem_append_right _ pooled)
  · rename_i drained
    rw [if_neg drained]
    exact erased

/-- Every admissible step returns and restores the invariant. -/
theorem step_inv {state : Custody} {act : Act} (inv : state.Inv)
    (admissible : state.Admissible act) : ∃ next, step state act = some next ∧ next.Inv := by
  cases act with
  | allocBuff => exact inv.allocBuff
  | fill p buf => exact ⟨_, rfl, inv.fill admissible.1 admissible.2⟩
  | emplaceBack ptr =>
      cases ptr with
      | none => exact ⟨_, rfl, inv⟩
      | some p => exact ⟨_, rfl, inv.emplaceBack (admissible p rfl)⟩
  | drop p => exact ⟨_, rfl, inv.erase p⟩
  | writeString str =>
      obtain ⟨result, returned, valid, grows, clean⟩ := inv.valid.writeString_grows inv.clean str
      exact ⟨_, by rw [step, returned]; rfl, inv.grow valid grows clean⟩
  | writeData data =>
      obtain ⟨result, returned, valid, grows, clean⟩ :=
        inv.valid.writeData_grows inv.clean admissible
      exact ⟨_, by rw [step, returned]; rfl, inv.grow valid grows clean⟩
  | writeMessage msg =>
      obtain ⟨result, returned, valid, grows, clean⟩ :=
        inv.valid.writeString_grows inv.clean msg.bytes
      exact ⟨_, by rw [step, RingBuffer.writeMessage, returned]; rfl, inv.grow valid grows clean⟩
  | read size =>
      obtain ⟨result, returned, valid, grows, clean⟩ :=
        inv.valid.read_grows Destination.memory inv.clean (fun _ => 0) size
      exact ⟨_, by rw [step, returned]; rfl, inv.grow valid grows clean⟩

/-- Every run of a caller that keeps its promises returns, and no buffer is at two places
afterwards. -/
theorem run_ownership (heap : Heap) {acts : List Act}
    (admissible : Along step Admissible (start heap) acts) :
    ∃ final, exec step (start heap) acts = some final ∧ final.Safe := by
  obtain ⟨final, returned, inv⟩ :=
    exec_total (fun _ _ inv ok => step_inv inv ok) (start_inv heap) admissible
  exact ⟨final, returned, inv.safe⟩

/-- A buffer with room for four bytes and two of them unread. -/
def filledBuffer : BaseBuffer :=
  ⟨⟨4, fun offset => UInt8.ofNat offset⟩, 0, 2, 4⟩

/-- A buffer is obtained, filled and handed over.  Two writes fill it up and go on in a second
one, and a read drains it and goes on there.  The next buffer obtained is the drained one. -/
def circulation : List Act :=
  [.allocBuff, .fill 0 filledBuffer, .emplaceBack (some 0), .writeString [7, 8, 9],
    .writeData (some [1]), .read 6, .allocBuff]

/-- The ownership theorem at this run. -/
theorem circulation_safe :
    ∃ final, exec step (start ⟨fun _ => filledBuffer, 0⟩) circulation = some final ∧
      final.held = [0] ∧ final.ring.buffers = [1] ∧ final.Safe := by
  have admissible : Along step Admissible (start ⟨fun _ => filledBuffer, 0⟩) circulation := by
    refine (along_cons_iff rfl _).mpr ⟨trivial, (along_cons_iff rfl _).mpr ⟨⟨by decide, ?_⟩, ?_⟩⟩
    · exact
        { rd_le_wr := by decide
          wr_le_len := by decide
          len_le_allocated := by decide
          len_lt := by decide
          len_pos := by decide }
    refine (along_cons_iff rfl _).mpr ⟨by rintro p ⟨⟩; decide, (along_cons_iff rfl _).mpr ?_⟩
    refine ⟨trivial, (along_cons_iff rfl _).mpr ⟨show 1 < 2 ^ 32 by decide, ?_⟩⟩
    refine (along_cons_iff rfl _).mpr ⟨trivial, (along_cons_iff rfl _).mpr ?_⟩
    exact ⟨trivial, trivial⟩
  obtain ⟨final, returned, safe⟩ := run_ownership _ admissible
  have places : (exec step (start ⟨fun _ => filledBuffer, 0⟩) circulation).map
      (fun state => (state.held, state.ring.buffers)) = some ([0], [1]) := rfl
  rw [returned] at places
  obtain ⟨held, listed⟩ := Prod.mk.inj (Option.some.inj places)
  exact ⟨final, returned, held, listed, safe⟩

end Custody

end Cncpp.Net.RingBuffer
