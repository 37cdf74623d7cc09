import Cncpp.Net.Buffer.Lifecycle.Core
import Cncpp.Transition.Run

/-!
# Runs over buffer objects

A run creates, copies, moves, assigns and fills any number of objects; objects
are numbered in the order of their construction.  Every object of a run stays
inside of its allocation exactly when each step satisfies `Keeps`, a condition
on the objects before the step.  The steps that can violate it are the copies
and moves, and `Reset` on an object that was assigned a capacity below the
header.
-/

namespace Cncpp.Net.Lifecycle

open Cncpp.Machine
open Cncpp.Transition

/-- The objects constructed so far. -/
abbrev World := List BufferObject

/-- The operations on buffers.  `cls` is the class whose member is called, and
`memory` what the allocator hands out. -/
inductive Action where
  | construct (cls : BufferClass) (memory : Nat → UInt8) (size : Nat)
  | copyConstruct (cls : BufferClass) (memory : Nat → UInt8) (source : Nat)
  | moveConstruct (cls : BufferClass) (memory : Nat → UInt8) (source : Nat)
  | copyAssign (cls : BufferClass) (memory : Nat → UInt8) (target source : Nat)
  | moveAssign (cls : BufferClass) (target source : Nat)
  | mutate (target : Nat) (mutation : Mutation)

/-- Look up an object that can be passed as an argument of class `cls`. -/
def argument (world : World) (cls : BufferClass) (index : Nat) : Option BufferObject :=
  (world[index]?).filter fun object => cls.accepts object.cls

/-- Replace the buffer of an object. -/
def put (world : World) (index : Nat) (buf : BaseBuffer) : World :=
  world.modify index fun object => { object with buf := buf }

/-- One operation.  It is undefined when an argument does not exist or has the
wrong class, or when a size is out of range. -/
def step : Step World Action
  | world, .construct cls memory size =>
      if cls.SizeFits size then some (world ++ [⟨cls, cls.construct memory size⟩]) else none
  | world, .copyConstruct cls memory source =>
      (argument world cls source).map fun object =>
        world ++ [⟨cls, cls.copyConstruct memory object.buf⟩]
  | world, .moveConstruct cls memory source =>
      (argument world cls source).map fun object =>
        let moved := cls.moveConstruct memory object.buf
        put world source moved.2 ++ [⟨cls, moved.1⟩]
  | world, .copyAssign cls memory target source =>
      (argument world cls target).bind fun left =>
        (argument world cls source).map fun right =>
          put world target (cls.copyAssign memory left.buf right.buf)
  | world, .moveAssign cls target source =>
      (argument world cls target).bind fun left =>
        (argument world cls source).map fun right =>
          let moved := cls.moveAssign left.buf right.buf
          put (put world source moved.2) target moved.1
  | world, .mutate target mutation =>
      (world[target]?).bind fun object =>
        (mutation.apply object).map (put world target)

/-- The condition on a step: every block that is copied to, or left behind by a
move, holds the capacity that is stated for it. -/
def Keeps (world : World) : Action → Prop
  | .construct _ _ _ => True
  | .copyConstruct cls _ source =>
      ∀ object, argument world cls source = some object →
        object.buf.len ≤ max cls.initialAllocation object.buf.wrOffset
  | .moveConstruct cls _ source =>
      ∀ object, argument world cls source = some object →
        object.buf.len ≤ cls.initialAllocation
  | .copyAssign cls _ target source =>
      ∀ left right, argument world cls target = some left →
        argument world cls source = some right →
        right.buf.len ≤ max left.buf.data.allocated right.buf.wrOffset
  | .moveAssign cls target source =>
      ∀ left right, argument world cls target = some left →
        argument world cls source = some right →
        right.buf.len ≤ left.buf.data.allocated
  | .mutate target mutation =>
      ∀ object, world[target]? = some object → mutation.Keeps object

/-- The bytes written by `append_data` and `writeBody` lie inside of the
allocation of the object they are called on. -/
def WritesInside (world : World) : Action → Prop
  | .mutate target mutation =>
      ∀ object, world[target]? = some object → mutation.WritesInside object
  | _ => True

/-- Every object stays inside of its storage. -/
def Sound (world : World) : Prop :=
  ∀ object ∈ world, object.buf.Bounded

/-- Every capacity is a `uint32_t`. -/
def Fits (world : World) : Prop :=
  ∀ object ∈ world, object.buf.len < 2 ^ 32

theorem argument_eq_some {world : World} {cls : BufferClass} {index : Nat}
    {object : BufferObject} (found : argument world cls index = some object) :
    world[index]? = some object := by
  rw [argument, Option.filter_eq_some_iff] at found
  exact found.1

theorem mem_of_lookup {world : World} {index : Nat} {object : BufferObject}
    (found : world[index]? = some object) : object ∈ world :=
  List.mem_of_getElem? found

/-! ## Objects that come and change -/

theorem sound_append_iff (world : World) (object : BufferObject) :
    Sound (world ++ [object]) ↔ Sound world ∧ object.buf.Bounded := by
  simp [Sound, or_imp, forall_and]

theorem fits_append_iff (world : World) (object : BufferObject) :
    Fits (world ++ [object]) ↔ Fits world ∧ object.buf.len < 2 ^ 32 := by
  simp [Fits, or_imp, forall_and]

/-- A property of all objects survives a replacement exactly when the new buffer
has it. -/
theorem forall_put_iff {P : BaseBuffer → Prop} {world : World} {index : Nat}
    {object : BufferObject} (found : world[index]? = some object)
    (all : ∀ other ∈ world, P other.buf) (buf : BaseBuffer) :
    (∀ other ∈ put world index buf, P other.buf) ↔ P buf := by
  have replaced : (put world index buf)[index]? = some { object with buf := buf } := by
    simp [put, found]
  constructor
  · intro kept
    exact kept _ (List.mem_of_getElem? replaced)
  · intro holds other member
    rcases List.getElem?_of_mem member with ⟨position, atPosition⟩
    rw [put, List.getElem?_modify] at atPosition
    by_cases same : index = position
    · subst same
      rw [found] at atPosition
      simp at atPosition
      rw [← atPosition]
      exact holds
    · cases old : world[position]? with
      | none => simp [old, same] at atPosition
      | some kept =>
          simp [old, same] at atPosition
          rw [← atPosition]
          exact all kept (mem_of_lookup old)

/-- Replacing two buffers, the second possibly in the same place. -/
theorem forall_put_put_iff {P : BaseBuffer → Prop} {world : World} {first second : Nat}
    {left right : BufferObject} (foundFirst : world[first]? = some left)
    (foundSecond : world[second]? = some right) (all : ∀ other ∈ world, P other.buf)
    (firstBuf : BaseBuffer) {secondBuf : BaseBuffer} (secondHolds : P secondBuf) :
    (∀ other ∈ put (put world first firstBuf) second secondBuf, P other.buf) ↔
      first = second ∨ P firstBuf := by
  by_cases same : first = second
  · subst same
    have collapse : put (put world first firstBuf) first secondBuf =
        put world first secondBuf := by
      simp [put, List.modify_modify_eq, Function.comp_def]
    rw [collapse, forall_put_iff foundFirst all]
    simp [secondHolds]
  · have kept : (put world first firstBuf)[second]? = some right := by
      rw [put, List.getElem?_modify, foundSecond]
      simp [same]
    simp only [same, false_or]
    constructor
    · intro replaced
      have middle : (put (put world first firstBuf) second secondBuf)[first]? =
          some { left with buf := firstBuf } := by
        rw [put, List.getElem?_modify, put, List.getElem?_modify, foundFirst]
        simp [Ne.symm same]
      exact replaced _ (List.mem_of_getElem? middle)
    · intro firstHolds
      exact (forall_put_iff kept ((forall_put_iff foundFirst all firstBuf).mpr firstHolds)
        secondBuf).mpr secondHolds

theorem sound_put_iff {world : World} {index : Nat} {object : BufferObject}
    (found : world[index]? = some object) (sound : Sound world) (buf : BaseBuffer) :
    Sound (put world index buf) ↔ buf.Bounded :=
  forall_put_iff (P := BaseBuffer.Bounded) found sound buf

theorem fits_put_iff {world : World} {index : Nat} {object : BufferObject}
    (found : world[index]? = some object) (fits : Fits world) (buf : BaseBuffer) :
    Fits (put world index buf) ↔ buf.len < 2 ^ 32 :=
  forall_put_iff (P := fun buf => buf.len < 2 ^ 32) found fits buf

/-- A move assignment leaves a sound world exactly when the block of the target holds the
capacity of the source.  An object that is moved to itself holds its own. -/
theorem sound_moveFrom_iff {world : World} {target source : Nat} {left right : BufferObject}
    (foundLeft : world[target]? = some left) (foundRight : world[source]? = some right)
    (sound : Sound world) :
    Sound (put (put world source (left.buf.moveFrom right.buf).2) target
        (left.buf.moveFrom right.buf).1) ↔
      right.buf.len ≤ left.buf.data.allocated := by
  have rightBounded := sound right (mem_of_lookup foundRight)
  have replaced := forall_put_put_iff (P := BaseBuffer.Bounded) foundRight foundLeft sound
    (left.buf.moveFrom right.buf).2 rightBounded
  rw [BaseBuffer.moveFrom_snd_bounded_iff left.buf rightBounded] at replaced
  refine replaced.trans ⟨?_, Or.inr⟩
  rintro (same | room)
  · subst same
    rw [foundRight, Option.some.injEq] at foundLeft
    subst foundLeft
    exact rightBounded.len_le_allocated
  · exact room

/-! ## One step -/

theorem wellFormed_of_mem {world : World} (sound : Sound world) (fits : Fits world)
    {object : BufferObject} (member : object ∈ world) : object.buf.WellFormed :=
  ⟨sound object member, fits object member⟩

/-- One step from a sound world: the capacities stay in range, and the step
leads to a sound world exactly when it satisfies `Keeps`. -/
theorem step_sound_iff {world next : World} {action : Action} (fits : Fits world)
    (sound : Sound world) (stepped : step world action = some next) :
    Fits next ∧ (Sound next ↔ Keeps world action) := by
  cases action with
  | construct cls memory size =>
      simp only [step, Option.ite_none_right_eq_some, Option.some.injEq] at stepped
      rcases stepped with ⟨sizeFits, rfl⟩
      have created := cls.construct_wellFormed memory sizeFits
      rw [fits_append_iff, sound_append_iff]
      exact ⟨⟨fits, created.len_lt⟩, iff_of_true ⟨sound, created.toBounded⟩ trivial⟩
  | copyConstruct cls memory source =>
      simp only [step, Option.map_eq_some_iff] at stepped
      rcases stepped with ⟨object, found, rfl⟩
      have member := mem_of_lookup (argument_eq_some found)
      have len : (cls.copyConstruct memory object.buf).len = object.buf.len := by
        cases cls <;> rfl
      rw [fits_append_iff, sound_append_iff,
        cls.copyConstruct_bounded_iff memory (sound object member), len]
      refine ⟨⟨fits, fits object member⟩, ?_⟩
      simp [Keeps, found, sound]
  | moveConstruct cls memory source =>
      simp only [step, Option.map_eq_some_iff] at stepped
      rcases stepped with ⟨object, found, rfl⟩
      have located := argument_eq_some found
      have member := mem_of_lookup located
      rw [fits_append_iff, sound_append_iff, cls.moveConstruct_fst, fits_put_iff located fits,
        sound_put_iff located sound, cls.moveConstruct_snd_len,
        cls.moveConstruct_snd_bounded_iff memory (sound object member)]
      refine ⟨⟨fits object member, fits object member⟩, ?_⟩
      simp [Keeps, found, sound object member]
  | copyAssign cls memory target source =>
      simp only [step, Option.bind_eq_some_iff, Option.map_eq_some_iff] at stepped
      rcases stepped with ⟨left, foundLeft, right, foundRight, rfl⟩
      have located := argument_eq_some foundLeft
      have member := mem_of_lookup (argument_eq_some foundRight)
      rw [fits_put_iff located fits, sound_put_iff located sound, cls.copyAssign_eq,
        BaseBuffer.copyFrom_bounded_iff memory left.buf (sound right member)]
      refine ⟨fits right member, ?_⟩
      simp [Keeps, foundLeft, foundRight]
  | moveAssign cls target source =>
      simp only [step, Option.bind_eq_some_iff, Option.map_eq_some_iff] at stepped
      rcases stepped with ⟨left, foundLeft, right, foundRight, rfl⟩
      have locatedLeft := argument_eq_some foundLeft
      have locatedRight := argument_eq_some foundRight
      have member := mem_of_lookup locatedRight
      rw [cls.moveAssign_eq, sound_moveFrom_iff locatedLeft locatedRight sound]
      constructor
      · exact (forall_put_put_iff (P := fun buf => buf.len < 2 ^ 32) locatedRight locatedLeft
          fits _ (fits right member)).mpr (Or.inr (fits right member))
      · simp [Keeps, foundLeft, foundRight]
  | mutate target mutation =>
      simp only [step, Option.bind_eq_some_iff, Option.map_eq_some_iff] at stepped
      rcases stepped with ⟨object, located, result, applied, rfl⟩
      have member := mem_of_lookup located
      rcases Mutation.apply_bounded_iff (wellFormed_of_mem sound fits member) applied with
        ⟨resultFits, resultIff⟩
      rw [fits_put_iff located fits, sound_put_iff located sound, resultIff]
      refine ⟨resultFits, ?_⟩
      simp [Keeps, located]

/-- A sound world performs every write inside of the allocations. -/
theorem step_writesInside {world next : World} {action : Action} (fits : Fits world)
    (sound : Sound world) (stepped : step world action = some next) :
    WritesInside world action := by
  cases action with
  | mutate target mutation =>
      simp only [step, Option.bind_eq_some_iff, Option.map_eq_some_iff] at stepped
      rcases stepped with ⟨object, located, result, applied, rfl⟩
      intro other found
      rw [located, Option.some.injEq] at found
      subst found
      exact Mutation.writesInside_of_wellFormed
        (wellFormed_of_mem sound fits (mem_of_lookup located)) applied
  | construct cls memory size => trivial
  | copyConstruct cls memory source => trivial
  | moveConstruct cls memory source => trivial
  | copyAssign cls memory target source => trivial
  | moveAssign cls target source => trivial

/-! ## Whole runs -/

/-- In every run, all objects stay bounded and every write lands inside of the
allocation of its object exactly when each copy, move and `Reset` finds a block
that holds the stated capacity. -/
theorem run_sound_iff_keeps {actions : List Action} {final : World}
    (run : exec step [] actions = some final) :
    (Throughout step Sound [] actions ∧ Along step WritesInside [] actions) ↔
      Along step Keeps [] actions := by
  have noFits : Fits [] := by simp [Fits]
  have noSound : Sound [] := by simp [Sound]
  have exactly : Throughout step Sound [] actions ↔ Along step Keeps [] actions :=
    throughout_iff_along (fun _ _ _ fits sound stepped => step_sound_iff fits sound stepped)
      noFits noSound run
  constructor
  · rintro ⟨sound, _⟩
    exact exactly.mp sound
  · intro keeps
    refine ⟨exactly.mpr keeps, ?_⟩
    exact along_of_throughout
      (fun _ _ _ fits sound stepped =>
        ⟨(step_sound_iff fits sound stepped).1, step_writesInside fits sound stepped⟩)
      noFits (exactly.mpr keeps) run

/-- A buffer that is filled up before it is copied. -/
def fullCopy : List Action :=
  [.construct .baseBuffer (fun _ => 0) 2, .mutate 0 (.appendData [1, 2]),
    .copyConstruct .baseBuffer (fun _ => 0) 0]

/-- Copying a full buffer satisfies the condition, so its run is sound. -/
theorem fullCopy_sound :
    ∃ final, exec step [] fullCopy = some final ∧
      Throughout step Sound [] fullCopy ∧ Along step WritesInside [] fullCopy := by
  have run : ∃ final, exec step [] fullCopy = some final := ⟨_, rfl⟩
  obtain ⟨final, returned⟩ := run
  refine ⟨final, returned, (run_sound_iff_keeps returned).mpr ?_⟩
  refine (along_cons_iff rfl _).mpr ⟨trivial, ?_⟩
  refine (along_cons_iff rfl _).mpr ⟨fun _ _ => trivial, ?_⟩
  refine (along_cons_iff rfl _).mpr ⟨?_, trivial⟩
  intro object found
  cases found
  decide

/-- A buffer with room left that is copied. -/
def partialCopy : List Action :=
  [.construct .baseBuffer (fun _ => 0) 2, .copyConstruct .baseBuffer (fun _ => 0) 0]

/-- The copy states two bytes and has allocated none, and appending one byte to it
writes outside of its allocation. -/
theorem partialCopy_not_sound :
    ∃ final, exec step [] partialCopy = some final ∧
      ¬ Sound final ∧ ¬ WritesInside final (.mutate 1 (.appendData [1])) := by
  refine ⟨_, rfl, ?_, ?_⟩
  · intro sound
    have copied := sound _ (List.mem_of_getElem? (i := 1) rfl)
    exact absurd copied.len_le_allocated (by decide)
  · intro inside
    exact absurd (inside _ rfl) (by unfold Mutation.WritesInside Mutation.AppendInside; decide)

end Cncpp.Net.Lifecycle
