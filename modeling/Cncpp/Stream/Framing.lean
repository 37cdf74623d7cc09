import Mathlib.Data.List.Basic

/-!
# Decoding a stream frame by frame

A frame reader takes one frame from the front of a list when the frame is
complete.  Taking a frame consumes something, and a complete frame is taken in
the same way whatever follows it.  These two laws are all that is needed for
decoding to be independent of the way in which the input is cut.
-/

namespace Cncpp.Stream

universe u v

/-- A reader of single frames. -/
structure FrameReader (β : Type u) (φ : Type v) where
  next : List β → Option (φ × List β)
  shorter : ∀ {input frame rest}, next input = some (frame, rest) → rest.length < input.length
  extend : ∀ {input frame rest}, next input = some (frame, rest) →
    ∀ more, next (input ++ more) = some (frame, rest ++ more)

namespace FrameReader

variable {β : Type u} {φ : Type v} (reader : FrameReader β φ)

/-- All complete frames at the front of the input, and what remains. -/
def decode (input : List β) : List φ × List β :=
  match taken : reader.next input with
  | none => ([], input)
  | some (frame, rest) =>
      have := reader.shorter taken
      (frame :: (decode rest).1, (decode rest).2)
termination_by input.length

theorem decode_of_none {input : List β} (incomplete : reader.next input = none) :
    reader.decode input = ([], input) := by
  rw [decode]
  split
  · rfl
  · rename_i taken
    rw [incomplete] at taken
    contradiction

theorem decode_of_some {input rest : List β} {frame : φ}
    (complete : reader.next input = some (frame, rest)) :
    reader.decode input = (frame :: (reader.decode rest).1, (reader.decode rest).2) := by
  rw [decode]
  split
  · rename_i taken
    rw [complete] at taken
    contradiction
  · rename_i taken
    rw [complete] at taken
    cases taken
    rfl

/-- Decoding stops only where no frame is complete. -/
theorem next_decode_snd (input : List β) : reader.next (reader.decode input).2 = none := by
  induction size : input.length using Nat.strongRecOn generalizing input with
  | _ size ih =>
      cases taken : reader.next input with
      | none =>
          rw [reader.decode_of_none taken]
          exact taken
      | some result =>
          rcases result with ⟨frame, rest⟩
          rw [reader.decode_of_some taken]
          exact ih rest.length (size ▸ reader.shorter taken) rest rfl

/-- Decoding in two portions: the frames of the first, then the frames of what it
left over together with the second. -/
theorem decode_append (first second : List β) :
    reader.decode (first ++ second) =
      ((reader.decode first).1 ++ (reader.decode ((reader.decode first).2 ++ second)).1,
        (reader.decode ((reader.decode first).2 ++ second)).2) := by
  induction size : first.length using Nat.strongRecOn generalizing first with
  | _ size ih =>
      cases taken : reader.next first with
      | none =>
          rw [reader.decode_of_none taken]
          simp
      | some result =>
          rcases result with ⟨frame, rest⟩
          rw [reader.decode_of_some taken, reader.decode_of_some (reader.extend taken second),
            ih rest.length (size ▸ reader.shorter taken) rest rfl]
          simp

/-- Encoded frames in front of an input come back as themselves. -/
theorem decode_flatMap_append {encode : φ → List β} {frames : List φ}
    (encoded : ∀ frame ∈ frames, ∀ rest,
      reader.next (encode frame ++ rest) = some (frame, rest)) (rest : List β) :
    reader.decode (frames.flatMap encode ++ rest) =
      (frames ++ (reader.decode rest).1, (reader.decode rest).2) := by
  induction frames with
  | nil => simp
  | cons frame frames ih =>
      have first := encoded frame List.mem_cons_self (frames.flatMap encode ++ rest)
      rw [List.flatMap_cons, List.append_assoc, reader.decode_of_some first,
        ih fun other member => encoded other (List.mem_cons_of_mem frame member)]
      rfl

end FrameReader

end Cncpp.Stream
