import Mathlib.Data.List.Basic

/-!
# First-in first-out streams

The abstract purpose of a stream buffer: everything that was ever accepted, in
order, and how much of it has been taken out.  The bound on `taken` is part of
the structure, so that a stream that has delivered more than it accepted cannot
be stated.
-/

namespace Cncpp.Stream

universe u

/-- A stream of accepted items, the first `taken` of which have been delivered. -/
structure Fifo (α : Type u) where
  accepted : List α
  taken : Nat
  taken_le : taken ≤ accepted.length

namespace Fifo

variable {α : Type u}

/-- Nothing accepted, nothing delivered. -/
def empty : Fifo α := ⟨[], 0, Nat.le_refl _⟩

/-- The items that have been delivered. -/
def delivered (stream : Fifo α) : List α :=
  stream.accepted.take stream.taken

/-- The items that wait to be delivered. -/
def pending (stream : Fifo α) : List α :=
  stream.accepted.drop stream.taken

/-- Accept more items. -/
def push (stream : Fifo α) (items : List α) : Fifo α where
  accepted := stream.accepted ++ items
  taken := stream.taken
  taken_le := by
    rw [List.length_append]
    exact Nat.le_add_right_of_le stream.taken_le

/-- Deliver exactly `count` items, or nothing where fewer are pending. -/
def pop (stream : Fifo α) (count : Nat) : List α × Fifo α :=
  if within : stream.taken + count ≤ stream.accepted.length then
    (stream.pending.take count, ⟨stream.accepted, stream.taken + count, within⟩)
  else ([], stream)

/-- What was accepted is what was delivered followed by what is pending. -/
theorem delivered_append_pending (stream : Fifo α) :
    stream.delivered ++ stream.pending = stream.accepted :=
  List.take_append_drop _ _

theorem length_pending (stream : Fifo α) :
    stream.pending.length = stream.accepted.length - stream.taken :=
  List.length_drop

@[simp]
theorem pending_push (stream : Fifo α) (items : List α) :
    (stream.push items).pending = stream.pending ++ items :=
  List.drop_append_of_le_length stream.taken_le

theorem pop_of_le (stream : Fifo α) {count : Nat} (within : count ≤ stream.pending.length) :
    (stream.pop count).1 = stream.pending.take count ∧
      (stream.pop count).2.pending = stream.pending.drop count := by
  rw [length_pending] at within
  have bound := stream.taken_le
  have enough : stream.taken + count ≤ stream.accepted.length := by omega
  rw [pop, dif_pos enough]
  exact ⟨rfl, by rw [pending, pending, List.drop_drop]⟩

theorem pop_of_lt (stream : Fifo α) {count : Nat} (tooMuch : stream.pending.length < count) :
    stream.pop count = ([], stream) := by
  rw [length_pending] at tooMuch
  have notEnough : ¬ stream.taken + count ≤ stream.accepted.length := by omega
  rw [pop, dif_neg notEnough]

/-- Delivery appends to what was delivered before. -/
theorem delivered_pop (stream : Fifo α) (count : Nat) :
    (stream.pop count).2.delivered = stream.delivered ++ (stream.pop count).1 := by
  unfold pop
  split
  · exact List.take_add
  · exact (List.append_nil _).symm

end Fifo

end Cncpp.Stream
