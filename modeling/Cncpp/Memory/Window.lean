import Mathlib.Data.List.Basic

/-!
# Windows of memory

Memory is a function from offsets to cells.  `window` reads a contiguous range
as a list and `write` overwrites one, which is what `memcpy` and `std::copy`
do.  The laws are those that a copying proof needs: reading back what was
written, reading outside of it, and joining adjacent reads or writes.
-/

namespace Cncpp.Memory

universe u

variable {α : Type u}

/-- The `size` cells of memory that start at `start`. -/
def window (memory : Nat → α) (start size : Nat) : List α :=
  (List.range' start size).map memory

/-- Memory after the cells from `start` on have been overwritten by `cells`. -/
def write (memory : Nat → α) (start : Nat) (cells : List α) : Nat → α :=
  fun offset => if offset < start then memory offset
    else cells.getD (offset - start) (memory offset)

@[simp]
theorem length_window (memory : Nat → α) (start size : Nat) :
    (window memory start size).length = size := by
  simp [window]

/-- Adjacent windows join. -/
theorem window_add (memory : Nat → α) (start first second : Nat) :
    window memory start (first + second) =
      window memory start first ++ window memory (start + first) second := by
  simp [window, ← List.map_append, List.range'_append_1]

theorem take_window (memory : Nat → α) {start size count : Nat} (within : count ≤ size) :
    (window memory start size).take count = window memory start count := by
  obtain ⟨rest, rfl⟩ := Nat.exists_eq_add_of_le within
  rw [window_add, List.take_left' (length_window memory start count)]

theorem drop_window (memory : Nat → α) {start size count : Nat} (within : count ≤ size) :
    (window memory start size).drop count = window memory (start + count) (size - count) := by
  obtain ⟨rest, rfl⟩ := Nat.exists_eq_add_of_le within
  rw [window_add, List.drop_left' (length_window memory start count), Nat.add_sub_cancel_left]

/-- Windows depend only on the cells they show. -/
theorem window_congr {memory other : Nat → α} {start size : Nat}
    (agree : ∀ offset, start ≤ offset → offset < start + size → memory offset = other offset) :
    window memory start size = window other start size := by
  apply List.map_congr_left
  intro offset member
  rw [List.mem_range'_1] at member
  exact agree offset member.1 member.2

@[simp]
theorem write_nil (memory : Nat → α) (start : Nat) : write memory start [] = memory := by
  funext offset
  simp [write]

theorem write_of_lt (memory : Nat → α) {start offset : Nat} (cells : List α)
    (below : offset < start) : write memory start cells offset = memory offset := by
  simp [write, below]

theorem write_of_ge (memory : Nat → α) {start offset : Nat} (cells : List α)
    (above : start + cells.length ≤ offset) :
    write memory start cells offset = memory offset := by
  have notBelow : ¬ offset < start := by omega
  simp [write, notBelow, List.getD, List.getElem?_eq_none (l := cells) (i := offset - start)
    (by omega)]

theorem write_add (memory : Nat → α) (start : Nat) (cells : List α) {index : Nat}
    (inside : index < cells.length) :
    write memory start cells (start + index) = cells[index] := by
  have notBelow : ¬ start + index < start := by omega
  simp [write, notBelow, List.getD, List.getElem?_eq_getElem inside]

/-- Reading back exactly the range that was written. -/
@[simp]
theorem window_write (memory : Nat → α) (start : Nat) (cells : List α) :
    window (write memory start cells) start cells.length = cells := by
  apply List.ext_getElem (by simp)
  intro index _ inside
  simp [window, write_add memory start cells inside]

/-- A write does not show in a window that ends before it. -/
theorem window_write_before (memory : Nat → α) {start size position : Nat} (cells : List α)
    (before : start + size ≤ position) :
    window (write memory position cells) start size = window memory start size := by
  apply window_congr
  intro offset _ inside
  exact write_of_lt memory cells (by omega)

/-- A write does not show in a window that starts after it. -/
theorem window_write_after (memory : Nat → α) {start size position : Nat} (cells : List α)
    (after : position + cells.length ≤ start) :
    window (write memory position cells) start size = window memory start size := by
  apply window_congr
  intro offset inside _
  exact write_of_ge memory cells (by omega)

/-- Writing two adjacent ranges is one write of their concatenation. -/
theorem write_write_append (memory : Nat → α) (start : Nat) (first second : List α) :
    write (write memory start first) (start + first.length) second =
      write memory start (first ++ second) := by
  funext offset
  by_cases below : offset < start
  · have early : offset < start + first.length := by omega
    simp [write, below, early]
  · by_cases early : offset < start + first.length
    · have inside : offset - start < first.length := by omega
      simp [write, below, early, List.getD, List.getElem?_append_left inside]
    · have beyond : first.length ≤ offset - start := by omega
      have shift : offset - start - first.length = offset - (start + first.length) := by omega
      simp [write, below, early, List.getD, List.getElem?_append_right beyond, shift,
        List.getElem?_eq_none (l := first) (i := offset - start) beyond]

/-- Appending to the window that ends where the write starts. -/
theorem window_write_append (memory : Nat → α) (start size : Nat) (cells : List α) :
    window (write memory (start + size) cells) start (size + cells.length) =
      window memory start size ++ cells := by
  rw [window_add, window_write_before memory cells (Nat.le_refl _), window_write]

end Cncpp.Memory
