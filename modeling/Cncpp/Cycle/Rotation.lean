import Cncpp.Loop.Bounded
import Mathlib.Data.List.Nodup
import Mathlib.Logic.Function.Iterate

/-!
# Rotation through a table

Choices rotate through `n` members when any `n` of them in a row are different.  A counter
that goes up by one with every choice, reduced modulo `n`, rotates.  If the counter itself
starts again at a modulus, then the rotation breaks there, unless `n` divides the modulus.
-/

namespace Cncpp.Cycle

open Cncpp.Loop

universe u

variable {α : Type u}

/-- Any `n` choices in a row are pairwise different. -/
def Rotates (n : Nat) (chosen : List α) : Prop :=
  ∀ start, start + n ≤ chosen.length → ((chosen.drop start).take n).Nodup

/-- Fewer than `n` choices rotate. -/
theorem rotates_of_length_lt {n : Nat} {chosen : List α} (short : chosen.length < n) :
    Rotates n chosen :=
  fun start within => absurd within (by omega)

/-- The choices `start`, `start + 1` and so on of a map over consecutive numbers. -/
theorem window_map_range' (choose : Nat → α) {n first count start : Nat}
    (within : start + n ≤ count) :
    ((((List.range' first count).map choose).drop start).take n) =
      (List.range' (first + start) n).map choose := by
  rw [← List.map_drop, ← List.map_take, List.drop_range', Nat.mul_one,
    List.take_range'_of_length_ge (by omega)]

/-- Choices made for consecutive numbers rotate exactly when there are fewer than `n`, or
numbers at a distance less than `n` have different choices. -/
theorem rotates_map_range'_iff (choose : Nat → α) (n first count : Nat) :
    Rotates n ((List.range' first count).map choose) ↔
      count < n ∨ ∀ i j, first ≤ i → i < j → j < first + count → j < i + n →
        choose i ≠ choose j := by
  constructor
  · intro rotates
    by_cases short : count < n
    · exact Or.inl short
    · refine Or.inr fun i j from_first before within near same => ?_
      -- The last window that begins at `i` or before.
      obtain ⟨start, inside, low, high⟩ : ∃ start, start + n ≤ count ∧ first + start ≤ i ∧
          j < first + start + n := by
        by_cases late : i + n ≤ first + count
        · exact ⟨i - first, by omega, by omega, by omega⟩
        · exact ⟨count - n, by omega, by omega, by omega⟩
      have window := rotates start (by simpa using inside)
      rw [window_map_range' choose inside] at window
      have equal := List.inj_on_of_nodup_map window (List.mem_range'_1.mpr ⟨low, by omega⟩)
        (List.mem_range'_1.mpr ⟨by omega, high⟩) same
      omega
  · rintro (short | different)
    · exact rotates_of_length_lt (by simpa using short)
    · intro start inside
      rw [List.length_map, List.length_range'] at inside
      rw [window_map_range' choose inside, List.nodup_map_iff_inj_on List.nodup_range']
      intro i iMember j jMember same
      obtain ⟨iLow, iHigh⟩ := List.mem_range'_1.mp iMember
      obtain ⟨jLow, jHigh⟩ := List.mem_range'_1.mp jMember
      rcases Nat.lt_trichotomy i j with before | equal | after
      · exact absurd same (different i j (by omega) before (by omega) (by omega))
      · exact equal
      · exact absurd same.symm (different j i (by omega) after (by omega) (by omega))

/-! ## Residues -/

/-- Numbers at a distance less than `n` have different residues. -/
theorem residue_ne {n i j : Nat} (before : i < j) (near : j < i + n) : i % n ≠ j % n := by
  intro same
  have multiple := Nat.sub_mod_eq_zero_of_mod_eq same.symm
  rw [Nat.mod_eq_of_lt (by omega)] at multiple
  omega

/-- In front of the modulus, a residue comes back after as many steps as the modulus leaves
over. -/
theorem residue_repeats {n modulus i : Nat} (late : modulus - modulus % n ≤ i)
    (below : i < modulus) :
    (i + modulus % n) % modulus % n = i % modulus % n := by
  have left : modulus % n ≤ modulus := Nat.mod_le modulus n
  obtain ⟨rest, rfl⟩ := Nat.exists_eq_add_of_le late
  have again : modulus - modulus % n + rest + modulus % n = modulus + rest := by omega
  have whole : modulus - modulus % n = n * (modulus / n) := by
    have division := Nat.div_add_mod modulus n
    omega
  have behind : rest % modulus = rest := Nat.mod_eq_of_lt (by omega)
  rw [again, Nat.add_mod_left, behind, Nat.mod_eq_of_lt below, whole, Nat.mul_add_mod]

/-- A long enough row of numbers across the modulus has two of the same residue too close to
each other: the first of its numbers in the remainder of the modulus is repeated. -/
theorem exists_residue_repeats {n modulus first count : Nat} (positive : 0 < n)
    (below : first < modulus) (notDivides : ¬n ∣ modulus) (long : n ≤ count)
    (wraps : modulus < first + count) :
    ∃ i j, first ≤ i ∧ i < j ∧ j < first + count ∧ j < i + n ∧
      i % modulus % n = j % modulus % n := by
  have remainder : modulus % n ≠ 0 := fun zero => notDivides (Nat.dvd_of_mod_eq_zero zero)
  have small : modulus % n < n := Nat.mod_lt modulus positive
  by_cases late : modulus - modulus % n ≤ first
  · exact ⟨first, first + modulus % n, Nat.le_refl _, by omega, by omega, by omega,
      (residue_repeats late below).symm⟩
  · have last : modulus - modulus % n < modulus := by omega
    exact ⟨modulus - modulus % n, modulus - modulus % n + modulus % n, by omega, by omega,
      by omega, by omega, (residue_repeats (Nat.le_refl _) last).symm⟩

/-- A counter that starts again at a modulus rotates through `n` members exactly when `n`
divides the modulus, there are fewer than `n` choices, or the counter does not start
again. -/
theorem rotates_residues_iff {n modulus first : Nat} (positive : 0 < n)
    (below : first < modulus) (count : Nat) :
    Rotates n ((List.range' first count).map fun i => i % modulus % n) ↔
      n ∣ modulus ∨ count < n ∨ first + count ≤ modulus := by
  rw [rotates_map_range'_iff]
  constructor
  · rintro (short | different)
    · exact Or.inr (Or.inl short)
    · by_contra unmet
      obtain ⟨notDivides, long, wraps⟩ : ¬n ∣ modulus ∧ ¬count < n ∧
          ¬first + count ≤ modulus := by
        rw [not_or, not_or] at unmet
        exact unmet
      obtain ⟨i, j, low, before, high, near, same⟩ := exists_residue_repeats positive below
        notDivides (Nat.le_of_not_lt long) (Nat.lt_of_not_le wraps)
      exact different i j low before high near same
  · rintro (divides | short | within)
    · refine Or.inr fun i j _ before _ near => ?_
      rw [Nat.mod_mod_of_dvd _ divides, Nat.mod_mod_of_dvd _ divides]
      exact residue_ne before near
    · exact Or.inl short
    · refine Or.inr fun i j _ before inside near => ?_
      rw [Nat.mod_eq_of_lt (a := i) (by omega), Nat.mod_eq_of_lt (a := j) (by omega)]
      exact residue_ne before near

/-! ## Looking up a table -/

/-- An index with the entry of the table there, if it is an index of the table. -/
structure Selection (α : Type u) where
  index : Nat
  selected : Option α
  deriving DecidableEq

/-- Look up a table. -/
def select (table : List α) (index : Nat) : Selection α :=
  ⟨index, table[index]?⟩

/-- Every index is below `size`, and the selected entries rotate. -/
structure RoundRobin (n size : Nat) (selections : List (Selection α)) : Prop where
  inside : ∀ selection ∈ selections, selection.index < size
  rotates : Rotates n (selections.map Selection.selected)

/-- The entries of a table without duplicates rotate exactly as their indices do. -/
theorem rotates_select_iff {table : List α} (nodup : table.Nodup) (choose : Nat → Nat)
    {n first count : Nat} (inside : ∀ i, choose i < table.length) :
    Rotates n (((List.range' first count).map fun i => select table (choose i)).map
        Selection.selected) ↔
      Rotates n ((List.range' first count).map choose) := by
  have same (i j : Nat) : table[choose i]? = table[choose j]? ↔ choose i = choose j :=
    List.getElem?_inj (inside i) nodup
  rw [List.map_map, rotates_map_range'_iff, rotates_map_range'_iff]
  simp only [Function.comp_apply, select, ne_eq, same]

/-- A counter that starts again at a modulus goes round a table of `n` entries exactly when
it rotates. -/
theorem roundRobin_residues_iff {table : List α} (nodup : table.Nodup) {modulus first : Nat}
    (nonempty : 0 < table.length) (below : first < modulus) (count : Nat) :
    RoundRobin table.length table.length
        ((List.range' first count).map fun i => select table (i % modulus % table.length)) ↔
      table.length ∣ modulus ∨ count < table.length ∨ first + count ≤ modulus := by
  have inside (i : Nat) : i % modulus % table.length < table.length := Nat.mod_lt _ nonempty
  rw [← rotates_residues_iff nonempty below count,
    ← rotates_select_iff nodup (fun i => i % modulus % table.length) inside]
  constructor
  · exact RoundRobin.rotates
  · intro rotates
    refine ⟨fun selection member => ?_, rotates⟩
    obtain ⟨i, _, rfl⟩ := List.mem_map.mp member
    exact inside i

/-! ## Tables of new objects -/

/-- Append a new object, which is known by the number of objects before it. -/
def extend (table : List Nat) : List Nat :=
  table ++ [table.length]

theorem iterate_extend (count : Nat) : extend^[count] [] = List.range count := by
  induction count with
  | zero => rfl
  | succ count ih =>
      rw [Function.iterate_succ_apply', ih, extend, List.length_range, List.range_succ]

/-- A loop that counts to `size` and appends a new object in each pass fills the table. -/
theorem run_extend {increment : Nat → Nat} {size : Nat}
    (reaches : ∀ index < size, increment index = index + 1) :
    run (countedPass increment size extend) (size + 1) (0, []) = some (List.range size) := by
  rw [run_counted reaches, iterate_extend]

end Cncpp.Cycle
