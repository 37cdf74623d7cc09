import Mathlib.Algebra.GroupWithZero.Nat
import Mathlib.Data.List.Basic

/-!
# The civil calendar

Days are numbered from 1 January 1970.  The number of a day is split into cycles of 400
years, years and months by looking up in which of the consecutive intervals it lies.  That
the dates are those of the civil calendar is `civil_add_one`: every day has the date after
that of the day before.
-/

namespace Cncpp.Calendar

/-! ## Consecutive intervals -/

/-- The interval in which an offset lies, and the offset within it. -/
def locate : List Nat → Nat → Nat × Nat
  | [], offset => (0, offset)
  | length :: lengths, offset =>
      if offset < length then (0, offset)
      else
        let (index, within) := locate lengths (offset - length)
        (index + 1, within)

/-- Offsets behind the first intervals lie in the next one. -/
theorem locate_append (before after : List Nat) {length within : Nat} (inside : within < length) :
    locate (before ++ length :: after) (before.sum + within) = (before.length, within) := by
  induction before with
  | nil => simp [locate, inside]
  | cons first before ih =>
      have behind : ¬first + before.sum + within < first := by omega
      have rest : first + before.sum + within - first = before.sum + within := by omega
      rw [List.cons_append, List.sum_cons, locate, if_neg behind, rest, ih, List.length_cons]

/-- Every offset below the total length lies in an interval. -/
theorem exists_interval {lengths : List Nat} {offset : Nat} (below : offset < lengths.sum) :
    ∃ before length after within, lengths = before ++ length :: after ∧
      offset = before.sum + within ∧ within < length := by
  induction lengths generalizing offset with
  | nil => exact absurd below (Nat.not_lt_zero offset)
  | cons first lengths ih =>
      rw [List.sum_cons] at below
      by_cases here : offset < first
      · exact ⟨[], first, lengths, offset, rfl, by simp, here⟩
      · obtain ⟨before, length, after, within, split, offsetEq, inside⟩ :=
          @ih (offset - first) (by omega)
        refine ⟨first :: before, length, after, within, by rw [split, List.cons_append], ?_, inside⟩
        rw [List.sum_cons]
        omega

/-- The next offset lies in the same interval, or at the beginning of the next one. -/
theorem locate_add_one {lengths : List Nat} {offset : Nat}
    (positive : ∀ length ∈ lengths, 0 < length) (below : offset + 1 < lengths.sum) :
    ∃ index within length, locate lengths offset = (index, within) ∧
      lengths[index]? = some length ∧
      ((within + 1 < length ∧ locate lengths (offset + 1) = (index, within + 1)) ∨
        (within + 1 = length ∧ index + 1 < lengths.length ∧
          locate lengths (offset + 1) = (index + 1, 0))) := by
  obtain ⟨before, length, after, within, rfl, rfl, inside⟩ :=
    exists_interval (Nat.lt_of_succ_lt below)
  refine ⟨before.length, within, length, locate_append before after inside, by simp, ?_⟩
  by_cases more : within + 1 < length
  · exact Or.inl ⟨more, locate_append before after more⟩
  · have full : within + 1 = length := by omega
    cases after with
    | nil =>
        rw [List.sum_append, List.sum_singleton] at below
        omega
    | cons next after =>
        have start : 0 < next := positive next (by simp)
        have second := locate_append (before ++ [length]) after start
        have total : (before ++ [length]).sum + 0 = before.sum + within + 1 := by
          rw [List.sum_append, List.sum_singleton]
          omega
        rw [total, List.append_assoc, List.singleton_append, List.length_append,
          List.length_singleton] at second
        exact Or.inr ⟨full, by simp, second⟩

/-! ## Dates -/

/-- A date, with months and days from 1. -/
@[ext]
structure Date where
  year : Int
  month : Nat
  day : Nat
  deriving DecidableEq

def LeapYear (year : Int) : Prop :=
  year % 4 = 0 ∧ (year % 100 ≠ 0 ∨ year % 400 = 0)

instance : DecidablePred LeapYear := fun year =>
  inferInstanceAs (Decidable (year % 4 = 0 ∧ (year % 100 ≠ 0 ∨ year % 400 = 0)))

/-- The lengths of the months. -/
def monthLengths (year : Int) : List Nat :=
  [31, if LeapYear year then 29 else 28, 31, 30, 31, 30, 31, 31, 30, 31, 30, 31]

/-- The length of a month. -/
def monthLength (year : Int) (month : Nat) : Nat :=
  ((monthLengths year)[month - 1]?).getD 0

def yearLength (year : Int) : Nat :=
  (monthLengths year).sum

/-- The date of the next day. -/
def Date.next (date : Date) : Date :=
  if date.day < monthLength date.year date.month then { date with day := date.day + 1 }
  else if date.month < 12 then ⟨date.year, date.month + 1, 1⟩
  else ⟨date.year + 1, 1, 1⟩

/-- A day of a year, counted from 0. -/
def inYear (year : Int) (dayOfYear : Nat) : Date :=
  let (month, day) := locate (monthLengths year) dayOfYear
  ⟨year, month + 1, day + 1⟩

/-- The lengths of 400 years, from 1970 on. -/
def cycle : List Nat :=
  (List.range 400).map fun index : Nat => yearLength (1970 + index)

/-- A day of the 400 years that begin with `first`, counted from 0. -/
def inCycle (first : Int) (dayOfCycle : Nat) : Date :=
  let (index, dayOfYear) := locate cycle dayOfCycle
  inYear (first + index) dayOfYear

/-- The date of a day, counted from 1 January 1970. -/
def civil (day : Int) : Date :=
  inCycle (1970 + 400 * (day / 146097)) (day % 146097).toNat

/-! ## Consecutive days -/

theorem monthLengths_pos (year : Int) : ∀ length ∈ monthLengths year, 0 < length := by
  by_cases leap : LeapYear year
  · simp [monthLengths, leap]
  · simp [monthLengths, leap]

theorem yearLength_eq (year : Int) : yearLength year = if LeapYear year then 366 else 365 := by
  by_cases leap : LeapYear year
  · simp [yearLength, monthLengths, leap]
  · simp [yearLength, monthLengths, leap]

theorem inYear_zero (year : Int) : inYear year 0 = ⟨year, 1, 1⟩ := by
  simp [inYear, monthLengths, locate]

theorem inYear_add_one {year : Int} {dayOfYear : Nat} (below : dayOfYear + 1 < yearLength year) :
    inYear year (dayOfYear + 1) = (inYear year dayOfYear).next := by
  obtain ⟨month, day, length, here, lengthEq, same | following⟩ :=
    locate_add_one (monthLengths_pos year) below
  · obtain ⟨more, there⟩ := same
    simp [inYear, here, there, Date.next, monthLength, lengthEq, more]
  · obtain ⟨full, inside, there⟩ := following
    have size : (monthLengths year).length = 12 := rfl
    have notLast : month + 1 < 12 := by omega
    simp [inYear, here, there, Date.next, monthLength, lengthEq, full, notLast]

theorem inYear_last {year : Int} {dayOfYear : Nat} (last : dayOfYear + 1 = yearLength year) :
    (inYear year dayOfYear).next = ⟨year + 1, 1, 1⟩ := by
  rw [yearLength_eq] at last
  by_cases leap : LeapYear year
  · rw [if_pos leap] at last
    obtain rfl : dayOfYear = 365 := by omega
    simp [inYear, locate, monthLengths, leap, Date.next, monthLength]
  · rw [if_neg leap] at last
    obtain rfl : dayOfYear = 364 := by omega
    simp [inYear, locate, monthLengths, leap, Date.next, monthLength]

/-- Years that are 400 years apart have the same length. -/
theorem yearLength_cycle (era index : Int) :
    yearLength (1970 + 400 * era + index) = yearLength (1970 + index) := by
  have leap : LeapYear (1970 + 400 * era + index) ↔ LeapYear (1970 + index) := by
    unfold LeapYear
    omega
  rw [yearLength_eq, yearLength_eq]
  simp only [leap]

theorem cycle_pos : ∀ length ∈ cycle, 0 < length := by
  intro length member
  obtain ⟨index, _, rfl⟩ := List.mem_map.mp member
  rw [yearLength_eq]
  split <;> decide

theorem sum_cycle : cycle.sum = 146097 := by
  decide +kernel

/-- An entry of the cycle is the length of its year in every cycle. -/
theorem yearLength_of_cycle {index length : Nat} (entry : cycle[index]? = some length)
    (era : Int) : yearLength (1970 + 400 * era + index) = length := by
  rw [yearLength_cycle]
  rw [cycle, List.getElem?_map] at entry
  obtain ⟨same, inRange, lengthEq⟩ := Option.map_eq_some_iff.mp entry
  obtain ⟨_, rfl⟩ := List.getElem?_eq_some_iff.mp inRange
  rw [← lengthEq, List.getElem_range]

theorem inCycle_add_one {dayOfCycle : Nat} (era : Int) (below : dayOfCycle + 1 < 146097) :
    inCycle (1970 + 400 * era) (dayOfCycle + 1) =
      (inCycle (1970 + 400 * era) dayOfCycle).next := by
  rw [← sum_cycle] at below
  obtain ⟨index, dayOfYear, length, here, entry, same | following⟩ :=
    locate_add_one cycle_pos below
  · obtain ⟨more, there⟩ := same
    rw [← yearLength_of_cycle entry era] at more
    simp only [inCycle, here, there, inYear_add_one more]
  · obtain ⟨full, _, there⟩ := following
    rw [← yearLength_of_cycle entry era] at full
    simp only [inCycle, here, there, inYear_last full, inYear_zero]
    congr 1
    omega

theorem inCycle_zero (first : Int) : inCycle first 0 = ⟨first, 1, 1⟩ := by
  have start : locate cycle 0 = (0, 0) := by decide +kernel
  simp [inCycle, start, inYear_zero]

theorem inCycle_last (era : Int) :
    (inCycle (1970 + 400 * era) 146096).next = ⟨1970 + 400 * (era + 1), 1, 1⟩ := by
  have place : locate cycle 146096 = (399, 364) := by decide +kernel
  have notLeap : ¬LeapYear (1970 + 400 * era + (399 : Nat)) := by
    unfold LeapYear
    omega
  have full : 364 + 1 = yearLength (1970 + 400 * era + (399 : Nat)) := by
    rw [yearLength_eq, if_neg notLeap]
  have after : 1970 + 400 * era + (399 : Nat) + 1 = 1970 + 400 * (era + 1) := by omega
  rw [inCycle, place]
  exact (inYear_last full).trans (by rw [after])

theorem civil_zero : civil 0 = ⟨1970, 1, 1⟩ :=
  inCycle_zero 1970

/-- Every day has the date after that of the day before. -/
theorem civil_add_one (day : Int) : civil (day + 1) = (civil day).next := by
  by_cases below : (day % 146097).toNat + 1 < 146097
  · have era : (day + 1) / 146097 = day / 146097 := by omega
    have dayOfCycle : ((day + 1) % 146097).toNat = (day % 146097).toNat + 1 := by omega
    rw [civil, era, dayOfCycle, inCycle_add_one _ below, civil]
  · have era : (day + 1) / 146097 = day / 146097 + 1 := by omega
    have first : ((day + 1) % 146097).toNat = 0 := by omega
    have last : (day % 146097).toNat = 146096 := by omega
    rw [civil, era, first, inCycle_zero, civil, last, inCycle_last]

/-! ## Different days have different dates -/

/-- The order of dates. -/
def Date.Before (first second : Date) : Prop :=
  first.year < second.year ∨ (first.year = second.year ∧
    (first.month < second.month ∨ (first.month = second.month ∧ first.day < second.day)))

theorem Date.Before.trans {first second third : Date} (left : first.Before second)
    (right : second.Before third) : first.Before third := by
  unfold Date.Before at *
  omega

theorem Date.before_next (date : Date) : date.Before date.next := by
  unfold Date.Before Date.next
  split
  · exact Or.inr ⟨rfl, Or.inr ⟨rfl, Nat.lt_succ_self _⟩⟩
  · split
    · exact Or.inr ⟨rfl, Or.inl (Nat.lt_succ_self _)⟩
    · exact Or.inl (Int.lt_succ _)

/-- Later days have later dates. -/
theorem civil_before (day : Int) (later : Nat) : (civil day).Before (civil (day + later + 1)) := by
  induction later with
  | zero =>
      rw [Int.natCast_zero, Int.add_zero, civil_add_one]
      exact (civil day).before_next
  | succ later ih =>
      rw [civil_add_one (day + ↑(later + 1)), Int.natCast_succ, ← Int.add_assoc]
      exact ih.trans (Date.before_next _)

theorem civil_ne_of_lt {first second : Int} (less : first < second) :
    civil first ≠ civil second := by
  have distance : second = first + (second - first - 1).toNat + 1 := by omega
  have before := civil_before first (second - first - 1).toNat
  rw [← distance] at before
  intro same
  rw [same] at before
  unfold Date.Before at before
  omega

theorem civil_injective {first second : Int} (same : civil first = civil second) :
    first = second := by
  by_cases less : first < second
  · exact absurd same (civil_ne_of_lt less)
  · by_cases greater : second < first
    · exact absurd same.symm (civil_ne_of_lt greater)
    · omega

/-! ## Ranges -/

theorem monthLengths_le (year : Int) : ∀ length ∈ monthLengths year, length ≤ 31 := by
  by_cases leap : LeapYear year
  · simp [monthLengths, leap]
  · simp [monthLengths, leap]

theorem inYear_bounds (year : Int) {dayOfYear : Nat} (below : dayOfYear < yearLength year) :
    0 < (inYear year dayOfYear).month ∧ (inYear year dayOfYear).month ≤ 12 ∧
      (inYear year dayOfYear).day ≤ 31 := by
  obtain ⟨before, length, after, within, split, rfl, inside⟩ := exists_interval below
  have place : locate (monthLengths year) (before.sum + within) = (before.length, within) := by
    rw [split, locate_append before after inside]
  have count : (monthLengths year).length = 12 := rfl
  have short : length ≤ 31 := monthLengths_le year length (by rw [split]; simp)
  rw [split, List.length_append, List.length_cons] at count
  simp only [inYear, place]
  omega

theorem civil_bounds (day : Int) :
    0 < (civil day).month ∧ (civil day).month ≤ 12 ∧ (civil day).day ≤ 31 := by
  have inside : (day % 146097).toNat < cycle.sum := by
    rw [sum_cycle]
    omega
  obtain ⟨before, length, after, within, split, offset, within_lt⟩ := exists_interval inside
  have place : locate cycle (day % 146097).toNat = (before.length, within) := by
    rw [offset, split, locate_append before after within_lt]
  have entry : cycle[before.length]? = some length := by
    rw [split]
    simp
  rw [← yearLength_of_cycle entry (day / 146097)] at within_lt
  simp only [civil, inCycle, place]
  exact inYear_bounds _ within_lt

end Cncpp.Calendar
