import Cncpp.Time.TimeUtils
import Mathlib.Algebra.Group.Int.Defs

/-!
# Local days, weeks and months

Days and weeks are counted from the low 32 bits of the local time, hours, months and years
are those of the calendar.  The two agree below `2 ^ 32` seconds of local time.
-/

namespace Cncpp.TimeUtils

open Cncpp.Calendar
open Cncpp.Machine

/-! ## The counts -/

theorem localDaysFromEpoch_eq (t : Int) :
    localDaysFromEpoch t = (t + 28800) % 4294967296 / 86400 := by
  have low := toUint32_eq (t - getTimeZone)
  have zone : t - getTimeZone = t + 28800 := by
    rw [getTimeZone]
    omega
  have day : kDaySeconds = 86400 := rfl
  rw [zone] at low
  rw [localDaysFromEpoch, toUint32_toInt32, zone, day, int32_of_lt (by omega)]
  omega

theorem localDaysFromEpoch_bounds (t : Int) :
    0 ≤ localDaysFromEpoch t ∧ localDaysFromEpoch t ≤ 49710 := by
  rw [localDaysFromEpoch_eq]
  omega

theorem localWeeksFromEpoch_eq (t : Int) :
    localWeeksFromEpoch t = (localDaysFromEpoch t + 3) / 7 := by
  obtain ⟨nonneg, most⟩ := localDaysFromEpoch_bounds t
  have small : toInt32 (localDaysFromEpoch t + 3) = localDaysFromEpoch t + 3 := by
    apply Int.bmod_eq_of_le
    · omega
    · omega
  rw [localWeeksFromEpoch, small, Int.tdiv_eq_ediv_of_nonneg (by omega)]

theorem getLocalDayZero_eq (t : Int) :
    getLocalDayZero t = (localDaysFromEpoch t * 86400 - 28800) % 4294967296 := by
  have days := toUint32_eq (localDaysFromEpoch t)
  have zone : (toUint32 getTimeZone : Int) = 4294938496 := by
    rw [toUint32_eq]
    rfl
  have day : kDaySeconds = 86400 := rfl
  rw [getLocalDayZero, day, uint32, uint32]
  omega

/-- Below `2 ^ 32` the days are those of the calendar. -/
theorem localDaysFromEpoch_of_lt {t : Int} (nonneg : 0 ≤ t + 28800)
    (fits : t + 28800 < 4294967296) : localDaysFromEpoch t = (t + 28800) / 86400 := by
  rw [localDaysFromEpoch_eq, Int.emod_eq_of_lt nonneg fits]

/-- On all days but the first of the count, the beginning of the day does not wrap. -/
theorem getLocalDayZero_of_ne {t : Int} (later : localDaysFromEpoch t ≠ 0) :
    getLocalDayZero t = localDaysFromEpoch t * 86400 - 28800 := by
  obtain ⟨nonneg, most⟩ := localDaysFromEpoch_bounds t
  rw [getLocalDayZero_eq, Int.emod_eq_of_lt (by omega) (by omega)]

/-- From the second day on, the beginning of the day is a local midnight. -/
theorem getLocalDayZero_of_le {t : Int} (second : 57600 ≤ t) (fits : t + 28800 < 4294967296) :
    getLocalDayZero t = (t + 28800) / 86400 * 86400 - 28800 := by
  have days := localDaysFromEpoch_of_lt (by omega) fits
  rw [getLocalDayZero_of_ne (by omega), days]

/-! ## The beginning of a day -/

/-- What is expected of the beginning of the day of `t`. -/
structure DayZero (t : Int) : Prop where
  le : getLocalDayZero t ≤ t
  lt : t < getLocalDayZero t + 86400
  midnight : (getLocalDayZero t + 28800) % 86400 = 0
  again : 0 ≤ getLocalDayZero t → getLocalDayZero (getLocalDayZero t) = getLocalDayZero t
  same : 0 ≤ getLocalDayZero t → isSameLocalDay t (getLocalDayZero t) = true

theorem dayZero_iff {t : Int} (nonneg : 0 ≤ t) :
    DayZero t ↔ 57600 ≤ t ∧ t + 28800 < 4294967296 := by
  constructor
  · rintro ⟨le, lt, midnight, -, -⟩
    -- On the first day of the count the sum wraps, to no midnight.
    have later : localDaysFromEpoch t ≠ 0 := by
      intro first
      rw [getLocalDayZero_eq, first] at midnight
      exact absurd midnight (by decide)
    have zero := getLocalDayZero_of_ne later
    obtain ⟨nonnegDays, mostDays⟩ := localDaysFromEpoch_bounds t
    refine ⟨by omega, ?_⟩
    -- A time that is too late by less than a day is counted on the first day.
    by_contra late
    have days := localDaysFromEpoch_eq t
    have low : (t + 28800) % 4294967296 = t + 28800 - 4294967296 := by omega
    rw [low] at days
    omega
  · rintro ⟨second, fits⟩
    have zero := getLocalDayZero_of_le second fits
    have zeroZero := getLocalDayZero_of_le (t := getLocalDayZero t) (by omega) (by omega)
    have days := localDaysFromEpoch_of_lt (t := t) (by omega) fits
    have zeroDays := localDaysFromEpoch_of_lt (t := getLocalDayZero t) (by omega) (by omega)
    refine ⟨by omega, by omega, by omega, fun _ => by omega, fun _ => ?_⟩
    rw [isSameLocalDay, beq_iff_eq]
    omega

/-- Of two times, the earlier one has the earlier beginning and both have the beginnings of
their days exactly from the second local day of the epoch to the last second of local time
below `2 ^ 32`. -/
theorem getLocalDayZero_law_iff {first second : Int} (nonneg : 0 ≤ first)
    (order : first ≤ second) :
    (DayZero first ∧ DayZero second ∧ getLocalDayZero first ≤ getLocalDayZero second) ↔
      57600 ≤ first ∧ second + 28800 < 2 ^ 32 := by
  rw [dayZero_iff nonneg, dayZero_iff (by omega)]
  constructor
  · rintro ⟨⟨begins, -⟩, ⟨-, fits⟩, -⟩
    exact ⟨begins, by omega⟩
  · rintro ⟨begins, fits⟩
    have firstZero := getLocalDayZero_of_le begins (by omega)
    have secondZero := getLocalDayZero_of_le (t := second) (by omega) fits
    exact ⟨⟨begins, by omega⟩, ⟨by omega, by omega⟩, by omega⟩

theorem getLocalDayZero_law_today :
    DayZero 57600 ∧ DayZero 1700000000 ∧ getLocalDayZero 57600 ≤ getLocalDayZero 1700000000 :=
  (getLocalDayZero_law_iff (by decide) (by decide)).mpr (by decide)

/-- On the first local day the beginning wraps. -/
theorem getLocalDayZero_wraps : getLocalDayZero 0 = 4294938496 ∧ ¬DayZero 0 := by
  refine ⟨by decide, fun law => ?_⟩
  have le := law.le
  revert le
  decide

/-! ## Weeks -/

/-- A local time of zero hours on a Monday. -/
def MondayMidnight (t : Int) : Prop :=
  (getLocalTime t).tmWday = 1 ∧ (getLocalTime t).tmHour = 0 ∧ (getLocalTime t).tmMin = 0 ∧
    (getLocalTime t).tmSec = 0

theorem mondayMidnight_of_eq {t : Int} (week : Int) (shifted : t + 28800 = (7 * week - 3) * 86400) :
    MondayMidnight t := by
  have zone : t - getTimeZone = t + 28800 := by
    rw [getTimeZone]
    omega
  simp only [MondayMidnight, getLocalTime, zone, gmtime]
  omega

/-- Both computations count the same Mondays. -/
theorem getLocalMondayZero_of_le {t : Int} (second : 57600 ≤ t) (fits : t + 28800 < 4294967296) :
    getLocalMondayZero t = (7 * localWeeksFromEpoch t - 3) * 86400 - 28800 := by
  have zone : t - getTimeZone = t + 28800 := by
    rw [getTimeZone]
    omega
  have day : kDaySeconds = 86400 := rfl
  have zero := getLocalDayZero_of_le second fits
  have weeks := localWeeksFromEpoch_eq t
  rw [localDaysFromEpoch_of_lt (by omega) fits] at weeks
  have weekday : (getLocalTime t).tmWday = (((t + 28800) / 86400 + 4) % 7).toNat := by
    rw [getLocalTime, gmtime, zone]
  simp only [getLocalMondayZero, weekday, day]
  split
  · rw [uint32_of_lt (by omega)]
    omega
  · rw [uint32_of_lt (by omega)]
    omega

theorem localWeeksFromEpoch_bounds (t : Int) :
    0 ≤ localWeeksFromEpoch t ∧ localWeeksFromEpoch t < 7102 := by
  obtain ⟨nonneg, most⟩ := localDaysFromEpoch_bounds t
  rw [localWeeksFromEpoch_eq]
  omega

theorem toUint32_localWeeksFromEpoch (t : Int) :
    (toUint32 (localWeeksFromEpoch t) : Int) = localWeeksFromEpoch t := by
  obtain ⟨nonneg, small⟩ := localWeeksFromEpoch_bounds t
  rw [toUint32_eq, Int.emod_eq_of_lt nonneg (by omega)]

theorem countsBetween_eq (first second : Nat) :
    countsBetween first second = ((first : Int) - second).natAbs := by
  unfold countsBetween
  split
  · omega
  · omega

theorem toUint32_localDaysFromEpoch (t : Int) :
    (toUint32 (localDaysFromEpoch t) : Int) = localDaysFromEpoch t := by
  obtain ⟨nonneg, most⟩ := localDaysFromEpoch_bounds t
  rw [toUint32_eq, Int.emod_eq_of_lt nonneg (by omega)]

/-- Two times are counted on one day exactly when no day is counted between them. -/
theorem isSameLocalDay_iff_between (t₁ t₂ : Int) :
    isSameLocalDay t₁ t₂ = true ↔ localDaysBetween t₁ t₂ = 0 := by
  rw [localDaysBetween, countsBetween_eq, toUint32_localDaysFromEpoch,
    toUint32_localDaysFromEpoch, isSameLocalDay, beq_iff_eq]
  omega

theorem localWeeksBetween_eq (t₁ t₂ : Int) :
    localWeeksBetween t₁ t₂ = (localWeeksFromEpoch t₁ - localWeeksFromEpoch t₂).natAbs := by
  rw [localWeeksBetween, countsBetween_eq, toUint32_localWeeksFromEpoch,
    toUint32_localWeeksFromEpoch]

/-- From the second local day of the epoch to the last second of local time below `2 ^ 32`,
weeks begin on Mondays, and counting weeks agrees with comparing their beginnings. -/
theorem weeks_agree {t₁ t₂ : Int} (second₁ : 57600 ≤ t₁) (fits₁ : t₁ + 28800 < 2 ^ 32)
    (second₂ : 57600 ≤ t₂) (fits₂ : t₂ + 28800 < 2 ^ 32) :
    MondayMidnight (getLocalMondayZero t₁) ∧
      getLocalMondayZero t₁ ≤ t₁ ∧ t₁ < getLocalNextMondayZero t₁ ∧
      (getLocalMondayZero t₁ - getLocalMondayZero t₂).natAbs =
        7 * 86400 * localWeeksBetween t₁ t₂ ∧
      (isSameLocalWeek t₁ t₂ = true ↔ getLocalMondayZero t₁ = getLocalMondayZero t₂) := by
  have monday₁ := getLocalMondayZero_of_le second₁ (by omega)
  have monday₂ := getLocalMondayZero_of_le second₂ (by omega)
  have weeks₁ := localWeeksFromEpoch_eq t₁
  rw [localDaysFromEpoch_of_lt (by omega) (by omega)] at weeks₁
  have step : uint32 (7 * kDaySeconds) = 604800 := rfl
  refine ⟨mondayMidnight_of_eq (localWeeksFromEpoch t₁) (by omega), by omega, ?_, ?_, ?_⟩
  · rw [getLocalNextMondayZero, step]
    omega
  · have distance : (7 * localWeeksFromEpoch t₁ - 3) * 86400 - 28800 -
        ((7 * localWeeksFromEpoch t₂ - 3) * 86400 - 28800) =
          7 * 86400 * (localWeeksFromEpoch t₁ - localWeeksFromEpoch t₂) := by omega
    rw [localWeeksBetween_eq, monday₁, monday₂, distance, Int.natAbs_mul]
    rfl
  · rw [isSameLocalWeek, beq_iff_eq, monday₁, monday₂]
    omega

theorem weeks_agree_today :
    MondayMidnight (getLocalMondayZero 57600) ∧
      getLocalMondayZero 57600 ≤ 57600 ∧ 57600 < getLocalNextMondayZero 57600 ∧
      (getLocalMondayZero 57600 - getLocalMondayZero 4294938495).natAbs =
        7 * 86400 * localWeeksBetween 57600 4294938495 ∧
      (isSameLocalWeek 57600 4294938495 = true ↔
        getLocalMondayZero 57600 = getLocalMondayZero 4294938495) :=
  weeks_agree (by decide) (by decide) (by decide) (by decide)

/-! ## Nested periods -/

theorem isSameLocalHour_iff (t₁ t₂ : Int) :
    isSameLocalHour t₁ t₂ = true ↔ (t₁ + 28800) / 3600 = (t₂ + 28800) / 3600 := by
  have zone (t : Int) : t - getTimeZone = t + 28800 := by
    rw [getTimeZone]
    omega
  have hour (t : Int) : (getLocalTime t).tmHour = ((t + 28800) % 86400).toNat / 3600 := by
    rw [getLocalTime, gmtime, zone]
  have days := @localDay_eq_iff t₁ t₂
  rw [localDay, localDay, zone, zone] at days
  simp only [isSameLocalHour, Bool.and_eq_true, beq_iff_eq, and_assoc]
  constructor
  · rintro ⟨year, month, day, sameHour⟩
    have sameDay := days.mpr ⟨year, month, day⟩
    rw [hour, hour] at sameHour
    omega
  · intro same
    obtain ⟨year, month, day⟩ := days.mp (by omega)
    rw [hour, hour]
    exact ⟨year, month, day, by omega⟩

theorem isSameLocalDay_iff (t₁ t₂ : Int) :
    isSameLocalDay t₁ t₂ = true ↔
      (t₁ + 28800) % 4294967296 / 86400 = (t₂ + 28800) % 4294967296 / 86400 := by
  rw [isSameLocalDay, beq_iff_eq, localDaysFromEpoch_eq, localDaysFromEpoch_eq]

/-- A second in which the 32-bit count of days changes. -/
def Seam (t : Int) : Prop :=
  (t + 28800) % 4294967296 % 86400 = 0

/-- No seam lies between two times. -/
def Unseparated (t₁ t₂ : Int) : Prop :=
  ¬∃ seam, (t₁ < seam ∧ seam ≤ t₂ ∨ t₂ < seam ∧ seam ≤ t₁) ∧ Seam seam

theorem unseparated_comm (t₁ t₂ : Int) : Unseparated t₁ t₂ ↔ Unseparated t₂ t₁ := by
  refine not_congr (exists_congr fun seam => ?_)
  exact and_congr_left fun _ => or_comm

/-- The beginning of the block of a time is a seam. -/
theorem seam_block (t : Int) :
    Seam ((t + 28800) % 4294967296 / 86400 * 86400 +
      (t + 28800) / 4294967296 * 4294967296 - 28800) := by
  have low : (t + 28800) % 4294967296 / 86400 * 86400 % 4294967296 =
      (t + 28800) % 4294967296 / 86400 * 86400 :=
    Int.emod_eq_of_lt (by omega) (by omega)
  rw [Seam, Int.sub_add_cancel, Int.add_mul_emod_self_right, low]
  exact Int.mul_emod_left _ _

/-- No seam lies between two times exactly when they agree in the high bits and lie in one
block of the low bits. -/
theorem unseparated_iff_of_le {first second : Int} (order : first ≤ second) :
    Unseparated first second ↔
      (first + 28800) / 4294967296 = (second + 28800) / 4294967296 ∧
        (first + 28800) % 4294967296 / 86400 = (second + 28800) % 4294967296 / 86400 := by
  constructor
  · intro unseparated
    have era : (first + 28800) / 4294967296 = (second + 28800) / 4294967296 := by
      by_contra differ
      refine unseparated ⟨second - (second + 28800) % 4294967296, Or.inl ⟨by omega, by omega⟩, ?_⟩
      unfold Seam
      omega
    refine ⟨era, ?_⟩
    by_contra differ
    exact unseparated ⟨_, Or.inl ⟨by omega, by omega⟩, seam_block second⟩
  · rintro ⟨era, same⟩ ⟨seam, ⟨after, before⟩ | ⟨after, before⟩, zero⟩
    · have sameEra : (seam + 28800) / 4294967296 = (second + 28800) / 4294967296 := by omega
      unfold Seam at zero
      omega
    · omega

theorem unseparated_iff (t₁ t₂ : Int) :
    Unseparated t₁ t₂ ↔ (t₁ + 28800) / 4294967296 = (t₂ + 28800) / 4294967296 ∧
      (t₁ + 28800) % 4294967296 / 86400 = (t₂ + 28800) % 4294967296 / 86400 := by
  by_cases order : t₁ ≤ t₂
  · exact unseparated_iff_of_le order
  · rw [unseparated_comm, unseparated_iff_of_le (by omega), eq_comm, and_congr_right_iff]
    exact fun _ => eq_comm

/-- Two times of one hour with a seam between them. -/
def SplitHour (t₁ t₂ : Int) : Prop :=
  (t₁ + 28800) / 3600 = (t₂ + 28800) / 3600 ∧ ¬Unseparated t₁ t₂

/-- Two times of different months with no seam between them, up to rounds of the low bits. -/
def JoinedMonths (t₁ t₂ : Int) : Prop :=
  ¬((civil (localDay t₁)).year = (civil (localDay t₂)).year ∧
      (civil (localDay t₁)).month = (civil (localDay t₂)).month) ∧
    ∃ rounds : Int, Unseparated t₁ (t₂ + rounds * 4294967296)

theorem hour_day_iff (t₁ t₂ : Int) :
    (isSameLocalHour t₁ t₂ = true → isSameLocalDay t₁ t₂ = true) ↔ ¬SplitHour t₁ t₂ := by
  rw [isSameLocalHour_iff, isSameLocalDay_iff, SplitHour, not_and, Classical.not_not,
    unseparated_iff]
  refine forall_congr' fun hour => ⟨fun block => ⟨?_, block⟩, And.right⟩
  -- Times of one hour that differ in the high bits lie in the last and the first block.
  by_contra differ
  omega

/-- Times are counted on one day exactly when they are not separated up to rounds. -/
theorem isSameLocalDay_iff_unseparated (t₁ t₂ : Int) :
    isSameLocalDay t₁ t₂ = true ↔ ∃ rounds : Int, Unseparated t₁ (t₂ + rounds * 4294967296) := by
  have shift (rounds : Int) :
      t₂ + rounds * 4294967296 + 28800 = t₂ + 28800 + rounds * 4294967296 := by omega
  rw [isSameLocalDay_iff]
  constructor
  · intro same
    refine ⟨(t₁ + 28800) / 4294967296 - (t₂ + 28800) / 4294967296, ?_⟩
    rw [unseparated_iff, shift, Int.add_mul_emod_self_right]
    refine ⟨?_, same⟩
    rw [Int.add_mul_ediv_right _ _ (by decide)]
    omega
  · rintro ⟨rounds, unseparated⟩
    rw [unseparated_iff, shift, Int.add_mul_emod_self_right] at unseparated
    exact unseparated.2

theorem isSameLocalMonth_iff (t₁ t₂ : Int) :
    isSameLocalMonth t₁ t₂ = true ↔ (civil (localDay t₁)).year = (civil (localDay t₂)).year ∧
      (civil (localDay t₁)).month = (civil (localDay t₂)).month := by
  obtain ⟨positive₁, _⟩ := civil_bounds (localDay t₁)
  obtain ⟨positive₂, _⟩ := civil_bounds (localDay t₂)
  simp only [isSameLocalMonth, Bool.and_eq_true, beq_iff_eq, tmYear_eq, tmMon_eq]
  omega

theorem day_month_iff (t₁ t₂ : Int) :
    (isSameLocalDay t₁ t₂ = true → isSameLocalMonth t₁ t₂ = true) ↔ ¬JoinedMonths t₁ t₂ := by
  rw [isSameLocalDay_iff_unseparated, isSameLocalMonth_iff, JoinedMonths, not_and, not_imp_not]

theorem isSameLocalWeek_of_day {t₁ t₂ : Int} (day : isSameLocalDay t₁ t₂ = true) :
    isSameLocalWeek t₁ t₂ = true := by
  rw [isSameLocalDay, beq_iff_eq] at day
  rw [isSameLocalWeek, localWeeksFromEpoch, localWeeksFromEpoch, day]
  exact beq_self_eq_true _

theorem isSameLocalYear_of_month {t₁ t₂ : Int} (month : isSameLocalMonth t₁ t₂ = true) :
    isSameLocalYear t₁ t₂ = true :=
  (Bool.and_eq_true_iff.mp month).1

/-- Two times of one period are in one of every longer period. -/
structure Nested (t₁ t₂ : Int) : Prop where
  hour_day : isSameLocalHour t₁ t₂ = true → isSameLocalDay t₁ t₂ = true
  day_week : isSameLocalDay t₁ t₂ = true → isSameLocalWeek t₁ t₂ = true
  day_month : isSameLocalDay t₁ t₂ = true → isSameLocalMonth t₁ t₂ = true
  month_year : isSameLocalMonth t₁ t₂ = true → isSameLocalYear t₁ t₂ = true

theorem nested_iff (t₁ t₂ : Int) : Nested t₁ t₂ ↔ ¬SplitHour t₁ t₂ ∧ ¬JoinedMonths t₁ t₂ := by
  rw [← hour_day_iff, ← day_month_iff]
  constructor
  · intro nested
    exact ⟨nested.hour_day, nested.day_month⟩
  · rintro ⟨hour_day, day_month⟩
    exact ⟨hour_day, isSameLocalWeek_of_day, day_month, isSameLocalYear_of_month⟩

/-- Below `2 ^ 32` the 32-bit count is that of the calendar. -/
theorem nested_of_lt {t₁ t₂ : Int} (nonneg₁ : 0 ≤ t₁) (fits₁ : t₁ + 28800 < 4294967296)
    (nonneg₂ : 0 ≤ t₂) (fits₂ : t₂ + 28800 < 4294967296) : Nested t₁ t₂ := by
  rw [nested_iff, ← hour_day_iff, ← day_month_iff, isSameLocalHour_iff, isSameLocalDay_iff,
    isSameLocalMonth_iff, Int.emod_eq_of_lt (by omega) fits₁, Int.emod_eq_of_lt (by omega) fits₂]
  refine ⟨by omega, fun same => ?_⟩
  have day : localDay t₁ = localDay t₂ := by
    rw [localDay, localDay, getTimeZone]
    omega
  rw [day]
  exact ⟨rfl, rfl⟩

theorem not_nested_first : ¬Nested 0 4294938496 := by
  intro nested
  have month := nested.day_month (by decide)
  revert month
  decide +kernel

/-- The periods are nested for two times exactly when no seam splits their hour and, up to
rounds of the low 32 bits, a seam lies between their months; and for all times below a bound
exactly up to the last second of local time below `2 ^ 32`. -/
theorem nested_law_iff (t₁ t₂ bound : Int) :
    (Nested t₁ t₂ ↔ ¬SplitHour t₁ t₂ ∧ ¬JoinedMonths t₁ t₂) ∧
      ((∀ t₁ t₂ : Int, 0 ≤ t₁ → t₁ < bound → 0 ≤ t₂ → t₂ < bound → Nested t₁ t₂) ↔
        bound + 28800 ≤ 2 ^ 32) := by
  refine ⟨nested_iff t₁ t₂, fun all => ?_, ?_⟩
  · by_contra late
    exact not_nested_first (all 0 4294938496 (by decide) (by omega) (by decide) (by omega))
  · intro early t₁ t₂ nonneg₁ below₁ nonneg₂ below₂
    exact nested_of_lt nonneg₁ (by omega) nonneg₂ (by omega)

/-- The first second from which on the count starts again lies in the hour of the second
before, and on the first day of the epoch. -/
theorem periods_not_nested :
    isSameLocalHour 4294938495 4294938496 = true ∧
      isSameLocalDay 4294938495 4294938496 = false ∧
      isSameLocalDay 0 4294938496 = true ∧ isSameLocalMonth 0 4294938496 = false := by
  decide +kernel

end Cncpp.TimeUtils
