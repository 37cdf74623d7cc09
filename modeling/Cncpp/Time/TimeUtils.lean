import Cncpp.Calendar.Civil
import Cncpp.Machine.Word

/-!
# Local time

`TimeUtils` computes local times by adding eight hours and calling `gmtime`.  A `time_t` is
an integer number of seconds from 1 January 1970; the arithmetic of `time_t` does not reach
the ends of its range for the times whose year fits in a `std::tm`.
-/

namespace Cncpp.TimeUtils

open Cncpp.Calendar
open Cncpp.Machine

/-- The fields of a `std::tm`: months are counted from 0 and years from 1900. -/
structure Tm where
  tmSec : Nat
  tmMin : Nat
  tmHour : Nat
  tmMday : Nat
  tmMon : Nat
  tmYear : Int
  tmWday : Nat
  deriving DecidableEq

/-- `gmtime`. -/
def gmtime (t : Int) : Tm :=
  let day := t / 86400
  let second := (t % 86400).toNat
  let date := civil day
  { tmSec := second % 60
    tmMin := second / 60 % 60
    tmHour := second / 3600
    tmMday := date.day
    tmMon := date.month - 1
    tmYear := date.year - 1900
    tmWday := ((day + 4) % 7).toNat }

/-- `getTimeZone`. -/
def getTimeZone : Int :=
  -8 * 60 * 60

/-- `getLocalTime`. -/
def getLocalTime (t : Int) : Tm :=
  gmtime (t - getTimeZone)

/-- `getLocalHour`. -/
def getLocalHour (t : Int) : Nat :=
  uint16 (getLocalTime t).tmHour

/-- `kHourSeconds`. -/
def kHourSeconds : Nat := 3600

/-- `kDaySeconds`. -/
def kDaySeconds : Nat := 24 * kHourSeconds

/-- `localDaysFromEpoch`.  The quotient of an `int32_t` and a `uint32_t` is a `uint32_t`. -/
def localDaysFromEpoch (t : Int) : Int :=
  int32 (toUint32 (toInt32 (t - getTimeZone)) / kDaySeconds)

/-- `localWeeksFromEpoch`. -/
def localWeeksFromEpoch (t : Int) : Int :=
  (toInt32 (localDaysFromEpoch t + 3)).tdiv 7

/-- The difference of two counts, as `localDaysBetween` and `localWeeksBetween` return it. -/
def countsBetween (first second : Nat) : Nat :=
  if second < first then first - second else second - first

/-- `localDaysBetween`. -/
def localDaysBetween (t₁ t₂ : Int) : Nat :=
  countsBetween (toUint32 (localDaysFromEpoch t₁)) (toUint32 (localDaysFromEpoch t₂))

/-- `localWeeksBetween`. -/
def localWeeksBetween (t₁ t₂ : Int) : Nat :=
  countsBetween (toUint32 (localWeeksFromEpoch t₁)) (toUint32 (localWeeksFromEpoch t₂))

/-- `isSameLocalHour`. -/
def isSameLocalHour (t₁ t₂ : Int) : Bool :=
  let tv₁ := getLocalTime t₁
  let tv₂ := getLocalTime t₂
  tv₁.tmYear == tv₂.tmYear && tv₁.tmMon == tv₂.tmMon && tv₁.tmMday == tv₂.tmMday &&
    tv₁.tmHour == tv₂.tmHour

/-- `isSameLocalDay`. -/
def isSameLocalDay (t₁ t₂ : Int) : Bool :=
  localDaysFromEpoch t₁ == localDaysFromEpoch t₂

/-- `isSameLocalWeek`. -/
def isSameLocalWeek (t₁ t₂ : Int) : Bool :=
  localWeeksFromEpoch t₁ == localWeeksFromEpoch t₂

/-- `isSameLocalMonth`. -/
def isSameLocalMonth (t₁ t₂ : Int) : Bool :=
  let tv₁ := getLocalTime t₁
  let tv₂ := getLocalTime t₂
  tv₁.tmYear == tv₂.tmYear && tv₁.tmMon == tv₂.tmMon

/-- `isSameLocalYear`. -/
def isSameLocalYear (t₁ t₂ : Int) : Bool :=
  (getLocalTime t₁).tmYear == (getLocalTime t₂).tmYear

/-- `getLocalDayZero`.  The sum is computed in `uint32_t` and widened to `time_t`. -/
def getLocalDayZero (t : Int) : Int :=
  uint32 (uint32 (toUint32 (localDaysFromEpoch t) * kDaySeconds) + toUint32 getTimeZone)

/-- `getLocalMondayZero`.  The difference is computed in `time_t`. -/
def getLocalMondayZero (t : Int) : Int :=
  let tv := getLocalTime t
  let days := if tv.tmWday ≠ 0 then tv.tmWday else 7
  getLocalDayZero t - uint32 ((days - 1) * kDaySeconds)

/-- `getLocalNextMondayZero`. -/
def getLocalNextMondayZero (t : Int) : Int :=
  getLocalMondayZero t + uint32 (7 * kDaySeconds)

/-- The local day on which a time lies. -/
def localDay (t : Int) : Int :=
  (t - getTimeZone) / 86400

/-! ## Hours and days -/

theorem tmHour_lt (t : Int) : (getLocalTime t).tmHour < 24 := by
  simp only [getLocalTime, gmtime]
  omega

/-- The hour is not changed by the conversion. -/
theorem getLocalHour_eq (t : Int) : getLocalHour t = (getLocalTime t).tmHour :=
  uint16_of_lt (Nat.lt_trans (tmHour_lt t) (by decide))

theorem tmMon_eq (t : Int) : (getLocalTime t).tmMon = (civil (localDay t)).month - 1 := by
  rw [getLocalTime, gmtime, localDay]

theorem tmMday_eq (t : Int) : (getLocalTime t).tmMday = (civil (localDay t)).day := by
  rw [getLocalTime, gmtime, localDay]

theorem tmYear_eq (t : Int) : (getLocalTime t).tmYear = (civil (localDay t)).year - 1900 := by
  rw [getLocalTime, gmtime, localDay]

theorem tmMon_lt (t : Int) : (getLocalTime t).tmMon < 12 := by
  obtain ⟨positive, bound, _⟩ := civil_bounds (localDay t)
  rw [tmMon_eq]
  omega

theorem tmMday_le (t : Int) : (getLocalTime t).tmMday ≤ 31 := by
  rw [tmMday_eq]
  exact (civil_bounds (localDay t)).2.2

/-- Year, month and day tell the local days apart. -/
theorem localDay_eq_iff {first second : Int} :
    localDay first = localDay second ↔
      (getLocalTime first).tmYear = (getLocalTime second).tmYear ∧
        (getLocalTime first).tmMon = (getLocalTime second).tmMon ∧
          (getLocalTime first).tmMday = (getLocalTime second).tmMday := by
  simp only [tmYear_eq, tmMon_eq, tmMday_eq]
  constructor
  · intro same
    rw [same]
    exact ⟨rfl, rfl, rfl⟩
  · rintro ⟨year, month, day⟩
    obtain ⟨firstPos, _⟩ := civil_bounds (localDay first)
    obtain ⟨secondPos, _⟩ := civil_bounds (localDay second)
    apply civil_injective
    rw [Date.ext_iff]
    exact ⟨by omega, by omega, day⟩

end Cncpp.TimeUtils
