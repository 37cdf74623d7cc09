import Cncpp.Log.HourlyFileSink
import Cncpp.Machine.Column

/-!
# Times as texts

`timeToStr`, `timeToCHNStr` and the names of the log files print a local time column by
column, from the year down.  As long as the year has four digits the columns have fixed
widths, so the texts are ordered like the times and the names of the log files like their
hours.
-/

namespace Cncpp.Log

open Cncpp.Calendar
open Cncpp.Machine
open Cncpp.TimeUtils

/-- `strftime` into an array of `size` characters; none where the text and the character behind
it do not fit. -/
def strftime (size : Nat) (text : Text) : Option Text :=
  if text.length < size then some text else none

/-- `%Y`, `%m`, `%d`, `%H`, `%M` and `%S`, with the given texts behind year, month and day. -/
def stamp (afterYear afterMonth afterDay : Text) (tv : Tm) : Text :=
  yearText (tv.tmYear + 1900) ++ afterYear ++ (twoDigits (tv.tmMon + 1) ++ afterMonth) ++
    (twoDigits tv.tmMday ++ afterDay) ++ (twoDigits tv.tmHour ++ [':']) ++
    (twoDigits tv.tmMin ++ [':']) ++ twoDigits tv.tmSec

/-- `timeToStr`: what stands in its static array after the call.  The next call overwrites it,
and the pointer of the caller then shows the text of that call. -/
def timeToStr (t : Int) : Option Text :=
  strftime 32 (stamp ['-'] ['-'] [' '] (getLocalTime t))

/-- A character of the source that is three bytes long. -/
def bytes (first second third : Nat) : Text :=
  [Char.ofNat first, Char.ofNat second, Char.ofNat third]

/-- `timeToCHNStr`, with a static array of its own that every call overwrites. -/
def timeToCHNStr (t : Int) : Option Text :=
  strftime 32 (stamp (bytes 0xE5 0xB9 0xB4 ++ ['-']) (bytes 0xE6 0x9C 0x88 ++ ['-'])
    (bytes 0xE6 0x97 0xA5 ++ [' ']) (getLocalTime t))

/-! ## The columns -/

/-- The local year has four digits. -/
def FourDigits (t : Int) : Prop :=
  1000 ≤ (getLocalTime t).tmYear + 1900 ∧ (getLocalTime t).tmYear + 1900 ≤ 9999

instance (t : Int) : Decidable (FourDigits t) :=
  inferInstanceAs (Decidable (_ ∧ _))

/-- The values of a date. -/
def dateFields (tv : Tm) : List Nat :=
  [(tv.tmYear + 1900).toNat, tv.tmMon + 1, tv.tmMday]

/-- The values of a date and an hour. -/
def hourFields (tv : Tm) : List Nat :=
  dateFields tv ++ [tv.tmHour]

/-- The values of a time. -/
def timeFields (tv : Tm) : List Nat :=
  dateFields tv ++ [tv.tmHour, tv.tmMin, tv.tmSec]

/-- The columns of a date and an hour. -/
def hourColumns (afterYear afterMonth afterDay : Text) : List (Column Char) :=
  [(decimalColumn 4).followedBy afterYear, (decimalColumn 2).followedBy afterMonth,
    (decimalColumn 2).followedBy afterDay, decimalColumn 2]

/-- The columns of a time. -/
def timeColumns (afterYear afterMonth afterDay : Text) : List (Column Char) :=
  [(decimalColumn 4).followedBy afterYear, (decimalColumn 2).followedBy afterMonth,
    (decimalColumn 2).followedBy afterDay, (decimalColumn 2).followedBy [':'],
    (decimalColumn 2).followedBy [':'], decimalColumn 2]

theorem twoDigits_eq {value : Nat} (fits : value < 100) : twoDigits value = decimals 2 value := by
  have tens : value / 10 % 10 = value / 10 := by omega
  rw [decimals, decimals, decimals, tens]
  rfl

theorem toDigits_eq {value : Nat} (low : 1000 ≤ value) (high : value ≤ 9999) :
    Nat.toDigits 10 value = decimals 4 value := by
  have hundreds : value / 10 / 10 / 10 % 10 = value / 10 / 10 / 10 := by omega
  rw [Nat.toDigits_of_base_le (by decide) (by omega),
    Nat.toDigits_of_base_le (by decide) (by omega),
    Nat.toDigits_of_base_le (by decide) (by omega),
    Nat.toDigits_of_lt_base (by omega)]
  simp only [decimals, hundreds, List.nil_append]

theorem yearText_eq {year : Int} (low : 1000 ≤ year) (high : year ≤ 9999) :
    yearText year = decimals 4 year.toNat := by
  obtain ⟨value, rfl⟩ := Int.eq_ofNat_of_zero_le (Int.le_trans (by decide) low)
  exact toDigits_eq (by omega) (by omega)

theorem tmMin_lt (t : Int) : (getLocalTime t).tmMin < 60 := by
  simp only [getLocalTime, gmtime]
  omega

theorem tmSec_lt (t : Int) : (getLocalTime t).tmSec < 60 := by
  simp only [getLocalTime, gmtime]
  omega

/-- The values of the fields that two digits show. -/
structure TwoDigits (tv : Tm) : Prop where
  month : tv.tmMon + 1 < 100
  day : tv.tmMday < 100
  hour : tv.tmHour < 100
  minute : tv.tmMin < 100
  second : tv.tmSec < 100

theorem getLocalTime_twoDigits (t : Int) : TwoDigits (getLocalTime t) where
  month := by
    have bound := tmMon_lt t
    omega
  day := Nat.lt_of_le_of_lt (tmMday_le t) (by decide)
  hour := Nat.lt_trans (tmHour_lt t) (by decide)
  minute := Nat.lt_trans (tmMin_lt t) (by decide)
  second := Nat.lt_trans (tmSec_lt t) (by decide)

theorem FourDigits.year {t : Int} (years : FourDigits t) :
    ((getLocalTime t).tmYear + 1900).toNat < 10 ^ 4 := by
  have high := years.2
  omega

section Render

variable {t : Int} (afterYear afterMonth afterDay : Text)

theorem timeFields_fits (years : FourDigits t) :
    Column.Fits (timeColumns afterYear afterMonth afterDay) (timeFields (getLocalTime t)) :=
  have two := getLocalTime_twoDigits t
  .cons years.year (.cons two.month (.cons two.day (.cons two.hour (.cons two.minute
    (.cons two.second .nil)))))

theorem hourFields_fits (years : FourDigits t) :
    Column.Fits (hourColumns afterYear afterMonth afterDay) (hourFields (getLocalTime t)) :=
  have two := getLocalTime_twoDigits t
  .cons years.year (.cons two.month (.cons two.day (.cons two.hour .nil)))

theorem stamp_eq (years : FourDigits t) :
    stamp afterYear afterMonth afterDay (getLocalTime t) =
      Column.render (timeColumns afterYear afterMonth afterDay)
        (timeFields (getLocalTime t)) := by
  have two := getLocalTime_twoDigits t
  rw [stamp, yearText_eq years.1 years.2, twoDigits_eq two.month, twoDigits_eq two.day,
    twoDigits_eq two.hour, twoDigits_eq two.minute, twoDigits_eq two.second]
  simp only [timeColumns, timeFields, dateFields, List.cons_append, List.nil_append,
    Column.render, Column.followedBy, decimalColumn, List.append_nil, List.append_assoc]

theorem putTime_eq (years : FourDigits t) :
    putTime (getLocalTime t) =
      Column.render (hourColumns ['-'] ['-'] ['_']) (hourFields (getLocalTime t)) := by
  have two := getLocalTime_twoDigits t
  rw [putTime, yearText_eq years.1 years.2, twoDigits_eq two.month, twoDigits_eq two.day,
    twoDigits_eq two.hour]
  simp only [hourColumns, hourFields, dateFields, List.cons_append, List.nil_append,
    Column.render, Column.followedBy, decimalColumn, List.append_nil, List.append_assoc]

end Render

/-! ## The order of the fields -/

/-- Later days have later dates. -/
theorem dateFields_lt {first second : Int} (firstYears : FourDigits first)
    (less : localDay first < localDay second) :
    dateFields (getLocalTime first) < dateFields (getLocalTime second) := by
  have distance : localDay second =
      localDay first + (localDay second - localDay first - 1).toNat + 1 := by omega
  have before := civil_before (localDay first) (localDay second - localDay first - 1).toNat
  rw [← distance] at before
  obtain ⟨firstPositive, _⟩ := civil_bounds (localDay first)
  obtain ⟨secondPositive, _⟩ := civil_bounds (localDay second)
  have low := firstYears.1
  rw [tmYear_eq] at low
  simp only [dateFields, tmYear_eq, tmMon_eq, tmMday_eq, List.cons_lt_cons_iff,
    List.not_lt_nil, and_false, or_false]
  unfold Date.Before at before
  omega

theorem dateFields_eq {first second : Int} (same : localDay first = localDay second) :
    dateFields (getLocalTime first) = dateFields (getLocalTime second) := by
  obtain ⟨year, month, day⟩ := localDay_eq_iff.mp same
  rw [dateFields, dateFields, year, month, day]

/-- Later times have later fields. -/
theorem timeFields_lt {first second : Int} (firstYears : FourDigits first)
    (less : first < second) :
    timeFields (getLocalTime first) < timeFields (getLocalTime second) := by
  by_cases days : localDay first < localDay second
  · exact append_lt_append rfl (dateFields_lt firstYears days)
  · have same : localDay first = localDay second := by
      unfold localDay at days ⊢
      omega
    rw [timeFields, timeFields, dateFields_eq same]
    apply List.append_left_lt
    simp only [getLocalTime, gmtime, List.cons_lt_cons_iff, List.not_lt_nil, and_false, or_false]
    unfold localDay at same
    omega

/-- The local hours since the beginning of 1970. -/
def localHour (t : Int) : Int :=
  (t - getTimeZone) / 3600

/-- Later hours have later fields. -/
theorem hourFields_lt {first second : Int} (firstYears : FourDigits first)
    (less : localHour first < localHour second) :
    hourFields (getLocalTime first) < hourFields (getLocalTime second) := by
  by_cases days : localDay first < localDay second
  · exact append_lt_append rfl (dateFields_lt firstYears days)
  · have same : localDay first = localDay second := by
      unfold localDay at days ⊢
      unfold localHour at less
      omega
    rw [hourFields, hourFields, dateFields_eq same]
    apply List.append_left_lt
    simp only [getLocalTime, gmtime, List.cons_lt_cons_iff, List.not_lt_nil, and_false, or_false]
    unfold localDay at same
    unfold localHour at less
    omega

theorem hourFields_eq {first second : Int} (same : localHour first = localHour second) :
    hourFields (getLocalTime first) = hourFields (getLocalTime second) := by
  unfold localHour at same
  have days : localDay first = localDay second := by
    unfold localDay
    omega
  have hours : (getLocalTime first).tmHour = (getLocalTime second).tmHour := by
    simp only [getLocalTime, gmtime]
    omega
  rw [hourFields, hourFields, dateFields_eq days, hours]

/-! ## The order of the texts -/

/-- What is ordered by a key in one direction is ordered by it in both. -/
theorem text_lt_iff {Ok : Int → Prop} {key : Int → Int} {text : Int → Text}
    (later : ∀ {first second}, Ok first → Ok second → key first < key second →
      text first < text second)
    (equal : ∀ {first second}, Ok first → Ok second → key first = key second →
      text first = text second)
    {first second : Int} (firstOk : Ok first) (secondOk : Ok second) :
    text first < text second ↔ key first < key second := by
  constructor
  · intro less
    by_contra notLess
    rcases Int.lt_or_eq_of_le (Int.not_lt.mp notLess) with greater | same
    · exact List.lt_asymm less (later secondOk firstOk greater)
    · rw [equal secondOk firstOk same] at less
      exact List.lt_irrefl _ less
  · exact later firstOk secondOk

section Order

variable {first second : Int} (firstYears : FourDigits first) (secondYears : FourDigits second)

include firstYears secondYears

theorem stamp_lt_iff (afterYear afterMonth afterDay : Text) :
    stamp afterYear afterMonth afterDay (getLocalTime first) <
        stamp afterYear afterMonth afterDay (getLocalTime second) ↔
      first < second := by
  refine @text_lt_iff FourDigits id
    (fun t => stamp afterYear afterMonth afterDay (getLocalTime t)) ?_ ?_ first second firstYears
    secondYears
  · intro first second firstYears secondYears less
    rw [stamp_eq _ _ _ firstYears, stamp_eq _ _ _ secondYears]
    exact Column.render_lt (timeFields_fits _ _ _ firstYears) (timeFields_fits _ _ _ secondYears)
      (timeFields_lt firstYears less)
  · intro first second _ _ same
    rw [id, id] at same
    rw [same]

theorem fileName_lt_iff (base : Text) :
    fileName base first < fileName base second ↔ localHour first < localHour second := by
  refine @text_lt_iff FourDigits localHour (fileName base) ?_ ?_ first second firstYears
    secondYears
  · intro first second firstYears secondYears less
    have firstFits := hourFields_fits ['-'] ['-'] ['_'] firstYears
    have secondFits := hourFields_fits ['-'] ['-'] ['_'] secondYears
    rw [fileName, fileName, putTime_eq firstYears, putTime_eq secondYears, List.append_assoc,
      List.append_assoc]
    apply List.append_left_lt
    rw [List.cons_append, List.cons_append]
    apply List.cons_lt_cons_self.mpr
    exact append_lt_append (Column.length_render firstFits secondFits)
      (Column.render_lt firstFits secondFits (hourFields_lt firstYears less))
  · intro first second firstYears secondYears same
    rw [fileName, fileName, putTime_eq firstYears, putTime_eq secondYears, hourFields_eq same]

end Order

/-! ## The printed texts -/

theorem length_stamp {t : Int} (years : FourDigits t) (afterYear afterMonth afterDay : Text) :
    (stamp afterYear afterMonth afterDay (getLocalTime t)).length =
      16 + afterYear.length + afterMonth.length + afterDay.length := by
  have two := getLocalTime_twoDigits t
  rw [stamp, yearText_eq years.1 years.2]
  simp only [List.length_append, length_decimals, twoDigits, List.length_cons, List.length_nil]
  omega

/-- With four digits for the year both texts fit into their arrays. -/
theorem timeToStr_eq {t : Int} (years : FourDigits t) :
    timeToStr t = some (stamp ['-'] ['-'] [' '] (getLocalTime t)) := by
  rw [timeToStr, strftime, length_stamp years]
  rfl

theorem timeToCHNStr_eq {t : Int} (years : FourDigits t) :
    timeToCHNStr t = some (stamp (bytes 0xE5 0xB9 0xB4 ++ ['-'])
      (bytes 0xE6 0x9C 0x88 ++ ['-']) (bytes 0xE6 0x97 0xA5 ++ [' ']) (getLocalTime t)) := by
  rw [timeToCHNStr, strftime, length_stamp years]
  rfl

/-- Where the year has four digits, `timeToStr` and `timeToCHNStr` print earlier times to smaller
texts and no others, and the names of the log files are ordered like their local hours. -/
theorem texts_chronological (base : Text) {first second : Int} (firstYears : FourDigits first)
    (secondYears : FourDigits second) :
    (∃ x y, timeToStr first = some x ∧ timeToStr second = some y ∧
      (x < y ↔ first < second)) ∧
    (∃ x y, timeToCHNStr first = some x ∧ timeToCHNStr second = some y ∧
      (x < y ↔ first < second)) ∧
    (fileName base first < fileName base second ↔ localHour first < localHour second) :=
  ⟨⟨_, _, timeToStr_eq firstYears, timeToStr_eq secondYears,
      stamp_lt_iff firstYears secondYears _ _ _⟩,
    ⟨_, _, timeToCHNStr_eq firstYears, timeToCHNStr_eq secondYears,
      stamp_lt_iff firstYears secondYears _ _ _⟩,
    fileName_lt_iff firstYears secondYears base⟩

/-- The last second of a year and the first of the next. -/
theorem texts_new_year :
    (∃ x y, timeToStr 1735660799 = some x ∧ timeToStr 1735660800 = some y ∧ x < y) ∧
    (∃ x y, timeToCHNStr 1735660799 = some x ∧ timeToCHNStr 1735660800 = some y ∧ x < y) ∧
    fileName "hours".toList 1735660799 < fileName "hours".toList 1735660800 := by
  obtain ⟨⟨x, y, firstText, secondText, less⟩, ⟨u, v, firstChn, secondChn, lessChn⟩, names⟩ :=
    @texts_chronological "hours".toList 1735660799 1735660800 (by decide) (by decide)
  exact ⟨⟨x, y, firstText, secondText, less.mpr (by decide)⟩,
    ⟨u, v, firstChn, secondChn, lessChn.mpr (by decide)⟩, names.mpr (by decide)⟩

end Cncpp.Log
