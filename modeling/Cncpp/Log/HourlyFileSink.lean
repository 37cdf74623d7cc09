import Cncpp.Time.TimeUtils

/-!
# The hourly log files

`MyHourlyFileSink` has one file open.  `open_file` opens the file of the present hour, with
the local date and hour in its name, and `sink_it_` calls it when the hour of the day has
changed.  A message that comes a day or more after the one before it, in the same hour of
the day, is written to the old file.

The model keeps the members that are read.  The history has for every message its time, as
`sink_it_` reads it, and the file that was open when it was written.
-/

namespace Cncpp.Log

open Cncpp.Machine
open Cncpp.TimeUtils

/-! ## File names -/

/-- `%Y`. -/
def yearText : Int → Text
  | .ofNat year => Nat.toDigits 10 year
  | .negSucc year => '-' :: Nat.toDigits 10 (year + 1)

/-- `%m`, `%d` and `%H`. -/
def twoDigits (value : Nat) : Text :=
  [Nat.digitChar (value / 10), Nat.digitChar (value % 10)]

/-- `std::put_time` with the format `%Y-%m-%d_%H`. -/
def putTime (tm : Tm) : Text :=
  yearText (tm.tmYear + 1900) ++
    ('-' :: twoDigits (tm.tmMon + 1) ++ '-' :: twoDigits tm.tmMday ++ '_' :: twoDigits tm.tmHour)

/-- The name of the file for a time. -/
def fileName (base : Text) (now : Int) : Text :=
  base ++ '_' :: putTime (getLocalTime now) ++ ".log".toList

/-! ## The sink -/

/-- A message that has been written. -/
structure Written where
  time : Int
  formatted : Text
  file : Option Text
  deriving DecidableEq

/-- The members of the sink. -/
structure Sink where
  baseFilename : Text
  /-- The name of the file that `file_` is open on. -/
  file : Option Text
  currentHour : Nat
  /-- History: the messages that have been written. -/
  written : List Written
  deriving DecidableEq

/-- `open_file`, where `opens` tells whether the file can be opened. -/
def openFile (opens : Bool) (now : Int) (sink : Sink) : Sink :=
  let newFilename := fileName sink.baseFilename now
  if opens then
    { sink with file := some newFilename, currentHour := uint32 (getLocalTime now).tmHour }
  else { sink with file := none }

/-- The constructor. -/
def construct (opens : Bool) (base : Text) (now : Int) : Sink :=
  openFile opens now ⟨base, none, 0, []⟩

/-- `sink_it_`, where `nowOpen` is the time that a call of `open_file` reads. -/
def sinkIt (opens : Bool) (nowOpen now : Int) (formatted : Text) (sink : Sink) : Sink :=
  let nowHour := getLocalHour now
  let opened := if nowHour ≠ sink.currentHour then openFile opens nowOpen sink else sink
  { opened with written := opened.written ++ [⟨now, formatted, opened.file⟩] }

/-- Messages with their times.  Files can be opened, and the two clocks agree. -/
def sinkAll (sink : Sink) : List (Int × Text) → Sink
  | [] => sink
  | (now, formatted) :: messages => sinkAll (sinkIt true now now formatted sink) messages

/-- Each message is in the file of its own hour. -/
def InOwnFile (base : Text) (entry : Written) : Prop :=
  entry.file = some (fileName base entry.time)

instance (base : Text) : DecidablePred (InOwnFile base) := fun entry =>
  inferInstanceAs (Decidable (entry.file = some (fileName base entry.time)))

/-- The hour of the day does not come again on another day. -/
def HourTellsDay (earlier later : Int) : Prop :=
  getLocalHour earlier = getLocalHour later → localDay earlier = localDay later

/-! ## Names tell hours apart -/

theorem toDigits_injective {first second : Nat}
    (same : Nat.toDigits 10 first = Nat.toDigits 10 second) : first = second := by
  have values := congrArg (fun digits => Nat.ofDigitChars 10 digits 0) same
  simpa using values

/-- Digits have no sign. -/
theorem toDigits_ne_sign (value : Nat) (rest : Text) : Nat.toDigits 10 value ≠ '-' :: rest := by
  intro same
  have sign : '-' ∈ Nat.toDigits 10 value := by
    rw [same]
    exact List.mem_cons_self
  exact absurd (Nat.isDigit_of_mem_toDigits (by decide) (by decide) sign) (by decide)

theorem yearText_injective {first second : Int} (same : yearText first = yearText second) :
    first = second := by
  cases first with
  | ofNat first =>
      cases second with
      | ofNat second => exact congrArg Int.ofNat (toDigits_injective same)
      | negSucc second => exact absurd same (toDigits_ne_sign first _)
  | negSucc first =>
      cases second with
      | ofNat second => exact absurd same.symm (toDigits_ne_sign second _)
      | negSucc second =>
          have values := toDigits_injective (List.cons.inj same).2
          exact congrArg Int.negSucc (Nat.succ.inj values)

theorem twoDigits_injective {first second : Nat} (firstBound : first < 100)
    (secondBound : second < 100) (same : twoDigits first = twoDigits second) :
    first = second := by
  have value (n : Nat) (bound : n < 100) : Nat.ofDigitChars 10 (twoDigits n) 0 = n := by
    rw [twoDigits, Nat.ofDigitChars_cons_digitChar_of_lt_ten (by omega),
      Nat.ofDigitChars_cons_digitChar_of_lt_ten (by omega), Nat.ofDigitChars_nil]
    omega
  rw [← value first firstBound, same, value second secondBound]

/-- Equal texts of two times agree in each of the four fields. -/
theorem putTime_fields {first second : Tm} (same : putTime first = putTime second) :
    yearText (first.tmYear + 1900) = yearText (second.tmYear + 1900) ∧
      twoDigits (first.tmMon + 1) = twoDigits (second.tmMon + 1) ∧
      twoDigits first.tmMday = twoDigits second.tmMday ∧
      twoDigits first.tmHour = twoDigits second.tmHour := by
  obtain ⟨year, rest⟩ := List.append_inj' same rfl
  obtain ⟨date, hour⟩ := List.append_inj' rest rfl
  obtain ⟨month, day⟩ := List.append_inj' date rfl
  exact ⟨year, (List.cons.inj month).2, (List.cons.inj day).2, (List.cons.inj hour).2⟩

/-- The name of a file tells the local day and the hour. -/
theorem fileName_eq_iff {base : Text} {first second : Int} :
    fileName base first = fileName base second ↔
      localDay first = localDay second ∧ getLocalHour first = getLocalHour second := by
  rw [localDay_eq_iff, getLocalHour_eq, getLocalHour_eq]
  constructor
  · intro same
    rw [fileName, fileName] at same
    have times := (List.cons.inj (List.append_cancel_left (List.append_cancel_right same))).2
    obtain ⟨year, month, day, hour⟩ := putTime_fields times
    have firstMonth := tmMon_lt first
    have secondMonth := tmMon_lt second
    have firstDay := tmMday_le first
    have secondDay := tmMday_le second
    have firstHour := tmHour_lt first
    have secondHour := tmHour_lt second
    have years := yearText_injective year
    have months := twoDigits_injective (by omega) (by omega) month
    have days := twoDigits_injective (by omega) (by omega) day
    have hours := twoDigits_injective (by omega) (by omega) hour
    exact ⟨⟨by omega, by omega, days⟩, hours⟩
  · rintro ⟨⟨year, month, day⟩, hour⟩
    rw [fileName, fileName, putTime, putTime, year, month, day, hour]

/-! ## The open file -/

/-- The sink has the file for a time open. -/
structure OpenAt (base : Text) (time : Int) (sink : Sink) : Prop where
  baseFilename : sink.baseFilename = base
  file : sink.file = some (fileName base time)
  currentHour : sink.currentHour = getLocalHour time

theorem openFile_openAt (time : Int) (sink : Sink) :
    OpenAt sink.baseFilename time (openFile true time sink) := by
  have hour : uint32 (getLocalTime time).tmHour = getLocalHour time := by
    rw [getLocalHour_eq, uint32_of_lt (Nat.lt_trans (tmHour_lt time) (by decide))]
  exact ⟨rfl, rfl, hour⟩

theorem construct_openAt (base : Text) (start : Int) :
    OpenAt base start (construct true base start) :=
  openFile_openAt start ⟨base, none, 0, []⟩

variable {base : Text} {last : Int} {sink : Sink}

/-- A message in another hour of the day opens the file of its hour. -/
theorem OpenAt.sinkIt_of_ne (openAt : OpenAt base last sink) {now : Int} (formatted : Text)
    (differs : getLocalHour last ≠ getLocalHour now) :
    OpenAt base now (sinkIt true now now formatted sink) ∧
      (sinkIt true now now formatted sink).written =
        sink.written ++ [⟨now, formatted, some (fileName base now)⟩] := by
  have changed : getLocalHour now ≠ sink.currentHour := by
    rw [openAt.currentHour]
    exact differs.symm
  have opened := openFile_openAt now sink
  rw [openAt.baseFilename] at opened
  simp only [sinkIt, if_pos changed]
  exact ⟨⟨opened.baseFilename, opened.file, opened.currentHour⟩, by rw [opened.file]; rfl⟩

/-- A message in the same hour of the day is written to the file that is open. -/
theorem OpenAt.sinkIt_of_eq (openAt : OpenAt base last sink) {now : Int} (formatted : Text)
    (same : getLocalHour last = getLocalHour now) :
    sinkIt true now now formatted sink =
      { sink with
        written := sink.written ++ [⟨now, formatted, some (fileName base last)⟩] } := by
  have unchanged : ¬getLocalHour now ≠ sink.currentHour := by
    rw [openAt.currentHour, same]
    exact not_not_intro rfl
  simp only [sinkIt, if_neg unchanged, openAt.file]

/-- When the hour tells the day, the message is written to its own file. -/
theorem OpenAt.sinkIt_right (openAt : OpenAt base last sink) {now : Int} (formatted : Text)
    (tells : HourTellsDay last now) :
    OpenAt base now (sinkIt true now now formatted sink) ∧
      (sinkIt true now now formatted sink).written =
        sink.written ++ [⟨now, formatted, some (fileName base now)⟩] := by
  by_cases same : getLocalHour last = getLocalHour now
  · have name : fileName base last = fileName base now :=
      fileName_eq_iff.mpr ⟨tells same, same⟩
    rw [openAt.sinkIt_of_eq formatted same, name]
    exact ⟨⟨openAt.baseFilename, name ▸ openAt.file, openAt.currentHour.trans same⟩, rfl⟩
  · exact openAt.sinkIt_of_ne formatted same

/-- When the hour comes again on another day, the message is written to a wrong file. -/
theorem OpenAt.sinkIt_wrong (openAt : OpenAt base last sink) {now : Int} (formatted : Text)
    (again : ¬HourTellsDay last now) :
    ∃ entry ∈ (sinkIt true now now formatted sink).written, ¬InOwnFile base entry := by
  obtain ⟨same, otherDay⟩ := Classical.not_imp.mp again
  refine ⟨⟨now, formatted, some (fileName base last)⟩, ?_, ?_⟩
  · rw [openAt.sinkIt_of_eq formatted same]
    exact List.mem_append_right _ (List.mem_singleton_self _)
  · intro right
    exact otherDay (fileName_eq_iff.mp (Option.some.inj right)).1

/-! ## All messages -/

/-- What has been written stays. -/
theorem mem_sinkAll {entry : Written} (present : entry ∈ sink.written)
    (messages : List (Int × Text)) : entry ∈ (sinkAll sink messages).written := by
  induction messages generalizing sink with
  | nil => exact present
  | cons message messages ih =>
      apply ih
      rw [sinkIt]
      apply List.mem_append_left
      split
      · exact present
      · exact present

/-- From an open file on, all messages are in their own files exactly when the hour always
tells the day. -/
theorem OpenAt.sinkAll_iff (openAt : OpenAt base last sink)
    (right : ∀ entry ∈ sink.written, InOwnFile base entry) (messages : List (Int × Text)) :
    (∀ entry ∈ (sinkAll sink messages).written, InOwnFile base entry) ↔
      (last :: messages.map Prod.fst).IsChain HourTellsDay := by
  induction messages generalizing last sink with
  | nil => exact ⟨fun _ => List.IsChain.singleton last, fun _ => right⟩
  | cons message messages ih =>
      obtain ⟨now, formatted⟩ := message
      rw [List.map_cons, List.isChain_cons_cons]
      by_cases tells : HourTellsDay last now
      · obtain ⟨opened, written⟩ := openAt.sinkIt_right formatted tells
        have still : ∀ entry ∈ (sinkIt true now now formatted sink).written,
            InOwnFile base entry := by
          intro entry member
          rw [written] at member
          rcases List.mem_append.mp member with old | new
          · exact right entry old
          · rw [List.mem_singleton.mp new]
            rfl
        exact (ih opened still).trans (iff_and_self.mpr fun _ => tells)
      · obtain ⟨entry, member, wrong⟩ := openAt.sinkIt_wrong formatted tells
        constructor
        · intro allRight
          exact absurd (allRight entry (mem_sinkAll member messages)) wrong
        · rintro ⟨first, _⟩
          exact absurd first tells

/-- Every message is written to the file of its own year, month, day and hour exactly when
no message comes in the same hour of the day as the one before it, or as the construction,
but on another day. -/
theorem sinkAll_inOwnFile_iff (base : Text) (start : Int) (messages : List (Int × Text)) :
    (∀ entry ∈ (sinkAll (construct true base start) messages).written, InOwnFile base entry) ↔
      (start :: messages.map Prod.fst).IsChain HourTellsDay :=
  (construct_openAt base start).sinkAll_iff (fun _ member => absurd member List.not_mem_nil)
    messages

/-- A message that comes 24 hours after the construction is written to the file of the day
before. -/
theorem next_day_in_old_file :
    (sinkAll (construct true "server".toList 1704067200)
        [(1704153600, "ready".toList)]).written =
      [⟨1704153600, "ready".toList, some "server_2024-01-01_08.log".toList⟩] ∧
    ¬∀ entry ∈ (sinkAll (construct true "server".toList 1704067200)
        [(1704153600, "ready".toList)]).written, InOwnFile "server".toList entry := by
  decide +kernel

end Cncpp.Log
