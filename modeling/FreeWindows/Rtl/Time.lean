/-
**Times and dates.**

`RtlTimeToTimeFields` and `RtlTimeFieldsToTime` of `dlls/ntdll/time.c`, which count the months from March
on and the days with closed formulas. The calendar they are compared with adds up the lengths of months
and years.

* `day_eq`, `fields_date`: **the formulas are those of the calendar**, in both directions;
* `time_fields_correct`: every time up to 2^63 is converted and comes back, up to its milliseconds;
* `accepts_iff`: what is accepted exists, apart from a February of 29 days.
-/

import FreeWindows.Lib.Bits

namespace FreeWindows.Rtl.Time

open Lib

/-- A `TIME_FIELDS`. -/
structure TimeFields where
  year : Int
  month : Int
  day : Int
  hour : Int
  minute : Int
  second : Int
  milliseconds : Int
  weekday : Int
deriving DecidableEq

def monthLengths (leap : Bool) : List Int :=
  if leap then [31, 29, 31, 30, 31, 30, 31, 31, 30, 31, 30, 31]
  else [31, 28, 31, 30, 31, 30, 31, 31, 30, 31, 30, 31]

def isLeapYear (year : Int) : Bool := year % 4 = 0 ∧ (year % 100 ≠ 0 ∨ year % 400 = 0)

/-- A value of a `CSHORT`. -/
def cshort (value : Int) : Int := value.bmod (2 ^ 16)

/-- For times that are not negative, where `/` and `%` are those of C. A `long` has 32 bits; the values
that are left as they are stay below those that are cut off. -/
def rtlTimeToTimeFields (liTime : Nat) : TimeFields :=
  let quadPart : Int := liTime
  let time := quadPart / 10000000
  let days := time / 86400
  let secondsInDay := time % 86400
  let cleaps := (3 * (int32 (4 * days + 1227) / 146097) + 3) / 4
  let shifted := days + (28188 + cleaps)
  let years := int32 (20 * shifted - 2442) / (5 * 1461)
  let yearday := shifted - years * 1461 / 4
  let months := 64 * yearday / 1959
  { milliseconds := cshort (quadPart % 10000000 / 10000)
    hour := cshort (secondsInDay / 3600)
    minute := cshort (secondsInDay % 3600 / 60)
    second := cshort (secondsInDay % 3600 % 60)
    weekday := cshort ((1 + days) % 7)
    month := cshort (if months < 14 then months - 1 else months - 13)
    year := cshort (if months < 14 then years + 1524 else years + 1525)
    day := cshort (yearday - 1959 * months / 64) }

/-- The day count of `RtlTimeFieldsToTime`, for fields that it accepts: they are not negative. -/
def dayCount (tf : TimeFields) : Int :=
  let month := if tf.month < 3 then tf.month + 13 else tf.month + 1
  let year := if tf.month < 3 then tf.year - 1 else tf.year
  let cleaps := (3 * (year / 100) + 3) / 4
  int32 (36525 * year) / 100 - cleaps + 1959 * month / 64 + tf.day - 584817

def rtlTimeFieldsToTime (tf : TimeFields) : Option Int :=
  if tf.milliseconds < 0 ∨ tf.milliseconds > 999 ∨ tf.second < 0 ∨ tf.second > 59 ∨
      tf.minute < 0 ∨ tf.minute > 59 ∨ tf.hour < 0 ∨ tf.hour > 23 ∨ tf.month < 1 ∨ tf.month > 12 ∨
      tf.day < 1 ∨ tf.day > (monthLengths (tf.month = 2 || isLeapYear tf.year)).getD (tf.month - 1).toNat 0 ∨
      tf.year < 1601 then none
  else some ((((((dayCount tf * 24 + tf.hour) * 60 + tf.minute) * 60 + tf.second) * 1000 +
    tf.milliseconds) * 10000).bmod (2 ^ 64))

/-! ### The calendar -/

/-- The days of the first years from 1601 on. -/
def daysOfYears : Nat → Int
  | 0 => 0
  | n + 1 => daysOfYears n + (monthLengths (isLeapYear (1601 + n))).sum

/-- The days from 1601-01-01 to a date. -/
def dayNumber (year month day : Int) : Int :=
  daysOfYears (year - 1601).toNat + ((monthLengths (isLeapYear year)).take (month - 1).toNat).sum + (day - 1)

/-- A date of the Gregorian calendar. -/
def DateExists (year month day : Int) : Prop :=
  1 ≤ month ∧ month ≤ 12 ∧ 1 ≤ day ∧ day ≤ (monthLengths (isLeapYear year)).getD (month - 1).toNat 0

/-- The time of day. -/
structure TimeFields.TimeOfDay (tf : TimeFields) : Prop where
  hour : 0 ≤ tf.hour ∧ tf.hour < 24
  minute : 0 ≤ tf.minute ∧ tf.minute < 60
  second : 0 ≤ tf.second ∧ tf.second < 60
  milliseconds : 0 ≤ tf.milliseconds ∧ tf.milliseconds < 1000

/-- The date, the weekday and the time of day of a time. -/
structure TimeFields.Denotes (tf : TimeFields) (liTime : Nat) : Prop where
  since : 1601 ≤ tf.year
  date : DateExists tf.year tf.month tf.day
  number : dayNumber tf.year tf.month tf.day = liTime / 864000000000
  weekday : tf.weekday = (1 + liTime / 864000000000) % 7
  timeOfDay : tf.TimeOfDay
  ticks : ((tf.hour * 60 + tf.minute) * 60 + tf.second) * 1000 + tf.milliseconds =
    liTime % 864000000000 / 10000

theorem isLeapYear_iff (year : Int) :
    isLeapYear year = true ↔ year % 4 = 0 ∧ (year % 100 ≠ 0 ∨ year / 100 % 4 = 0) := by
  rw [isLeapYear, decide_eq_true_iff]
  omega

theorem daysOfYears_succ (n : Nat) :
    daysOfYears (n + 1) = daysOfYears n + (365 + if isLeapYear (1601 + n) then 1 else 0) := by
  rw [daysOfYears]
  cases isLeapYear (1601 + n) <;> rfl

theorem daysOfYears_eq (n : Nat) : daysOfYears n =
    365 * n + (1600 + n : Int) / 4 - (3 * ((1600 + n : Int) / 100) + 3) / 4 - 388 := by
  induction n with
  | zero => rfl
  | succ n ih =>
    have leap := isLeapYear_iff (1601 + n)
    have cleaps (century : Int) : (3 * century + 3) / 4 = century - century / 4 := by omega
    rw [daysOfYears_succ, ih, cleaps, cleaps, show 1600 + ((n + 1 : Nat) : Int) = 1601 + n by omega]
    split
    · rename_i isLeap
      have := leap.mp isLeap
      omega
    · rename_i isLeap
      have := mt leap.mpr isLeap
      omega

/-- The months before one, counted from March on as the code counts them. -/
theorem take_sum : ∀ leap : Bool, ∀ k < 12, ((monthLengths leap).take k).sum =
    if k < 2 then 1959 * (k + 14 : Int) / 64 - 428
    else 1959 * (k + 2 : Int) / 64 - 63 + if leap then 1 else 0 := by
  decide

/-- **The day count is that of the calendar.** -/
theorem day_eq {tf : TimeFields} (date : DateExists tf.year tf.month tf.day) (since : 1601 ≤ tf.year)
    (small : tf.year < 2 ^ 15) : dayCount tf = dayNumber tf.year tf.month tf.day := by
  obtain ⟨first, last, -, -⟩ := date
  obtain ⟨n, year⟩ : ∃ n : Nat, tf.year = 1601 + n := ⟨(tf.year - 1601).toNat, by omega⟩
  obtain ⟨k, month⟩ : ∃ k : Nat, tf.month = 1 + k := ⟨(tf.month - 1).toNat, by omega⟩
  unfold dayCount dayNumber
  simp only
  rw [int32_eq (by split <;> omega), show (tf.year - 1601).toNat = n by omega,
    show (tf.month - 1).toNat = k by omega, take_sum _ k (by omega)]
  by_cases early : k < 2
  · rw [if_pos (by omega), if_pos (by omega), if_pos early, daysOfYears_eq,
      show tf.year - 1 = 1600 + n by omega, show tf.month + 13 = k + 14 by omega]
    omega
  · -- from March on, the leap day is one of the days before the next year
    have next := daysOfYears_succ n
    rw [daysOfYears_eq (n + 1), ← year] at next
    rw [if_neg (by omega), if_neg (by omega), if_neg early, show tf.month + 1 = k + 2 by omega]
    rw [show 1600 + ((n + 1 : Nat) : Int) = tf.year by omega] at next
    omega

/-! ### From a time to its fields -/

theorem cshort_eq {value : Int} (begun : 0 ≤ value := by omega) (small : value < 2 ^ 15 := by omega) :
    cshort value = value := by
  rw [cshort, Int.bmod_def]
  omega

/-- The centuries are counted right, and the last day is one of a leap year. -/
theorem march_century {days century cleaps years : Int} (centuryEq : century = (4 * days + 1227) / 146097)
    (cleapsEq : cleaps = (3 * century + 3) / 4)
    (yearsEq : years = (20 * (days + (28188 + cleaps)) - 2442) / (5 * 1461)) :
    (years + 1524) / 100 = century + 16 ∧
      (days + (28188 + cleaps) - years * 1461 / 4 = 488 → isLeapYear (years + 1525) = true) := by
  have same : (years + 1524) / 100 = century + 16 := by omega
  refine ⟨same, fun last => (isLeapYear_iff _).mpr ⟨by omega, ?_⟩⟩
  by_contra secular
  rw [not_or, not_not] at secular
  obtain rfl : years = 100 * century + 175 := by omega
  omega

/-- The month of a day and the day in it. -/
theorem month_spec : ∀ leap : Bool, ∀ yearday : Nat, yearday < 489 → 122 < yearday →
    (yearday = 488 → leap = true) →
    1959 * (64 * yearday / 1959) / 64 < yearday ∧ 4 ≤ 64 * yearday / 1959 ∧ 64 * yearday / 1959 ≤ 15 ∧
      ((yearday - 1959 * (64 * yearday / 1959) / 64 : Nat) : Int) ≤ (monthLengths leap).getD
        (64 * yearday / 1959 - if 64 * yearday / 1959 < 14 then 2 else 14) 0 := by
  decide +kernel

theorem fields_date {liTime : Nat} (small : liTime < 2 ^ 63) :
    let tf := rtlTimeToTimeFields liTime
    DateExists tf.year tf.month tf.day ∧ 1601 ≤ tf.year ∧ tf.year < 2 ^ 15 ∧
      dayCount tf = liTime / 10000000 / 86400 := by
  have bounds : 0 ≤ (liTime : Int) / 10000000 / 86400 ∧ (liTime : Int) / 10000000 / 86400 < 10700000 := by omega
  simp only [rtlTimeToTimeFields]
  generalize (liTime : Int) / 10000000 / 86400 = days at *
  rw [int32_eq]
  generalize centuryEq : (4 * days + 1227) / 146097 = century at *
  generalize cleapsEq : (3 * century + 3) / 4 = cleaps at *
  rw [int32_eq]
  generalize yearsEq : (20 * (days + (28188 + cleaps)) - 2442) / (5 * 1461) = years at *
  have span : 76 ≤ years ∧ years < 29500 := by omega
  obtain ⟨same, leap⟩ := march_century centuryEq.symm cleapsEq.symm yearsEq.symm
  generalize ydEq : days + (28188 + cleaps) - years * 1461 / 4 = yearday at *
  obtain ⟨yearday, rfl⟩ := Int.eq_ofNat_of_zero_le (show 0 ≤ yearday by omega)
  obtain ⟨begun, from4, till15, length⟩ := month_spec (isLeapYear
    (if 64 * yearday / 1959 < 14 then years + 1524 else years + 1525)) yearday (by omega) (by omega)
    fun last => by
      rw [if_neg (by omega)]
      exact leap (by omega)
  have newYear : years = 76 → 14 ≤ 64 * yearday / 1959 := by omega
  have yearDays : 36525 * (years + 1524) / 100 = years * 1461 / 4 + 556641 := by omega
  have leapDays : (3 * (century + 16) + 3) / 4 = cleaps + 12 := by omega
  rw [show 64 * (yearday : Int) / 1959 = (64 * yearday / 1959 : Nat) by omega]
  generalize 64 * yearday / 1959 = months at *
  rw [show 1959 * (months : Int) / 64 = (1959 * months / 64 : Nat) by omega]
  have monthDays : 1959 * (months : Int) / 64 = (1959 * months / 64 : Nat) := by omega
  generalize 1959 * months / 64 = before at *
  have day : cshort ((yearday : Int) - before) = (yearday - before : Nat) :=
    (cshort_eq).trans (by omega)
  rw [day]
  clear yearsEq centuryEq cleapsEq
  by_cases early : months < 14
  · rw [if_pos early, if_pos early] at length
    rw [if_pos (by omega), if_pos (by omega), cshort_eq, cshort_eq]
    refine ⟨⟨by omega, by omega, by omega, ?_⟩, by omega, by omega, ?_⟩
    · rwa [show ((months : Int) - 1 - 1).toNat = months - 2 by omega]
    · unfold dayCount
      simp only
      rw [if_neg (by omega), if_neg (by omega), int32_eq, yearDays,
        show (months : Int) - 1 + 1 = months by omega, same, leapDays, monthDays]
      omega
  · rw [if_neg early, if_neg early] at length
    rw [if_neg (by omega), if_neg (by omega), cshort_eq, cshort_eq]
    refine ⟨⟨by omega, by omega, by omega, ?_⟩, by omega, by omega, ?_⟩
    · rwa [show ((months : Int) - 13 - 1).toNat = months - 14 by omega]
    · unfold dayCount
      simp only
      rw [if_pos (by omega), if_pos (by omega), int32_eq,
        show years + 1525 - 1 = years + 1524 by omega, yearDays,
        show (months : Int) - 13 + 13 = months by omega, same, leapDays, monthDays]
      omega

/-- What is accepted: the lengths of the months are those of leap years for a February. -/
theorem accepted_iff (tf : TimeFields) : (rtlTimeFieldsToTime tf).isSome = true ↔
    1601 ≤ tf.year ∧ tf.TimeOfDay ∧ (1 ≤ tf.month ∧ tf.month ≤ 12) ∧ 1 ≤ tf.day ∧
      tf.day ≤ (monthLengths (tf.month = 2 || isLeapYear tf.year)).getD (tf.month - 1).toNat 0 := by
  unfold rtlTimeFieldsToTime
  split
  · rename_i refused
    refine iff_of_false Bool.false_ne_true ?_
    rintro ⟨since, ⟨hour, minute, second, milliseconds⟩, month, day⟩
    omega
  · refine iff_of_true rfl ⟨by omega, ⟨by omega, by omega, by omega, by omega⟩, by omega, by omega, by omega⟩

/-- The lengths agree with those of the calendar, apart from a February that is not one of a leap year. -/
theorem length_eq (leap : Bool) {month : Int} (first : 1 ≤ month) (last : month ≤ 12) :
    (monthLengths (month = 2 || leap)).getD (month - 1).toNat 0 =
      (monthLengths leap).getD (month - 1).toNat 0 + if month = 2 ∧ leap = false then 1 else 0 := by
  interval_cases month <;> cases leap <;> rfl

theorem exists_accepted {tf : TimeFields} (since : 1601 ≤ tf.year) (time : tf.TimeOfDay)
    (date : DateExists tf.year tf.month tf.day) : (rtlTimeFieldsToTime tf).isSome = true := by
  obtain ⟨first, last, day, length⟩ := date
  refine (accepted_iff tf).mpr ⟨since, time, ⟨first, last⟩, day, ?_⟩
  rw [length_eq _ first last]
  split <;> omega

theorem accepts_iff (tf : TimeFields) :
    ((rtlTimeFieldsToTime tf).isSome = true ↔
      1601 ≤ tf.year ∧ tf.TimeOfDay ∧ DateExists tf.year tf.month tf.day) ↔
    ¬ (1601 ≤ tf.year ∧ tf.TimeOfDay ∧ tf.month = 2 ∧ tf.day = 29 ∧ isLeapYear tf.year = false) := by
  have february : tf.month = 2 ∧ isLeapYear tf.year = false →
      (monthLengths (isLeapYear tf.year)).getD (tf.month - 1).toNat 0 = 28 := by
    rintro ⟨month, common⟩
    rw [month, common]
    rfl
  constructor
  · rintro same ⟨since, time, month, day, common⟩
    have accepted := (accepted_iff tf).mpr ⟨since, time, by omega, by omega, by
      rw [length_eq _ (by omega) (by omega), february ⟨month, common⟩, if_pos ⟨month, common⟩]
      omega⟩
    have length := (same.mp accepted).2.2.2.2.2
    rw [february ⟨month, common⟩] at length
    omega
  · intro usual
    refine ⟨fun accepted => ?_, fun ⟨since, time, date⟩ => exists_accepted since time date⟩
    obtain ⟨since, time, ⟨first, last⟩, day, length⟩ := (accepted_iff tf).mp accepted
    refine ⟨since, time, first, last, day, ?_⟩
    rw [length_eq _ first last] at length
    split at length
    · rename_i common
      have := february common
      have : tf.day ≠ 29 := fun leapDay => usual ⟨since, time, common.1, leapDay, common.2⟩
      omega
    · omega

/-- The day after the last one of February 1601 is accepted. -/
theorem accepts_february : (rtlTimeFieldsToTime ⟨1601, 2, 29, 0, 0, 0, 0, 0⟩).isSome = true ∧
    ¬ DateExists 1601 2 29 := by
  refine ⟨by decide, ?_⟩
  rintro ⟨-, -, -, short⟩
  exact absurd short (by decide)

theorem fields_time (liTime : Nat) :
    let tf := rtlTimeToTimeFields liTime
    tf.hour = liTime / 10000000 % 86400 / 3600 ∧ tf.minute = liTime / 10000000 % 86400 % 3600 / 60 ∧
      tf.second = liTime / 10000000 % 86400 % 3600 % 60 ∧ tf.milliseconds = liTime % 10000000 / 10000 ∧
      tf.weekday = (1 + liTime / 10000000 / 86400) % 7 := by
  simp only [rtlTimeToTimeFields]
  refine ⟨?_, ?_, ?_, ?_, ?_⟩ <;> exact cshort_eq

theorem time_fields_correct (liTime : Nat) (small : liTime < 2 ^ 63) :
    (rtlTimeToTimeFields liTime).Denotes liTime ∧
      rtlTimeFieldsToTime (rtlTimeToTimeFields liTime) = some (liTime - liTime % 10000) := by
  obtain ⟨date, since, year, count⟩ := fields_date small
  obtain ⟨hour, minute, second, milliseconds, weekday⟩ := fields_time liTime
  generalize rtlTimeToTimeFields liTime = tf at *
  have timeOfDay : tf.TimeOfDay := ⟨by omega, by omega, by omega, by omega⟩
  refine ⟨⟨since, date, ?_, by omega, timeOfDay, by omega⟩, ?_⟩
  · rw [← day_eq date since year, count]
    omega
  · have accepted := exists_accepted since timeOfDay date
    unfold rtlTimeFieldsToTime at accepted ⊢
    split at accepted
    · cases accepted
    · rw [if_neg (by assumption), count, Int.bmod_def]
      congr 1
      omega

/-- Tuesday, 29 February 2000, 12:34:56.789. -/
theorem time_fields_correct_leapDay : 125963012967891234 < 2 ^ 63 ∧
    rtlTimeToTimeFields 125963012967891234 = ⟨2000, 2, 29, 12, 34, 56, 789, 2⟩ ∧
    (rtlTimeToTimeFields 125963012967891234).Denotes 125963012967891234 ∧
    rtlTimeFieldsToTime (rtlTimeToTimeFields 125963012967891234) = some 125963012967890000 :=
  ⟨by decide, by decide +kernel, time_fields_correct 125963012967891234 (by decide)⟩

end FreeWindows.Rtl.Time
