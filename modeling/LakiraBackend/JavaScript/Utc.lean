import LakiraBackend.JavaScript.Date

/-!
# `Date.UTC`, and the fields of a time

`Date.UTC` of a year, a month and a day of the month, where a month may be past the year and
a day past the month; a year from 0 to 99 is one of the twentieth century.  `getUTC…` are the
fields of a time, which is in its month (`day_in_month`); a month is found by any day in it
(`utcMonth_eq`).
-/

namespace LakiraBackend.JavaScript.Date

/-! ### Fields -/

def dayOf (ms : Int) : Int := ms / msPerDay

def getUTCFullYear (ms : Int) : Int := yearFromDay (dayOf ms)

/-- The day of the year, from 0. -/
def dayInYear (ms : Int) : Nat := (dayOf ms - dayFromYear (getUTCFullYear ms)).toNat

/-- From 0. -/
def getUTCMonth (ms : Int) : Nat := monthOf (isLeap (getUTCFullYear ms)) (dayInYear ms)

/-- From 1. -/
def getUTCDate (ms : Int) : Nat :=
  dayInYear ms - monthStart (isLeap (getUTCFullYear ms)) (getUTCMonth ms) + 1

/-- From 0, a Sunday. -/
def getUTCDay (ms : Int) : Int := (dayOf ms + 4) % 7

def getUTCHours (ms : Int) : Int := ms % msPerDay / 3600000

def getUTCMinutes (ms : Int) : Int := ms % 3600000 / 60000

def getUTCSeconds (ms : Int) : Int := ms % 60000 / 1000

/-! ### `Date.UTC` -/

/-- The first day of the month so many months after a year's first. -/
def firstOfMonth (year month : Int) : Int :=
  dayFromYear (year + month / 12) + monthStart (isLeap (year + month / 12)) (month % 12).toNat

def fullYear (year : Int) : Int := if 0 ≤ year ∧ year ≤ 99 then 1900 + year else year

/-- `TimeClip`; none is `NaN`. -/
def timeClip (ms : Int) : Option Int :=
  if -8640000000000000 ≤ ms ∧ ms ≤ 8640000000000000 then some ms else none

/-- `Date.UTC(year, month, date)`. -/
def UTC (year month date : Int) : Option Int :=
  timeClip ((firstOfMonth (fullYear year) month + (date - 1)) * msPerDay)

/-- The time of a day, in milliseconds. -/
def makeTime (hours minutes seconds : Int) : Int := ((hours * 60 + minutes) * 60 + seconds) * 1000

/-- `Date.UTC(year, month, date, hours, minutes, seconds)`. -/
def UTCTime (year month date hours minutes seconds : Int) : Option Int :=
  timeClip ((firstOfMonth (fullYear year) month + (date - 1)) * msPerDay +
    makeTime hours minutes seconds)

/-! ### The calendar, once more -/

variable {y d ms : Int} {m n : Nat} {leap : Bool}

theorem dayFromYear_lt (y : Int) : dayFromYear y < dayFromYear (y + 1) := by
  unfold dayFromYear
  omega

theorem dayFromYear_mono {x y : Int} (h : x ≤ y) : dayFromYear x ≤ dayFromYear y := by
  unfold dayFromYear
  omega

/-- A day is in one year. -/
theorem yearFromDay_eq (h : dayFromYear y ≤ d) (h' : d < dayFromYear (y + 1)) :
    yearFromDay d = y := by
  obtain ⟨hle, hlt⟩ := yearFromDay_spec d
  rcases Int.lt_trichotomy (yearFromDay d) y with hc | hc | hc
  · have := dayFromYear_mono (show yearFromDay d + 1 ≤ y by omega)
    omega
  · exact hc
  · have := dayFromYear_mono (show y + 1 ≤ yearFromDay d by omega)
    omega

theorem monthStart_lt (leap : Bool) (h : m < 12) :
    monthStart leap m < monthStart leap (m + 1) := by
  have hall : ∀ leap : Bool, ∀ m < 12, monthStart leap m < monthStart leap (m + 1) := by decide
  exact hall leap m h

theorem lt_monthStart_succ (leap : Bool) (h : n < 365 + leap.toNat) :
    n < monthStart leap (monthOf leap n + 1) := by
  have hall : ∀ leap : Bool, ∀ n < 365 + leap.toNat, n < monthStart leap (monthOf leap n + 1) := by
    decide +kernel
  exact hall leap n h

/-- A day of the year is in one month. -/
theorem monthOf_eq (hm : m < 12) (h : monthStart leap m ≤ n) (h' : n < monthStart leap (m + 1)) :
    monthOf leap n = m := by
  have hall : ∀ leap : Bool, ∀ m < 12, ∀ n < monthStart leap (m + 1), monthStart leap m ≤ n →
      monthOf leap n = m := by
    decide +kernel
  exact hall leap m hm n h' h

/-- A time is in its year. -/
theorem dayInYear_spec (ms : Int) :
    dayOf ms = dayFromYear (getUTCFullYear ms) + dayInYear ms ∧
      dayInYear ms < 365 + (isLeap (getUTCFullYear ms)).toNat := by
  obtain ⟨hle, hlt⟩ := yearFromDay_spec (dayOf ms)
  have hlength := year_length (getUTCFullYear ms)
  rw [dayInYear]
  change dayFromYear (getUTCFullYear ms) ≤ _ at hle
  change _ < dayFromYear (getUTCFullYear ms + 1) at hlt
  omega

theorem firstOfMonth_of_lt (hm : m < 12) :
    firstOfMonth y m = dayFromYear y + monthStart (isLeap y) m := by
  have hdiv : ((m : Int) / 12) = 0 := by omega
  have hmod : ((m : Int) % 12).toNat = m := by omega
  rw [firstOfMonth, hdiv, hmod, Int.add_zero]

/-- The thirteenth month of a year is the first of the next. -/
theorem firstOfMonth_succ (hm : m < 12) :
    firstOfMonth y (m + 1) = dayFromYear y + monthStart (isLeap y) (m + 1) := by
  by_cases h : m + 1 < 12
  · exact firstOfMonth_of_lt h
  · obtain rfl : m = 11 := by omega
    have hlength := year_length y
    have hmonth : firstOfMonth y ((11 : Nat) + 1) = dayFromYear (y + 1) := by
      change dayFromYear (y + 1) + (0 : Nat) = _
      omega
    rw [hmonth]
    change _ = dayFromYear y + ((365 + (isLeap y).toNat : Nat) : Int)
    omega

/-- **A time is in its month.** -/
theorem day_in_month (ms : Int) :
    firstOfMonth (getUTCFullYear ms) (getUTCMonth ms) ≤ dayOf ms ∧
      dayOf ms < firstOfMonth (getUTCFullYear ms) (getUTCMonth ms + 1) ∧ getUTCMonth ms < 12 := by
  obtain ⟨hday, hlt⟩ := dayInYear_spec ms
  obtain ⟨hm, hle, -⟩ := monthOf_spec (isLeap (getUTCFullYear ms)) hlt
  have hnext := lt_monthStart_succ (isLeap (getUTCFullYear ms)) hlt
  change getUTCMonth ms < 12 at hm
  rw [firstOfMonth_of_lt hm, firstOfMonth_succ hm, hday]
  refine ⟨?_, ?_, hm⟩
  · exact Int.add_le_add_left (Int.ofNat_le.mpr hle) _
  · exact Int.add_lt_add_left (Int.ofNat_lt.mpr hnext) _

/-- A month is that of each of its days. -/
theorem fields_eq (hm : m < 12) (h : firstOfMonth y m ≤ dayOf ms)
    (h' : dayOf ms < firstOfMonth y (m + 1)) : getUTCFullYear ms = y ∧ getUTCMonth ms = m := by
  rw [firstOfMonth_of_lt hm] at h
  rw [firstOfMonth_succ hm] at h'
  have hlength := year_length y
  have hle : monthStart (isLeap y) (m + 1) ≤ 365 + (isLeap y).toNat := by
    have hall : ∀ leap : Bool, ∀ m < 12, monthStart leap (m + 1) ≤ 365 + leap.toNat := by decide
    exact hall _ m hm
  have hyear : getUTCFullYear ms = y := yearFromDay_eq (by omega) (by omega)
  refine ⟨hyear, ?_⟩
  rw [getUTCMonth, dayInYear, hyear]
  exact monthOf_eq hm (by omega) (by omega)

/-- The day of the month is counted from the month's first. -/
theorem getUTCDate_eq (ms : Int) : (getUTCDate ms : Int) =
    dayOf ms - firstOfMonth (getUTCFullYear ms) (getUTCMonth ms) + 1 := by
  obtain ⟨hday, hlt⟩ := dayInYear_spec ms
  obtain ⟨hm, hle, -⟩ := monthOf_spec (isLeap (getUTCFullYear ms)) hlt
  change getUTCMonth ms < 12 at hm
  change monthStart (isLeap (getUTCFullYear ms)) (getUTCMonth ms) ≤ dayInYear ms at hle
  rw [firstOfMonth_of_lt hm, hday, getUTCDate]
  omega

/-- The day of a time is the date of its fields. -/
theorem day_of_fields (ms : Int) :
    firstOfMonth (getUTCFullYear ms) (getUTCMonth ms) + ((getUTCDate ms : Int) - 1) = dayOf ms := by
  have hdate := getUTCDate_eq ms
  omega

/-- The time of day of a time's fields, in whole seconds. -/
theorem makeTime_of_fields (ms : Int) :
    makeTime (getUTCHours ms) (getUTCMinutes ms) (getUTCSeconds ms) =
      ms % msPerDay / 1000 * 1000 := by
  unfold makeTime getUTCHours getUTCMinutes getUTCSeconds msPerDay
  omega

end LakiraBackend.JavaScript.Date
