import LakiraBackend.Analytics.Buckets

/-!
# Months before a wall time

The month so many months before, at the same time of the same day, or of the last day that the
month has: `MonthsBefore`.  `subtractMonthsWall` finds it by way of the first and the last day of
the month, which a `Date` has to have room for, and reads a year from 0 to 99 as one of the
twentieth century (`subtractMonthsWall_eq_iff`).
-/

namespace LakiraBackend.Analytics

open LakiraBackend.JavaScript
open LakiraBackend.JavaScript.Date

/-! ### Months -/

/-- How many days a month has. -/
def daysInMonth (y : Int) (m : Nat) : Int := firstOfMonth y (m + 1) - firstOfMonth y m

/-- A month, counted from the first one of the year 0. -/
def monthIndex (w : Int) : Int := 12 * getUTCFullYear w + getUTCMonth w

/-- The wall time so many months before another. -/
structure MonthsBefore (w : Int) (n : Nat) (r : Int) : Prop where
  month : monthIndex r = monthIndex w - n
  timeOfDay : r % DAY_MS = w % DAY_MS
  day : (getUTCDate r : Int) =
    min (getUTCDate w : Int) (daysInMonth (getUTCFullYear r) (getUTCMonth r))

variable {y w r ms : Int} {m n : Nat}

theorem daysInMonth_pos (hm : m < 12) : 0 < daysInMonth y m :=
  Int.sub_pos.mpr (firstOfMonth_lt hm)

theorem firstOfMonth_normal (y m : Int) :
    firstOfMonth y m = firstOfMonth (y + m / 12) ((m % 12).toNat : Int) := by
  have hlt : (m % 12).toNat < 12 := by omega
  rw [firstOfMonth_of_lt hlt, firstOfMonth]

/-- The fields of a day of a month. -/
theorem fields_of_day {d : Int} (hm : m < 12) (h : firstOfMonth y m ≤ d)
    (h' : d < firstOfMonth y (m + 1)) :
    getUTCFullYear (d * DAY_MS) = y ∧ getUTCMonth (d * DAY_MS) = m ∧
      (getUTCDate (d * DAY_MS) : Int) = d - firstOfMonth y m + 1 := by
  have hday : dayOf (d * DAY_MS) = d := dayOf_mul d
  obtain ⟨hy, hmonth⟩ := fields_eq hm (h.trans_eq hday.symm) (hday.trans_lt h')
  refine ⟨hy, hmonth, ?_⟩
  rw [getUTCDate_eq, hy, hmonth, hday]

/-- A day of a month is one of its days. -/
theorem getUTCDate_le (w : Int) :
    1 ≤ (getUTCDate w : Int) ∧
      (getUTCDate w : Int) ≤ daysInMonth (getUTCFullYear w) (getUTCMonth w) := by
  obtain ⟨hfirst, hnext, -⟩ := day_in_month w
  have hdate := getUTCDate_eq w
  rw [daysInMonth]
  omega

/-! ### The target -/

/-- The year and the month so many months before. -/
def targetYear (w : Int) (n : Nat) : Int := getUTCFullYear w + (getUTCMonth w - n : Int) / 12

def targetMonth (w : Int) (n : Nat) : Nat := ((getUTCMonth w - n : Int) % 12).toNat

theorem targetMonth_lt (w : Int) (n : Nat) : targetMonth w n < 12 := by
  rw [targetMonth]
  omega

theorem fields_of_monthsBefore (h : MonthsBefore w n r) :
    getUTCFullYear r = targetYear w n ∧ getUTCMonth r = targetMonth w n := by
  have hmonth := h.month
  have hr := (day_in_month r).2.2
  have hw := (day_in_month w).2.2
  rw [monthIndex, monthIndex] at hmonth
  rw [targetYear, targetMonth]
  omega

/-- **There is one** such wall time. -/
theorem monthsBefore_iff : MonthsBefore w n r ↔
    r = (firstOfMonth (targetYear w n) (targetMonth w n) +
      (min (getUTCDate w : Int) (daysInMonth (targetYear w n) (targetMonth w n)) - 1)) * DAY_MS +
        w % DAY_MS := by
  constructor
  · intro h
    obtain ⟨hy, hm⟩ := fields_of_monthsBefore h
    have hdate := h.day
    have htime := h.timeOfDay
    have hr := day_of_fields r
    have hdiv := dayOf_eq r
    rw [hy, hm] at hdate hr
    rw [← hdate, hr]
    rw [DAY_MS_eq] at htime ⊢
    omega
  · intro h
    let d := firstOfMonth (targetYear w n) (targetMonth w n) +
      (min (getUTCDate w : Int) (daysInMonth (targetYear w n) (targetMonth w n)) - 1)
    have hm := targetMonth_lt w n
    have hpos := daysInMonth_pos (y := targetYear w n) hm
    have hone := (getUTCDate_le w).1
    have hrem : r % 86400000 = w % 86400000 := by
      rw [h, DAY_MS_eq]
      omega
    have hd : dayOf r = d := by
      rw [dayOf_eq, h, DAY_MS_eq]
      omega
    have hlt : d < firstOfMonth (targetYear w n) (targetMonth w n + 1) := by
      simp only [d, daysInMonth] at hpos ⊢
      omega
    have hle : firstOfMonth (targetYear w n) (targetMonth w n) ≤ d := by
      simp only [d]
      omega
    obtain ⟨hy, hmonth⟩ := fields_eq hm (hle.trans_eq hd.symm) (hd.trans_lt hlt)
    refine ⟨?_, hrem, ?_⟩
    · rw [monthIndex, hy, hmonth, monthIndex, targetYear, targetMonth]
      omega
    · rw [getUTCDate_eq, hy, hmonth, hd]
      simp only [d]
      omega

/-! ### What is computed -/

/-- The day of the target, of a source and a target that are in other years than their own. -/
def dayIn (u : Int) (w : Int) (n : Nat) : Int :=
  firstOfMonth u (targetMonth w n) +
    (min (getUTCDate w : Int) (daysInMonth u (targetMonth w n)) - 1)

/-- The day of the source, in another year than its own. -/
def sourceIn (s : Int) (w : Int) : Int := firstOfMonth s (getUTCMonth w) + (getUTCDate w - 1)

/-- A `Date` has room for each day that is looked at: the first of the target's month in the year
`t`, the last of it in the year `u`, the source's in the year `s`, and the target. -/
def Room (s t u : Int) (w : Int) (n : Nat) : Prop :=
  InRange (firstOfMonth t (targetMonth w n) * DAY_MS) ∧
    InRange ((firstOfMonth u (targetMonth w n + 1) - 1) * DAY_MS) ∧
    InRange (sourceIn s w * DAY_MS) ∧ InRange (dayIn u w n * DAY_MS)

instance (s t u : Int) (w : Int) (n : Nat) : Decidable (Room s t u w n) :=
  inferInstanceAs (Decidable (_ ∧ _ ∧ _ ∧ _))

/-- **What is computed**: `Date.UTC` reads the year of the source, and again the year of the
target. -/
theorem subtractMonthsWall_eq (hw : InRange w) (n : Nat) {s t u : Int}
    (hs : s = fullYear (getUTCFullYear w)) (ht : t = s + (getUTCMonth w - n : Int) / 12)
    (hu : u = fullYear t) : subtractMonthsWall w n =
      if Room s t u w n then some (dayIn u w n * DAY_MS + (w - sourceIn s w * DAY_MS))
      else none := by
  let m : Int := targetMonth w n
  have hm : targetMonth w n < 12 := targetMonth_lt w n
  have hfirst : UTC (getUTCFullYear w) (getUTCMonth w - n) 1 =
      timeClip (firstOfMonth t m * DAY_MS) := by
    rw [UTC, firstOfMonth_normal, Int.sub_self, Int.add_zero, ← hs, ← ht]
    rfl
  have hsource : startOfDay w = timeClip (sourceIn s w * DAY_MS) := by
    rw [startOfDay, timeClip_of_inRange hw, hs]
    rfl
  obtain ⟨hty, htm, -⟩ := fields_of_day (y := t) hm le_rfl (firstOfMonth_lt hm)
  have hlast : UTC t (m + 1) 0 = timeClip ((firstOfMonth u (m + 1) - 1) * DAY_MS) := by
    rw [UTC, Int.zero_sub, ← Int.sub_eq_add_neg, ← hu]
    rfl
  have hdate : (getUTCDate ((firstOfMonth u (m + 1) - 1) * DAY_MS) : Int) =
      daysInMonth u (targetMonth w n) := by
    have hlt : firstOfMonth u (targetMonth w n) < firstOfMonth u (m + 1) := firstOfMonth_lt hm
    obtain ⟨-, -, hd⟩ := fields_of_day (y := u) (d := firstOfMonth u (m + 1) - 1) hm (by omega)
      (Int.sub_lt_self _ (by decide))
    rw [hd, daysInMonth]
    change _ = firstOfMonth u (m + 1) - _
    omega
  have htarget : UTC t m (min (getUTCDate w : Int) (daysInMonth u (targetMonth w n))) =
      timeClip (dayIn u w n * DAY_MS) := by
    rw [UTC, ← hu]
    rfl
  have hcode : subtractMonthsWall w n =
      (timeClip (firstOfMonth t m * DAY_MS)).bind fun firstOfTarget =>
        (UTC (getUTCFullYear firstOfTarget) (getUTCMonth firstOfTarget + 1) 0).bind
          fun lastOfTarget => (startOfDay w).bind fun day =>
            (UTC (getUTCFullYear firstOfTarget) (getUTCMonth firstOfTarget)
              (min (getUTCDate w) (getUTCDate lastOfTarget))).bind fun target =>
                some (target + (w - day)) := by
    rw [subtractMonthsWall, timeClip_of_inRange hw, ← hfirst]
    rfl
  rw [hcode]
  by_cases h₁ : InRange (firstOfMonth t m * DAY_MS)
  · rw [timeClip_of_inRange h₁, Option.bind_some, hty, htm, hlast]
    by_cases h₂ : InRange ((firstOfMonth u (m + 1) - 1) * DAY_MS)
    · rw [timeClip_of_inRange h₂, Option.bind_some, hsource, hdate, htarget]
      by_cases h₃ : InRange (sourceIn s w * DAY_MS)
      · rw [timeClip_of_inRange h₃, Option.bind_some]
        by_cases h₄ : InRange (dayIn u w n * DAY_MS)
        · rw [timeClip_of_inRange h₄, Option.bind_some, if_pos ⟨h₁, h₂, h₃, h₄⟩]
        · rw [timeClip_of_not_inRange h₄, Option.bind_none, if_neg fun h => h₄ h.2.2.2]
      · rw [timeClip_of_not_inRange h₃, Option.bind_none, if_neg fun h => h₃ h.2.2.1]
    · rw [timeClip_of_not_inRange h₂, Option.bind_none, if_neg fun h => h₂ h.2.1]
  · rw [timeClip_of_not_inRange h₁, Option.bind_none, if_neg fun h => h₁ h.1]

/-! ### When it is the target -/

/-- A year that `Date.UTC` takes for one of the twentieth century. -/
def FirstCentury (y : Int) : Prop := 0 ≤ y ∧ y ≤ 99

instance (y : Int) : Decidable (FirstCentury y) := inferInstanceAs (Decidable (_ ∧ _))

/-- How many days before the source the target is, were both so many years later. -/
def daysBack (later : Int) (w : Int) (n : Nat) : Int :=
  sourceIn (getUTCFullYear w + later) w - dayIn (targetYear w n + later) w n

/-- The years are read as they are, and a `Date` has room for all of the target's month. -/
def ReadAsWritten (w : Int) (n : Nat) : Prop :=
  ¬FirstCentury (getUTCFullYear w) ∧ ¬FirstCentury (targetYear w n) ∧
    InRange (firstOfMonth (targetYear w n) (targetMonth w n) * DAY_MS) ∧
    InRange ((firstOfMonth (targetYear w n) (targetMonth w n + 1) - 1) * DAY_MS)

instance (w : Int) (n : Nat) : Decidable (ReadAsWritten w n) :=
  inferInstanceAs (Decidable (_ ∧ _ ∧ _ ∧ _))

/-- Both years are read as 1900 years later, and the calendar has as many days between source and
target then. -/
def ReadAlike (w : Int) (n : Nat) : Prop :=
  FirstCentury (getUTCFullYear w) ∧ ¬FirstCentury (targetYear w n + 1900) ∧
    daysBack 1900 w n = daysBack 0 w n

instance (w : Int) (n : Nat) : Decidable (ReadAlike w n) :=
  inferInstanceAs (Decidable (_ ∧ _ ∧ _))

theorem fullYear_of_not (h : ¬FirstCentury y) : fullYear y = y := if_neg h

theorem fullYear_of_firstCentury (h : FirstCentury y) : fullYear y = y + 1900 :=
  (if_pos h).trans (Int.add_comm _ _)

theorem firstOfMonth_bounds (y : Int) (hm : m < 12) :
    dayFromYear y ≤ firstOfMonth y m ∧ firstOfMonth y (m + 1) ≤ dayFromYear (y + 1) ∧
      daysInMonth y m ≤ 31 := by
  have hall : ∀ leap : Bool, ∀ m < 12, monthStart leap (m + 1) ≤ 365 + leap.toNat ∧
      monthStart leap (m + 1) ≤ monthStart leap m + 31 := by decide
  obtain ⟨hle, hlast⟩ := hall (isLeap y) m hm
  have hlength := year_length y
  rw [daysInMonth, firstOfMonth_of_lt hm, firstOfMonth_succ hm]
  omega

/-- The day of a target is one of its year. -/
theorem dayIn_bounds (u w : Int) (n : Nat) :
    dayFromYear u ≤ dayIn u w n ∧ dayIn u w n < dayFromYear (u + 1) := by
  have hm := targetMonth_lt w n
  obtain ⟨hfirst, hnext, -⟩ := firstOfMonth_bounds u hm
  have hpos := daysInMonth_pos (y := u) hm
  have hone := (getUTCDate_le w).1
  rw [daysInMonth] at hpos
  rw [dayIn, daysInMonth]
  omega

theorem sourceIn_bounds (s w : Int) :
    dayFromYear s ≤ sourceIn s w ∧ sourceIn s w < dayFromYear (s + 1) + 31 := by
  have hm := (day_in_month w).2.2
  obtain ⟨hone, hle⟩ := getUTCDate_le w
  obtain ⟨-, -, hmost⟩ := firstOfMonth_bounds (getUTCFullYear w) hm
  obtain ⟨hfirst, hnext, -⟩ := firstOfMonth_bounds s hm
  have hlt := firstOfMonth_lt (y := s) hm
  rw [sourceIn]
  omega

/-- 1900 years later is as many days later, give or take a year. -/
theorem dayFromYear_later (y : Int) : 693960 ≤ dayFromYear (y + 1900) - dayFromYear y ∧
    dayFromYear (y + 1900) - dayFromYear y ≤ 693961 ∧
    dayFromYear (y + 1) ≤ dayFromYear y + 366 ∧
    dayFromYear (y + 1900 + 1) ≤ dayFromYear (y + 1900) + 366 := by
  unfold dayFromYear
  omega

theorem dayIn_later (u w : Int) (n : Nat) : 693500 ≤ dayIn (u + 1900) w n - dayIn u w n ∧
    dayIn (u + 1900) w n - dayIn u w n ≤ 694400 := by
  have hyear := dayIn_bounds u w n
  have hlater := dayIn_bounds (u + 1900) w n
  have hdays := dayFromYear_later u
  omega

theorem sourceIn_later (s w : Int) : 693500 ≤ sourceIn (s + 1900) w - sourceIn s w ∧
    sourceIn (s + 1900) w - sourceIn s w ≤ 694400 := by
  have hyear := sourceIn_bounds s w
  have hlater := sourceIn_bounds (s + 1900) w
  have hdays := dayFromYear_later s
  omega

theorem source_eq (w : Int) : w = sourceIn (getUTCFullYear w) w * DAY_MS + w % DAY_MS := by
  have hday := day_of_fields w
  have hdiv := dayOf_eq w
  rw [sourceIn, hday, DAY_MS_eq]
  omega

theorem eq_target_iff (hw : InRange w) (hr : MonthsBefore w n r) {s t u : Int}
    (hs : s = fullYear (getUTCFullYear w)) (ht : t = s + (getUTCMonth w - n : Int) / 12)
    (hu : u = fullYear t) :
    subtractMonthsWall w n = some r ↔
      Room s t u w n ∧ sourceIn s w - dayIn u w n = daysBack 0 w n := by
  have htarget := monthsBefore_iff.mp hr
  change r = dayIn (targetYear w n) w n * DAY_MS + w % DAY_MS at htarget
  have hsource := source_eq w
  have hlands : dayIn u w n * DAY_MS + (w - sourceIn s w * DAY_MS) = r ↔
      sourceIn s w - dayIn u w n = daysBack 0 w n := by
    rw [daysBack, Int.add_zero, Int.add_zero]
    rw [DAY_MS_eq] at *
    omega
  rw [subtractMonthsWall_eq hw n hs ht hu]
  by_cases hroom : Room s t u w n
  · rw [if_pos hroom, Option.some_inj, hlands, and_iff_right hroom]
  · rw [if_neg hroom]
    exact ⟨nofun, fun h => absurd h.1 hroom⟩

/-- The target's day is one a `Date` has room for. -/
theorem inRange_target (hr : MonthsBefore w n r) (hin : InRange r) :
    InRange (dayIn (targetYear w n) w n * DAY_MS) := by
  have htarget := monthsBefore_iff.mp hr
  change r = dayIn (targetYear w n) w n * DAY_MS + w % DAY_MS at htarget
  rw [InRange, DAY_MS_eq] at *
  omega

theorem inRange_source (hw : InRange w) : InRange (sourceIn (getUTCFullYear w) w * DAY_MS) := by
  have hsource := source_eq w
  rw [InRange, DAY_MS_eq] at *
  omega

theorem targetYear_le (w : Int) (n : Nat) : targetYear w n ≤ getUTCFullYear w := by
  have hm := (day_in_month w).2.2
  rw [targetYear]
  omega

/-- Where both years are read as 1900 years later a `Date` has room. -/
theorem room_of_firstCentury (hs : FirstCentury (getUTCFullYear w)) (hr : MonthsBefore w n r)
    (hin : InRange r) :
    Room (getUTCFullYear w + 1900) (targetYear w n + 1900) (targetYear w n + 1900) w n := by
  have hm := targetMonth_lt w n
  have htarget := inRange_target hr hin
  have hle := targetYear_le w n
  have hupper : dayFromYear (targetYear w n + 1900 + 1) ≤ dayFromYear 2000 :=
    dayFromYear_mono (by have := hs.2; omega)
  have hsource := sourceIn_bounds (getUTCFullYear w + 1900) w
  have hfrom : dayFromYear 1900 ≤ dayFromYear (getUTCFullYear w + 1900) :=
    dayFromYear_mono (by have := hs.1; omega)
  have hto : dayFromYear (getUTCFullYear w + 1900 + 1) ≤ dayFromYear 2000 :=
    dayFromYear_mono (by have := hs.2; omega)
  have hyear := dayIn_bounds (targetYear w n) w n
  have hlater := dayIn_bounds (targetYear w n + 1900) w n
  have hdays := dayFromYear_later (targetYear w n)
  have hmonth := firstOfMonth_bounds (targetYear w n + 1900) hm
  have hlt := firstOfMonth_lt (y := targetYear w n + 1900) hm
  have h1900 : dayFromYear 1900 = -25567 := by decide
  have h2000 : dayFromYear 2000 = 10957 := by decide
  rw [InRange, DAY_MS_eq] at htarget
  simp only [Room, InRange, DAY_MS_eq]
  omega

/-- **Months are subtracted exactly** if and only if the years are read as written and the target's
month is one a `Date` has room for, or both are read alike. -/
theorem subtractMonthsWall_exact_iff (hw : InRange w) (hr : MonthsBefore w n r)
    (hin : InRange r) :
    (∃ r', subtractMonthsWall w n = some r' ∧ MonthsBefore w n r') ↔
      ReadAsWritten w n ∨ ReadAlike w n := by
  have hone : (∃ r', subtractMonthsWall w n = some r' ∧ MonthsBefore w n r') ↔
      subtractMonthsWall w n = some r := by
    refine ⟨fun ⟨r', hr', h⟩ => ?_, fun h => ⟨r, h, hr⟩⟩
    rw [hr', monthsBefore_iff.mp h, ← monthsBefore_iff.mp hr]
  have hdays : daysBack 0 w n = sourceIn (getUTCFullYear w) w - dayIn (targetYear w n) w n := by
    rw [daysBack, Int.add_zero, Int.add_zero]
  have hlater := dayIn_later (targetYear w n) w n
  rw [hone]
  by_cases hs : FirstCentury (getUTCFullYear w)
  · have ht : targetYear w n + 1900 =
        getUTCFullYear w + 1900 + (getUTCMonth w - n : Int) / 12 := by
      rw [targetYear]
      omega
    have hwritten : ¬ReadAsWritten w n := fun h => h.1 hs
    have hsyear := (fullYear_of_firstCentury hs).symm
    by_cases ht' : FirstCentury (targetYear w n + 1900)
    · -- the target's year is read twice, and is another 1900 years later than the source's
      have hsource := sourceIn_later (getUTCFullYear w) w
      have hlater' := dayIn_later (targetYear w n + 1900) w n
      rw [eq_target_iff hw hr hsyear ht (fullYear_of_firstCentury ht').symm, hdays]
      refine ⟨fun ⟨_, h⟩ => by omega, fun h => h.elim (absurd · hwritten) fun h => ?_⟩
      exact absurd ht' h.2.1
    · rw [eq_target_iff hw hr hsyear ht (fullYear_of_not ht').symm,
        and_iff_right (room_of_firstCentury hs hr hin), or_iff_right hwritten]
      exact ⟨fun h => ⟨hs, ht', h⟩, fun h => h.2.2⟩
  · have halike : ¬ReadAlike w n := fun h => hs h.1
    have hsyear := (fullYear_of_not hs).symm
    by_cases ht : FirstCentury (targetYear w n)
    · rw [eq_target_iff hw hr hsyear rfl (fullYear_of_firstCentury ht).symm, hdays]
      change _ ∧ _ - dayIn (targetYear w n + 1900) w n = _ ↔ _
      exact ⟨fun ⟨_, h⟩ => by omega,
        fun h => h.elim (fun h => absurd ht h.2.1) (absurd · halike)⟩
    · rw [eq_target_iff hw hr hsyear rfl (fullYear_of_not ht).symm, hdays,
        or_iff_left halike]
      exact ⟨fun h => ⟨hs, ht, h.1.1, h.1.2.1⟩, fun h =>
        ⟨⟨h.2.2.1, h.2.2.2, inRange_source hw, inRange_target hr hin⟩, rfl⟩⟩

/-- A month before the 31st of March. -/
theorem subtractMonthsWall_exact_march :
    (∃ r', subtractMonthsWall 1774952430000 1 = some r' ∧ MonthsBefore 1774952430000 1 r') ↔
      ReadAsWritten 1774952430000 1 ∨ ReadAlike 1774952430000 1 :=
  subtractMonthsWall_exact_iff (r := 1772274030000) (by decide)
    (monthsBefore_iff.mpr (by decide +kernel)) (by decide)

/-- 1950 years before 2027 is 1977. -/
theorem firstCentury_misread : ¬∀ (w r : Int) (n : Nat), InRange w → MonthsBefore w n r →
    InRange r → ∃ r', subtractMonthsWall w n = some r' ∧ MonthsBefore w n r' := by
  intro h
  obtain ⟨r', hr', hbefore⟩ := h 1798761600000 (-59737219200000) 23400 (by decide)
    (monthsBefore_iff.mpr (by decide +kernel)) (by decide)
  rw [show subtractMonthsWall 1798761600000 23400 = some 220924800000 by decide +kernel] at hr'
  cases hr'
  exact absurd hbefore.month (by decide +kernel)

end LakiraBackend.Analytics
