import LakiraBackend.Analytics.RelativeRange

/-!
# What is read of a local time

The fields that are shown of an instant are read as a wall time (`readLocal`).  From the year 100
on that is the local time (`wallTimeOf_local`); an earlier one is read in another year, and always
in one from 100 on (`year100_le_wallTimeOf`): the years 1 to 99 in the twentieth century, and the
ones before in the year that has its number after the year 0.
-/

namespace LakiraBackend.Analytics

open LakiraBackend.Calendar LakiraBackend.JavaScript
open LakiraBackend.JavaScript.Date

/-- A `Date` holds it. -/
def InRange (ms : Int) : Prop := -8640000000000000 ≤ ms ∧ ms ≤ 8640000000000000

instance (ms : Int) : Decidable (InRange ms) := inferInstanceAs (Decidable (_ ∧ _))

/-- The year is not one that `Date.UTC` takes for one of the twentieth century. -/
def FromYear100 (w : Int) : Prop := 100 ≤ getUTCFullYear w

instance (w : Int) : Decidable (FromYear100 w) := inferInstanceAs (Decidable (_ ≤ _))

/-- Where the year 100 starts. -/
def year100 : Int := dayFromYear 100 * DAY_MS

/-- The year that the fields of a local time are read in. -/
def readYear (year : Int) : Int := fullYear (shownYear year)

/-- What the fields of a local time are read as. -/
def readLocal (u : Int) : Int :=
  (firstOfMonth (readYear (getUTCFullYear u)) (getUTCMonth u) + ((getUTCDate u : Int) - 1)) *
    DAY_MS + u % DAY_MS

variable {zone : Offset} {ms t u v w y near c o : Int}

theorem HOUR_MS_eq : HOUR_MS = 3600000 := rfl

theorem DAY_MS_eq : DAY_MS = 86400000 := rfl

theorem MAX_WALL_MS_eq : MAX_WALL_MS = 8639999827200000 := rfl

theorem year100_eq : year100 = -59011459200000 := by decide

theorem dayOf_eq (w : Int) : dayOf w = w / 86400000 := rfl

theorem timeClip_of_inRange (h : InRange ms) : timeClip ms = some ms := if_pos h

theorem timeClip_of_not_inRange (h : ¬InRange ms) : timeClip ms = none := if_neg h

theorem timeClip_eq_some (h : timeClip ms = some t) : t = ms ∧ InRange ms := by
  by_cases hin : InRange ms
  · rw [timeClip_of_inRange hin] at h
    exact ⟨(Option.some.inj h).symm, hin⟩
  · rw [timeClip_of_not_inRange hin] at h
    cases h

/-! ### Years -/

theorem fullYear_of_le (h : 100 ≤ y) : fullYear y = y := if_neg (by omega)

theorem readYear_of_le (h : 100 ≤ y) : readYear y = y := by
  rw [readYear, shownYear, if_pos (by omega), fullYear_of_le h]

/-- No year is read as one before 100. -/
theorem le_readYear (y : Int) : 100 ≤ readYear y := by
  unfold readYear fullYear shownYear
  split <;> split <;> omega

theorem le_getUTCFullYear_iff : y ≤ getUTCFullYear w ↔ dayFromYear y * DAY_MS ≤ w := by
  obtain ⟨hle, hlt⟩ := yearFromDay_spec (dayOf w)
  change dayFromYear (getUTCFullYear w) ≤ _ at hle
  change _ < dayFromYear (getUTCFullYear w + 1) at hlt
  rw [dayOf_eq] at hle hlt
  rw [DAY_MS_eq]
  constructor
  · intro h
    have hmono := dayFromYear_mono h
    omega
  · intro h
    by_contra hnot
    have hmono := dayFromYear_mono (show getUTCFullYear w + 1 ≤ y by omega)
    omega

theorem fromYear100_iff : FromYear100 w ↔ year100 ≤ w := le_getUTCFullYear_iff

theorem year100_le (h : FromYear100 w) : -8640000000000000 ≤ w := by
  have hle := fromYear100_iff.mp h
  rw [year100_eq] at hle
  omega

/-! ### What is read -/

/-- From the year 100 on the local time is read. -/
theorem readLocal_of_fromYear100 (h : FromYear100 u) : readLocal u = u := by
  rw [readLocal, readYear_of_le h, day_of_fields, dayOf_eq, DAY_MS_eq]
  omega

/-- What is read is in the year it is read in. -/
theorem readLocal_mem (u : Int) :
    dayFromYear (readYear (getUTCFullYear u)) * DAY_MS ≤ readLocal u ∧
      readLocal u < (dayFromYear (readYear (getUTCFullYear u)) + 367) * DAY_MS := by
  obtain ⟨hday, hlt⟩ := dayInYear_spec u
  obtain ⟨hm, hle, hdate⟩ := monthOf_spec (isLeap (getUTCFullYear u)) hlt
  change getUTCMonth u < 12 at hm
  change monthStart (isLeap (getUTCFullYear u)) (getUTCMonth u) ≤ dayInYear u at hle
  change dayInYear u - monthStart (isLeap (getUTCFullYear u)) (getUTCMonth u) < 31 at hdate
  have hstart : ∀ leap : Bool, ∀ m < 12, monthStart leap m ≤ 335 := by decide
  have hmonth := hstart (isLeap (readYear (getUTCFullYear u))) _ hm
  rw [readLocal, firstOfMonth_of_lt hm, getUTCDate, DAY_MS_eq]
  omega

/-- A time before the year 100 is not read far from that year. -/
theorem readLocal_le {u : Int} (h : ¬FromYear100 u) : readLocal u ≤ -u - 10 * DAY_MS := by
  obtain ⟨hle, hlt⟩ := yearFromDay_spec (dayOf u)
  change dayFromYear (getUTCFullYear u) ≤ _ at hle
  change _ < dayFromYear (getUTCFullYear u + 1) at hlt
  have hmem := (readLocal_mem u).2
  have hyear : getUTCFullYear u < 100 := not_le.mp h
  rw [dayOf_eq] at hle hlt
  rw [DAY_MS_eq] at hmem ⊢
  unfold readYear fullYear shownYear at hmem
  generalize getUTCFullYear u = y at *
  unfold dayFromYear at *
  split at hmem <;> split at hmem <;> omega

/-- **What `wallTimeOf` gives**, where there is room for it. -/
theorem wallTimeOf_eq (zone : Offset) (t : Int) : wallTimeOf zone t =
    if InRange t ∧ InRange (readLocal (localTime zone t) - localTime zone t % 1000) then
      some (readLocal (localTime zone t))
    else none := by
  by_cases ht : InRange t
  · rw [wallTimeOf, timeClip_of_inRange ht, Option.bind_some]
    generalize localTime zone t = u
    have hread : readLocal u - u % 1000 =
        (firstOfMonth (readYear (getUTCFullYear u)) (getUTCMonth u) + ((getUTCDate u : Int) - 1)) *
          msPerDay + makeTime (getUTCHours u) (getUTCMinutes u) (getUTCSeconds u) := by
      rw [readLocal, makeTime_of_fields, show msPerDay = DAY_MS from rfl, DAY_MS_eq]
      omega
    dsimp only
    rw [UTCTime, ← readYear, ← hread]
    by_cases hin : InRange (readLocal u - u % 1000)
    · rw [timeClip_of_inRange hin, if_pos ⟨ht, hin⟩, Option.map_some, Int.sub_add_cancel]
    · rw [timeClip_of_not_inRange hin, if_neg fun h => hin h.2, Option.map_none]
  · rw [wallTimeOf, timeClip_of_not_inRange ht, if_neg fun h => ht h.1, Option.bind_none]

theorem wallTimeOf_eq_some (h : wallTimeOf zone t = some w) :
    InRange t ∧ w = readLocal (localTime zone t) := by
  rw [wallTimeOf_eq] at h
  split at h
  · rename_i hin
    exact ⟨hin.1, (Option.some.inj h).symm⟩
  · cases h

/-- **From the year 100 on** it is the local time. -/
theorem wallTimeOf_local (ht : InRange t) (h : FromYear100 (localTime zone t))
    (hmax : localTime zone t ≤ 8640000000000000) : wallTimeOf zone t = some (localTime zone t) := by
  have hlow := fromYear100_iff.mp h
  rw [year100_eq] at hlow
  rw [wallTimeOf_eq, readLocal_of_fromYear100 h]
  exact if_pos ⟨ht, by unfold InRange; omega⟩

theorem eq_localTime (h : wallTimeOf zone t = some w) (hlocal : FromYear100 (localTime zone t)) :
    w = localTime zone t := by
  rw [(wallTimeOf_eq_some h).2, readLocal_of_fromYear100 hlocal]

/-- **No wall time before the year 100** is read. -/
theorem year100_le_wallTimeOf (h : wallTimeOf zone t = some w) : year100 ≤ w := by
  obtain ⟨-, rfl⟩ := wallTimeOf_eq_some h
  have hmono := dayFromYear_mono (le_readYear (getUTCFullYear (localTime zone t)))
  have hmem := (readLocal_mem (localTime zone t)).1
  rw [DAY_MS_eq] at hmem
  rw [year100, DAY_MS_eq]
  omega

/-- A time long before the year 1 is not read in the year 100. -/
theorem year102_le_wallTimeOf (h : wallTimeOf zone t = some w)
    (hold : localTime zone t < dayFromYear (-100) * DAY_MS) : dayFromYear 102 * DAY_MS ≤ w := by
  obtain ⟨-, rfl⟩ := wallTimeOf_eq_some h
  have hyear : ¬-100 ≤ getUTCFullYear (localTime zone t) := fun hle =>
    absurd (le_getUTCFullYear_iff.mp hle) (not_le.mpr hold)
  have hread : 102 ≤ readYear (getUTCFullYear (localTime zone t)) := by
    unfold readYear fullYear shownYear
    split <;> split <;> omega
  have hmono := dayFromYear_mono hread
  have hmem := (readLocal_mem (localTime zone t)).1
  rw [DAY_MS_eq] at hmem ⊢
  omega

/-- The last days of the year 99 are read in 1999. -/
theorem year1999_le {t v : Int} (h : wallTimeOf zone t = some v)
    (hearly : ¬FromYear100 (localTime zone t)) (hlate : dayFromYear 99 * DAY_MS ≤ localTime zone t) :
    dayFromYear 1999 * DAY_MS ≤ v := by
  obtain ⟨-, rfl⟩ := wallTimeOf_eq_some h
  have hyear : getUTCFullYear (localTime zone t) = 99 :=
    le_antisymm (Int.lt_add_one_iff.mp (not_le.mp hearly)) (le_getUTCFullYear_iff.mpr hlate)
  have hmem := (readLocal_mem (localTime zone t)).1
  rw [hyear] at hmem
  exact hmem

/-! ### Candidates -/

theorem offsetAt_eq_some (h : offsetAt zone t = some o) : wallTimeOf zone t = some (t + o) := by
  obtain ⟨w, hw, rfl⟩ := Option.map_eq_some_iff.mp h
  rw [hw]
  congr 1
  omega

theorem offsetAt_local (ht : InRange t) (h : FromYear100 (localTime zone t))
    (hmax : localTime zone t ≤ 8640000000000000) : offsetAt zone t = some (zone t) := by
  rw [offsetAt, wallTimeOf_local ht h hmax, Option.map_some, localTime_eq]
  congr 1
  omega

theorem candidate_eq_some (h : candidate zone w near = some c) :
    ∃ v, wallTimeOf zone near = some v ∧ c = w + near - v ∧ InRange near ∧ InRange c := by
  obtain ⟨o, ho, hclip⟩ := Option.bind_eq_some_iff.mp h
  have hwall := offsetAt_eq_some ho
  obtain ⟨rfl, hc⟩ := timeClip_eq_some hclip
  exact ⟨_, hwall, by omega, (wallTimeOf_eq_some hwall).1, hc⟩

theorem candidate_of_wallTimeOf (h : wallTimeOf zone near = some v) (hc : InRange (w + near - v)) :
    candidate zone w near = some (w + near - v) := by
  rw [candidate, offsetAt, h, Option.map_some, Option.bind_some,
    show w - (v - near) = w + near - v by omega]
  exact timeClip_of_inRange hc

/-- **What `instantOf` gives**: a candidate that shows the wall time, or what is found between. -/
theorem instantOf_eq_some {r : Int} (h : instantOf zone w = some r) :
    ∃ first second, candidate zone w (w - DAY_MS) = some first ∧
      candidate zone w (w + DAY_MS) = some second ∧
      min first second ≤ r ∧ r ≤ max first second := by
  obtain ⟨first, hfirst, h⟩ := Option.bind_eq_some_iff.mp h
  obtain ⟨second, hsecond, h⟩ := Option.bind_eq_some_iff.mp h
  refine ⟨first, second, hfirst, hsecond, ?_⟩
  have hr := Option.some.inj h
  cases hshown : (([first, second].filter fun c => wallTimeOf zone c = some w).min?) with
  | none =>
    rw [← hr, hshown, Option.getD_none]
    exact bisect_mem min_le_max
  | some c =>
    rw [← hr, hshown, Option.getD_some]
    rcases List.mem_pair.mp (List.mem_filter.mp (List.min?_mem hshown)).1 with rfl | rfl
    · exact ⟨min_le_left _ _, le_max_left _ _⟩
    · exact ⟨min_le_right _ _, le_max_right _ _⟩

end LakiraBackend.Analytics
