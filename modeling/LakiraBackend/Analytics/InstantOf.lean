import LakiraBackend.Analytics.LocalInstant
import LakiraBackend.Analytics.WallTime

/-!
# The instant of a wall time

Where the wall times that are read are the local times, `instantOf` is `localInstant`
(`instantOf_local`).  That is so from the third day of the year 100 to two days before the last
of a `Date`, and past these where the clocks are not set (`instantOf_steady`): there it inverts the
clock (`instantOf_inverts`).  Of a wall time before the year 100 what is given is earlier by as
long as it is before that year, or more (`instantOf_early_le`, `year50_misread`).
-/

namespace LakiraBackend.Analytics

open LakiraBackend.Calendar LakiraBackend.JavaScript
open LakiraBackend.JavaScript.Date

variable {zone : Offset} {wallMs c : Int}

/-! ### Where local times are read -/

/-- **Where local times are read**, from the third day of the year 100 on. -/
theorem instantOf_local (hz : WithinDay zone) (hlow : year100 + 2 * DAY_MS ≤ wallMs)
    (hhigh : wallMs ≤ MAX_WALL_MS) : instantOf zone wallMs = some (localInstant zone wallMs) := by
  have hlocal : ∀ t, wallMs - DAY_MS ≤ t → t ≤ wallMs + DAY_MS → InRange t ∧
      FromYear100 (localTime zone t) ∧ localTime zone t ≤ 8640000000000000 := by
    intro t ht ht'
    have htz := hz t
    rw [fromYear100_iff, localTime_eq, InRange]
    rw [MAX_WALL_MS_eq, DAY_MS_eq, year100_eq] at *
    omega
  have hwall : ∀ t, wallMs - DAY_MS ≤ t → t ≤ wallMs + DAY_MS →
      wallTimeOf zone t = some (localTime zone t) := fun t ht ht' =>
    wallTimeOf_local (hlocal t ht ht').1 (hlocal t ht ht').2.1 (hlocal t ht ht').2.2
  have hoffset : ∀ t, wallMs - DAY_MS ≤ t → t ≤ wallMs + DAY_MS →
      offsetAt zone t = some (zone t) := fun t ht ht' =>
    offsetAt_local (hlocal t ht ht').1 (hlocal t ht ht').2.1 (hlocal t ht ht').2.2
  have hnear : ∀ near, wallMs - DAY_MS ≤ near → near ≤ wallMs + DAY_MS →
      wallMs - DAY_MS < wallMs - zone near ∧ wallMs - zone near < wallMs + DAY_MS ∧
        candidate zone wallMs near = some (wallMs - zone near) := by
    intro near hn hn'
    have hzn := hz near
    refine ⟨by omega, by omega, ?_⟩
    rw [candidate, hoffset near hn hn', Option.bind_some]
    exact timeClip_of_inRange (hlocal _ (by omega) (by omega)).1
  have hday := DAY_MS_pos
  obtain ⟨hf, hf', hfirst⟩ := hnear (wallMs - DAY_MS) le_rfl (by omega)
  obtain ⟨hs, hs', hsecond⟩ := hnear (wallMs + DAY_MS) (by omega) le_rfl
  rw [instantOf, hfirst, hsecond]
  unfold localInstant
  generalize wallMs - zone (wallMs - DAY_MS) = first at *
  generalize wallMs - zone (wallMs + DAY_MS) = second at *
  have hmin : wallMs - DAY_MS ≤ min first second := le_min hf.le hs.le
  have hmax : max first second ≤ wallMs + DAY_MS := max_le hf'.le hs'.le
  have hfilter : ([first, second].filter fun c => wallTimeOf zone c = some wallMs) =
      [first, second].filter fun c => localTime zone c = wallMs := by
    refine List.filter_congr fun c hc => ?_
    have hmem : wallMs - DAY_MS ≤ c ∧ c ≤ wallMs + DAY_MS := by
      rcases List.mem_pair.mp hc with rfl | rfl <;> omega
    simp only [hwall c hmem.1 hmem.2, Option.some.injEq]
  have hbisect : bisect (sameOffset zone (offsetAt zone (max first second))) (min first second)
      (max first second) = bisect (fun t => zone t = zone (max first second)) (min first second)
        (max first second) := by
    refine bisect_congr fun t ht ht' => ?_
    simp only [sameOffset, hoffset t (by omega) (by omega), hoffset _ (by omega) hmax,
      Option.isSome_some, Bool.true_and, Option.some.injEq]
  dsimp only [Option.bind_eq_bind, Option.bind_some, Option.pure_def]
  rw [hfilter, hbisect]

/-- A candidate of the year 99 does not show a wall time in the first days of the year 100. -/
theorem not_shown_of_early (hz : WithinDay zone) (h100 : year100 ≤ wallMs) {first : Int}
    (hfirst : candidate zone wallMs (wallMs - DAY_MS) = some first)
    (hearly : ¬FromYear100 (localTime zone (wallMs - DAY_MS))) :
    wallTimeOf zone first ≠ some wallMs := by
  intro hshown
  obtain ⟨v, hv, rfl, -, -⟩ := candidate_eq_some hfirst
  have hzw := hz (wallMs - DAY_MS)
  have hzf := hz (wallMs + (wallMs - DAY_MS) - v)
  have hlocal := hearly
  rw [fromYear100_iff, localTime_eq, not_le] at hlocal
  have h99 : dayFromYear 99 * DAY_MS = -59042995200000 := by decide
  have h1999 : dayFromYear 1999 * DAY_MS = 915148800000 := by decide
  have hold : dayFromYear (-100) * DAY_MS = -65322892800000 := by decide
  have h102 : dayFromYear 102 * DAY_MS = -58948387200000 := by decide
  have hv' := year1999_le hv hearly (by
    rw [localTime_eq]
    rw [DAY_MS_eq, year100_eq] at *
    omega)
  have hread := year102_le_wallTimeOf hshown (by
    rw [localTime_eq]
    rw [DAY_MS_eq, year100_eq] at *
    omega)
  rw [DAY_MS_eq, year100_eq] at *
  omega

/-- **Where the clocks are not set near the wall time**, from the year 100 on: a day before it the
year 99 may be read, but what that gives does not show the wall time. -/
theorem instantOf_steady (hz : WithinDay zone) (hs : Steady zone wallMs) (h100 : year100 ≤ wallMs)
    (hmax : wallMs + DAY_MS ≤ 8640000000000000) {first second : Int}
    (hfirst : candidate zone wallMs (wallMs - DAY_MS) = some first)
    (hsecond : candidate zone wallMs (wallMs + DAY_MS) = some second) :
    instantOf zone wallMs = some (localInstant zone wallMs) := by
  have hday := DAY_MS_pos
  have hzw := hz wallMs
  obtain ⟨v, hv, htwo, -, hin⟩ := candidate_eq_some hsecond
  have hafter : localTime zone (wallMs + DAY_MS) = wallMs + DAY_MS + zone wallMs := by
    rw [localTime_eq, hs _ (by omega) le_rfl]
  have hlater : FromYear100 (localTime zone (wallMs + DAY_MS)) := by
    rw [fromYear100_iff, hafter]
    omega
  have hv' := eq_localTime hv hlater
  rw [hafter] at hv'
  obtain rfl : second = wallMs - zone wallMs := by omega
  have hback : localTime zone (wallMs - zone wallMs) = wallMs := by
    have hsame : zone (wallMs - zone wallMs) = zone wallMs := hs _ (by omega) (by omega)
    rw [localTime_eq, hsame]
    omega
  have hshown : wallTimeOf zone (wallMs - zone wallMs) = some wallMs := by
    have hread := wallTimeOf_local hin (by rw [hback]; exact fromYear100_iff.mpr h100)
      (by rw [hback]; omega)
    rwa [hback] at hread
  rw [instantOf, hfirst, hsecond, localInstant_steady hz hs]
  refine congrArg some ?_
  by_cases hearly : FromYear100 (localTime zone (wallMs - DAY_MS))
  · obtain ⟨v₁, hv₁, hone, -, -⟩ := candidate_eq_some hfirst
    have hv₁' := eq_localTime hv₁ hearly
    rw [localTime_eq, hs _ le_rfl (by omega)] at hv₁'
    obtain rfl : first = wallMs - zone wallMs := by omega
    simp only [List.filter_cons, List.filter_nil, hshown, decide_true, if_true]
    exact min_self _
  · have hnot := not_shown_of_early hz h100 hfirst hearly
    simp only [List.filter_cons, List.filter_nil, hshown, hnot, decide_true, decide_false, if_true,
      Bool.false_eq_true, if_false]
    rfl

/-- There is room for what a local time before the year 100 is read as. -/
theorem wallTimeOf_early (hz : WithinDay zone) {t : Int} (ht : InRange t)
    (h : ¬FromYear100 (localTime zone t)) :
    wallTimeOf zone t = some (readLocal (localTime zone t)) := by
  have hzt := hz t
  have hle := readLocal_le h
  have hge := dayFromYear_mono (le_readYear (getUTCFullYear (localTime zone t)))
  have hmem := (readLocal_mem (localTime zone t)).1
  have h100 : dayFromYear 100 = -683003 := by decide
  have hlocal := localTime_eq zone t
  rw [DAY_MS_eq] at *
  obtain ⟨ht₁, ht₂⟩ := ht
  rw [wallTimeOf_eq]
  exact if_pos ⟨⟨ht₁, ht₂⟩, by unfold InRange; omega⟩

/-- What is read at a time of a `Date`, and the candidate it gives. -/
theorem exists_candidate (hz : WithinDay zone) {near : Int} (hn : InRange near)
    (hmax : localTime zone near ≤ 8640000000000000) (hnear : wallMs - DAY_MS ≤ near)
    (hnear' : near ≤ wallMs + DAY_MS) (hroom : -8640000000000000 ≤ 3 * wallMs)
    (hroom' : wallMs + DAY_MS ≤ 8640000000000000) :
    ∃ c, candidate zone wallMs near = some c := by
  have hzn := hz near
  have hday := DAY_MS_pos
  by_cases h : FromYear100 (localTime zone near)
  · have hwall := wallTimeOf_local hn h hmax
    refine ⟨_, candidate_of_wallTimeOf hwall ?_⟩
    rw [localTime_eq, InRange]
    rw [DAY_MS_eq] at *
    omega
  · have hle := readLocal_le h
    have hge := year100_le_wallTimeOf (wallTimeOf_early hz hn h)
    have hlocal := localTime_eq zone near
    refine ⟨_, candidate_of_wallTimeOf (wallTimeOf_early hz hn h) ?_⟩
    rw [InRange]
    rw [DAY_MS_eq, year100_eq] at *
    omega

/-- The candidates of the first days of the year 100. -/
theorem exists_candidate_early (hz : WithinDay zone) (h100 : year100 ≤ wallMs)
    (hearly : wallMs < year100 + 2 * DAY_MS) {near : Int} (hn : wallMs - DAY_MS ≤ near)
    (hn' : near ≤ wallMs + DAY_MS) : ∃ c, candidate zone wallMs near = some c := by
  have hzn := hz near
  have hlocal := localTime_eq zone near
  have hday := DAY_MS_eq
  rw [year100_eq] at h100 hearly
  exact exists_candidate hz (by unfold InRange; omega) (by omega) hn hn' (by omega) (by omega)

/-- **From the year 100 on**, if in its first two days the clocks are not set near. -/
theorem instantOf_from_year100 (hz : WithinDay zone) (h100 : year100 ≤ wallMs)
    (hmax : wallMs ≤ MAX_WALL_MS) (hs : wallMs < year100 + 2 * DAY_MS → Steady zone wallMs) :
    instantOf zone wallMs = some (localInstant zone wallMs) := by
  have hday := DAY_MS_pos
  by_cases hearly : wallMs < year100 + 2 * DAY_MS
  · obtain ⟨first, hfirst⟩ := exists_candidate_early hz h100 hearly le_rfl (by omega)
    obtain ⟨second, hsecond⟩ := exists_candidate_early hz h100 hearly (by omega) le_rfl
    have hroom : wallMs + DAY_MS ≤ 8640000000000000 := by
      rw [MAX_WALL_MS_eq] at hmax
      rw [DAY_MS_eq]
      omega
    exact instantOf_steady hz (hs hearly) h100 hroom hfirst hsecond
  · exact instantOf_local hz (not_lt.mp hearly) hmax

/-! ### Clocks that are not set at the ends -/

/-- The clocks are not set about the start of the year 100, nor in the last days of a `Date`. -/
def Settled (zone : Offset) : Prop :=
  (∀ t, year100 - DAY_MS ≤ t → t ≤ year100 + 3 * DAY_MS → zone t = zone year100) ∧
    ∀ t, MAX_WALL_MS - DAY_MS ≤ t → t ≤ 8640000000000000 → zone t = zone MAX_WALL_MS

theorem settled_setOnce {before after : Int} (hlow : year100 + 3 * DAY_MS < c)
    (hhigh : c ≤ MAX_WALL_MS - DAY_MS) : Settled (setOnce c before after) := by
  have hday := DAY_MS_pos
  constructor
  · intro t ht ht'
    rw [setOnce, setOnce, if_pos (by omega), if_pos (by omega)]
  · intro t ht ht'
    rw [setOnce, setOnce, if_neg (by omega), if_neg (by omega)]

theorem Settled.steady_early (h : Settled zone) (h100 : year100 ≤ wallMs)
    (hearly : wallMs < year100 + 2 * DAY_MS) : Steady zone wallMs := by
  have hday := DAY_MS_pos
  intro t ht ht'
  rw [h.1 t (by omega) (by omega), h.1 wallMs (by omega) (by omega)]

theorem Settled.steady_late (h : Settled zone) (hlate : MAX_WALL_MS ≤ wallMs)
    (hmax : wallMs + DAY_MS ≤ 8640000000000000) : Steady zone wallMs := by
  have hday := DAY_MS_pos
  intro t ht ht'
  rw [h.2 t (by omega) (by omega), h.2 wallMs (by omega) (by omega)]

/-- **What is given of any wall time from the year 100 on.** -/
theorem instantOf_settled (hz : WithinDay zone) (hs : Settled zone) (h100 : year100 ≤ wallMs)
    {r : Int} (h : instantOf zone wallMs = some r) : r = localInstant zone wallMs := by
  by_cases hmax : wallMs ≤ MAX_WALL_MS
  · rw [instantOf_from_year100 hz h100 hmax (hs.steady_early h100)] at h
    exact (Option.some.inj h).symm
  · obtain ⟨first, second, hfirst, hsecond, -⟩ := instantOf_eq_some h
    obtain ⟨-, -, -, hin, -⟩ := candidate_eq_some hsecond
    rw [instantOf_steady hz (hs.steady_late (not_le.mp hmax).le hin.2) h100 hin.2 hfirst
      hsecond] at h
    exact (Option.some.inj h).symm

/-- The instant of a wall time is one of a `Date`. -/
theorem dateOf_of_instantOf {r : Int} (h : instantOf zone wallMs = some r) :
    ∃ d : Date, dateOf zone wallMs = some d ∧ d.ms = r := by
  obtain ⟨first, second, hfirst, hsecond, hlow, hhigh⟩ := instantOf_eq_some h
  obtain ⟨-, -, -, -, hin⟩ := candidate_eq_some hfirst
  obtain ⟨-, -, -, -, hin'⟩ := candidate_eq_some hsecond
  have hr : InRange r :=
    ⟨(le_min hin.1 hin'.1).trans hlow, hhigh.trans (max_le hin.2 hin'.2)⟩
  exact ⟨⟨r, hr⟩, by rw [dateOf, h, Option.bind_some]; exact dif_pos hr, rfl⟩

/-! ### Wall times before the year 100 -/

/-- **Of a wall time before the year 100** the instant that is given is too early. -/
theorem instantOf_early_le {r : Int} (h : instantOf zone wallMs = some r) :
    r ≤ 2 * wallMs + DAY_MS - year100 := by
  have hday := DAY_MS_pos
  obtain ⟨first, second, hfirst, hsecond, -, hr⟩ := instantOf_eq_some h
  obtain ⟨v, hv, rfl, -, -⟩ := candidate_eq_some hfirst
  obtain ⟨v', hv', rfl, -, -⟩ := candidate_eq_some hsecond
  have hle := year100_le_wallTimeOf hv
  have hle' := year100_le_wallTimeOf hv'
  omega

/-- There is one, where a `Date` has room for what is looked at. -/
theorem exists_instantOf (hz : WithinDay zone) (hlow : -8640000000000000 ≤ 3 * wallMs)
    (hhigh : wallMs ≤ MAX_WALL_MS) : ∃ r, instantOf zone wallMs = some r := by
  have hday := DAY_MS_eq
  rw [MAX_WALL_MS_eq] at hhigh
  have hcandidate : ∀ near, wallMs - DAY_MS ≤ near → near ≤ wallMs + DAY_MS →
      ∃ c, candidate zone wallMs near = some c := by
    intro near hn hn'
    have hzn := hz near
    have hlocal := localTime_eq zone near
    exact exists_candidate hz (by unfold InRange; omega) (by omega) hn hn' hlow (by omega)
  obtain ⟨first, hfirst⟩ := hcandidate (wallMs - DAY_MS) le_rfl (by omega)
  obtain ⟨second, hsecond⟩ := hcandidate (wallMs + DAY_MS) (by omega) le_rfl
  rw [instantOf, hfirst, hsecond]
  exact ⟨_, rfl⟩

/-! ### The clock is inverted -/

/-- **`instantOf` inverts the clock**: it gives the earliest instant that shows the wall time,
and where none does, the first instant of the new offset.  The bisection ends whatever it is
asked, and between two instants the second of which has an offset the first has not, it finds one
where that offset starts. -/
theorem instantOf_inverts (hz : WithinDay zone) (wallMs : Int) (h : OneChangeNear zone wallMs)
    (h100 : FromYear100 wallMs) (hmax : wallMs ≤ MAX_WALL_MS)
    (hsteady : wallMs < year100 + 2 * DAY_MS → Steady zone wallMs) :
    ∃ r, instantOf zone wallMs = some r ∧
      (∀ t, localTime zone t = wallMs → localTime zone r = wallMs ∧ r ≤ t) ∧
      ((∀ t, localTime zone t ≠ wallMs) →
        Changes zone r ∧ (wallMs - DAY_MS < r ∧ r ≤ wallMs + DAY_MS) ∧
        ∀ t, r ≤ t → t ≤ wallMs + DAY_MS → zone t = zone r) ∧
      ∀ (before after offset : Int), before < after → offsetAt zone before ≠ some offset →
        offsetAt zone after = some offset →
        ∃ r, bisect (sameOffset zone (some offset)) before after = r ∧ before < r ∧ r ≤ after ∧
          offsetAt zone r = some offset ∧ offsetAt zone (r - 1) ≠ some offset := by
  have hleast := isLeast_localInstant hz h
  refine ⟨_, instantOf_from_year100 hz (fromYear100_iff.mp h100) hmax hsteady, fun t ht => ?_,
    fun hnone => changes_localInstant hz h (hnone _),
    fun before after offset hlt hb ha => ?_⟩
  · have hle : localInstant zone wallMs ≤ t := le_of_isLeast hleast ht
    refine ⟨?_, hle⟩
    by_contra hgap
    obtain ⟨-, -, hafter⟩ := changes_localInstant hz h hgap
    have htz := hz t
    rw [localTime_eq] at ht hgap
    have hsame := hafter t hle (by omega)
    have hreached : wallMs ≤ localInstant zone wallMs + zone (localInstant zone wallMs) := hleast.1
    omega
  · have hsame : ∀ t, sameOffset zone (some offset) t = true ↔ offsetAt zone t = some offset := by
      intro t
      rw [sameOffset, Option.isSome_some, Bool.true_and, decide_eq_true_eq]
    obtain ⟨hlo, hhi, hp, hp'⟩ := bisect_spec (p := sameOffset zone (some offset)) hlt
      (Bool.eq_false_iff.mpr fun hb' => hb ((hsame _).mp hb')) ((hsame _).mpr ha)
    refine ⟨_, rfl, hlo, hhi, (hsame _).mp hp, fun heq => ?_⟩
    exact Bool.eq_false_iff.mp hp' ((hsame _).mpr heq)

/-- Clocks that are set forward by an hour, at two of the second day. -/
def springForward : Offset := setOnce (DAY_MS + 2 * HOUR_MS) 0 HOUR_MS

/-- Half past two of that day is skipped: the clocks move at its instant. -/
theorem instantOf_inverts_springForward : ∃ r,
    instantOf springForward (DAY_MS + 2 * HOUR_MS + 1800000) = some r ∧
      Changes springForward r := by
  have hskipped : ∀ t, localTime springForward t ≠ DAY_MS + 2 * HOUR_MS + 1800000 := by
    intro t
    have hhour : HOUR_MS = 3600000 := rfl
    change t + (if t < _ then 0 else HOUR_MS) ≠ _
    split <;> omega
  obtain ⟨r, hr, -, hgap, -⟩ := instantOf_inverts (withinDay_setOnce (by decide) (by decide))
    (DAY_MS + 2 * HOUR_MS + 1800000) (oneChange_setOnce (DAY_MS + 2 * HOUR_MS) 0 HOUR_MS _ _)
    (by decide) (by decide) fun hearly => absurd hearly (by decide)
  exact ⟨r, hr, (hgap hskipped).1⟩

/-- In UTC, of the wall time at which the year 50 starts: an instant before the year 1. -/
theorem year50_misread : ¬∀ (zone : Offset), WithinDay zone → ∀ wallMs, OneChangeNear zone wallMs →
    ∀ t, localTime zone t = wallMs →
      ∃ r, instantOf zone wallMs = some r ∧ localTime zone r = wallMs := by
  intro h
  obtain ⟨r, hr, hshown⟩ := h (setOnce 0 0 0) (withinDay_setOnce (by decide) (by decide))
    (-60589296000000) (oneChange_setOnce _ _ _ _ _) (-60589296000000) (by decide)
  have hle := instantOf_early_le hr
  have hzero : localTime (setOnce 0 0 0) r = r := by
    rw [localTime_eq, setOnce, ite_self, Int.add_zero]
  rw [hzero] at hshown
  rw [hshown, DAY_MS_eq, year100_eq] at hle
  omega

end LakiraBackend.Analytics
