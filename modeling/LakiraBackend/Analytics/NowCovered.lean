import LakiraBackend.Analytics.Buckets
import LakiraBackend.Analytics.InstantOf

/-!
# Whether a relative range covers now

The end of a range is the first instant that shows the start of the next bucket, or a later wall
time: it is not after now when the clocks have shown that already and were set back since
(`nextDay_shown`).  The start is before the end if some instant shows a wall time of the window:
a window that is all skipped is empty, and so is one that is not read or reaches too far.
-/

namespace LakiraBackend.Analytics

open LakiraBackend.Calendar LakiraBackend.JavaScript
open LakiraBackend.Metrics (BucketAlias)

/-- The changes of the clocks are more than two days apart. -/
def Isolated (zone : Offset) : Prop := ∀ wallMs, OneChangeNear zone wallMs

/-- No instant up to now shows the wall time, or a later one. -/
def NotYetShown (zone : Offset) (now wallMs : Int) : Prop := ∀ t, t ≤ now → localTime zone t < wallMs

/-- The window that ends at a wall time can be read and is in reach, and some instant shows a wall
time of it. -/
def WindowShown (zone : Offset) (last : List Char) (endWall : Int) : Prop :=
  ∃ startWall, (parseRelativeWindow last).bind (startWallOf endWall) = some startWall ∧
    ∃ t, startWall ≤ localTime zone t ∧ localTime zone t < endWall

variable {zone : Offset} {s e t : Int}

/-- The first instants of two wall times are apart when some instant shows one between. -/
theorem localInstant_lt_iff (hz : WithinDay zone) (hi : Isolated zone) :
    localInstant zone s < localInstant zone e ↔
      ∃ t, s ≤ localTime zone t ∧ localTime zone t < e := by
  have hs := isLeast_localInstant hz (hi s)
  have he := isLeast_localInstant hz (hi e)
  constructor
  · intro hlt
    refine ⟨localInstant zone s, hs.1, ?_⟩
    by_contra hshown
    have := he.2 (not_lt.mp hshown)
    omega
  · rintro ⟨t, hst, hte⟩
    by_contra hnot
    have hle : localInstant zone s ≤ t := hs.2 hst
    have hshown : e ≤ localTime zone (localInstant zone e) := he.1
    -- the clocks jump over both wall times at one instant, and back between it and `t`
    have hone : localInstant zone s = localInstant zone e := by
      by_contra hne
      have := hs.2 (show localInstant zone e ∈ reached zone s from (hst.trans hte.le).trans hshown)
      omega
    have hjump : Changes zone (localInstant zone e) := by
      intro hsame
      have hbefore : ¬s ≤ localTime zone (localInstant zone e - 1) := fun hmem => by
        have := hs.2 hmem
        omega
      rw [localTime_eq] at hst hte hshown hbefore
      omega
    have hback : ∃ c, localInstant zone e < c ∧ c ≤ t ∧ Changes zone c := by
      by_contra hno
      have hsame := constant_of_not_changes (hone ▸ hle) fun c hc hc' hch => hno ⟨c, hc, hc', hch⟩
      rw [localTime_eq] at hte hshown
      omega
    obtain ⟨c, hc, hct, hchanges⟩ := hback
    have hzt := hz t
    have hze := hz (localInstant zone e)
    rw [localTime_eq] at hte hshown
    have := hi (localInstant zone e - 1 + DAY_MS) (localInstant zone e) c (by omega) (by omega) (by omega)
      (by omega) hjump hchanges
    omega

/-! ### Windows that start before the year 100 -/

/-- The clocks show a time between one before the year 100 and one in it. -/
theorem shown_between_early (hz : WithinDay zone) (hs : Settled zone) (hearly : s < year100)
    (he : year100 < e) : ∃ t, s ≤ localTime zone t ∧ localTime zone t < e := by
  have hday := DAY_MS_pos
  by_cases hnear : e < year100 + 2 * DAY_MS
  · have hzone := hz year100
    have hsame : zone (e - 1 - zone year100) = zone year100 := hs.1 _ (by omega) (by omega)
    refine ⟨e - 1 - zone year100, ?_, ?_⟩ <;> rw [localTime_eq, hsame] <;> omega
  · have hzone := hz (year100 + DAY_MS)
    refine ⟨year100 + DAY_MS, ?_, ?_⟩ <;> rw [localTime_eq] <;> omega

/-- The instant of a wall time in the last days before the year 100 is before those of its first. -/
theorem candidate_lt_of_early (hz : WithinDay zone) (hs : Settled zone) (hearly : s < year100)
    (hnear : year100 - 2 * DAY_MS < s) (he : year100 < e) (he' : e < year100 + 2 * DAY_MS)
    {near c : Int} (hn : s - DAY_MS ≤ near) (hn' : near ≤ s + DAY_MS)
    (hc : candidate zone s near = some c) : c < e - zone year100 := by
  obtain ⟨v, hv, rfl, -, -⟩ := candidate_eq_some hc
  have hzn := hz near
  have hlocal := localTime_eq zone near
  by_cases h100 : FromYear100 (localTime zone near)
  · have hv' := eq_localTime hv h100
    rw [fromYear100_iff] at h100
    have hsame : zone near = zone year100 := hs.1 near (by omega) (by omega)
    omega
  · have hzone := hz year100
    have h99 : Date.dayFromYear 99 * DAY_MS = -59042995200000 := by decide
    have h1999 : Date.dayFromYear 1999 * DAY_MS = 915148800000 := by decide
    have hday := DAY_MS_eq
    have hyear := year100_eq
    have hv' := year1999_le hv h100 (by omega)
    omega

theorem instantOf_lt_of_early (hz : WithinDay zone) (hi : Isolated zone) (hs : Settled zone)
    (hearly : s < year100) (he : year100 < e) {r : Int} (hr : instantOf zone s = some r) :
    r < localInstant zone e := by
  have hday := DAY_MS_pos
  have hle := instantOf_early_le hr
  by_cases hnear : year100 - 2 * DAY_MS < s ∧ e < year100 + 2 * DAY_MS
  · obtain ⟨first, second, hfirst, hsecond, -, hmax⟩ := instantOf_eq_some hr
    have hsteady := hs.steady_early he.le hnear.2
    have hsame : zone e = zone year100 := hs.1 e (by omega) (by omega)
    rw [localInstant_steady hz hsteady, hsame]
    refine hmax.trans_lt (max_lt ?_ ?_)
    · exact candidate_lt_of_early hz hs hearly hnear.1 he hnear.2 le_rfl (by omega) hfirst
    · exact candidate_lt_of_early hz hs hearly hnear.1 he hnear.2 (by omega) le_rfl hsecond
  · have hstop := (localInstant_near hz (hi e)).1
    omega

/-- **The start of a range is before its end** if some instant shows a wall time between. -/
theorem start_lt_stop_iff (hz : WithinDay zone) (hi : Isolated zone) (hs : Settled zone)
    (he : year100 < e) {r : Int} (hr : instantOf zone s = some r) :
    r < localInstant zone e ↔ ∃ t, s ≤ localTime zone t ∧ localTime zone t < e := by
  by_cases h100 : year100 ≤ s
  · rw [instantOf_settled hz hs h100 hr]
    exact localInstant_lt_iff hz hi
  · have hearly := not_le.mp h100
    exact iff_of_true (instantOf_lt_of_early hz hi hs hearly he hr)
      (shown_between_early hz hs hearly he)

/-! ### Ranges -/

/-- The start of a range is within reach. -/
theorem startWallOf_le {endWall startWall : Int} {window : RelativeWindow}
    (h : startWallOf endWall window = some startWall) :
    -MAX_WALL_MS ≤ startWall ∧ startWall ≤ MAX_WALL_MS := by
  obtain ⟨-, hle⟩ := Option.filter_eq_some_iff.mp h
  simpa using hle

/-- **A relative range is not empty and covers now** if and only if the clocks have not shown the
start of the next bucket by now, and show some time of the window. -/
theorem resolveRelativeRange_covers_iff (hz : WithinDay zone) (hi : Isolated zone)
    (hs : Settled zone) (last : List Char) (bucket : BucketAlias) (now : Date) (endWall : Int)
    (hend : endWallOf zone now bucket = some endWall) (hhigh : endWall ≤ MAX_WALL_MS)
    (hlow : ∀ startWall, (parseRelativeWindow last).bind (startWallOf endWall) = some startWall →
      -8640000000000000 ≤ 3 * startWall) :
    ∃ start stop : Date, resolveRelativeRange zone last bucket now =
        some ⟨start.toISOString, stop.toISOString⟩ ∧
      ((start.ms < stop.ms ∧ now.ms < stop.ms) ↔
        NotYetShown zone now.ms endWall ∧ WindowShown zone last endWall) := by
  have h100 := year100_lt_endWallOf hend
  obtain ⟨stop, hstop, hms⟩ := dateOf_of_instantOf
    (instantOf_from_year100 hz h100.le hhigh (hs.steady_early h100.le))
  have hnow : now.ms < stop.ms ↔ NotYetShown zone now.ms endWall := by
    rw [hms]
    exact lt_isLeast_iff (isLeast_localInstant hz (hi endWall))
  have hres : resolveRelativeRange zone last bucket now =
      ((parseRelativeWindow last).bind (startWallOf endWall)).elim
        (some ⟨stop.toISOString, stop.toISOString⟩) fun startWall =>
          (dateOf zone startWall).bind fun start =>
            some ⟨start.toISOString, stop.toISOString⟩ := by
    rw [resolveRelativeRange, hend]
    change (dateOf zone endWall).bind _ = _
    rw [hstop, Option.bind_some]
    cases (parseRelativeWindow last).bind (startWallOf endWall) <;> rfl
  rw [hres]
  cases hwindow : (parseRelativeWindow last).bind (startWallOf endWall) with
  | none =>
    refine ⟨stop, stop, rfl, ⟨fun h => absurd h.1 (lt_irrefl _), ?_⟩⟩
    rintro ⟨-, startWall, hsome, -⟩
    rw [hwindow] at hsome
    cases hsome
  | some startWall =>
    obtain ⟨window, -, hreach⟩ := Option.bind_eq_some_iff.mp hwindow
    obtain ⟨r, hr⟩ := exists_instantOf hz (hlow _ hwindow) (startWallOf_le hreach).2
    obtain ⟨start, hstart, hms'⟩ := dateOf_of_instantOf hr
    refine ⟨start, stop, ?_, ?_⟩
    · change (dateOf zone startWall).bind _ = _
      rw [hstart]
      rfl
    · rw [hnow, hms, hms', start_lt_stop_iff hz hi hs h100 hr, and_comm]
      refine and_congr_right fun _ => ⟨fun h => ⟨startWall, hwindow, h⟩, ?_⟩
      rintro ⟨startWall', hsome, h⟩
      rw [hwindow] at hsome
      cases hsome
      exact h

/-- Clocks that are set back by an hour one minute past midnight, as those of Newfoundland were
in 2008. -/
def fallBack : Offset := setOnce 1225593060000 (-9000000) (-12600000)

/-- A range that covers now: three hours before the clocks are set back. -/
theorem resolveRelativeRange_covers_fallBack : ∃ start stop : Date,
    resolveRelativeRange fallBack "1d".toList .day ⟨1225582260000, by decide⟩ =
      some ⟨start.toISOString, stop.toISOString⟩ ∧
    ((start.ms < stop.ms ∧ (1225582260000 : Int) < stop.ms) ↔
      NotYetShown fallBack 1225582260000 1225584000000 ∧
        WindowShown fallBack "1d".toList 1225584000000) :=
  resolveRelativeRange_covers_iff (withinDay_setOnce (by decide) (by decide))
    (fun _ => oneChange_setOnce _ _ _ _ _) (settled_setOnce (by decide) (by decide)) "1d".toList
    .day ⟨1225582260000, by decide⟩ 1225584000000 (by decide +kernel) (by decide) fun startWall h => by
      have hstart : (parseRelativeWindow "1d".toList).bind (startWallOf 1225584000000) =
          some 1225497600000 := by decide
      rw [hstart] at h
      cases h
      decide

/-- At the minute past midnight the clocks are set back to the evening, and the day ends at the
midnight before. -/
theorem nextDay_shown : ¬∀ (zone : Offset), WithinDay zone → Isolated zone → Settled zone →
    ∀ (maxBuckets : Int) (bucket : BucketAlias) (last : List Char) (now start stop : Date),
      acceptsWindow maxBuckets bucket last = true →
      resolveRelativeRange zone last bucket now = some ⟨start.toISOString, stop.toISOString⟩ →
      start.ms < stop.ms ∧ now.ms < stop.ms := by
  intro h
  have hnow := (h fallBack (withinDay_setOnce (by decide) (by decide))
    (fun _ => oneChange_setOnce _ _ _ _ _) (settled_setOnce (by decide) (by decide)) 400 .day
    "1d".toList ⟨1225593060000, by decide⟩
    ⟨1225506600000, by decide⟩ ⟨1225593000000, by decide⟩ (by decide) (by decide +kernel)).2
  exact absurd hnow (by decide)

end LakiraBackend.Analytics
