import LakiraBackend.Analytics.EarlyWallTimes
import LakiraBackend.Analytics.FallbackRange

/-!
# Whether a relative range passes the cap

The query asks of a window that its nominal length fits the cap, and of a window that is left out
nothing.  The use-case asks of the range that it is not empty and that the time between
its two instants fits: the months of a window may be longer than they are counted, the clocks may
be set back in it, and a start before the year 100 is taken for an earlier one
(`resolveRange_passes_iff`).
-/

namespace LakiraBackend.Analytics

open LakiraBackend.Calendar LakiraBackend.JavaScript LakiraBackend.Metrics

/-- What `last` may be, sent or not. -/
def acceptsQuery (maxBuckets : Int) (bucket : BucketAlias) (last : Option (List Char)) : Bool :=
  match last with
  | none => true
  | some last => acceptsWindow maxBuckets bucket last

/-- `resolveRange`, of a query without a start and an end. -/
def resolveRange (zone : Offset) (bucket : BucketAlias) (last : Option (List Char)) (now : Date) :
    Option RangeDescriptor :=
  (resolveRelativeRange zone (last.getD "30d".toList) bucket now).map fun range =>
    ⟨range.startISO, range.endISO, bucket⟩

/-- From each instant that shows the first wall time, or a later one, it is not longer until the
other is shown. -/
def ShownWithin (zone : Offset) (startWall endWall room : Int) : Prop :=
  ∀ s, startWall ≤ localTime zone s → ∃ t, t ≤ s + room ∧ endWall ≤ localTime zone t

variable {V : Type} {D : Deps V} {zone : Offset} {bucket : BucketAlias} {last : Option (List Char)}
  {now : Date} {range : RangeDescriptor}

theorem nominalBuckets_le_iff {span k : Int} :
    nominalBuckets bucket span ≤ k ↔ span ≤ k * (resolveBucket bucket).approxMs := by
  have hpos := approxMs_pos bucket
  rw [nominalBuckets, neg_le, Int.le_ediv_iff_mul_le hpos, Int.neg_mul, neg_le_neg_iff]

/-- The first instants are no further apart. -/
theorem shownWithin_iff {startWall endWall room start stop : Int}
    (hs : IsLeast (reached zone startWall) start) (he : IsLeast (reached zone endWall) stop) :
    stop - start ≤ room ↔ ShownWithin zone startWall endWall room := by
  constructor
  · intro hle s hshown
    have hstart : start ≤ s := hs.2 hshown
    exact ⟨stop, by omega, he.1⟩
  · intro h
    obtain ⟨t, ht, hshown⟩ := h start hs.1
    have hstop : stop ≤ t := he.2 hshown
    omega

/-- What a range is resolved to. -/
theorem resolveRange_spec (h : resolveRange zone bucket last now = some range) :
    ∃ (endWall : Int) (start stop : Date), endWallOf zone now bucket = some endWall ∧
      instantOf zone endWall = some stop.ms ∧
      range = ⟨start.toISOString, stop.toISOString, bucket⟩ ∧
      match (parseRelativeWindow (last.getD "30d".toList)).bind (startWallOf endWall) with
      | none => start = stop
      | some startWall => instantOf zone startWall = some start.ms := by
  obtain ⟨resolved, hresolved, rfl⟩ := Option.map_eq_some_iff.mp h
  obtain ⟨endWall, hwall, h⟩ := Option.bind_eq_some_iff.mp hresolved
  obtain ⟨stop, hstop, h⟩ := Option.bind_eq_some_iff.mp h
  have hms := dateOf_eq_some hstop
  cases hwindow : (parseRelativeWindow (last.getD "30d".toList)).bind (startWallOf endWall) with
  | none =>
    rw [hwindow] at h
    cases h
    exact ⟨endWall, stop, stop, hwall, hms, rfl, by rw [hwindow]⟩
  | some startWall =>
    rw [hwindow] at h
    obtain ⟨start, hstart, h⟩ := Option.bind_eq_some_iff.mp h
    cases h
    refine ⟨endWall, start, stop, hwall, hms, rfl, ?_⟩
    rw [hwindow]
    exact dateOf_eq_some hstart

/-- The dates of a range that is written are read back. -/
theorem assertBounds_dates {start stop : Date} :
    assertBounds D ⟨start.toISOString, stop.toISOString, bucket⟩ = .ok () ↔
      start.ms < stop.ms ∧
        stop.ms - start.ms ≤ (D.maxBuckets - 2) * (resolveBucket bucket).approxMs := by
  rw [assertBounds_ok_iff, ← nominalBuckets_le_iff]
  simp only [Date.parse_toISOString, Option.some.injEq]
  constructor
  · rintro ⟨_, _, rfl, rfl, hlt, hest⟩
    exact ⟨hlt, by omega⟩
  · rintro ⟨hlt, hest⟩
    exact ⟨start, stop, rfl, rfl, hlt, by omega⟩

/-- **A relative range passes** if and only if some instant shows a wall time of the window, and
the clocks go through all of it, from the time that its start is taken for, within the nominal
lengths that the cap allows. -/
theorem resolveRange_passes_iff (hz : WithinDay zone) (hi : Isolated zone) (hs : Settled zone)
    (hset : SetFromYear100 zone) (h : resolveRange zone bucket last now = some range) :
    assertBounds D range = .ok () ↔
      ∃ endWall startWall taken, endWallOf zone now bucket = some endWall ∧
        (parseRelativeWindow (last.getD "30d".toList)).bind (startWallOf endWall) =
          some startWall ∧
        (∃ t, startWall ≤ localTime zone t ∧ localTime zone t < endWall) ∧
        TakenFor zone startWall taken ∧
        ShownWithin zone taken endWall ((D.maxBuckets - 2) * (resolveBucket bucket).approxMs) := by
  obtain ⟨endWall, start, stop, hwall, hstop, rfl, hstart⟩ := resolveRange_spec h
  rw [assertBounds_dates]
  cases hwindow : (parseRelativeWindow (last.getD "30d".toList)).bind (startWallOf endWall) with
  | none =>
    rw [hwindow] at hstart
    change start = stop at hstart
    constructor
    · rintro ⟨hlt, -⟩
      rw [hstart] at hlt
      exact absurd hlt (lt_irrefl _)
    · rintro ⟨endWall', startWall, taken, hwall', hwindow', -⟩
      rw [hwall] at hwall'
      cases hwall'
      rw [hwindow] at hwindow'
      cases hwindow'
  | some startWall =>
    rw [hwindow] at hstart
    change instantOf zone startWall = some start.ms at hstart
    have h100 := year100_lt_endWallOf hwall
    have hms := instantOf_settled hz hs h100.le hstop
    have he : IsLeast (reached zone endWall) stop.ms := by
      rw [hms]
      exact isLeast_localInstant hz (hi endWall)
    have hlt : start.ms < stop.ms ↔
        ∃ t, startWall ≤ localTime zone t ∧ localTime zone t < endWall := by
      rw [hms]
      exact start_lt_stop_iff hz hi hs h100 hstart
    obtain ⟨taken, htaken, hleast⟩ := isLeast_instantOf hz (hi startWall) hs hset hstart
    rw [hlt, shownWithin_iff hleast he]
    constructor
    · rintro ⟨hshown, hwithin⟩
      exact ⟨endWall, startWall, taken, hwall, hwindow, hshown, htaken, hwithin⟩
    · rintro ⟨endWall', startWall', taken', hwall', hwindow', hshown, htaken', hwithin⟩
      rw [hwall] at hwall'
      cases hwall'
      rw [hwindow] at hwindow'
      cases hwindow'
      rw [htaken'.unique htaken] at hwithin
      exact ⟨hshown, hwithin⟩

/-- New York, from the autumn of 2025 on. -/
def newYork : Offset := setOnce 1762063200000 (-14400000) (-18000000)

/-- Three o'clock the day after the clocks are set back. -/
def dayAfter : Date := ⟨1762182000000, by decide⟩

/-- A week of days with the change in it. -/
theorem resolveRange_passes_newYork :
    assertBounds (zonedDeps fun _ => newYork)
      ⟨"2025-10-28T04:00:00.000Z".toList, "2025-11-04T05:00:00.000Z".toList, .day⟩ = .ok () ↔
      ∃ endWall startWall taken, endWallOf newYork dayAfter .day = some endWall ∧
        (parseRelativeWindow "7d".toList).bind (startWallOf endWall) = some startWall ∧
        (∃ t, startWall ≤ localTime newYork t ∧ localTime newYork t < endWall) ∧
        TakenFor newYork startWall taken ∧
        ShownWithin newYork taken endWall ((400 - 2) * (resolveBucket .day).approxMs) :=
  @resolveRange_passes_iff _ (zonedDeps fun _ => newYork) newYork .day (some "7d".toList) dayAfter
    _ (withinDay_setOnce (by decide) (by decide)) (fun _ => oneChange_setOnce _ _ _ _ _)
    (settled_setOnce (by decide) (by decide)) (setFromYear100_setOnce (by decide))
    (by decide +kernel)

/-- A window that is accepted is never refused. -/
def NeverRefused (last : Option (List Char)) : Prop :=
  ∀ (zone : Offset), WithinDay zone → Isolated zone → Settled zone → SetFromYear100 zone →
    ∀ (D : Deps (Fin 100)) (bucket : BucketAlias) (now : Date) (range : RangeDescriptor),
    acceptsQuery D.maxBuckets bucket last = true → resolveRange zone bucket last now = some range →
      assertBounds D range = .ok ()

/-- 398 hours are accepted, and are 399 where the clocks are set back; and the thirty days of a
query without a window are too many hours at any time. -/
theorem accepted_refused : ¬NeverRefused (some "398h".toList) ∧ ¬NeverRefused none := by
  constructor
  · intro h
    have hok := h newYork (withinDay_setOnce (by decide) (by decide))
      (fun _ => oneChange_setOnce _ _ _ _ _) (settled_setOnce (by decide) (by decide))
      (setFromYear100_setOnce (by decide)) (zonedDeps fun _ => newYork) .hour dayAfter
      ⟨"2025-10-18T01:00:00.000Z".toList, "2025-11-03T16:00:00.000Z".toList, .hour⟩
      (by decide +kernel) (by decide +kernel)
    exact absurd hok (by decide +kernel)
  · intro h
    have hok := h (setOnce 0 0 0) (withinDay_setOnce (by decide) (by decide))
      (fun _ => oneChange_setOnce _ _ _ _ _) (settled_setOnce (by decide) (by decide))
      (setFromYear100_setOnce (by decide)) (zonedDeps fun _ => setOnce 0 0 0) .hour dayAfter
      ⟨"2025-10-04T16:00:00.000Z".toList, "2025-11-03T16:00:00.000Z".toList, .hour⟩
      (by decide +kernel) (by decide +kernel)
    exact absurd hok (by decide +kernel)

end LakiraBackend.Analytics
