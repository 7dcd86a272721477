import LakiraBackend.Analytics.BucketCap
import LakiraBackend.Analytics.NowCovered

/-!
# The range that is fallen back to

Where the requested range has no logs the dashboard shows one that ends with the bucket the newest
log is in.  It shows that log if the window is as long as what is left of the bucket, and if the
clocks have not shown its end already (`computeFallbackRange_covers_iff`).  The window
has a bucket more than the guard where it does not start on a boundary, and one more where the
clocks skip its end (`fallback_rows_le`).
-/

namespace LakiraBackend.Analytics

open LakiraBackend.Calendar LakiraBackend.JavaScript LakiraBackend.Metrics
open LakiraBackend.Postgres

def DEFAULT_HORIZON_MS : Int := 1000 * 60 * 60 * 24 * 180

/-- A time as it is given; a `Date` may be invalid. -/
inductive TimeInput : Type
  | null
  | text (value : List Char)
  | date (value : Option Date)
  deriving DecidableEq

structure FallbackInput : Type where
  requested : RangeDescriptor
  lastLogAt : TimeInput
  guardBuckets : Nat
  maxHorizonMs : Int
  deriving DecidableEq

structure FallbackComputation : Type where
  range : RangeDescriptor
  estimatedBuckets : Int
  strategy : String
  deriving DecidableEq

/-- `other` reads a text that is not in the format of `toISOString`. -/
def normalizeDate (other : List Char → Option Date) : TimeInput → Option Date
  | .null => none
  | .text value => if value = [] then none else Date.parse other value
  | .date value => value

def requestedDurationMs (other : List Char → Option Date) (range : RangeDescriptor) : Int :=
  match Date.parse other range.startISO, Date.parse other range.endISO with
  | some start, some stop => if stop.ms ≤ start.ms then DEFAULT_HORIZON_MS else stop.ms - start.ms
  | _, _ => DEFAULT_HORIZON_MS

def estimateBuckets (start stop : Date) (bucket : BucketAlias) : Int :=
  nominalBuckets bucket (max (stop.ms - start.ms) 0) + 1

/-- How long the window is. -/
def fallbackSpan (other : List Char → Option Date) (input : FallbackInput) : Int :=
  let approxMs := (resolveBucket input.requested.bucket).approxMs
  min (min input.maxHorizonMs (max (requestedDurationMs other input.requested) approxMs))
    (input.guardBuckets * approxMs)

/-- None where it throws; without a newest log what is returned is null. -/
def computeFallbackRange (other : List Char → Option Date) (zone : Offset)
    (input : FallbackInput) : Option (Option FallbackComputation) :=
  match normalizeDate other input.lastLogAt with
  | none => some none
  | some last => do
    let fallbackEnd ← startOfNextBucket zone last input.requested.bucket
    let fallbackStart ← Date.ofMs (fallbackEnd.ms - fallbackSpan other input)
    pure (some
      { range := ⟨fallbackStart.toISOString, fallbackEnd.toISOString, input.requested.bucket⟩
        estimatedBuckets := estimateBuckets fallbackStart fallbackEnd input.requested.bucket
        strategy := "last_activity_window" })

variable {other : List Char → Option Date} {zone : Offset} {input : FallbackInput} {last : Date}

theorem ofMs_eq_some {ms : Int} {d : Date} (h : Date.ofMs ms = some d) : d.ms = ms := by
  rw [Date.ofMs] at h
  split at h
  · cases h
    rfl
  · cases h

/-- A `Date` of a wall time is its instant. -/
theorem dateOf_eq_some {wallMs : Int} {d : Date} (h : dateOf zone wallMs = some d) :
    instantOf zone wallMs = some d.ms := by
  obtain ⟨r, hr, hd⟩ := Option.bind_eq_some_iff.mp h
  rw [hr, ofMs_eq_some hd]

/-- **A range that is computed** ends at the instant of the bucket's end, and is as long as the
window. -/
theorem computeFallbackRange_spec (hlast : normalizeDate other input.lastLogAt = some last)
    {r : FallbackComputation} (h : computeFallbackRange other zone input = some (some r)) :
    ∃ start stop : Date,
      r.range = ⟨start.toISOString, stop.toISOString, input.requested.bucket⟩ ∧
      start.ms = stop.ms - fallbackSpan other input ∧
      ∃ endWall, endWallOf zone last input.requested.bucket = some endWall ∧
        instantOf zone endWall = some stop.ms := by
  rw [computeFallbackRange, hlast] at h
  obtain ⟨stop, hstop, h⟩ := Option.bind_eq_some_iff.mp h
  obtain ⟨start, hstart, h⟩ := Option.bind_eq_some_iff.mp h
  cases h
  obtain ⟨endWall, hwall, hdate⟩ := Option.bind_eq_some_iff.mp hstop
  exact ⟨start, stop, rfl, ofMs_eq_some hstart, endWall, hwall, dateOf_eq_some hdate⟩

/-! ### The newest log -/

/-- The clocks first show the wall time, or a later one, after one instant and up to another. -/
def ShownBetween (zone : Offset) (now deadline wallMs : Int) : Prop :=
  NotYetShown zone now wallMs ∧ ∃ t, t ≤ deadline ∧ wallMs ≤ localTime zone t

theorem isLeast_le_iff {w r t : Int} (h : IsLeast (reached zone w) r) :
    r ≤ t ↔ ∃ s, s ≤ t ∧ w ≤ localTime zone s :=
  ⟨fun hle => ⟨r, hle, h.1⟩, fun ⟨_, hs, hshown⟩ => (h.2 hshown).trans hs⟩

/-- **The newest log is in the range** if and only if the clocks show the end of its bucket after
the log, and by a window's length after it. -/
theorem computeFallbackRange_covers_iff (hz : WithinDay zone) (hi : Isolated zone)
    (hs : Settled zone) (hlast : normalizeDate other input.lastLogAt = some last)
    {r : FallbackComputation} (h : computeFallbackRange other zone input = some (some r)) :
    ∃ start stop : Date,
      r.range = ⟨start.toISOString, stop.toISOString, input.requested.bucket⟩ ∧
      ((start.ms ≤ last.ms ∧ last.ms < stop.ms) ↔
        ∃ endWall, endWallOf zone last input.requested.bucket = some endWall ∧
          ShownBetween zone last.ms (last.ms + fallbackSpan other input) endWall) := by
  obtain ⟨start, stop, hrange, hstart, endWall, hwall, hstop⟩ :=
    computeFallbackRange_spec hlast h
  have hleast := isLeast_localInstant hz (hi endWall)
  rw [← instantOf_settled hz hs (year100_lt_endWallOf hwall).le hstop] at hleast
  have hafter : last.ms < stop.ms ↔ NotYetShown zone last.ms endWall := lt_isLeast_iff hleast
  have hby : start.ms ≤ last.ms ↔
      ∃ t, t ≤ last.ms + fallbackSpan other input ∧ endWall ≤ localTime zone t := by
    rw [← isLeast_le_iff hleast, hstart]
    omega
  refine ⟨start, stop, hrange, ?_⟩
  rw [hafter, hby]
  constructor
  · rintro ⟨hshown, hnot⟩
    exact ⟨endWall, hwall, hnot, hshown⟩
  · rintro ⟨endWall', hwall', hnot, hshown⟩
    rw [hwall] at hwall'
    cases hwall'
    exact ⟨hshown, hnot⟩

/-- Ninety days of a summer. -/
def summer (bucket : BucketAlias) : RangeDescriptor :=
  ⟨"2024-06-01T00:00:00.000Z".toList, "2024-08-30T00:00:00.000Z".toList, bucket⟩

def newestAt (last : Date) (bucket : BucketAlias) (guardBuckets : Nat) : FallbackInput :=
  ⟨summer bucket, .date (some last), guardBuckets, DEFAULT_HORIZON_MS⟩

/-- Noon on the fifteenth of March. -/
def midMarch : Date := ⟨1710504000000, by decide⟩

theorem computeFallbackRange_covers_march : ∃ start stop : Date,
    (⟨"2024-01-31T03:01:48.000Z".toList, "2024-04-01T00:00:00.000Z".toList, .month⟩ :
      RangeDescriptor) = ⟨start.toISOString, stop.toISOString, .month⟩ ∧
    ((start.ms ≤ 1710504000000 ∧ 1710504000000 < stop.ms) ↔
      ∃ endWall, endWallOf (setOnce 0 0 0) midMarch .month = some endWall ∧
        ShownBetween (setOnce 0 0 0) 1710504000000
          (1710504000000 + fallbackSpan (fun _ => none) (newestAt midMarch .month 2)) endWall) :=
  @computeFallbackRange_covers_iff (fun _ => none) (setOnce 0 0 0) (newestAt midMarch .month 2)
    midMarch (withinDay_setOnce (by decide) (by decide)) (fun _ => oneChange_setOnce _ _ _ _ _)
    (settled_setOnce (by decide) (by decide)) rfl
    ⟨⟨"2024-01-31T03:01:48.000Z".toList, "2024-04-01T00:00:00.000Z".toList, .month⟩, 3,
      "last_activity_window"⟩ (by decide +kernel)

/-- The newest log is in the middle of January, and the window of a year is half a year long. -/
theorem january_left_out : ¬∀ (zone : Offset), WithinDay zone → Isolated zone → Settled zone →
    ∀ (other : List Char → Option Date) (input : FallbackInput) (last start stop : Date)
      (r : FallbackComputation), normalizeDate other input.lastLogAt = some last →
      computeFallbackRange other zone input = some (some r) →
      r.range = ⟨start.toISOString, stop.toISOString, input.requested.bucket⟩ →
      start.ms ≤ last.ms ∧ last.ms < stop.ms := by
  intro h
  have hstart := (h (setOnce 0 0 0) (withinDay_setOnce (by decide) (by decide))
    (fun _ => oneChange_setOnce _ _ _ _ _) (settled_setOnce (by decide) (by decide)) (fun _ => none)
    (newestAt ⟨1705276800000, by decide⟩ .year 96)
    ⟨1705276800000, by decide⟩ ⟨1720137600000, by decide⟩ ⟨1735689600000, by decide⟩
    ⟨⟨"2024-07-05T00:00:00.000Z".toList, "2025-01-01T00:00:00.000Z".toList, .year⟩, 2,
      "last_activity_window"⟩ rfl (by decide +kernel) (by decide +kernel)).1
  exact absurd hstart (by decide)

/-! ### The guard -/

/-- The database reads what `toISOString` writes. -/
def ReadsISO {V : Type} (D : Deps V) : Prop := ∀ d : Date, D.timestamptz d.toISOString = d.ms * 1000

theorem readsISO_zonedDeps (zoneOf : List Char → Offset) : ReadsISO (zonedDeps zoneOf) := by
  intro d
  have hparse := Date.parse_toISOString (fun _ => none) d
  change (Date.parseISO d.toISOString).getD 0 * 1000 = _
  rw [Date.parse] at hparse
  cases hiso : Date.parseISO d.toISOString with
  | none =>
    rw [hiso] at hparse
    cases hparse
  | some ms =>
    rw [hiso] at hparse
    rw [Option.getD_some, ofMs_eq_some hparse]

variable {V : Type} {D : Deps V} {zoneOf : List Char → Offset}

theorem fallbackSpan_le (other : List Char → Option Date) (input : FallbackInput) :
    fallbackSpan other input ≤
      input.guardBuckets * (resolveBucket input.requested.bucket).approxMs := min_le_right _ _

/-- The buckets up to a boundary. -/
theorem length_bucketSeries_le_of_isBoundary {bucket : BucketAlias} {start stop : Int} (k : Nat)
    (hstop : IsBoundary bucket (localTime zone stop))
    (h : localTime zone stop ≤ localTime zone start +
      (k + 1) * (resolveBucket bucket).approxMs - slack bucket) :
    (bucketSeries zone bucket (start * 1000) (stop * 1000)).length ≤ k + 1 := by
  obtain ⟨fuel, heq, -⟩ := bucketSeries_eq zone bucket (start * 1000) (stop * 1000)
  have hwall : ∀ t, timezone zone (t * 1000) = localTime zone t * 1000 := by
    intro t
    rw [timezone, Int.mul_ediv_cancel _ (by decide), localTime, Int.add_mul]
  rw [heq]
  refine Grid.length_steps_le_of_isMark (steady_microGrid bucket) k
    (isMark_iff.mpr ⟨_, hstop, hwall stop⟩) (by omega) ?_
  rw [hwall, hwall, ← Int.mul_assoc]
  omega

/-- **The window has a bucket more than the guard**, and one more where the clocks skip its end, so
that it ends when they moved (ADR-0062); they are set forward by an hour at most. -/
theorem fallback_rows_le (hzoned : Zoned D zoneOf) (hiso : ReadsISO D) (tz : List Char)
    {r : FallbackComputation} (h : computeFallbackRange other (zoneOf tz) input = some (some r)) :
    ∃ start stop : Date,
      r.range = ⟨start.toISOString, stop.toISOString, input.requested.bucket⟩ ∧
      (zoneOf tz stop.ms ≤ zoneOf tz start.ms + HOUR_MS →
        (bucketStarts D (resolveBucket r.range.bucket) r.range.startISO r.range.endISO tz).length ≤
          input.guardBuckets + 1 +
            if IsBoundary input.requested.bucket (localTime (zoneOf tz) stop.ms) then 0 else 1) := by
  obtain ⟨last, hlast⟩ : ∃ last, normalizeDate other input.lastLogAt = some last := by
    cases hlast : normalizeDate other input.lastLogAt with
    | some last => exact ⟨last, rfl⟩
    | none =>
      rw [computeFallbackRange, hlast] at h
      cases h
  obtain ⟨start, stop, hrange, hstart, -⟩ := computeFallbackRange_spec hlast h
  refine ⟨start, stop, hrange, fun hforward => ?_⟩
  have hspan := fallbackSpan_le other input
  have hhour := hour_le_approxMs input.requested.bucket
  rw [hrange, bucketStarts_eq hzoned, hiso, hiso]
  change (bucketSeries (zoneOf tz) input.requested.bucket _ _).length ≤ _
  by_cases hstop : IsBoundary input.requested.bucket (localTime (zoneOf tz) stop.ms)
  · rw [if_pos hstop, Nat.add_zero]
    refine length_bucketSeries_le_of_isBoundary _ hstop ?_
    rw [localTime_eq, localTime_eq, Int.add_mul, Int.one_mul]
    omega
  · rw [if_neg hstop]
    refine length_bucketSeries_le _ _ _ _ (input.guardBuckets + 1) ?_
    rw [timezone, timezone, Int.mul_ediv_cancel _ (by decide), Int.mul_ediv_cancel _ (by decide),
      ← Int.mul_assoc, Int.natCast_add, Int.natCast_one, Int.add_mul, Int.one_mul]
    omega

/-- Two months and a day, of a log in March. -/
theorem fallback_rows_le_march : ∃ start stop : Date,
    (⟨"2024-01-31T03:01:48.000Z".toList, "2024-04-01T00:00:00.000Z".toList, .month⟩ :
      RangeDescriptor) = ⟨start.toISOString, stop.toISOString, .month⟩ ∧
    (setOnce 0 0 0 stop.ms ≤ setOnce 0 0 0 start.ms + HOUR_MS →
      (bucketStarts (zonedDeps fun _ => setOnce 0 0 0) (resolveBucket .month)
        "2024-01-31T03:01:48.000Z".toList "2024-04-01T00:00:00.000Z".toList []).length ≤
          2 + 1 + if IsBoundary .month (localTime (setOnce 0 0 0) stop.ms) then 0 else 1) :=
  @fallback_rows_le (fun _ => none) (newestAt midMarch .month 2) _ _ _
    (zoned_zonedDeps fun _ => setOnce 0 0 0) (readsISO_zonedDeps _) []
    ⟨⟨"2024-01-31T03:01:48.000Z".toList, "2024-04-01T00:00:00.000Z".toList, .month⟩, 3,
      "last_activity_window"⟩ (by decide +kernel)

/-- How many buckets the window has. -/
def fallbackRows (zone : Offset) (input : FallbackInput) : Option Nat :=
  (computeFallbackRange (fun _ => none) zone input).bind fun r => r.map fun r =>
    (bucketStarts (zonedDeps fun _ => zone) (resolveBucket r.range.bucket) r.range.startISO
      r.range.endISO []).length

def midFebruary : Date := ⟨1676462400000, by decide⟩

/-- February ends at the instant the clocks skip the midnight. -/
theorem startOfNextBucket_skipped :
    startOfNextBucket (setOnce 1677628800000 0 HOUR_MS) midFebruary .month =
      some ⟨1677628800000, by decide⟩ := by
  have hleast : IsLeast (reached (setOnce 1677628800000 0 HOUR_MS) 1677628800000)
      1677628800000 := by
    have hshown : (1677628800000 : Int) ≤
        localTime (setOnce 1677628800000 0 HOUR_MS) 1677628800000 := by decide
    refine ⟨hshown, fun t ht => ?_⟩
    by_contra hlt
    have hzero : setOnce 1677628800000 0 HOUR_MS t = 0 := if_pos (not_le.mp hlt)
    change 1677628800000 ≤ t + setOnce 1677628800000 0 HOUR_MS t at ht
    omega
  have hz : WithinDay (setOnce 1677628800000 0 HOUR_MS) :=
    withinDay_setOnce (by decide) (by decide)
  have hlocal := (isLeast_localInstant hz
    (oneChange_setOnce 1677628800000 0 HOUR_MS _ _)).unique hleast
  have hinstant := instantOf_local hz (show year100 + 2 * DAY_MS ≤ 1677628800000 by decide)
    (by decide)
  have hwall : endWallOf (setOnce 1677628800000 0 HOUR_MS) midFebruary .month =
      some 1677628800000 := by decide +kernel
  rw [startOfNextBucket, hwall, Option.bind_some, dateOf, hinstant, hlocal]
  decide +kernel

/-- A window of two months goes back into a third; one of two hours has a day in it where the
clocks are set forward by that; and one of a month has three where they skip the midnight. -/
theorem guard_exceeded :
    (¬∀ zone input rows, fallbackRows zone input = some rows → rows ≤ input.guardBuckets) ∧
    (¬∀ zone input rows, fallbackRows zone input = some rows → rows ≤ input.guardBuckets + 1) ∧
    ¬∀ c zone, zone = setOnce c 0 HOUR_MS → ∀ input rows, fallbackRows zone input = some rows →
      rows ≤ input.guardBuckets + 1 := by
  refine ⟨fun h => ?_, fun h => ?_, fun h => ?_⟩
  · have := h (setOnce 0 0 0) (newestAt midMarch .month 2) 3 (by decide +kernel)
    exact absurd this (by decide)
  · have := h (setOnce 1710502200000 (-36000000) 50400000) (newestAt midMarch .hour 2) 26
      (by decide +kernel)
    exact absurd this (by decide)
  · have hstop := startOfNextBucket_skipped
    have hrange : computeFallbackRange (fun _ => none) (setOnce 1677628800000 0 HOUR_MS)
        (newestAt midFebruary .month 1) =
          some (some ⟨⟨"2023-01-29T13:30:54.000Z".toList, "2023-03-01T00:00:00.000Z".toList,
            .month⟩, 2, "last_activity_window"⟩) := by
      rw [computeFallbackRange]
      change (startOfNextBucket _ midFebruary .month).bind _ = _
      rw [hstop]
      decide +kernel
    have := h 1677628800000 _ rfl (newestAt midFebruary .month 1) 3 (by
      rw [fallbackRows, hrange]
      decide +kernel)
    exact absurd this (by decide)

end LakiraBackend.Analytics
