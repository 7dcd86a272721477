import LakiraBackend.Analytics.Series

/-!
# The cap on buckets

`assertBounds` estimates the buckets of a range by their nominal length.  The estimate is two more
than the nominal lengths in the range: one for a first bucket that has begun before it, and one
for months and years that are shorter than they should be and for an hour that the clocks are
set forward.  So a series has no more buckets than were allowed (`assertBounds_caps`).
-/

namespace LakiraBackend.Analytics

open LakiraBackend.Calendar LakiraBackend.JavaScript LakiraBackend.Metrics
open LakiraBackend.Postgres

variable {V : Type} {D : Deps V} {zoneOf : List Char → Offset} {bucket : BucketAlias}

/-- `Math.ceil(span / approxMs)`. -/
def nominalBuckets (bucket : BucketAlias) (span : Int) : Int :=
  -(-span / (resolveBucket bucket).approxMs)

theorem approxMs_pos (bucket : BucketAlias) : 0 < (resolveBucket bucket).approxMs := by
  cases bucket <;> decide

/-- As many nominal lengths are no shorter. -/
theorem le_nominalBuckets_mul (bucket : BucketAlias) (span : Int) :
    span ≤ nominalBuckets bucket span * (resolveBucket bucket).approxMs := by
  have hmul := Int.ediv_mul_le (-span) (approxMs_pos bucket).ne'
  rw [nominalBuckets, Int.neg_mul]
  omega

/-- **A range that passes** is not empty, and the estimate is not past the cap. -/
theorem assertBounds_ok_iff {range : RangeDescriptor} : assertBounds D range = .ok () ↔
    ∃ start stop, Date.parse D.otherDate range.startISO = some start ∧
      Date.parse D.otherDate range.endISO = some stop ∧ start.ms < stop.ms ∧
      nominalBuckets range.bucket (stop.ms - start.ms) + 2 ≤ D.maxBuckets := by
  rw [assertBounds]
  cases Date.parse D.otherDate range.startISO with
  | none => exact ⟨nofun, fun ⟨_, _, h, _⟩ => nomatch h⟩
  | some start =>
    cases Date.parse D.otherDate range.endISO with
    | none => exact ⟨nofun, fun ⟨_, _, _, h, _⟩ => nomatch h⟩
    | some stop =>
      by_cases hle : stop.ms ≤ start.ms
      · simp only [if_pos hle]
        refine ⟨nofun, ?_⟩
        rintro ⟨_, _, ⟨⟩, ⟨⟩, hlt, -⟩
        omega
      · simp only [if_neg hle]
        change (if D.maxBuckets < nominalBuckets range.bucket (stop.ms - start.ms) + 2 then _
          else _) = Except.ok () ↔ _
        by_cases hmax : D.maxBuckets < nominalBuckets range.bucket (stop.ms - start.ms) + 2
        · rw [if_pos hmax]
          refine ⟨nofun, ?_⟩
          rintro ⟨_, _, ⟨⟩, ⟨⟩, -, hest⟩
          omega
        · rw [if_neg hmax]
          exact ⟨fun _ => ⟨start, stop, rfl, rfl, not_le.mp hle, not_lt.mp hmax⟩, fun _ => rfl⟩

/-- The buckets of a range whose wall times are so far apart. -/
theorem length_bucketSeries_le (zone : Offset) (bucket : BucketAlias) (start stop : Int) (k : Nat)
    (h : timezone zone stop - 1000000 ≤ timezone zone start +
      k * ((resolveBucket bucket).approxMs * 1000) - slack bucket * 1000) :
    (bucketSeries zone bucket start stop).length ≤ k + 1 := by
  obtain ⟨fuel, heq, -⟩ := bucketSeries_eq zone bucket start stop
  rw [heq]
  exact Grid.length_steps_le_succ (steady_microGrid bucket) k h

/-! ### How many rows there are -/

variable [LinearOrder V] {db : Db V}

theorem length_buildVisualizationSQL (spec : BucketSpec) (metricId : Uuid)
    (startISO endISO tz : List Char) :
    (buildVisualizationSQL D db spec metricId startISO endISO tz).length =
      (bucketStarts D spec startISO endISO tz).length := by
  rw [buildVisualizationSQL_eq, List.length_map]
  exact List.length_insertionSort _ _

theorem length_crossJoin {α β : Type} (l : List α) (r : List β) :
    (crossJoin l r).length = l.length * r.length := by
  induction l with
  | nil => exact (Nat.zero_mul _).symm
  | cons a l ih =>
    rw [crossJoin, List.flatMap_cons, List.length_append, List.length_map, ← crossJoin, ih,
      List.length_cons, Nat.succ_mul, Nat.add_comm]

theorem length_buildDashboardSQL (spec : BucketSpec) (metricIds : List Uuid)
    (startISO endISO tz : List Char) :
    (buildDashboardSQL D db spec metricIds startISO endISO tz).length =
      metricIds.length * (bucketStarts D spec startISO endISO tz).length := by
  have hjoin := leftJoin_aggregate id
    (crossJoin metricIds (bucketStarts D spec startISO endISO tz))
    (fun l : MetricLog V => (l.metricId, bucketOf D spec tz l))
    ((innerJoin (fun l cm => cm = l.metricId)
      (db.logs.select (loggedWithin D startISO endISO)) metricIds).map Prod.fst)
    fun ls => aggregates D (ls.map MetricLog.logValue)
  have hlength := congrArg List.length hjoin
  rw [List.length_map, length_crossJoin] at hlength
  rw [buildDashboardSQL, List.length_map]
  exact (List.length_insertionSort _ _).trans hlength

/-- **The cap holds**: a range that is accepted has no more buckets, in a zone whose clocks are
set forward by an hour at most. -/
theorem assertBounds_caps (hzoned : Zoned D zoneOf) (range : RangeDescriptor) (tz : List Char)
    (hstart : SameInstant D range.startISO) (hstop : SameInstant D range.endISO)
    (hok : assertBounds D range = .ok ())
    (hforward : zoneOf tz (D.timestamptz range.endISO / 1000) ≤
      zoneOf tz (D.timestamptz range.startISO / 1000) + HOUR_MS) :
    ((bucketStarts D (resolveBucket range.bucket) range.startISO range.endISO tz).length : Int) ≤
        D.maxBuckets ∧
      (∀ (db : Db V) (metricId : Uuid),
        ((buildVisualizationSQL D db (resolveBucket range.bucket) metricId range.startISO
          range.endISO tz).length : Int) ≤ D.maxBuckets) ∧
      ∀ (db : Db V) (metricIds : List Uuid),
        ((buildDashboardSQL D db (resolveBucket range.bucket) metricIds range.startISO
          range.endISO tz).length : Int) ≤ metricIds.length * D.maxBuckets := by
  obtain ⟨start, stop, hs, he, hlt, hest⟩ := assertBounds_ok_iff.mp hok
  have hseries : ((bucketStarts D (resolveBucket range.bucket) range.startISO range.endISO
      tz).length : Int) ≤ D.maxBuckets := by
    have hspan := le_nominalBuckets_mul range.bucket (stop.ms - start.ms)
    obtain ⟨k, hk⟩ := Int.eq_ofNat_of_zero_le (a := nominalBuckets range.bucket
      (stop.ms - start.ms)) (by
        by_contra hneg
        have := Int.mul_neg_of_neg_of_pos (not_le.mp hneg) (approxMs_pos range.bucket)
        omega)
    rw [hk] at hspan hest
    have hfirst := hstart start hs
    have hlast := hstop stop he
    have hhour := hour_le_approxMs range.bucket
    rw [bucketStarts_eq hzoned]
    have hle := length_bucketSeries_le (zoneOf tz) range.bucket (D.timestamptz range.startISO)
      (D.timestamptz range.endISO) (k + 1) (by
        rw [timezone, timezone, ← Int.mul_assoc, Int.natCast_add, Int.natCast_one, Int.add_mul,
          Int.one_mul]
        omega)
    omega
  refine ⟨hseries, fun db metricId => ?_, fun db metricIds => ?_⟩
  · rw [length_buildVisualizationSQL]
    exact hseries
  · rw [length_buildDashboardSQL, Int.natCast_mul]
    exact Int.mul_le_mul_of_nonneg_left hseries (Int.natCast_nonneg _)

/-- The first days of 2026 in New York, an hour of them. -/
theorem assertBounds_caps_hour :
    ((bucketStarts (zonedDeps fun _ _ => -18000000) (resolveBucket .hour)
      "2026-01-01T05:00:00.000Z".toList "2026-01-02T05:00:00.000Z".toList "".toList).length :
        Int) ≤ 400 :=
  (assertBounds_caps (zoned_zonedDeps fun _ _ => -18000000)
    ⟨"2026-01-01T05:00:00.000Z".toList, "2026-01-02T05:00:00.000Z".toList, .hour⟩ "".toList
    (sameInstant_zonedDeps _ _) (sameInstant_zonedDeps _ _) (by decide +kernel) (by decide)).1

end LakiraBackend.Analytics
