import LakiraBackend.Analytics.NowCovered
import LakiraBackend.Analytics.Series

/-!
# Which logs are counted

A row counts the logs of its bucket, and the buckets of a series are distinct, so no log is
counted twice.  A log in the range is counted if its bucket is in the series: if that does not
begin in the last second of the range, and the clocks were not set back to before the range's
first bucket (`binsAll_iff`).
-/

namespace LakiraBackend.Analytics

open LakiraBackend.Calendar LakiraBackend.JavaScript LakiraBackend.Metrics
open LakiraBackend.Postgres

/-! ### Groups of distinct keys -/

/-- The rows of distinct keys, all together. -/
theorem sum_length_filter {α κ : Type} [DecidableEq κ] {keys : List κ} (h : keys.Nodup)
    (key : α → κ) (rows : List α) :
    (keys.map fun k => (rows.filter fun r => key r = k).length).sum =
      (rows.filter fun r => key r ∈ keys).length := by
  induction keys with
  | nil => simp
  | cons k keys ih =>
    obtain ⟨hk, hkeys⟩ := List.nodup_cons.mp h
    rw [List.map_cons, List.sum_cons, ih hkeys,
      List.length_eq_length_filter_add (l := rows.filter fun r => key r ∈ k :: keys)
        fun r => key r = k, List.filter_filter, List.filter_filter]
    refine congrArg₂ (· + ·) (congrArg _ (List.filter_congr fun r _ => ?_))
      (congrArg _ (List.filter_congr fun r _ => ?_))
    · by_cases hr : key r = k <;> simp [hr]
    · by_cases hr : key r = k
      · simp [hr, hk]
      · simp [hr]

variable {V : Type} [LinearOrder V] {D : Deps V} {db : Db V} {zoneOf : List Char → Offset}

/-- How many logs each row counts. -/
def counts (rows : List (VizRow V)) : List Nat := rows.map fun r => r.cnt.getD 0

/-- Each log is counted once, and no other one is. -/
structure BinsAll {L : Type} (counts : List Nat) (starts : List Int) (bucketOf : L → Int)
    (logs : List L) : Prop where
  counted : counts = starts.map fun b => (logs.filter fun l => bucketOf l = b).length
  once : ∀ l ∈ logs, starts.count (bucketOf l) = 1
  total : counts.sum = logs.length

/-- The buckets of the logs begin in the series: not before its first bucket, nor in the last
second. -/
def InSeries (zone : Offset) (bucket : BucketAlias) (start stop : Int)
    (logs : List (MetricLog V)) : Prop :=
  ∀ l ∈ logs, dateTruncMicros bucket (timezone zone start) ≤
      dateTruncMicros bucket (timezone zone (l.loggedAt.ms * 1000)) ∧
    dateTruncMicros bucket (timezone zone (l.loggedAt.ms * 1000)) ≤
      timezone zone stop - 1000000

theorem counts_buildVisualizationSQL (hzoned : Zoned D zoneOf) (bucket : BucketAlias)
    (metricId : Uuid) (startISO endISO tz : List Char) :
    counts (buildVisualizationSQL D db (resolveBucket bucket) metricId startISO endISO tz) =
      (bucketStarts D (resolveBucket bucket) startISO endISO tz).map fun b =>
        ((logsWithin D db metricId startISO endISO).filter fun l =>
          bucketOf D (resolveBucket bucket) tz l = b).length := by
  have horder : orderBy id (bucketStarts D (resolveBucket bucket) startISO endISO tz) =
      bucketStarts D (resolveBucket bucket) startISO endISO tz := by
    refine orderBy_of_pairwise ?_
    rw [bucketStarts_eq hzoned]
    exact (pairwise_bucketSeries _ _ _ _).imp fun h => le_of_lt h
  rw [counts, buildVisualizationSQL_eq, horder, List.map_map]
  refine List.map_congr_left fun b _ => ?_
  change (((groupOf _ _ b).map _).map _).getD 0 = _
  rw [groupOf]
  split
  · rename_i hnil
    rw [hnil]
    rfl
  · exact List.length_map _

/-- Logs are all counted where their buckets are in the series. -/
theorem binsAll_of_counted {L : Type} {starts : List Int} (hnodup : starts.Nodup)
    {bucketOf : L → Int} {logs : List L} {counts : List Nat}
    (hcounted : counts = starts.map fun b => (logs.filter fun l => bucketOf l = b).length) :
    BinsAll counts starts bucketOf logs ↔ ∀ l ∈ logs, bucketOf l ∈ starts := by
  constructor
  · intro h l hl
    rw [← List.count_pos_iff, h.once l hl]
    exact Nat.one_pos
  · intro h
    refine ⟨hcounted, fun l hl => ?_, ?_⟩
    · rw [hnodup.count, if_pos (h l hl)]
    · rw [hcounted, sum_length_filter hnodup]
      exact congrArg List.length (List.filter_eq_self.mpr fun l hl => decide_eq_true (h l hl))

/-- **Nothing is lost** if and only if the buckets of all the logs are in the series, for the one
metric and for each of the dashboard's. -/
theorem binsAll_iff (hzoned : Zoned D zoneOf) (bucket : BucketAlias) (metricId : Uuid)
    (startISO endISO tz : List Char) :
    (BinsAll (counts (buildVisualizationSQL D db (resolveBucket bucket) metricId startISO endISO
        tz)) (bucketStarts D (resolveBucket bucket) startISO endISO tz)
        (bucketOf D (resolveBucket bucket) tz) (logsWithin D db metricId startISO endISO) ↔
      InSeries (zoneOf tz) bucket (D.timestamptz startISO) (D.timestamptz endISO)
        (logsWithin D db metricId startISO endISO)) ∧
    ∀ metricIds : List Uuid, metricIds.Nodup → metricId ∈ metricIds →
      (BinsAll (counts (((buildDashboardSQL D db (resolveBucket bucket) metricIds startISO endISO
          tz).filter fun row => row.metricId = metricId).map (·.row)))
          (bucketStarts D (resolveBucket bucket) startISO endISO tz)
          (bucketOf D (resolveBucket bucket) tz) (logsWithin D db metricId startISO endISO) ↔
        InSeries (zoneOf tz) bucket (D.timestamptz startISO) (D.timestamptz endISO)
          (logsWithin D db metricId startISO endISO)) := by
  have hone : BinsAll (counts (buildVisualizationSQL D db (resolveBucket bucket) metricId startISO
      endISO tz)) (bucketStarts D (resolveBucket bucket) startISO endISO tz)
      (bucketOf D (resolveBucket bucket) tz) (logsWithin D db metricId startISO endISO) ↔
        InSeries (zoneOf tz) bucket (D.timestamptz startISO) (D.timestamptz endISO)
          (logsWithin D db metricId startISO endISO) := by
    have hnodup : (bucketStarts D (resolveBucket bucket) startISO endISO tz).Nodup := by
      rw [bucketStarts_eq hzoned]
      exact (pairwise_bucketSeries _ _ _ _).imp fun h => ne_of_lt h
    rw [binsAll_of_counted hnodup (counts_buildVisualizationSQL hzoned _ _ _ _ _)]
    refine forall₂_congr fun l _ => ?_
    have hbucket : bucketOf D (resolveBucket bucket) tz l =
        dateTruncMicros bucket (timezone (zoneOf tz) (l.loggedAt.ms * 1000)) := by
      rw [bucketOf, hzoned.dateTrunc, hzoned.timezone]
    rw [hbucket, bucketStarts_eq hzoned, mem_bucketSeries,
      and_iff_right (dateTruncMicros_isMark bucket _)]
  refine ⟨hone, fun metricIds hnodup hm => ?_⟩
  rw [rows_of_buildDashboardSQL hnodup hm]
  exact hone

/-- A walk a fifth of a second past one o'clock. -/
def lateWalk : Db (Fin 100) :=
  { walksDb with
    logs := ⟨[{ firstWalk with loggedAt := ⟨3600200, by decide⟩ }], List.nodup_singleton _⟩ }

/-- The walk in a range of two hours. -/
theorem binsAll_iff_lateWalk :
    BinsAll (counts (buildVisualizationSQL (zonedDeps fun _ => setOnce 0 0 0) lateWalk
        (resolveBucket .hour) 7 "1970-01-01T00:00:00.000Z".toList "1970-01-01T02:00:00.000Z".toList
        []))
        (bucketStarts (zonedDeps fun _ => setOnce 0 0 0) (resolveBucket .hour)
          "1970-01-01T00:00:00.000Z".toList "1970-01-01T02:00:00.000Z".toList [])
        (bucketOf (zonedDeps fun _ => setOnce 0 0 0) (resolveBucket .hour) [])
        (logsWithin (zonedDeps fun _ => setOnce 0 0 0) lateWalk 7
          "1970-01-01T00:00:00.000Z".toList "1970-01-01T02:00:00.000Z".toList) ↔
      InSeries (setOnce 0 0 0) .hour 0 7200000000
        (logsWithin (zonedDeps fun _ => setOnce 0 0 0) lateWalk 7
          "1970-01-01T00:00:00.000Z".toList "1970-01-01T02:00:00.000Z".toList) :=
  (binsAll_iff (zoned_zonedDeps fun _ => setOnce 0 0 0) .hour 7 "1970-01-01T00:00:00.000Z".toList
    "1970-01-01T02:00:00.000Z".toList []).1

/-- In a range that ends half a second past one o'clock no row counts it. -/
theorem lastSecond_lost : ¬∀ (D : Deps (Fin 100)) (zoneOf : List Char → Offset), Zoned D zoneOf →
    (∀ tz, Isolated (zoneOf tz)) → ∀ (db : Db (Fin 100)) (bucket : BucketAlias) (metricId : Uuid)
      (startISO endISO tz : List Char), D.timestamptz startISO < D.timestamptz endISO →
      BinsAll (counts (buildVisualizationSQL D db (resolveBucket bucket) metricId startISO endISO
        tz)) (bucketStarts D (resolveBucket bucket) startISO endISO tz)
        (bucketOf D (resolveBucket bucket) tz) (logsWithin D db metricId startISO endISO) := by
  intro h
  have htotal := (h (zonedDeps fun _ => setOnce 0 0 0) (fun _ => setOnce 0 0 0) (zoned_zonedDeps _)
    (fun _ _ => oneChange_setOnce _ _ _ _ _) lateWalk .hour 7 "1970-01-01T00:00:00.000Z".toList
    "1970-01-01T01:00:00.500Z".toList [] (by decide +kernel)).total
  exact absurd htotal (by decide +kernel)

end LakiraBackend.Analytics
