import LakiraBackend.Metrics.Percentages
import LakiraBackend.Postgres.Relational
import Mathlib.Data.Prod.Lex

/-!
# The visualization queries as they are written

`buildVisualizationSQL` asks for one metric and `buildDashboardSQL` for several at once, whose
rows the repository tells apart afterwards.  For each metric the dashboard shows what the query
for the one shows, over the range it says (`dashboard_agrees`).  Where the buckets of a series
come in order, both are `series` of the metric (`buildVisualizationSQL_eq_series`).
-/

namespace LakiraBackend.Metrics

open LakiraBackend.Auth (Err)
open LakiraBackend.JavaScript LakiraBackend.Postgres

variable {V : Type} [LinearOrder V] [Zero V] (D : Deps V) (db : Db V)

/-! ### The queries -/

structure Aggregates (V : Type) : Type where
  avg : Option V
  min : Option V
  max : Option V
  cnt : Nat
  deriving DecidableEq

/-- `avg(v), min(v), max(v), count(*)`. -/
def aggregates (vs : List V) : Aggregates V :=
  ⟨if vs = [] then none else some (D.avg vs), vs.min?, vs.max?, vs.length⟩

/-- A row that is selected: a bucket, and what is joined to it. -/
def selectRow (bucket : Int) (joined : Option (Aggregates V)) : VizRow V :=
  ⟨D.label bucket, joined.bind (·.avg), joined.bind (·.min), joined.bind (·.max),
    joined.map (·.cnt)⟩

/-- `series`. -/
def bucketStarts (spec : BucketSpec) (startISO endISO tz : List Char) : List Int :=
  D.generateSeries (D.dateTrunc spec.trunc (D.timezone tz (D.timestamptz startISO)))
    (D.timezone tz (D.timestamptz endISO) - 1000000) spec.trunc

/-- `ml.logged_at >= :start AND ml.logged_at < :end`. -/
def loggedWithin (startISO endISO : List Char) (l : MetricLog V) : Bool :=
  D.timestamptz startISO ≤ l.loggedAt.ms * 1000 && l.loggedAt.ms * 1000 < D.timestamptz endISO

/-- `date_trunc` of the wall time of a log. -/
def bucketOf (spec : BucketSpec) (tz : List Char) (l : MetricLog V) : Int :=
  D.dateTrunc spec.trunc (D.timezone tz (l.loggedAt.ms * 1000))

def buildVisualizationSQL (spec : BucketSpec) (metricId : Uuid) (startISO endISO tz : List Char) :
    List (VizRow V) :=
  let series := bucketStarts D spec startISO endISO tz
  let logs := db.logs.select fun l => l.metricId = metricId && loggedWithin D startISO endISO l
  let binned := (groupBy (bucketOf D spec tz) logs).map fun g =>
    (g.1, aggregates D (g.2.map MetricLog.logValue))
  (orderBy Prod.fst (leftJoin (fun s b => b.1 = s) series binned)).map fun r =>
    selectRow D r.1 (r.2.map Prod.snd)

structure DashboardSeriesRow (V : Type) : Type where
  metricId : Uuid
  row : VizRow V
  deriving DecidableEq

def buildDashboardSQL (spec : BucketSpec) (metricIds : List Uuid)
    (startISO endISO tz : List Char) : List (DashboardSeriesRow V) :=
  let series := bucketStarts D spec startISO endISO tz
  let logs := (innerJoin (fun l cm => cm = l.metricId)
    (db.logs.select (loggedWithin D startISO endISO)) metricIds).map Prod.fst
  let binned := (groupBy (fun l => (l.metricId, bucketOf D spec tz l)) logs).map fun g =>
    (g.1, aggregates D (g.2.map MetricLog.logValue))
  (orderBy (fun r => toLex r.1)
    (leftJoin (fun s b => b.1 = s) (crossJoin metricIds series) binned)).map fun r =>
      ⟨r.1.1, selectRow D r.1.2 (r.2.map Prod.snd)⟩

/-! ### What the repository makes of the rows -/

namespace Rows

/-- What is shown of one metric. -/
def fetchVisualization (userId organizationId : Uuid) (metricId : IdText) (q : VizQuery) :
    Except Err (VizResponse V) :=
  match findOwnedMetric db userId organizationId metricId.id with
  | none => .error (.app "Metric not found" 404)
  | some metric =>
    let rows := buildVisualizationSQL D db (resolveBucket q.range.bucket) metricId.id
      q.range.startISO q.range.endISO q.tz
    .ok
      { metricId := metricId.text
        series := toSeries q.fill rows
        stats := summarizeBuckets D rows
        unit := metric.defaultUnit
        query := q }

def hasRequestedData (rows : List (VizRow V)) : Bool :=
  rows.any fun row => match row.cnt with
    | some (_ + 1) => true
    | _ => false

/-- The range that is shown instead, where the requested one has no logs. -/
def fallback (metricSeries : List (VizRow V)) (q : VizQuery) (metricId : Uuid) :
    Option RangeDescriptor :=
  if hasRequestedData metricSeries then none
  else (lifecycle D db (resolveBucket q.range.bucket) q.tz metricId).lastLogAt.map
    (fallbackRange D q.range q.tz)

def effectiveSeries (metricSeries : List (VizRow V)) (q : VizQuery) (metricId : Uuid) :
    List (VizRow V) :=
  match fallback D db metricSeries q metricId with
  | some range => buildVisualizationSQL D db (resolveBucket q.range.bucket) metricId
      range.startISO range.endISO q.tz
  | none => metricSeries

def metricSeries (seriesRows : List (DashboardSeriesRow V)) (metricId : Uuid) : List (VizRow V) :=
  (seriesRows.filter fun row => row.metricId = metricId).map (·.row)

def buildDashboardItem (seriesRows : List (DashboardSeriesRow V)) (q : VizQuery)
    (r : DashboardMetricRow V) : DashboardVizItem V :=
  let metricSeries := metricSeries seriesRows r.metric.id
  let rows := effectiveSeries D db metricSeries q r.metric.id
  let used := fallback D db metricSeries q r.metric.id
  { metricId := r.metric.id
    name := r.metric.name
    unit := r.metric.defaultUnit
    category := r.category.map fun c => (c.name, c.icon, c.color)
    priority := r.settings.priority
    series := toSeries q.fill rows
    stats := summarizeBuckets D rows
    lifecycle := lifecycle D db (resolveBucket q.range.bucket) q.tz r.metric.id
    requestedRange := q.range
    actualRange := used.getD q.range
    fallbackStrategy := used.map fun _ => "last_activity_window" }

/-- The rows of all the metrics that are shown. -/
def seriesRows (metrics : List (DashboardMetricRow V)) (q : VizQuery) :
    List (DashboardSeriesRow V) :=
  buildDashboardSQL D db (resolveBucket q.range.bucket)
    ((metrics.map fun r => r.metric.id).insertionSort (· ≤ ·)) q.range.startISO q.range.endISO q.tz

def fetchDashboardVisualization (metrics : List (DashboardMetricRow V)) (q : VizQuery) :
    List (DashboardVizItem V) :=
  metrics.map (buildDashboardItem D db (seriesRows D db metrics q) q)

end Rows

/-! ### One metric of many -/

variable {D db}

/-- The logs of a metric in a range. -/
def logsWithin (D : Deps V) (db : Db V) (metricId : Uuid) (startISO endISO : List Char) :
    List (MetricLog V) :=
  db.logs.select fun l => l.metricId = metricId && loggedWithin D startISO endISO l

/-- The row of a bucket. -/
def bucketRow (D : Deps V) (spec : BucketSpec) (tz : List Char) (logs : List (MetricLog V))
    (bucket : Int) : VizRow V :=
  selectRow D bucket ((groupOf (bucketOf D spec tz) logs bucket).map fun ls =>
    aggregates D (ls.map MetricLog.logValue))

omit [Zero V] in
/-- What the query for one metric gives: a row for each bucket. -/
theorem buildVisualizationSQL_eq (spec : BucketSpec) (metricId : Uuid)
    (startISO endISO tz : List Char) :
    buildVisualizationSQL D db spec metricId startISO endISO tz =
      (orderBy id (bucketStarts D spec startISO endISO tz)).map
        (bucketRow D spec tz (logsWithin D db metricId startISO endISO)) := by
  let f : Int → Int × Option (Int × Aggregates V) := fun b =>
    (b, (groupOf (bucketOf D spec tz) (logsWithin D db metricId startISO endISO) b).map
      fun ls => (b, aggregates D (ls.map MetricLog.logValue)))
  have hjoin := leftJoin_aggregate id (bucketStarts D spec startISO endISO tz)
    (bucketOf D spec tz) (logsWithin D db metricId startISO endISO)
    fun ls => aggregates D (ls.map MetricLog.logValue)
  have horder : (orderBy id (bucketStarts D spec startISO endISO tz)).map f =
      orderBy Prod.fst ((bucketStarts D spec startISO endISO tz).map f) :=
    map_orderBy fun _ _ _ _ => Iff.rfl
  let select : Int × Option (Int × Aggregates V) → VizRow V :=
    fun r => selectRow D r.1 (r.2.map Prod.snd)
  have hquery : buildVisualizationSQL D db spec metricId startISO endISO tz =
      (orderBy Prod.fst ((bucketStarts D spec startISO endISO tz).map f)).map select :=
    congrArg (fun rows => (orderBy Prod.fst rows).map select) hjoin
  rw [hquery, ← horder, List.map_map]
  refine List.map_congr_left fun b _ => ?_
  simp only [Function.comp_apply, f, select, bucketRow, Option.map_map]
  rfl

omit [LinearOrder V] [Zero V] in
/-- The logs of several metrics are, for each, its own. -/
theorem filter_covered {metricIds : List Uuid} (hnodup : metricIds.Nodup) {m : Uuid}
    (hm : m ∈ metricIds) (startISO endISO : List Char) :
    (((innerJoin (fun l cm => cm = l.metricId) (db.logs.select (loggedWithin D startISO endISO))
      metricIds).map Prod.fst).filter fun l => l.metricId = m) =
        logsWithin D db m startISO endISO := by
  rw [fst_innerJoin hnodup MetricLog.metricId, List.filter_filter, Table.select,
    logsWithin, Table.select]
  change (orderBy MetricLog.id _).filter _ = orderBy MetricLog.id _
  rw [filter_orderBy, List.filter_filter]
  refine congrArg _ (List.filter_congr fun l _ => ?_)
  by_cases h : l.metricId = m
  · simp [h, hm]
  · simp [h]

omit [Zero V] in
/-- **The rows of a metric among those of many** are the ones the query for it alone gives. -/
theorem rows_of_buildDashboardSQL {metricIds : List Uuid} (hnodup : metricIds.Nodup) {m : Uuid}
    (hm : m ∈ metricIds) (spec : BucketSpec) (startISO endISO tz : List Char) :
    ((buildDashboardSQL D db spec metricIds startISO endISO tz).filter
      fun row => row.metricId = m).map (·.row) =
        buildVisualizationSQL D db spec m startISO endISO tz := by
  let covered := (innerJoin (fun l cm => cm = l.metricId)
    (db.logs.select (loggedWithin D startISO endISO)) metricIds).map Prod.fst
  let key : MetricLog V → Uuid × Int := fun l => (l.metricId, bucketOf D spec tz l)
  let f : Uuid × Int → (Uuid × Int) × Option ((Uuid × Int) × Aggregates V) := fun p =>
    (p, (groupOf key covered p).map fun ls => (p, aggregates D (ls.map MetricLog.logValue)))
  have hjoin := leftJoin_aggregate id (crossJoin metricIds (bucketStarts D spec startISO endISO tz))
    key covered fun ls => aggregates D (ls.map MetricLog.logValue)
  let place : (Uuid × Int) × Option ((Uuid × Int) × Aggregates V) → Uuid ×ₗ Int :=
    fun r => toLex r.1
  let select : (Uuid × Int) × Option ((Uuid × Int) × Aggregates V) → DashboardSeriesRow V :=
    fun r => ⟨r.1.1, selectRow D r.1.2 (r.2.map Prod.snd)⟩
  have hdashboard : buildDashboardSQL D db spec metricIds startISO endISO tz =
      (orderBy place
        ((crossJoin metricIds (bucketStarts D spec startISO endISO tz)).map f)).map select :=
    congrArg (fun rows => (orderBy place rows).map select) hjoin
  have hfilter : ((crossJoin metricIds (bucketStarts D spec startISO endISO tz)).map f).filter
      (fun r => r.1.1 = m) =
        (bucketStarts D spec startISO endISO tz).map fun b => f (m, b) := by
    rw [List.filter_map]
    change ((crossJoin metricIds _).filter fun p => p.1 = m).map f = _
    rw [filter_crossJoin hnodup hm, List.map_map]
    rfl
  have horder : orderBy place
      ((bucketStarts D spec startISO endISO tz).map fun b => f (m, b)) =
        (orderBy id (bucketStarts D spec startISO endISO tz)).map fun b => f (m, b) := by
    refine (map_orderBy fun b _ b' _ => ?_).symm
    change b ≤ b' ↔ toLex (m, b) ≤ toLex (m, b')
    rw [Prod.Lex.toLex_le_toLex]
    simp
  have hgroup : ∀ b, groupOf key covered (m, b) =
      groupOf (bucketOf D spec tz) (logsWithin D db m startISO endISO) b := by
    intro b
    rw [groupOf, groupOf, ← filter_covered hnodup hm, List.filter_filter]
    simp only [key, Prod.mk.injEq, Bool.decide_and, Bool.and_comm, covered]
  rw [hdashboard, List.filter_map, List.map_map]
  change ((orderBy place ((crossJoin metricIds _).map f)).filter fun r => r.1.1 = m).map _ = _
  rw [filter_orderBy, hfilter, horder, List.map_map, buildVisualizationSQL_eq]
  refine List.map_congr_left fun b _ => ?_
  simp only [Function.comp_apply, f, select, hgroup, bucketRow, Option.map_map]
  rfl

/-! ### The dashboard and one metric -/

namespace Rows

omit [Zero V] in
theorem metricSeries_seriesRows {metrics : List (DashboardMetricRow V)}
    (hnodup : (metrics.map fun r => r.metric.id).Nodup) {r : DashboardMetricRow V}
    (hr : r ∈ metrics) (q : VizQuery) :
    metricSeries (seriesRows D db metrics q) r.metric.id =
      buildVisualizationSQL D db (resolveBucket q.range.bucket) r.metric.id q.range.startISO
        q.range.endISO q.tz := by
  have hperm := List.perm_insertionSort (· ≤ ·) (metrics.map fun r => r.metric.id)
  exact rows_of_buildDashboardSQL (hperm.nodup_iff.mpr hnodup)
    (hperm.mem_iff.mpr (List.mem_map_of_mem hr)) _ _ _ _

/-- What is shown of a metric is what the query for it gives over the range that is said. -/
structure Agrees (D : Deps V) (db : Db V) (userId organizationId : Uuid) (q : VizQuery)
    (metricId : IdText) (requested shown : List (VizRow V)) (item : DashboardVizItem V) : Prop where
  kept : hasRequestedData requested = true → item.fallbackStrategy = none
  range : item.fallbackStrategy = none → item.actualRange = q.range
  rows : shown = buildVisualizationSQL D db (resolveBucket q.range.bucket) metricId.id
    item.actualRange.startISO item.actualRange.endISO q.tz
  response : ∃ single, fetchVisualization D db userId organizationId metricId
      { q with range := ⟨item.actualRange.startISO, item.actualRange.endISO, q.range.bucket⟩ } =
        .ok single ∧
    item.series = single.series ∧ item.stats = single.stats

/-- **The dashboard shows what the visualization of the metric shows**, over the requested range
or over the one it falls back to. -/
theorem dashboard_agrees {userId organizationId : Uuid} {metrics : List (DashboardMetricRow V)}
    (hnodup : (metrics.map fun r => r.metric.id).Nodup)
    (howned : ∀ r ∈ metrics,
      findOwnedMetric db userId organizationId r.metric.id = some r.metric)
    (q : VizQuery) {r : DashboardMetricRow V} (hr : r ∈ metrics) {metricId : IdText}
    (hid : metricId.id = r.metric.id) :
    Agrees D db userId organizationId q metricId
      (metricSeries (seriesRows D db metrics q) r.metric.id)
      (effectiveSeries D db (metricSeries (seriesRows D db metrics q) r.metric.id) q r.metric.id)
      (buildDashboardItem D db (seriesRows D db metrics q) q r) := by
  let requested := metricSeries (seriesRows D db metrics q) r.metric.id
  let item := buildDashboardItem D db (seriesRows D db metrics q) q r
  have hrows : effectiveSeries D db requested q r.metric.id =
      buildVisualizationSQL D db (resolveBucket q.range.bucket) r.metric.id
        item.actualRange.startISO item.actualRange.endISO q.tz := by
    change effectiveSeries D db requested q r.metric.id =
      buildVisualizationSQL D db (resolveBucket q.range.bucket) r.metric.id
        ((fallback D db requested q r.metric.id).getD q.range).startISO
        ((fallback D db requested q r.metric.id).getD q.range).endISO q.tz
    rw [effectiveSeries]
    cases fallback D db requested q r.metric.id with
    | some range => rfl
    | none => exact metricSeries_seriesRows hnodup hr q
  refine ⟨fun hdata => ?_, fun hnone => ?_, ?_, ?_⟩
  · change (fallback D db requested q r.metric.id).map _ = none
    rw [fallback, if_pos hdata]
    rfl
  · change (fallback D db requested q r.metric.id).getD q.range = q.range
    rw [Option.map_eq_none_iff.mp hnone]
    rfl
  · rw [hid]
    exact hrows
  · rw [fetchVisualization, hid, howned r hr]
    exact ⟨_, rfl, congrArg (toSeries q.fill) hrows, congrArg (summarizeBuckets D) hrows⟩

def jogging : Metric := { walking with id := 10, name := "Jogs" }

/-- Seven, on the fortieth day. -/
def firstJog : MetricLog (Fin 100) :=
  { firstWalk with id := 12, metricId := 10, logValue := 7, loggedAt := Utc.dateOf 3456000000 }

def joggingSettings : MetricSettings (Fin 100) := { walksSettings with id := 11, metricId := 10 }

def walksAndJogs : Db (Fin 100) :=
  { walksDb with
    metrics := ⟨[walking, jogging], by decide⟩
    settings := ⟨[walksSettings, joggingSettings], by decide⟩
    logs := ⟨[firstWalk, firstJog], by decide⟩ }

def bothRows : List (DashboardMetricRow (Fin 100)) := [walksRow, ⟨joggingSettings, jogging, none⟩]

/-- The items of both metrics, of the first three days. -/
def bothItems : List (DashboardVizItem (Fin 100)) :=
  fetchDashboardVisualization utcDeps walksAndJogs bothRows (firstDays 3)

/-- The walk was in the first three days, and the jog is shown in a range that is fallen back
to. -/
theorem dashboard_agrees_fallback :
    (∀ r ∈ bothRows, Agrees utcDeps walksAndJogs 1 2 (firstDays 3) (.ofUuid r.metric.id)
      (metricSeries (seriesRows utcDeps walksAndJogs bothRows (firstDays 3)) r.metric.id)
      (effectiveSeries utcDeps walksAndJogs
        (metricSeries (seriesRows utcDeps walksAndJogs bothRows (firstDays 3)) r.metric.id)
        (firstDays 3) r.metric.id)
      (buildDashboardItem utcDeps walksAndJogs
        (seriesRows utcDeps walksAndJogs bothRows (firstDays 3)) (firstDays 3) r)) ∧
    bothItems.map (fun item => (item.fallbackStrategy, item.stats.max)) =
      [(none, some 5), (some "last_activity_window", some 7)] := by
  have hnodup : (bothRows.map fun r => r.metric.id).Nodup := by decide
  have howned : ∀ r ∈ bothRows, findOwnedMetric walksAndJogs 1 2 r.metric.id = some r.metric := by
    decide +kernel
  exact ⟨fun r hr => dashboard_agrees hnodup howned (firstDays 3) hr rfl, by decide +kernel⟩

end Rows

/-! ### The rows as a series -/

/-- Series come in order. -/
def Ascending (D : Deps V) : Prop :=
  ∀ first last unit, (D.generateSeries first last unit).Pairwise (· ≤ ·)

omit [Zero V] in
/-- The row of a bucket, by the values of its logs. -/
theorem selectRow_aggregates (bucket : Int) (logs : List (MetricLog V)) :
    selectRow D bucket ((if logs = [] then none else some logs).map fun ls =>
      aggregates D (ls.map MetricLog.logValue)) =
        match logs.map MetricLog.logValue with
        | [] => ⟨D.label bucket, none, none, none, none⟩
        | v :: vs => ⟨D.label bucket, some (D.avg (v :: vs)), some (vs.foldl min v),
            some (vs.foldl max v), some (vs.length + 1)⟩ := by
  cases logs with
  | nil => rfl
  | cons l logs =>
    rw [if_neg (List.cons_ne_nil l logs), List.map_cons]
    rfl

omit [Zero V] in
/-- **What the query for one metric gives is its series.** -/
theorem buildVisualizationSQL_eq_series (h : Ascending D) (spec : BucketSpec) (metricId : Uuid)
    (startISO endISO tz : List Char) :
    buildVisualizationSQL D db spec metricId startISO endISO tz =
      series D db spec metricId startISO endISO tz := by
  have horder : orderBy id (bucketStarts D spec startISO endISO tz) =
      bucketStarts D spec startISO endISO tz := orderBy_of_pairwise (h _ _ _)
  have hlogs : (db.logs.select fun l => l.metricId = metricId &&
      D.timestamptz startISO ≤ l.loggedAt.ms * 1000 &&
      l.loggedAt.ms * 1000 < D.timestamptz endISO) = logsWithin D db metricId startISO endISO := by
    rw [logsWithin]
    simp only [loggedWithin, Bool.and_assoc]
  rw [buildVisualizationSQL_eq, horder, series]
  simp only [hlogs]
  exact List.map_congr_left fun b _ => selectRow_aggregates b _

/-- The item of a metric is the one that is made of its series. -/
theorem Rows.buildDashboardItem_eq (h : Ascending D)
    {metrics : List (DashboardMetricRow V)}
    (hnodup : (metrics.map fun r => r.metric.id).Nodup) (q : VizQuery)
    {r : DashboardMetricRow V} (hr : r ∈ metrics) :
    Rows.buildDashboardItem D db (Rows.seriesRows D db metrics q) q r =
      Metrics.buildDashboardItem D db q r := by
  rw [Rows.buildDashboardItem, Rows.metricSeries_seriesRows hnodup hr,
    buildVisualizationSQL_eq_series h, Metrics.buildDashboardItem]
  simp only [Rows.effectiveSeries, Rows.fallback, Rows.hasRequestedData,
    buildVisualizationSQL_eq_series h]
  rfl

end LakiraBackend.Metrics
