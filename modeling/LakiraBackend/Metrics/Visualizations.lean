import LakiraBackend.Metrics.Queries

/-!
# Visualizations

The values of logs over a range, bucket by bucket in a zone's wall time, for one metric and
for those of the dashboard.  A metric of the dashboard that has no logs in the range is shown
over the range its last log is in.
-/

namespace LakiraBackend.Metrics

open LakiraBackend.Auth (Err validationError)
open LakiraBackend.JavaScript LakiraBackend.Postgres

variable {V : Type} [LinearOrder V] [Zero V] (D : Deps V) (db : Db V)

/-! ### Series -/

/-- A bucket; all but its label is null where it has no logs. -/
structure VizRow (V : Type) : Type where
  bucketStart : Date
  avg : Option V
  min : Option V
  max : Option V
  cnt : Option Nat
  deriving DecidableEq

/-- `buildVisualizationSQL`. -/
def series (spec : BucketSpec) (metricId : Uuid) (startISO endISO tz : List Char) :
    List (VizRow V) :=
  let start := D.timestamptz startISO
  let stop := D.timestamptz endISO
  let logs := db.logs.select fun l => l.metricId = metricId &&
    start ≤ l.loggedAt.ms * 1000 && l.loggedAt.ms * 1000 < stop
  let buckets := D.generateSeries (D.dateTrunc spec.trunc (D.timezone tz start))
    (D.timezone tz stop - 1000000) spec.trunc
  buckets.map fun b =>
    match (logs.filter fun l =>
      D.dateTrunc spec.trunc (D.timezone tz (l.loggedAt.ms * 1000)) = b).map MetricLog.logValue with
    | [] => ⟨D.label b, none, none, none, none⟩
    | v :: vs => ⟨D.label b, some (D.avg (v :: vs)), some (vs.foldl min v), some (vs.foldl max v),
        some (vs.length + 1)⟩

structure VizSeries (V : Type) : Type where
  bucketStart : Date
  value : Option V
  deriving DecidableEq

structure VizStats (V : Type) : Type where
  average : Option V
  min : Option V
  max : Option V
  count : Nat
  deriving DecidableEq

def bucketValue (fill : FillMode) (row : VizRow V) : Option V :=
  match row.cnt, row.avg with
  | some (_ + 1), some avg => some avg
  | _, _ => if fill = .zero then some 0 else none

def toSeries (fill : FillMode) (rows : List (VizRow V)) : List (VizSeries V) :=
  rows.map fun row => ⟨row.bucketStart, bucketValue fill row⟩

/-- The buckets that have logs count, each as often as it has. -/
def summarizeBuckets (rows : List (VizRow V)) : VizStats V :=
  let used := rows.filterMap fun row => match row.cnt, row.avg with
    | some (n + 1), some avg => some (avg, n + 1, row)
    | _, _ => none
  { average := match used with
      | [] => none
      | _ => some (D.mean (used.map fun u => (u.1, u.2.1)))
    min := (used.filterMap fun u => u.2.2.min).min?
    max := (used.filterMap fun u => u.2.2.max).max?
    count := (used.map fun u => u.2.1).sum }

/-! ### One metric -/

/-- The arguments of a visualization. -/
structure VizQuery : Type where
  range : RangeDescriptor
  tz : List Char
  fill : FillMode
  deriving DecidableEq

structure VizResponse (V : Type) : Type where
  metricId : List Char
  series : List (VizSeries V)
  stats : VizStats V
  unit : String
  query : VizQuery
  deriving DecidableEq

def assertBounds (range : RangeDescriptor) : Except Err Unit :=
  match Date.parse D.otherDate range.startISO, Date.parse D.otherDate range.endISO with
  | some start, some stop =>
    let spec := resolveBucket range.bucket
    let est := -(-(stop.ms - start.ms) / spec.approxMs) + 2
    if stop.ms ≤ start.ms then .error (validationError "Invalid date range")
    else if D.maxBuckets < est then
      .error (validationError ("Range too large for " ++ String.ofList spec.iso ++ " (~" ++
        toString est ++ " buckets, max=" ++ toString D.maxBuckets ++ ")"))
    else .ok ()
  | _, _ => .error (validationError "Invalid date range")

/-- What is cached of a metric. -/
def vizResponse (metric : Metric) (metricId : IdText) (q : VizQuery) : VizResponse V :=
  let rows := series D db (resolveBucket q.range.bucket) metricId.id q.range.startISO
    q.range.endISO q.tz
  { metricId := metricId.text
    series := toSeries q.fill rows
    stats := summarizeBuckets D rows
    unit := metric.defaultUnit
    query := q }

def getVisualization (userId organizationId : Uuid) (metricId : IdText) (q : VizQuery) :
    Except Err (VizResponse V) :=
  (assertBounds D q.range).bind fun _ =>
    match findOwnedMetric db userId organizationId metricId.id with
    | none => .error (.app "Metric not found" 404)
    | some metric => .ok (vizResponse D db metric metricId q)

/-! ### The dashboard -/

/-- A row of the metrics shown, and how many could be. -/
structure DashboardMetricRow (V : Type) : Type where
  settings : MetricSettings V
  metric : Metric
  category : Option MetricCategory
  deriving DecidableEq

/-- `display_options->>'priority'`. -/
def MetricSettings.priority (s : MetricSettings V) : Option Int := s.displayOptions.priority.join

/-- `ORDER BY priority NULLS LAST, created_at DESC, id DESC`. -/
def shownBefore (r s : DashboardMetricRow V) : Bool :=
  match r.settings.priority, s.settings.priority with
  | some p, some q => p < q || (p = q && later r s)
  | some _, none => true
  | none, some _ => false
  | none, none => later r s
where
  /-- `created_at DESC, id DESC`. -/
  later (r s : DashboardMetricRow V) : Bool :=
    s.settings.createdAt.ms < r.settings.createdAt.ms ||
      (s.settings.createdAt.ms = r.settings.createdAt.ms && s.settings.id ≤ r.settings.id)

/-- The settings rows of the user's metrics that are shown, with what is joined to them. -/
def shownMetrics (userId organizationId : Uuid) : List (DashboardMetricRow V) :=
  let shown := db.settings.select fun s =>
    joinsMetric db (owns userId organizationId) s.metricId &&
      s.displayOptions.showOnDashboard.getD false && s.isActive
  (shown.filterMap fun s => (findOwnedMetric db userId organizationId s.metricId).map fun m =>
    (⟨s, m, joinedCategory db m⟩ : DashboardMetricRow V)).mergeSort shownBefore

def toVersionEntry (r : DashboardMetricRow V) : VersionEntry :=
  ⟨r.metric.id, r.metric.updatedAt, r.settings.updatedAt, r.category.map MetricCategory.updatedAt⟩

/-- `buildDashboardLifecycleSQL`, of one metric. -/
structure Lifecycle (V : Type) : Type where
  firstLogAt : Option Date
  lastLogAt : Option Date
  totalLogs : Nat
  latestValue : Option V
  latestBucketStart : Option Date
  deriving DecidableEq

def lifecycle (spec : BucketSpec) (tz : List Char) (metricId : Uuid) : Lifecycle V :=
  let newest := latestLogs db metricId (logCount db metricId)
  { firstLogAt := newest.getLast?.map MetricLog.loggedAt
    lastLogAt := newest.head?.map MetricLog.loggedAt
    totalLogs := newest.length
    latestValue := newest.head?.map MetricLog.logValue
    latestBucketStart := newest.head?.map fun l =>
      D.label (D.dateTrunc spec.trunc (D.timezone tz (l.loggedAt.ms * 1000))) }

/-- `new Date(ms)`, of a time that is in its range. -/
def isoOfMs (ms : Int) : List Char :=
  match Date.ofMs ms with
  | some d => d.toISOString
  | none => []

/-- `computeFallbackRange`: the buckets up to that of the last log. -/
def fallbackRange (requested : RangeDescriptor) (tz : List Char) (last : Date) : RangeDescriptor :=
  let approxMs := (resolveBucket requested.bucket).approxMs
  let horizon := 1000 * 60 * 60 * 24 * 180
  let stop := D.startOfNextBucket last requested.bucket tz
  let duration :=
    match Date.parse D.otherDate requested.startISO, Date.parse D.otherDate requested.endISO with
    | some s, some e => if e.ms ≤ s.ms then horizon else e.ms - s.ms
    | _, _ => horizon
  let span := min (min horizon (max duration approxMs)) (D.guardBuckets * approxMs)
  ⟨isoOfMs (stop.ms - span), stop.toISOString, requested.bucket⟩

structure DashboardVizItem (V : Type) : Type where
  metricId : Uuid
  name : String
  unit : String
  category : Option (String × String × String)
  priority : Option Int
  series : List (VizSeries V)
  stats : VizStats V
  lifecycle : Lifecycle V
  requestedRange : RangeDescriptor
  actualRange : RangeDescriptor
  fallbackStrategy : Option String
  deriving DecidableEq

def buildDashboardItem (q : VizQuery) (r : DashboardMetricRow V) : DashboardVizItem V :=
  let spec := resolveBucket q.range.bucket
  let requested := series D db spec r.metric.id q.range.startISO q.range.endISO q.tz
  let cycle := lifecycle D db spec q.tz r.metric.id
  let hasRequestedData := requested.any fun row => match row.cnt with
    | some (_ + 1) => true
    | _ => false
  let fallback := if hasRequestedData then none
    else cycle.lastLogAt.map (fallbackRange D q.range q.tz)
  let rows := match fallback with
    | some range => series D db spec r.metric.id range.startISO range.endISO q.tz
    | none => requested
  { metricId := r.metric.id
    name := r.metric.name
    unit := r.metric.defaultUnit
    category := r.category.map fun c => (c.name, c.icon, c.color)
    priority := r.settings.priority
    series := toSeries q.fill rows
    stats := summarizeBuckets D rows
    lifecycle := cycle
    requestedRange := q.range
    actualRange := fallback.getD q.range
    fallbackStrategy := fallback.map fun _ => "last_activity_window" }

structure DashboardVizResponse (V : Type) : Type where
  items : List (DashboardVizItem V)
  query : VizQuery
  totalMetrics : Nat
  fallbackMetrics : Nat
  etagSeed : List Char
  deriving DecidableEq

/-- The metrics a dashboard shows, and how many could be shown. -/
def fetchDashboardMetrics (userId organizationId : Uuid) (limit : Nat) :
    List (DashboardMetricRow V) × Nat :=
  let shown := shownMetrics db userId organizationId
  (shown.take (min limit D.maxDashboardMetrics), shown.length)

def dashboardKey (userId organizationId : Uuid) (q : VizQuery) (metrics : List (DashboardMetricRow V)) :
    DashboardVizCacheKey :=
  { userId := userId
    organizationId := organizationId
    metricIds := (metrics.map fun r => r.metric.id).insertionSort (· ≤ ·)
    range := q.range
    tz := q.tz
    fill := q.fill
    versionCursor := D.fingerprint (metrics.map toVersionEntry) }

/-- What is cached of a dashboard. -/
def dashboardResponse (userId organizationId : Uuid) (q : VizQuery)
    (metrics : List (DashboardMetricRow V) × Nat) : DashboardVizResponse V :=
  let items := metrics.1.map (buildDashboardItem D db q)
  { items := items
    query := q
    totalMetrics := if metrics.1 = [] then 0 else metrics.2
    fallbackMetrics := (items.filter fun item => item.fallbackStrategy.isSome).length
    etagSeed := D.etagSeed (dashboardKey D userId organizationId q metrics.1) }

def getDashboardVisualization (userId organizationId : Uuid) (q : VizQuery) (limit : Nat) :
    Except Err (DashboardVizResponse V) :=
  (assertBounds D q.range).map fun _ => dashboardResponse D db userId organizationId q
    (fetchDashboardMetrics D db userId organizationId limit)

end LakiraBackend.Metrics
