import LakiraBackend.JavaScript.Uri
import LakiraBackend.Metrics.Lists

/-!
# What the metric features read

Each query of the repositories over metrics, categories, settings and logs, as a function
of the database.  A metric or a category that is deleted stays in its table with the time
of that; a settings row or a log does not.  What the language, the database and the
configuration give is in `Deps`.
-/

namespace LakiraBackend.Metrics

open LakiraBackend.Auth (Err notFoundError forbiddenError)
open LakiraBackend.JavaScript LakiraBackend.Postgres

/-- An id as a request spells it. -/
structure IdText : Type where
  text : List Char
  id : Uuid
  spells : Uuid.ofText text = some id
  deriving DecidableEq

/-- As the database writes it. -/
def IdText.ofUuid (u : Uuid) : IdText := ⟨u.text, u, u.ofText_text⟩

def IdText.Canonical (i : IdText) : Prop := i.text = i.id.text

instance (i : IdText) : Decidable i.Canonical := inferInstanceAs (Decidable (_ = _))

/-! ### Buckets -/

inductive Granularity : Type
  | hour
  | day
  | week
  | month
  | year
  deriving DecidableEq

/-- `1h`, `1d`, `1w`, `1m` and `1y`. -/
inductive BucketAlias : Type
  | hour
  | day
  | week
  | month
  | year
  deriving DecidableEq

/-- The interval of a bucket is one unit of its grain. -/
structure BucketSpec : Type where
  iso : List Char
  trunc : Granularity
  approxMs : Int
  deriving DecidableEq

def resolveBucket : BucketAlias → BucketSpec
  | .hour => ⟨"PT1H".toList, .hour, 3600000⟩
  | .day => ⟨"P1D".toList, .day, 86400000⟩
  | .week => ⟨"P1W".toList, .week, 604800000⟩
  | .month => ⟨"P1M".toList, .month, 2629746000⟩
  | .year => ⟨"P1Y".toList, .year, 31556952000⟩

inductive FillMode : Type
  | none
  | zero
  | nan
  deriving DecidableEq

structure RangeDescriptor : Type where
  startISO : List Char
  endISO : List Char
  bucket : BucketAlias
  deriving DecidableEq

/-- What is hashed of a metric on the dashboard. -/
structure VersionEntry : Type where
  metricId : Uuid
  metricUpdatedAt : Date
  settingsUpdatedAt : Date
  categoryUpdatedAt : Option Date
  deriving DecidableEq

structure SingleVizCacheKey : Type where
  userId : Uuid
  organizationId : Uuid
  metricId : List Char
  range : RangeDescriptor
  tz : List Char
  fill : FillMode
  deriving DecidableEq

structure DashboardVizCacheKey : Type where
  userId : Uuid
  organizationId : Uuid
  metricIds : List Uuid
  range : RangeDescriptor
  tz : List Char
  fill : FillMode
  versionCursor : List Char
  deriving DecidableEq

/-! ### What is given -/

structure Deps (V : Type) : Type extends Engine where
  numbers : Numbers V
  /-- `METRIC_LOG_VALUE_RULE.max`. -/
  maxLogValue : V
  toLowerCase : String → String
  /-- SQL `lower`. -/
  lower : String → String
  /-- The order of the database's texts. -/
  collation : LinearOrder String
  /-- `name ILIKE '%q%'`. -/
  iLike : (q name : String) → Bool
  /-- Whether a text fits in `varchar(255)`. -/
  fits : String → Bool
  /-- SQL `avg`. -/
  avg : List V → V
  /-- The mean of the averages, each as often as its count. -/
  mean : List (V × Nat) → V
  /-- `text::timestamptz`, in microseconds. -/
  timestamptz : List Char → Int
  /-- `timezone(tz, t)`: the wall time there. -/
  timezone : (tz : List Char) → Int → Int
  /-- `date_trunc`, of a wall time. -/
  dateTrunc : Granularity → Int → Int
  /-- `generate_series(first, last, interval)`. -/
  generateSeries : Int → Int → Granularity → List Int
  /-- `timezone('UTC', wall)`, as the driver returns it. -/
  label : Int → Date
  startOfNextBucket : Date → BucketAlias → (tz : List Char) → Date
  /-- What is read back of a time written to a `date` column. -/
  dateOnly : Date → Date
  /-- The digest of the metrics on a dashboard. -/
  fingerprint : List VersionEntry → List Char
  etagSeed : DashboardVizCacheKey → List Char
  /-- The first sixteen digits of a digest, each of six bits. -/
  vizHash : SingleVizCacheKey → List (Fin 64)
  vizDashHash : DashboardVizCacheKey → List (Fin 64)
  maxBuckets : Int
  maxDashboardMetrics : Nat
  guardBuckets : Int
  /-- `redisClient.isOpen`. -/
  cacheEnabled : Bool

variable {V : Type} (D : Deps V) (db : Db V) (userId organizationId : Uuid)

/-! ### Rows by their ids -/

/-- `findOwnedById`, `assertOwnership`. -/
def findOwnedMetric (id : Uuid) : Option Metric :=
  db.metrics.findOne fun m => m.id = id && owns userId organizationId m

/-- What `validateMetricAccess` finds: a metric of anyone in the organization. -/
def findMetricInOrganization (id : Uuid) : Option Metric :=
  db.metrics.findOne fun m => m.id = id && m.organizationId = organizationId && m.deletedAt.isNone

def validateMetricAccess (id : Uuid) : Except Err Metric :=
  match findMetricInOrganization db organizationId id with
  | none => .error (notFoundError "Metric not found")
  | some m =>
    if m.userId ≠ userId then .error (forbiddenError "Unauthorized access to metric") else .ok m

/-- A category of the user in the organization that is not deleted. -/
def ownsCategory (c : MetricCategory) : Bool :=
  c.userId = userId && c.organizationId = organizationId && c.deletedAt.isNone

def findOwnedCategory (id : Uuid) : Option MetricCategory :=
  db.categories.findOne fun c => c.id = id && ownsCategory userId organizationId c

def findOwnedSettings (id : Uuid) : Option (MetricSettings V) :=
  db.settings.findOne fun s => s.id = id && s.organizationId = organizationId &&
    joinsMetric db (owns userId organizationId) s.metricId

def findOwnedLog (id : Uuid) : Option (MetricLog V) :=
  db.logs.findOne fun l => l.id = id && l.organizationId = organizationId &&
    joinsMetric db (owns userId organizationId) l.metricId

/-- `METRIC_COUNT_SQL`. -/
def metricCount (categoryId : Uuid) : Nat :=
  db.metrics.count fun m => m.categoryId = some categoryId && m.deletedAt.isNone

/-- `LOG_COUNT_SQL`. -/
def logCount (metricId : Uuid) : Nat := db.logs.count fun l => l.metricId = metricId

/-- The left join of a metric's category. -/
def joinedCategory (m : Metric) : Option MetricCategory :=
  m.categoryId.bind fun id => db.categories.findOne fun c => c.id = id && c.deletedAt.isNone

/-! ### Lists of metrics and of categories -/

inductive MetricSortField : Type
  | createdAt
  | updatedAt
  | name
  | logCount
  deriving DecidableEq

inductive CategorySortField : Type
  | createdAt
  | updatedAt
  | name
  | metricCount
  deriving DecidableEq

def MetricSortField.text : MetricSortField → List Char
  | createdAt => "createdAt".toList
  | updatedAt => "updatedAt".toList
  | name => "name".toList
  | logCount => "logCount".toList

def CategorySortField.text : CategorySortField → List Char
  | createdAt => "createdAt".toList
  | updatedAt => "updatedAt".toList
  | name => "name".toList
  | metricCount => "metricCount".toList

def normalizeMetricSort (sort : List Char) : MetricSortField × Dir :=
  match [MetricSortField.createdAt, .updatedAt, .name, .logCount].find? fun f =>
      f.text = (signOf sort).2 with
  | some field => (field, (signOf sort).1)
  | none => (.createdAt, .DESC)

def normalizeCategorySort (sort : List Char) : CategorySortField × Dir :=
  match [CategorySortField.createdAt, .updatedAt, .name, .metricCount].find? fun f =>
      f.text = (signOf sort).2 with
  | some field => (field, (signOf sort).1)
  | none => (.createdAt, .DESC)

structure MetricFilter : Type where
  name : Option String
  categoryId : Option IdText
  deriving DecidableEq

structure CategoryFilter : Type where
  name : Option String
  deriving DecidableEq

/-- A row of the list of metrics. -/
structure MetricRow : Type where
  metric : Metric
  category : Option MetricCategory
  logCount : Nat
  deriving DecidableEq

/-- A row of the list of categories. -/
structure CategoryRow : Type where
  category : MetricCategory
  metricCount : Nat
  deriving DecidableEq

def toMetricRow (m : Metric) : MetricRow := ⟨m, joinedCategory db m, logCount db m.id⟩

def toCategoryRow (c : MetricCategory) : CategoryRow := ⟨c, metricCount db c.id⟩

/-- `like(q)`, where that is asked for. -/
def likes (q : Option String) (name : String) : Bool :=
  match q with
  | some q => q = "" || D.iLike q name
  | none => true

def metricWhere (opts : ListOpts MetricFilter) (r : MetricRow) : Bool :=
  owns userId organizationId r.metric && likes D opts.q r.metric.name &&
    likes D (opts.filter.bind MetricFilter.name) r.metric.name &&
    match opts.filter.bind MetricFilter.categoryId with
    | some categoryId => r.metric.categoryId = some categoryId.id
    | none => true

def categoryWhere (opts : ListOpts CategoryFilter) (r : CategoryRow) : Bool :=
  ownsCategory userId organizationId r.category && likes D opts.q r.category.name &&
    likes D (opts.filter.bind CategoryFilter.name) r.category.name

def lastMetric (E : Engine) (field : MetricSortField) (cursor : Json) : Option Bound :=
  match field with
  | .createdAt => sentDateOrNow E "createdAt" cursor
  | .updatedAt => sentDateOrNow E "updatedAt" cursor
  | .name => some (orElse "nameLower" (.str []) cursor)
  | .logCount => some (orElse "logCount" (.num ['0']) cursor)

def lastCategory (E : Engine) (field : CategorySortField) (cursor : Json) : Option Bound :=
  match field with
  | .createdAt => sentDate E "createdAt" cursor
  | .updatedAt => sentDate E "updatedAt" cursor
  | .name => some (asSent "nameLower" cursor)
  | .metricCount => some (asSent "metricCount" cursor)

def nameOf : Json → Option String
  | .str s => some (String.ofList s)
  | _ => none

/-- A count is whole; what another number is compared with is left out. -/
def countOf : Json → Option Nat
  | .num literal =>
    if literal.all Char.isDigit then
      some (literal.foldl (fun n c => 10 * n + (c.toNat - '0'.toNat)) 0)
    else none
  | _ => none

/-- Every cursor of the list of metrics has all four. -/
def metricPayload (r : MetricRow) : List (List Char × Json) :=
  [("createdAt".toList, .str r.metric.createdAt.toISOString),
    ("updatedAt".toList, .str r.metric.updatedAt.toISOString),
    ("nameLower".toList, .str (D.toLowerCase r.metric.name).toList),
    ("logCount".toList, .num (Nat.toDigits 10 r.logCount))]

def metricColumn : MetricSortField → Column MetricRow
  | .createdAt => ⟨Int, inferInstance, fun r => r.metric.createdAt.ms, metricPayload D,
      lastMetric D.toEngine .createdAt, Bound.time⟩
  | .updatedAt => ⟨Int, inferInstance, fun r => r.metric.updatedAt.ms, metricPayload D,
      lastMetric D.toEngine .updatedAt, Bound.time⟩
  | .name => ⟨String, D.collation, fun r => D.lower r.metric.name, metricPayload D,
      lastMetric D.toEngine .name, Bound.value nameOf⟩
  | .logCount => ⟨Nat, inferInstance, MetricRow.logCount, metricPayload D,
      lastMetric D.toEngine .logCount, Bound.value countOf⟩

def categoryColumn : CategorySortField → Column CategoryRow
  | .createdAt => dateColumn (lastCategory D.toEngine .createdAt) "createdAt"
      fun r => r.category.createdAt
  | .updatedAt => dateColumn (lastCategory D.toEngine .updatedAt) "updatedAt"
      fun r => r.category.updatedAt
  | .name => ⟨String, D.collation, fun r => D.lower r.category.name,
      fun r => [("nameLower".toList, .str (D.toLowerCase r.category.name).toList)],
      lastCategory D.toEngine .name, Bound.value nameOf⟩
  | .metricCount => ⟨Nat, inferInstance, CategoryRow.metricCount,
      fun r => [("metricCount".toList, .num (Nat.toDigits 10 r.metricCount))],
      lastCategory D.toEngine .metricCount, Bound.value countOf⟩

/-- A category in a list of metrics. -/
structure CategoryInfo : Type where
  id : Uuid
  name : String
  icon : String
  color : String
  deriving DecidableEq

/-- `MetricPreviewResponseDTO`. -/
structure MetricPreview : Type where
  id : Uuid
  name : String
  category : Option CategoryInfo
  goalType : String
  defaultUnit : String
  description : Option String
  isPublic : Bool
  logCount : Nat
  deriving DecidableEq

structure MetricCategoryResponse : Type where
  id : Uuid
  userId : Uuid
  name : String
  color : String
  icon : String
  createdAt : Date
  updatedAt : Date
  metricCount : Nat
  deriving DecidableEq

def toMetricPreview (r : MetricRow) : MetricPreview where
  id := r.metric.id
  name := r.metric.name
  category := r.category.map fun c => ⟨c.id, c.name, c.icon, c.color⟩
  goalType := "Not Set"
  defaultUnit := r.metric.defaultUnit
  description := r.metric.description
  isPublic := r.metric.isPublic
  logCount := r.logCount

def toCategoryResponse (r : CategoryRow) : MetricCategoryResponse :=
  ⟨r.category.id, r.category.userId, r.category.name, r.category.color, r.category.icon,
    r.category.createdAt, r.category.updatedAt, r.metricCount⟩

/-- A page, or what a query that throws is answered with. -/
def pageOf {D F : Type} (page : Option (ListResult D F)) : Except Err (ListResult D F) :=
  match page with
  | some page => .ok page
  | none => .error .repository

/-- The limit that is returned is the one that is asked for. -/
def listMetrics (opts : ListOpts MetricFilter) :
    Except Err (ListResult MetricPreview MetricFilter) :=
  let (field, dir) := normalizeMetricSort opts.sort
  pageOf ((listByCursor (metricColumn D field) (fun r => r.metric.id) toMetricPreview dir opts
    (db.metrics.rows.map (toMetricRow db)) (metricWhere D userId organizationId opts)).map
      fun page => { page with limit := opts.limit })

def listCategories (opts : ListOpts CategoryFilter) :
    Except Err (ListResult MetricCategoryResponse CategoryFilter) :=
  let (field, dir) := normalizeCategorySort opts.sort
  pageOf (listByCursor (categoryColumn D field) (fun r => r.category.id) toCategoryResponse dir opts
    (db.categories.rows.map (toCategoryRow db)) (categoryWhere D userId organizationId opts))

/-! ### One row -/

inductive MetricDetailInclude : Type
  | category
  | logs
  | settings
  deriving DecidableEq

structure MetricResponse : Type where
  id : Uuid
  userId : Uuid
  categoryId : Option Uuid
  originalMetricId : Option Uuid
  name : String
  description : Option String
  defaultUnit : String
  isPublic : Bool
  createdAt : Date
  updatedAt : Date
  deriving DecidableEq

def toMetricResponse (m : Metric) : MetricResponse :=
  ⟨m.id, m.userId, m.categoryId, m.originalMetricId, m.name, m.description, m.defaultUnit,
    m.isPublic, m.createdAt, m.updatedAt⟩

structure MetricDetail (V : Type) : Type where
  metric : MetricResponse
  category : Option MetricCategoryResponse
  settings : Option (MetricSettingsEntity V)
  logs : Option (List (MetricLogDomain V))
  deriving DecidableEq

/-- The options of a settings row in a metric, where a null priority is 1 too. -/
def normalizeDisplayOptions (row : DisplayOptionsRow) : DisplayOptions :=
  { toDisplayOptions row with priority := some (row.priority.join.getD 1) }

def toDomainMetricSettings (row : MetricSettings V) : MetricSettingsEntity V :=
  { toEntity row with displayOptions := normalizeDisplayOptions row.displayOptions }

/-- The latest logs of a metric. -/
def latestLogs (metricId : Uuid) (limit : Nat) : List (MetricLog V) :=
  ((db.logs.select fun l => l.metricId = metricId).mergeSort fun l k =>
    k.loggedAt.ms < l.loggedAt.ms || (k.loggedAt.ms = l.loggedAt.ms && k.id ≤ l.id)).take limit

def getMetricDetail (id : Uuid) (includes : List MetricDetailInclude) (logsLimit : Nat) :
    Except Err (MetricDetail V) :=
  match findOwnedMetric db userId organizationId id with
  | none => .error (.app "Metric not found" 404)
  | some m =>
    if !m.isPublic && m.userId ≠ userId then .error (forbiddenError "Unauthorized")
    else .ok
      { metric := toMetricResponse m
        category := if .category ∈ includes then
            (joinedCategory db m).map fun c => toCategoryResponse ⟨c, 0⟩
          else none
        settings := if .settings ∈ includes then
            (db.settings.findOne fun s => s.metricId = m.id).map toDomainMetricSettings
          else none
        logs := if .logs ∈ includes then some ((latestLogs db m.id logsLimit).map toLogDomain)
          else none }

def getCategory (id : Uuid) : Except Err MetricCategoryResponse :=
  match findOwnedCategory db userId organizationId id with
  | none => .error (notFoundError "Metric Category not found")
  | some c => .ok (toCategoryResponse (toCategoryRow db c))

def getMetricSettings (id : Uuid) : Except Err (MetricSettingsEntity V) :=
  match findOwnedSettings db userId organizationId id with
  | none => .error (notFoundError "Metric Settings not found")
  | some s => .ok (toEntity s)

/-- The ids are compared as texts. -/
def getLogById (id : Uuid) (metricId : IdText) : Except Err (MetricLogDomain V) :=
  match findOwnedLog db userId organizationId id with
  | none => .error (notFoundError "Log not found")
  | some l =>
    if l.metricId.text ≠ metricId.text then
      .error (.app "Log not found for the specified metric" 404)
    else .ok (toLogDomain l)

/-! ### Statistics and trends -/

structure MetricLogStats (V : Type) : Type where
  average : V
  min : V
  max : V
  deriving DecidableEq

/-- The logs of a half-open range, by when the value was measured. -/
def inRange (from_ to_ : Option Date) (l : MetricLog V) : Bool :=
  from_.all (fun d => d.ms ≤ l.loggedAt.ms) && to_.all fun d => l.loggedAt.ms < d.ms

def computeStats [LinearOrder V] [Zero V] (metricId : Option Uuid) (from_ to_ : Option Date) :
    MetricLogStats V :=
  let logs := db.logs.select fun l => l.organizationId = organizationId && inRange from_ to_ l &&
    match metricId with
    | some metricId => l.metricId = metricId
    | none => joinsMetric db (owns userId organizationId) l.metricId
  match logs.map MetricLog.logValue with
  | [] => ⟨0, 0, 0⟩
  | v :: vs => ⟨D.avg (v :: vs), vs.foldl min v, vs.foldl max v⟩

def getMetricLogStats [LinearOrder V] [Zero V] (metricId : Option Uuid) (from_ to_ : Option Date) :
    Except Err (MetricLogStats V) :=
  match metricId with
  | some id => (validateMetricAccess db userId organizationId id).map fun _ =>
      computeStats D db userId organizationId (some id) from_ to_
  | none => .ok (computeStats D db userId organizationId none from_ to_)

def getMetricTrend (metricId : Uuid) (since : Date) : Except Err (List (Date × V)) :=
  (validateMetricAccess db userId organizationId metricId).map fun _ =>
    ((db.logs.select fun l => l.metricId = metricId && l.organizationId = organizationId &&
      since.ms ≤ l.loggedAt.ms).mergeSort fun l k => l.loggedAt.ms < k.loggedAt.ms ||
        (l.loggedAt.ms = k.loggedAt.ms && l.id ≤ k.id)).map fun l => (l.loggedAt, l.logValue)

end LakiraBackend.Metrics
