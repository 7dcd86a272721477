import LakiraBackend.Metrics.Queries
import LakiraBackend.Concurrency.ReadCommitted

/-!
# What the statements write

A `Write` is one statement that changes rows; its effect on each table is a function of its
own.  The unique indexes that are in force are in `Write.refuse`: the names of a user's
metrics, and of his categories, over all organizations; the settings row of a metric; and
the time of a metric's log.
-/

namespace LakiraBackend.Metrics

open LakiraBackend.Auth (Err LogType)
open LakiraBackend.Concurrency LakiraBackend.JavaScript LakiraBackend.Postgres

/-! ### What is written of a row -/

/-- The columns an UPDATE sets. -/
structure MetricPatch : Type where
  name : Option String
  description : Option (Option String)
  defaultUnit : Option String
  categoryId : Option (Option Uuid)
  originalMetricId : Option (Option Uuid)
  isPublic : Option Bool
  deriving DecidableEq

def MetricPatch.empty : MetricPatch := ⟨none, none, none, none, none, none⟩

def MetricPatch.apply (p : MetricPatch) (now : Date) (m : Metric) : Metric :=
  { m with
    name := p.name.getD m.name
    description := p.description.getD m.description
    defaultUnit := p.defaultUnit.getD m.defaultUnit
    categoryId := p.categoryId.getD m.categoryId
    originalMetricId := p.originalMetricId.getD m.originalMetricId
    isPublic := p.isPublic.getD m.isPublic
    updatedAt := now }

structure CategoryPatch : Type where
  name : Option String
  color : Option String
  icon : Option String
  deriving DecidableEq

def CategoryPatch.empty : CategoryPatch := ⟨none, none, none⟩

def CategoryPatch.apply (p : CategoryPatch) (now : Date) (c : MetricCategory) : MetricCategory :=
  { c with
    name := p.name.getD c.name
    color := p.color.getD c.color
    icon := p.icon.getD c.icon
    updatedAt := now }

/-- What a settings row is saved with. -/
structure SettingsValues (V : Type) : Type where
  isActive : Bool
  goalEnabled : Bool
  goalType : Option GoalType
  goalValue : Option V
  timeFrameEnabled : Bool
  startDate : Option Date
  deadlineDate : Option Date
  alertEnabled : Bool
  alertThresholds : Option Int
  isAchieved : Bool
  displayOptions : DisplayOptions

variable {V : Type}

/-- A null of the options is written as one. -/
def toDisplayOptionsRow (o : DisplayOptions) : DisplayOptionsRow :=
  ⟨some o.showOnDashboard, some o.priority, o.chartType, o.color⟩

def SettingsValues.apply (v : SettingsValues V) (now : Date) (s : MetricSettings V) :
    MetricSettings V :=
  { s with
    isActive := v.isActive
    goalEnabled := v.goalEnabled
    goalType := v.goalType
    goalValue := v.goalValue
    timeFrameEnabled := v.timeFrameEnabled
    startDate := v.startDate
    deadlineDate := v.deadlineDate
    alertEnabled := v.alertEnabled
    alertThresholds := v.alertThresholds
    isAchieved := v.isAchieved
    displayOptions := toDisplayOptionsRow v.displayOptions
    updatedAt := now }

/-- What a log is saved with. -/
structure LogValues (V : Type) : Type where
  logValue : V
  type : LogType
  loggedAt : Date

def LogValues.apply (v : LogValues V) (now : Date) (l : MetricLog V) : MetricLog V :=
  { l with logValue := v.logValue, type := v.type, loggedAt := v.loggedAt, updatedAt := now }

/-! ### Statements -/

inductive Write (V : Type) : Type
  | insertMetric (row : Metric)
  | updateMetric (id : Uuid) (patch : MetricPatch) (now : Date)
  | destroyMetric (id : Uuid) (now : Date)
  | insertCategory (row : MetricCategory)
  | updateCategory (id : Uuid) (patch : CategoryPatch) (now : Date)
  | destroyCategories (userId organizationId id : Uuid) (now : Date)
  | insertSettings (row : MetricSettings V)
  | updateSettings (id organizationId : Uuid) (values : SettingsValues V) (now : Date)
  | deleteSettings (id organizationId : Uuid)
  | insertLog (row : MetricLog V)
  | updateLogs (id organizationId : Uuid) (values : LogValues V) (now : Date)
  | deleteLogs (id organizationId : Uuid)

inductive TableName : Type
  | metrics
  | categories
  | settings
  | logs
  deriving DecidableEq

/-- A row, named by its table and its primary key. -/
structure Key : Type where
  table : TableName
  id : Uuid
  deriving DecidableEq

namespace Write

def onMetrics : Write V → Table Metric.id → Table Metric.id
  | insertMetric row, t => t.insert row
  | updateMetric id patch now, t => t.updateWhere (fun m => m.id = id) (patch.apply now) fun _ => rfl
  | destroyMetric id now, t => t.updateWhere (fun m => m.id = id)
      (fun m => { m with updatedAt := now, deletedAt := some now }) fun _ => rfl
  | _, t => t

def onCategories : Write V → Table MetricCategory.id → Table MetricCategory.id
  | insertCategory row, t => t.insert row
  | updateCategory id patch now, t =>
    t.updateWhere (fun c => c.id = id) (patch.apply now) fun _ => rfl
  | destroyCategories userId organizationId id now, t =>
    t.updateWhere (fun c => c.id = id && ownsCategory userId organizationId c)
      (fun c => { c with deletedAt := some now }) fun _ => rfl
  | _, t => t

def onSettings : Write V → Table (MetricSettings.id : MetricSettings V → Uuid) →
    Table (MetricSettings.id : MetricSettings V → Uuid)
  | insertSettings row, t => t.insert row
  | updateSettings id organizationId values now, t => t.updateWhere
      (fun s => s.id = id && s.organizationId = organizationId) (values.apply now) fun _ => rfl
  | deleteSettings id organizationId, t =>
    t.delete fun s => s.id = id && s.organizationId = organizationId
  | _, t => t

def onLogs : Write V → Table (MetricLog.id : MetricLog V → Uuid) →
    Table (MetricLog.id : MetricLog V → Uuid)
  | insertLog row, t => t.insert row
  | updateLogs id organizationId values now, t => t.updateWhere
      (fun l => l.id = id && l.organizationId = organizationId) (values.apply now) fun _ => rfl
  | deleteLogs id organizationId, t =>
    t.delete fun l => l.id = id && l.organizationId = organizationId
  | _, t => t

def apply (w : Write V) (d : Db V) : Db V where
  metrics := w.onMetrics d.metrics
  categories := w.onCategories d.categories
  settings := w.onSettings d.settings
  logs := w.onLogs d.logs

/-- The rows there already that a write changes. -/
def rows : Write V → Db V → List Key
  | updateMetric id _ _, _ => [⟨.metrics, id⟩]
  | destroyMetric id _, _ => [⟨.metrics, id⟩]
  | updateCategory id _ _, _ => [⟨.categories, id⟩]
  | destroyCategories _ _ id _, _ => [⟨.categories, id⟩]
  | updateSettings id _ _ _, _ => [⟨.settings, id⟩]
  | deleteSettings id _, _ => [⟨.settings, id⟩]
  | updateLogs id _ _ _, _ => [⟨.logs, id⟩]
  | deleteLogs id _, _ => [⟨.logs, id⟩]
  | _, _ => []

/-! ### What the database refuses -/

/-- `uq_metrics_user_name`: another metric of the user that is not deleted has the name. -/
def metricNameTaken (D : Deps V) (d : Db V) (id userId : Uuid) (name : String) : Bool :=
  d.metrics.rows.any fun m => m.id ≠ id && m.userId = userId && m.deletedAt.isNone &&
    D.lower m.name = D.lower name

/-- `uq_metric_categories_user_name`. -/
def categoryNameTaken (D : Deps V) (d : Db V) (id userId : Uuid) (name : String) : Bool :=
  d.categories.rows.any fun c => c.id ≠ id && c.userId = userId && c.deletedAt.isNone &&
    D.lower c.name = D.lower name

/-- `uq_metric_logs_metric_id_logged_at`. -/
def logTimeTaken (d : Db V) (id metricId : Uuid) (loggedAt : Date) : Bool :=
  d.logs.rows.any fun l => l.id ≠ id && l.metricId = metricId && l.loggedAt = loggedAt

def tooLong : Err := .plain "value too long for type character varying(255)"

/-- The texts of a category fit in their columns. -/
def categoryFits (D : Deps V) (c : MetricCategory) : Bool :=
  D.fits c.name && D.fits c.color && D.fits c.icon

/-- Why the database refuses a row of the table of metrics. -/
def refuseMetric (D : Deps V) (d : Db V) (row : Metric) : Option Err :=
  if !(D.fits row.name && D.fits row.defaultUnit) then some tooLong
  else if row.deletedAt.isNone && metricNameTaken D d row.id row.userId row.name then
    some (.uniqueConstraint "uq_metrics_user_name")
  else none

def refuseCategory (D : Deps V) (d : Db V) (row : MetricCategory) : Option Err :=
  if !categoryFits D row then some tooLong
  else if row.deletedAt.isNone && categoryNameTaken D d row.id row.userId row.name then
    some (.uniqueConstraint "uq_metric_categories_user_name")
  else none

def refuseLog (d : Db V) (row : MetricLog V) : Option Err :=
  if logTimeTaken d row.id row.metricId row.loggedAt then
    some (.uniqueConstraint "uq_metric_logs_metric_id_logged_at")
  else none

def refuse (D : Deps V) : Write V → Db V → Option Err
  | insertMetric row, d =>
    if row.id ∈ d.metrics.rows.map Metric.id then some (.uniqueConstraint "metrics_pkey")
    else refuseMetric D d row
  | updateMetric id patch now, d =>
    (d.metrics.findOne fun m => m.id = id).bind fun m => refuseMetric D d (patch.apply now m)
  | insertCategory row, d =>
    if row.id ∈ d.categories.rows.map MetricCategory.id then
      some (.uniqueConstraint "metric_categories_pkey")
    else refuseCategory D d row
  | updateCategory id patch now, d =>
    (d.categories.findOne fun c => c.id = id).bind fun c => refuseCategory D d (patch.apply now c)
  | insertSettings row, d =>
    if row.id ∈ d.settings.rows.map MetricSettings.id then
      some (.uniqueConstraint "metric_settings_pkey")
    else if d.settings.rows.any fun s => s.metricId = row.metricId then
      some (.uniqueConstraint "uq_metric_settings_metric")
    else none
  | insertLog row, d =>
    if row.id ∈ d.logs.rows.map MetricLog.id then some (.uniqueConstraint "metric_logs_pkey")
    else refuseLog d row
  | updateLogs id organizationId values now, d =>
    (d.logs.findOne fun l => l.id = id && l.organizationId = organizationId).bind fun l =>
      refuseLog d (values.apply now l)
  | _, _ => none

end Write

def schema (D : Deps V) : Schema (Db V) (Write V) Key Err where
  apply := Write.apply
  rows := Write.rows
  refuse := Write.refuse D

end LakiraBackend.Metrics
