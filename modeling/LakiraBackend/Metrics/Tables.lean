import LakiraBackend.Auth.Entities
import LakiraBackend.JavaScript.Json
import LakiraBackend.Postgres.Table

/-!
# The tables of metrics, categories, settings and logs

`V` is the type of the numbers that are logged, in the order of the database.
-/

namespace LakiraBackend.Metrics

open LakiraBackend.Auth (LogType)
open LakiraBackend.JavaScript LakiraBackend.Postgres

structure Metric : Type where
  id : Uuid
  userId : Uuid
  organizationId : Uuid
  categoryId : Option Uuid
  originalMetricId : Option Uuid
  name : String
  description : Option String
  defaultUnit : String
  isPublic : Bool
  createdAt : Date
  updatedAt : Date
  deletedAt : Option Date
  deriving DecidableEq

structure MetricCategory : Type where
  id : Uuid
  userId : Uuid
  organizationId : Uuid
  name : String
  color : String
  icon : String
  createdAt : Date
  updatedAt : Date
  deletedAt : Option Date
  deriving DecidableEq

inductive GoalType : Type
  | cumulative
  | incremental
  deriving DecidableEq

/-- The `jsonb` of a settings row: a field may be missing or null, which is told apart where
that makes a difference. -/
structure DisplayOptionsRow : Type where
  showOnDashboard : Option Bool
  priority : Option (Option Int)
  chartType : Option String
  color : Option String
  deriving DecidableEq

structure MetricSettings (V : Type) : Type where
  id : Uuid
  metricId : Uuid
  organizationId : Uuid
  isActive : Bool
  goalEnabled : Bool
  goalType : Option GoalType
  goalValue : Option V
  timeFrameEnabled : Bool
  startDate : Option Date
  deadlineDate : Option Date
  alertEnabled : Bool
  alertThresholds : Option Int
  isAchieved : Bool
  displayOptions : DisplayOptionsRow
  createdAt : Date
  updatedAt : Date
  deriving DecidableEq

structure MetricLog (V : Type) : Type where
  id : Uuid
  metricId : Uuid
  organizationId : Uuid
  logValue : V
  type : LogType
  loggedAt : Date
  createdAt : Date
  updatedAt : Date
  deriving DecidableEq

structure Db (V : Type) : Type where
  metrics : Table Metric.id
  categories : Table MetricCategory.id
  settings : Table (MetricSettings.id : MetricSettings V → Uuid)
  logs : Table (MetricLog.id : MetricLog V → Uuid)

/-! ### Entities -/

structure DisplayOptions : Type where
  showOnDashboard : Bool
  priority : Option Int
  chartType : Option String
  color : Option String
  deriving DecidableEq

structure MetricSettingsEntity (V : Type) : Type where
  id : Uuid
  metricId : Uuid
  isActive : Bool
  goalEnabled : Bool
  goalType : Option GoalType
  goalValue : Option V
  timeFrameEnabled : Bool
  startDate : Option Date
  deadlineDate : Option Date
  alertEnabled : Bool
  alertThresholds : Option Int
  isAchieved : Bool
  displayOptions : DisplayOptions
  createdAt : Date
  updatedAt : Date
  deriving DecidableEq

def toDisplayOptions (row : DisplayOptionsRow) : DisplayOptions where
  showOnDashboard := row.showOnDashboard.getD false
  priority := row.priority.getD (some 1)
  chartType := some (row.chartType.getD "line")
  color := some (row.color.getD "#E897A3")

def toEntity {V : Type} (row : MetricSettings V) : MetricSettingsEntity V where
  id := row.id
  metricId := row.metricId
  isActive := row.isActive
  goalEnabled := row.goalEnabled
  goalType := row.goalType
  goalValue := row.goalValue
  timeFrameEnabled := row.timeFrameEnabled
  startDate := row.startDate
  deadlineDate := row.deadlineDate
  alertEnabled := row.alertEnabled
  alertThresholds := row.alertThresholds
  isAchieved := row.isAchieved
  displayOptions := toDisplayOptions row.displayOptions
  createdAt := row.createdAt
  updatedAt := row.updatedAt

structure MetricLogDomain (V : Type) : Type where
  id : Uuid
  metricId : Uuid
  logValue : V
  type : LogType
  loggedAt : Date
  createdAt : Date
  updatedAt : Date
  deriving DecidableEq

def toLogDomain {V : Type} (row : MetricLog V) : MetricLogDomain V :=
  ⟨row.id, row.metricId, row.logValue, row.type, row.loggedAt, row.createdAt, row.updatedAt⟩

/-! ### Numbers -/

/-- What the language makes of the numbers that are logged. -/
structure Numbers (V : Type) : Type where
  /-- `JSON.stringify(v)`. -/
  literal : V → List Char
  /-- The number a literal stands for. -/
  ofLiteral : List Char → Option V
  /-- `Number(text)`: none where that is `NaN`, and no value where it is infinite. -/
  ofText : String → Option (Option V)
  literal_isNumber : ∀ v, (Json.num (literal v)).Scalar
  ofLiteral_literal : ∀ v, ofLiteral (literal v) = some v

end LakiraBackend.Metrics
