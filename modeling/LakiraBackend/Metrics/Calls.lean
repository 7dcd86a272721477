import LakiraBackend.Concurrency.Machine
import LakiraBackend.Metrics.CacheKeys
import LakiraBackend.Metrics.Writes

/-!
# What a use case awaits

A call is a query, a statement that writes, a step of the transaction, or the deletion of
cache entries.  The ids and the times of what is written are drawn with the statement.  A
walk over the keys of a pattern deletes its entries at once.
-/

namespace LakiraBackend.Metrics

open LakiraBackend.Auth (Err LogType)
open LakiraBackend.Concurrency LakiraBackend.JavaScript LakiraBackend.Postgres

variable {V : Type}

/-! ### Queries -/

inductive Query : Type
  | metricExistsByName (userId organizationId : Uuid) (normalized : String)
  | categoryExists (userId organizationId id : Uuid)
  | originalMetricExists (userId id : Uuid)
  | findOwnedMetric (userId organizationId id : Uuid)
  | reloadMetric (id : Uuid)
  | findMetricInOrganization (organizationId id : Uuid)
  | categoryExistsByName (userId organizationId : Uuid) (name : String)
  | findOwnedCategory (userId organizationId id : Uuid)
  | findCategoryByPk (id : Uuid)
  | findSettingsByMetricId (organizationId metricId : Uuid)
  | findOwnedSettings (userId organizationId id : Uuid)
  | findSettings (organizationId id : Uuid)
  | reloadSettings (id : Uuid)
  | logExistsAtTimestamp (organizationId metricId : Uuid) (loggedAt : Date)
      (excludeLogId : Option Uuid)
  | findOwnedLog (userId organizationId id : Uuid)
  | reloadLog (id : Uuid)

abbrev Query.Answer (V : Type) : Query → Type
  | .metricExistsByName _ _ _ => Bool
  | .categoryExists _ _ _ => Bool
  | .originalMetricExists _ _ => Bool
  | .findOwnedMetric _ _ _ => Option Metric
  | .reloadMetric _ => Option Metric
  | .findMetricInOrganization _ _ => Option Metric
  | .categoryExistsByName _ _ _ => Bool
  | .findOwnedCategory _ _ _ => Option CategoryRow
  | .findCategoryByPk _ => Option CategoryRow
  | .findSettingsByMetricId _ _ => Option (MetricSettings V)
  | .findOwnedSettings _ _ _ => Option (MetricSettings V)
  | .findSettings _ _ => Option (MetricSettings V)
  | .reloadSettings _ => Option (MetricSettings V)
  | .logExistsAtTimestamp _ _ _ _ => Bool
  | .findOwnedLog _ _ _ => Option (MetricLog V)
  | .reloadLog _ => Option (MetricLog V)

/-- `count(…) > 0` is whether there is one. -/
def Query.eval (D : Deps V) : (q : Query) → Db V → q.Answer V
  | .metricExistsByName userId organizationId normalized, d =>
    d.metrics.rows.any fun m => owns userId organizationId m && D.lower m.name = normalized
  | .categoryExists userId organizationId id, d =>
    d.categories.rows.any fun c => c.id = id && ownsCategory userId organizationId c
  | .originalMetricExists userId id, d =>
    d.metrics.rows.any fun m => m.id = id && m.deletedAt.isNone && (m.isPublic || m.userId = userId)
  | .findOwnedMetric userId organizationId id, d =>
    Metrics.findOwnedMetric d userId organizationId id
  | .reloadMetric id, d => d.metrics.findOne fun m => m.id = id && m.deletedAt.isNone
  | .findMetricInOrganization organizationId id, d =>
    Metrics.findMetricInOrganization d organizationId id
  | .categoryExistsByName userId organizationId name, d =>
    d.categories.rows.any fun c => ownsCategory userId organizationId c && c.name = name
  | .findOwnedCategory userId organizationId id, d =>
    (Metrics.findOwnedCategory d userId organizationId id).map (toCategoryRow d)
  | .findCategoryByPk id, d =>
    (d.categories.findOne fun c => c.id = id && c.deletedAt.isNone).map (toCategoryRow d)
  | .findSettingsByMetricId organizationId metricId, d =>
    d.settings.findOne fun s => s.metricId = metricId && s.organizationId = organizationId
  | .findOwnedSettings userId organizationId id, d =>
    Metrics.findOwnedSettings d userId organizationId id
  | .findSettings organizationId id, d =>
    d.settings.findOne fun s => s.id = id && s.organizationId = organizationId
  | .reloadSettings id, d => d.settings.findOne fun s => s.id = id
  | .logExistsAtTimestamp organizationId metricId loggedAt excludeLogId, d =>
    d.logs.rows.any fun l => l.organizationId = organizationId && l.metricId = metricId &&
      l.loggedAt = loggedAt && excludeLogId.all fun id => l.id ≠ id
  | .findOwnedLog userId organizationId id, d =>
    Metrics.findOwnedLog d userId organizationId id
  | .reloadLog id, d => d.logs.findOne fun l => l.id = id

/-! ### Statements that write -/

structure CreateMetricData : Type where
  userId : Uuid
  organizationId : Uuid
  categoryId : Option Uuid
  originalMetricId : Option Uuid
  name : String
  description : Option String
  defaultUnit : String
  isPublic : Bool

structure CreateCategoryData : Type where
  userId : Uuid
  organizationId : Uuid
  name : String
  color : String
  icon : String

structure CreateSettingsData (V : Type) : Type where
  metricId : Uuid
  organizationId : Uuid
  values : SettingsValues V

structure CreateLogData (V : Type) : Type where
  metricId : Uuid
  organizationId : Uuid
  values : LogValues V

inductive Statement (V : Type) : Type
  | createMetric (data : CreateMetricData)
  | updateMetric (id : Uuid) (patch : MetricPatch)
  | destroyMetric (id : Uuid)
  | createCategory (data : CreateCategoryData)
  | updateCategory (id : Uuid) (patch : CategoryPatch)
  | destroyCategories (userId organizationId id : Uuid)
  | createSettings (data : CreateSettingsData V)
  | updateSettings (id organizationId : Uuid) (values : SettingsValues V)
  | deleteSettings (id organizationId : Uuid)
  | createLog (data : CreateLogData V)
  | updateLogs (id organizationId : Uuid) (values : LogValues V)
  | deleteLogs (id organizationId : Uuid)

/-- A row with its first values. -/
def SettingsValues.row (v : SettingsValues V) (id metricId organizationId : Uuid) (now : Date) :
    MetricSettings V where
  id := id
  metricId := metricId
  organizationId := organizationId
  isActive := v.isActive
  goalEnabled := v.goalEnabled
  goalType := v.goalType
  goalValue := v.goalValue
  timeFrameEnabled := v.timeFrameEnabled
  startDate := v.startDate
  deadlineDate := v.deadlineDate
  alertEnabled := v.alertEnabled
  alertThresholds := v.alertThresholds
  isAchieved := v.isAchieved
  displayOptions := toDisplayOptionsRow v.displayOptions
  createdAt := now
  updatedAt := now

/-- The write of a statement, with what is drawn for it. -/
def Statement.write (id : Uuid) (now : Date) : Statement V → Write V
  | .createMetric data => .insertMetric ⟨id, data.userId, data.organizationId, data.categoryId,
      data.originalMetricId, data.name, data.description, data.defaultUnit, data.isPublic, now, now,
      none⟩
  | .updateMetric metricId patch => .updateMetric metricId patch now
  | .destroyMetric metricId => .destroyMetric metricId now
  | .createCategory data => .insertCategory ⟨id, data.userId, data.organizationId, data.name,
      data.color, data.icon, now, now, none⟩
  | .updateCategory categoryId patch => .updateCategory categoryId patch now
  | .destroyCategories userId organizationId categoryId =>
    .destroyCategories userId organizationId categoryId now
  | .createSettings data =>
    .insertSettings (data.values.row id data.metricId data.organizationId now)
  | .updateSettings settingsId organizationId values =>
    .updateSettings settingsId organizationId values now
  | .deleteSettings settingsId organizationId => .deleteSettings settingsId organizationId
  | .createLog data => .insertLog ⟨id, data.metricId, data.organizationId, data.values.logValue,
      data.values.type, data.values.loggedAt, now, now⟩
  | .updateLogs logId organizationId values => .updateLogs logId organizationId values now
  | .deleteLogs logId organizationId => .deleteLogs logId organizationId

abbrev Statement.Answer : Statement V → Type
  | .createMetric _ => Uuid
  | .createCategory _ => Uuid
  | .createSettings _ => Uuid
  | .createLog _ => Uuid
  | .updateSettings _ _ _ => Nat
  | .updateLogs _ _ _ => List (MetricLog V)
  | _ => Unit

/-- What a statement is answered with: the id that was drawn, or what it has changed of the
rows there are. -/
def Statement.answer (id : Uuid) (now : Date) : (s : Statement V) → Db V → s.Answer
  | .createMetric _, _ => id
  | .createCategory _, _ => id
  | .createSettings _, _ => id
  | .createLog _, _ => id
  | .updateSettings settingsId organizationId _, d =>
    d.settings.count fun s => s.id = settingsId && s.organizationId = organizationId
  | .updateLogs logId organizationId values, d =>
    (d.logs.select fun l => l.id = logId && l.organizationId = organizationId).map
      (values.apply now)
  | .updateMetric _ _, _ => ()
  | .destroyMetric _, _ => ()
  | .updateCategory _ _, _ => ()
  | .destroyCategories _ _ _, _ => ()
  | .deleteSettings _ _, _ => ()
  | .deleteLogs _ _, _ => ()

/-! ### Calls -/

inductive Op (V : Type) : Type
  | begin
  | commit
  | rollback
  | query (tx : Bool) (q : Query)
  | statement (tx : Bool) (s : Statement V)
  /-- `new Date()`. -/
  | now
  /-- Which of the walks awaited together is over next. -/
  | pick
  | delByPattern (pattern : List Char)
  | del (key : List Char)

abbrev Op.Answer : Op V → Type
  | .query _ q => q.Answer V
  | .statement _ s => s.Answer
  | .now => Date
  | .pick => Nat
  | _ => Unit

/-- What is cached, with the database it was computed from. -/
structure Entry (V : Type) : Type where
  key : List Char
  value : Response V
  source : Db V

structure World (V : Type) : Type where
  store : Store (Db V) (Write V) Key Unit
  cache : List (Entry V)

/-- A world in which nothing is under way. -/
def World.init (d : Db V) (cache : List (Entry V)) : World V := ⟨⟨d, [], [], []⟩, cache⟩

/-- What is drawn when a call is made. -/
structure Input : Type where
  id : Uuid
  now : Date
  pick : Nat

/-- Thread `i` makes a call; `none` while it has to wait. -/
def exec (D : Deps V) (i : Nat) (inp : Input) :
    (op : Op V) → World V → Option (Except Err op.Answer × World V)
  | .begin, w => some (.ok (), w)
  | .commit, w => some (.ok (), { w with store := w.store.commit (schema D) i })
  | .rollback, w => some (.ok (), { w with store := w.store.rollback i })
  | .query tx q, w => some (.ok (q.eval D (w.store.base (schema D) i tx)), w)
  | .statement tx s, w =>
    (w.store.write (schema D) i tx (s.write inp.id inp.now)).map fun (r, store) =>
      (r.map fun _ => s.answer inp.id inp.now (w.store.base (schema D) i tx),
        { w with store := store })
  | .now, w => some (.ok inp.now, w)
  | .pick, w => some (.ok inp.pick, w)
  | .delByPattern pattern, w =>
    some (.ok (), { w with cache := w.cache.filter fun e => !Redis.globMatch pattern e.key })
  | .del key, w => some (.ok (), { w with cache := w.cache.filter fun e => e.key ≠ key })

/-- What an `async` function of the features is. -/
abbrev Async (V α : Type) : Type := Prog (Op V) Op.Answer Err α

def await (op : Op V) : Async V op.Answer := Prog.await op

end LakiraBackend.Metrics
