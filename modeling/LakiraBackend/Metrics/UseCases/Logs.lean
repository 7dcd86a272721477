import LakiraBackend.Metrics.UseCases.Metrics

/-!
# The use cases of metric settings and of logs
-/

namespace LakiraBackend.Metrics

open LakiraBackend.Auth (Err LogType conflictError notFoundError validationError forbiddenError)
open LakiraBackend.Concurrency LakiraBackend.JavaScript LakiraBackend.Postgres

variable {V : Type}

/-- `validateMetricAccess`. -/
def ensureMetricOwnership (userId organizationId metricId : Uuid) : Async V Unit := do
  let found ← await (.query false (.findMetricInOrganization organizationId metricId))
  let metric ← orThrow found (notFoundError "Metric not found")
  ensure (metric.userId = userId) (forbiddenError "Unauthorized access to metric")

/-! ### Settings -/

/-- `MetricSettingsCacheInvalidator.invalidate`, while Redis is there. -/
def invalidateSettings (D : Deps V) (userId organizationId : Uuid) (settingsId : List Char) :
    Async V Unit :=
  if D.cacheEnabled then do
    await (.delByPattern (cursorPattern userId organizationId METRIC_SETTINGS_CURSOR_FEATURE))
    await (.del (metricSettingEntryKey userId organizationId settingsId))
  else pure ()

/-- A patch: a missing field keeps the current value. -/
structure DisplayOptionsPatch : Type where
  showOnDashboard : Option Bool
  priority : Option Int
  chartType : Option String
  color : Option String

structure CreateSettingsInput (V : Type) : Type where
  userId : Uuid
  organizationId : Uuid
  metricId : IdText
  isActive : Option Bool
  goalEnabled : Option Bool
  goalType : Option GoalType
  goalValue : Option V
  timeFrameEnabled : Option Bool
  startDate : Option Date
  deadlineDate : Option Date
  alertEnabled : Option Bool
  alertThresholds : Option Int
  displayOptions : Option DisplayOptionsPatch

/-- The values of the new row, with the defaults. -/
def CreateSettingsInput.values (D : Deps V) (input : CreateSettingsInput V) : SettingsValues V where
  isActive := input.isActive.getD true
  goalEnabled := input.goalEnabled.getD false
  goalType := input.goalType
  goalValue := input.goalValue
  timeFrameEnabled := input.timeFrameEnabled.getD false
  startDate := input.startDate.map D.dateOnly
  deadlineDate := input.deadlineDate.map D.dateOnly
  alertEnabled := input.alertEnabled.getD false
  alertThresholds := match input.alertThresholds with
    | some n => some n
    | none => if input.alertEnabled = some true then some 80 else none
  isAchieved := false
  displayOptions :=
    { showOnDashboard := (input.displayOptions.bind DisplayOptionsPatch.showOnDashboard).getD true
      priority := some ((input.displayOptions.bind DisplayOptionsPatch.priority).getD 1)
      chartType := some ((input.displayOptions.bind DisplayOptionsPatch.chartType).getD "line")
      color := some ((input.displayOptions.bind DisplayOptionsPatch.color).getD "#E897A3") }

/-- `MetricSettingsRepositorySequelize.create`: the violation of the unique index is told
apart. -/
def insertSettings [LinearOrder V] [Zero V] (data : CreateSettingsData V) :
    Async V (MetricSettings V) :=
  tryCatch
    (do
      let id ← createSettings false data
      let created ← await (.query false (.reloadSettings id))
      orThrow created (.plain "Instance could not be reloaded because it does not exist anymore"))
    fun e =>
      if e = .uniqueConstraint "uq_metric_settings_metric" then
        throw (.app "Metric settings already exist for this metric" 409)
      else throw e

def createMetricSettings [LinearOrder V] [Zero V] (D : Deps V) (input : CreateSettingsInput V) :
    Async V (MetricSettings V) := do
  ensureMetricOwnership input.userId input.organizationId input.metricId.id
  let existing ← await (.query false
    (.findSettingsByMetricId input.organizationId input.metricId.id))
  ensure existing.isNone (conflictError "Metric settings already exist for this metric")
  let created ← insertSettings ⟨input.metricId.id, input.organizationId, input.values D⟩
  invalidateSettings D input.userId input.organizationId created.id.text
  pure created

def findSettingsById (userId organizationId settingsId : Uuid) : Async V (MetricSettings V) := do
  let found ← await (.query false (.findOwnedSettings userId organizationId settingsId))
  orThrow found (notFoundError "Metric Settings not found")

/-- What an entity is saved with. -/
def toValues (D : Deps V) (s : MetricSettingsEntity V) : SettingsValues V where
  isActive := s.isActive
  goalEnabled := s.goalEnabled
  goalType := s.goalType
  goalValue := s.goalValue
  timeFrameEnabled := s.timeFrameEnabled
  startDate := s.startDate.map D.dateOnly
  deadlineDate := s.deadlineDate.map D.dateOnly
  alertEnabled := s.alertEnabled
  alertThresholds := s.alertThresholds
  isAchieved := s.isAchieved
  displayOptions := s.displayOptions

/-- `MetricSettingsRepositorySequelize.save`. -/
def saveSettings [LinearOrder V] [Zero V] (D : Deps V) (organizationId : Uuid)
    (s : MetricSettingsEntity V) : Async V (MetricSettings V) := do
  liftExcept (validateSettings (toValues D s))
  let affectedCount ← await (.statement false (.updateSettings s.id organizationId (toValues D s)))
  ensure (affectedCount ≠ 0) (.app "Metric Settings not found" 404)
  let updated ← await (.query false (.findSettings organizationId s.id))
  orThrow updated (.app "Metric Settings not found" 404)

/-- What an update may carry. -/
structure SettingsUpdate (V : Type) : Type where
  goalEnabled : Option Bool
  goalType : Option (Option GoalType)
  goalValue : Option (Option V)
  timeFrameEnabled : Option Bool
  startDate : Option (Option Date)
  deadlineDate : Option (Option Date)
  alertEnabled : Option Bool
  alertThresholds : Option (Option Int)
  displayOptions : Option DisplayOptions

namespace SettingsUpdate

/-- Dates that are sent enable the time frame. -/
def enableTimeFrame (u : SettingsUpdate V) : SettingsUpdate V :=
  if u.timeFrameEnabled.isNone && (u.startDate.isSome || u.deadlineDate.isSome) then
    { u with timeFrameEnabled := some true }
  else u

def checkGoal (u : SettingsUpdate V) : Except Err (SettingsUpdate V) :=
  match u.goalEnabled with
  | some false => .ok { u with goalType := some none, goalValue := some none }
  | some true =>
    if u.goalType.join.isNone || u.goalValue.join.isNone then
      .error (validationError "goalType and goalValue are required when goalEnabled is true")
    else .ok u
  | none => .ok u

def checkTimeFrame (u : SettingsUpdate V) : Except Err (SettingsUpdate V) :=
  match u.timeFrameEnabled with
  | some false => .ok { u with startDate := some none, deadlineDate := some none }
  | some true => match u.startDate.join, u.deadlineDate.join with
    | some start, some deadline =>
      if deadline.ms ≤ start.ms then
        .error (validationError "deadlineDate must be after startDate")
      else .ok u
    | _, _ => .error (validationError
      "Valid startDate and deadlineDate required when timeFrameEnabled is true")
  | none => .ok u

def checkAlert (u : SettingsUpdate V) : Except Err (SettingsUpdate V) :=
  match u.alertEnabled with
  | some false => .ok { u with alertThresholds := some none }
  | some true =>
    if u.alertThresholds.join.isNone then
      .error (validationError "alertThresholds is required when alertEnabled is true")
    else .ok u
  | none => .ok u

/-- `MetricSettings.updateDetails`. -/
def updateDetails (u : SettingsUpdate V) (s : MetricSettingsEntity V) :
    Except Err (MetricSettingsEntity V) := do
  let u ← u.checkGoal
  let u ← u.checkTimeFrame
  let u ← u.checkAlert
  pure
    { s with
      goalEnabled := u.goalEnabled.getD s.goalEnabled
      goalType := u.goalType.getD s.goalType
      goalValue := u.goalValue.getD s.goalValue
      timeFrameEnabled := u.timeFrameEnabled.getD s.timeFrameEnabled
      startDate := u.startDate.getD s.startDate
      deadlineDate := u.deadlineDate.getD s.deadlineDate
      alertEnabled := u.alertEnabled.getD s.alertEnabled
      alertThresholds := u.alertThresholds.getD s.alertThresholds
      displayOptions := u.displayOptions.getD s.displayOptions }

end SettingsUpdate

/-- A missing field of the patch keeps the current value. -/
def updateDisplayOptions (patch : DisplayOptionsPatch) (s : MetricSettingsEntity V) :
    MetricSettingsEntity V :=
  { s with
    displayOptions :=
      { showOnDashboard := patch.showOnDashboard.getD s.displayOptions.showOnDashboard
        priority := patch.priority <|> s.displayOptions.priority
        chartType := patch.chartType <|> s.displayOptions.chartType
        color := patch.color <|> s.displayOptions.color } }

def markAchieved (s : MetricSettingsEntity V) : MetricSettingsEntity V := { s with isAchieved := true }

/-- What the three updates share: the entity is found, changed, saved, and the cache is
cleared. -/
def changeSettings [LinearOrder V] [Zero V] (D : Deps V) (userId organizationId : Uuid)
    (settingsId : IdText)
    (change : MetricSettingsEntity V → Except Err (MetricSettingsEntity V)) :
    Async V (MetricSettings V) := do
  let found ← findSettingsById userId organizationId settingsId.id
  let changed ← liftExcept (change (toEntity found))
  let saved ← saveSettings D organizationId { changed with id := found.id }
  invalidateSettings D userId organizationId found.id.text
  pure saved

def updateMetricSettings [LinearOrder V] [Zero V] (D : Deps V) (userId organizationId : Uuid)
    (settingsId : IdText) (payload : SettingsUpdate V) : Async V (MetricSettings V) :=
  changeSettings D userId organizationId settingsId payload.enableTimeFrame.updateDetails

def updateDisplayOptionsOf [LinearOrder V] [Zero V] (D : Deps V) (userId organizationId : Uuid)
    (settingsId : IdText) (patch : DisplayOptionsPatch) : Async V (MetricSettings V) :=
  changeSettings D userId organizationId settingsId fun s => .ok (updateDisplayOptions patch s)

def updateGoalAchievement [LinearOrder V] [Zero V] (D : Deps V) (userId organizationId : Uuid)
    (settingsId : IdText) : Async V (MetricSettings V) :=
  changeSettings D userId organizationId settingsId fun s => .ok (markAchieved s)

def deleteMetricSettings (D : Deps V) (userId organizationId : Uuid) (settingsId : IdText) :
    Async V Unit := do
  let found ← findSettingsById userId organizationId settingsId.id
  await (.statement false (.deleteSettings found.id organizationId))
  invalidateSettings D userId organizationId found.id.text

/-! ### Logs -/

/-- What `MetricLogCacheRedis.invalidate` deletes. -/
def logPatterns (userId organizationId : Uuid) (metricId logId : List Char) : List (List Char) :=
  [cursorPattern userId organizationId METRIC_LOG_CURSOR_FEATURE,
    metricLogStatsPattern userId organizationId metricId,
    metricLogStatsPattern userId organizationId "all".toList,
    metricLogPattern userId organizationId logId,
    vizPattern userId organizationId metricId,
    vizDashPattern userId organizationId,
    cursorPattern userId organizationId METRIC_CURSOR_FEATURE,
    metricEntryPattern userId organizationId metricId]

def invalidateLog (D : Deps V) (userId organizationId : Uuid) (metricId logId : List Char) :
    Async V Unit :=
  if D.cacheEnabled then invalidateAll (logPatterns userId organizationId metricId logId)
  else pure ()

structure CreateLogInput (V : Type) : Type where
  userId : Uuid
  organizationId : Uuid
  metricId : IdText
  logValue : V
  type : Option LogType
  /-- The text that is sent. -/
  loggedAt : Option (List Char)

def timestampTaken : Err :=
  conflictError "A log entry already exists for this timestamp for this metric"

/-- `parseIsoToDate`. -/
def parseIsoToDate (D : Deps V) (text : List Char) : Except Err Date :=
  match Date.parse D.otherDate text with
  | some d => .ok d
  | none => .error (.plain "Invalid ISO date-time")

/-- When a log was measured: as it is sent, or now. -/
def timestampOf (D : Deps V) (loggedAt : Option (List Char)) : Async V Date :=
  match loggedAt with
  | some text => liftExcept (parseIsoToDate D text)
  | none => await .now

def insertLog (data : CreateLogData V) : Async V (MetricLog V) := do
  let id ← await (.statement false (.createLog data))
  let created ← await (.query false (.reloadLog id))
  orThrow created (.plain "Instance could not be reloaded because it does not exist anymore")

def checkTimestamp (organizationId metricId : Uuid) (timestamp : Date)
    (excludeLogId : Option Uuid) : Async V Unit := do
  let taken ← await (.query false
    (.logExistsAtTimestamp organizationId metricId timestamp excludeLogId))
  ensure (!taken) timestampTaken

/-- The cache is cleared of the metric as the request spells it. -/
def createMetricLog (D : Deps V) (input : CreateLogInput V) : Async V (MetricLog V) := do
  ensureMetricOwnership input.userId input.organizationId input.metricId.id
  let timestamp ← timestampOf D input.loggedAt
  checkTimestamp input.organizationId input.metricId.id timestamp none
  let log ← insertLog ⟨input.metricId.id, input.organizationId,
    ⟨input.logValue, input.type.getD .manual, timestamp⟩⟩
  invalidateLog D input.userId input.organizationId input.metricId.text log.id.text
  pure log

def findLogById (userId organizationId logId : Uuid) : Async V (MetricLog V) := do
  let found ← await (.query false (.findOwnedLog userId organizationId logId))
  orThrow found (notFoundError "Log not found")

structure UpdateLogInput (V : Type) : Type where
  userId : Uuid
  organizationId : Uuid
  logId : IdText
  logValue : Option V
  type : Option LogType
  loggedAt : Option (List Char)

/-- `MetricLog.setLogValue`, and what the use case throws. -/
def setLogValue [LinearOrder V] [Zero V] (D : Deps V) (v : LogValues V) (next : V) :
    Except Err (LogValues V) :=
  if next < 0 || D.maxLogValue < next then
    .error (validationError "Metric log value out of supported range")
  else .ok { v with logValue := next }

/-- The time a log is moved to, if it is. -/
def moveTimestamp (D : Deps V) (organizationId : Uuid) (log : MetricLog V)
    (loggedAt : Option (List Char)) : Async V Date :=
  match loggedAt with
  | none => pure log.loggedAt
  | some text => do
    let timestamp ← liftExcept (parseIsoToDate D text)
    checkTimestamp organizationId log.metricId timestamp (some log.id)
    pure timestamp

/-- `MetricLogRepoSequelize.save`: the rows come back with the statement. -/
def saveLog (organizationId logId : Uuid) (values : LogValues V) : Async V (MetricLog V) := do
  let rows ← await (.statement false (.updateLogs logId organizationId values))
  orThrow rows.head? (.app "Log not found" 404)

def updateMetricLog [LinearOrder V] [Zero V] (D : Deps V) (input : UpdateLogInput V) :
    Async V (MetricLog V) := do
  let log ← findLogById input.userId input.organizationId input.logId.id
  let values ← liftExcept (onSome input.logValue (setLogValue D)
    ⟨log.logValue, log.type, log.loggedAt⟩)
  let timestamp ← moveTimestamp D input.organizationId log input.loggedAt
  let saved ← saveLog input.organizationId log.id
    { values with type := input.type.getD log.type, loggedAt := timestamp }
  invalidateLog D input.userId input.organizationId saved.metricId.text saved.id.text
  pure saved

def deleteMetricLog (D : Deps V) (userId organizationId : Uuid) (logId : IdText) :
    Async V (MetricLog V) := do
  let log ← findLogById userId organizationId logId.id
  await (.statement false (.deleteLogs log.id organizationId))
  invalidateLog D userId organizationId log.metricId.text log.id.text
  pure log

end LakiraBackend.Metrics
