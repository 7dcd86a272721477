import LakiraBackend.Metrics.SettingsRow

/-!
# What a body of settings has to be

`settingsBody` and `settingsBodyPartial` are unions of a schema with a goal and one without, with
refinements over several fields.  A `SettingsBody` holds values of the types its fields have; the
rules on the values, and on which fields come together, are here, and the requests they let
through are the `Accepted` ones.
-/

namespace LakiraBackend.Metrics

open LakiraBackend.Concurrency LakiraBackend.JavaScript LakiraBackend.Postgres

structure Issue : Type where
  path : List String
  message : String
  deriving DecidableEq

/-- What a union finds where none of its schemas fits. -/
def invalidInput : Issue := ⟨[], "Invalid input"⟩

/-- A date that is sent: a text of blanks is none. -/
inductive SentDate : Type
  | blank
  | date (d : Date)

/-- `zDateOptional.optional().nullable()`. -/
def zDateOptionalNullable : Option (Option SentDate) → Option (Option Date)
  | none => none
  | some none => some none
  | some (some .blank) => none
  | some (some (.date d)) => some (some d)

/-- A field that is missing is told apart from a null. -/
structure SettingsBody (V : Type) : Type where
  metricId : Option IdText
  timeFrameEnabled : Option Bool
  startDate : Option (Option SentDate)
  deadlineDate : Option (Option SentDate)
  alertEnabled : Option Bool
  alertThresholds : Option (Option Int)
  displayOptions : Option DisplayOptionsPatch
  goalEnabled : Option Bool
  goalType : Option (Option GoalType)
  goalValue : Option (Option V)
  /-- The keys that no schema has. -/
  others : List String

/-- The options with the defaults of `zDisplayOptionsObject`. -/
def DisplayOptionsPatch.defaulted (o : DisplayOptionsPatch) : DisplayOptions :=
  ⟨o.showOnDashboard.getD true, some (o.priority.getD 1), some (o.chartType.getD "line"),
    some (o.color.getD "#E897A3")⟩

def DisplayOptions.toPatch (o : DisplayOptions) : DisplayOptionsPatch :=
  ⟨some o.showOnDashboard, o.priority, o.chartType, o.color⟩

/-! ### The rules on the values -/

/-- An issue, where the rule is broken. -/
def issueIf (broken : Bool) (path : List String) (message : String) : List Issue :=
  if broken then [⟨path, message⟩] else []

def zAlertThresholds (n : Option Int) : List Issue :=
  issueIf (n.any fun n => n < 0) ["alertThresholds"] "Alert threshold must be at least 0" ++
    issueIf (n.any fun n => 100 < n) ["alertThresholds"] "Alert threshold must be at most 100"

def zGoalValue {V : Type} [LinearOrder V] [Zero V] (v : Option V) : List Issue :=
  issueIf (v.any fun v => v ≤ 0) ["goalValue"] "Goal value must be greater than 0"

def zPriority (n : Option Int) : List Issue :=
  issueIf (n.any fun n => n < 1) ["displayOptions", "priority"]
      "Too small: expected number to be >=1" ++
    issueIf (n.any fun n => 1000 < n) ["displayOptions", "priority"]
      "Too big: expected number to be <=1000"

def zDisplayOptionText (field : String) (text : Option String) : List Issue :=
  issueIf (text.any fun text => text.toList.any (isControlChar false)) ["displayOptions", field]
    "Display options contain invalid characters"

def zDisplayOptions (o : Option DisplayOptionsPatch) : List Issue :=
  zPriority (o.bind DisplayOptionsPatch.priority) ++
    zDisplayOptionText "chartType" (o.bind DisplayOptionsPatch.chartType) ++
    zDisplayOptionText "color" (o.bind DisplayOptionsPatch.color)

/-! ### The rules on several fields -/

/-- The dates that are asked for, in order. -/
def dateIssues (start deadline : Option Date) (noStart noDeadline : String) : List Issue :=
  issueIf start.isNone ["startDate"] noStart ++
    issueIf deadline.isNone ["deadlineDate"] noDeadline ++
    issueIf (start.any fun start => deadline.any fun deadline => deadline.ms ≤ start.ms)
      ["deadlineDate"] "deadlineDate must be after startDate."

namespace SettingsBody

variable {V : Type} (b : SettingsBody V)

/-- What the schemas with a goal ask for. -/
def hasGoal : Bool := b.goalEnabled = some true && b.goalType.join.isSome && b.goalValue.join.isSome

/-- What the schemas without one do. -/
def hasNoGoal : Bool := b.goalEnabled ≠ some true

def start : Option Date := (zDateOptionalNullable b.startDate).join

def deadline : Option Date := (zDateOptionalNullable b.deadlineDate).join

def timeFrameMixin : Bool :=
  b.timeFrameEnabled = some true && (b.start.isNone || b.deadline.isNone ||
    b.start.any fun start => b.deadline.any fun deadline => deadline.ms ≤ start.ms)

/-- The refinement of `settingsBody`. -/
def createIssues : List Issue :=
  if b.timeFrameMixin then
    dateIssues b.start b.deadline "startDate is required when timeFrameEnabled is true."
      "deadlineDate is required when timeFrameEnabled is true."
  else []

def isEmpty : Bool :=
  b.metricId.isNone && b.timeFrameEnabled.isNone && b.startDate.isNone && b.deadlineDate.isNone &&
    b.alertEnabled.isNone && b.alertThresholds.isNone && b.displayOptions.isNone &&
    b.goalEnabled.isNone && b.goalType.isNone && b.goalValue.isNone

/-- Whether an update has to bring both dates. -/
def requiresDates : Bool :=
  b.timeFrameEnabled = some true || (b.timeFrameEnabled.isNone &&
    ((zDateOptionalNullable b.startDate).isSome || (zDateOptionalNullable b.deadlineDate).isSome))

/-- The refinement of `settingsBodyPartial`. -/
def updateIssues : List Issue :=
  if b.isEmpty then [⟨[], "Provide at least one field to update."⟩]
  else if b.requiresDates then
    dateIssues b.start b.deadline
      "Include startDate when enabling time frame (timeFrameEnabled=true) in this request."
      "Include deadlineDate when enabling time frame (timeFrameEnabled=true) in this request."
  else []

variable [LinearOrder V] [Zero V]

def valueIssues : List Issue :=
  zAlertThresholds b.alertThresholds.join ++ zDisplayOptions b.displayOptions ++
    zGoalValue b.goalValue.join

/-- `settingsBody`, and the request of the user that sends it. -/
def parse (userId organizationId : Uuid) : Except (List Issue) (CreateSettingsInput V) :=
  match b.metricId with
  | none => .error [invalidInput]
  | some metricId =>
    -- the schema without a goal drops the keys it does not know
    if !(b.hasGoal && b.others.isEmpty || b.hasNoGoal) then .error [invalidInput]
    else match b.valueIssues ++ b.createIssues with
      | [] => .ok
        { userId := userId
          organizationId := organizationId
          metricId := metricId
          isActive := none
          goalEnabled := some (b.goalEnabled.getD false)
          goalType := b.goalType.join
          goalValue := b.goalValue.join
          timeFrameEnabled := some (b.timeFrameEnabled.getD false)
          startDate := b.start
          deadlineDate := b.deadline
          alertEnabled := some (b.alertEnabled.getD false)
          alertThresholds := b.alertThresholds.getD (some 80)
          displayOptions := some (b.displayOptions.getD ⟨none, none, none, none⟩).defaulted.toPatch }
      | issues => .error issues

/-- `settingsBodyPartial`. -/
def parsePartial : Except (List Issue) (SettingsUpdate V) :=
  if !(b.others.isEmpty && (b.hasGoal || b.hasNoGoal)) then .error [invalidInput]
  else match b.valueIssues ++ b.updateIssues with
    | [] => .ok
      { goalEnabled := b.goalEnabled
        goalType := b.goalType
        goalValue := b.goalValue
        timeFrameEnabled := b.timeFrameEnabled
        startDate := zDateOptionalNullable b.startDate
        deadlineDate := zDateOptionalNullable b.deadlineDate
        alertEnabled := b.alertEnabled
        alertThresholds := b.alertThresholds
        displayOptions := b.displayOptions.map DisplayOptionsPatch.defaulted }
    | issues => .error issues

end SettingsBody

/-- The request is one that its schema lets through. -/
def Request.Accepted {V : Type} [LinearOrder V] [Zero V] : Request V → Prop
  | .createMetricSettings input =>
    ∃ b : SettingsBody V, b.parse input.userId input.organizationId = .ok input
  | .updateMetricSettings _ _ _ payload => ∃ b : SettingsBody V, b.parsePartial = .ok payload
  | _ => True

/-! ### What is let through -/

variable {V : Type} {start deadline : Option Date} {noStart noDeadline : String}
  {b : SettingsBody V}

/-- Dates that raise no issue are both there, in order. -/
theorem of_dateIssues (h : dateIssues start deadline noStart noDeadline = []) :
    ∃ s ∈ start, ∃ d ∈ deadline, s.ms < d.ms := by
  unfold dateIssues issueIf at h
  cases start with
  | none => simp at h
  | some s =>
    cases deadline with
    | none => simp at h
    | some d =>
      by_cases hle : d.ms ≤ s.ms
      · simp [hle] at h
      · exact ⟨s, rfl, d, rfl, not_le.mp hle⟩

/-- The mixin is false where the dates are as they have to be. -/
theorem of_createIssues (h : b.createIssues = []) (hon : b.timeFrameEnabled = some true) :
    ∃ s ∈ b.start, ∃ d ∈ b.deadline, s.ms < d.ms := by
  unfold SettingsBody.createIssues at h
  split at h
  · exact of_dateIssues h
  · rename_i hmixin
    unfold SettingsBody.timeFrameMixin at hmixin
    cases hs : b.start with
    | none => simp [hs, hon] at hmixin
    | some s =>
      cases hd : b.deadline with
      | none => simp [hs, hd, hon] at hmixin
      | some d => exact ⟨s, rfl, d, rfl, by simpa [hs, hd, hon] using hmixin⟩

variable [LinearOrder V] [Zero V]

/-- **A body of new settings**: a goal comes with its type and value, a time frame with its
dates in order. -/
theorem parse_ok {u o : Uuid} {input : CreateSettingsInput V} (h : b.parse u o = .ok input) :
    (input.goalEnabled = some true → input.goalType.isSome = true ∧ input.goalValue.isSome = true) ∧
      (input.timeFrameEnabled = some true →
        ∃ s ∈ input.startDate, ∃ d ∈ input.deadlineDate, s.ms < d.ms) := by
  unfold SettingsBody.parse at h
  split at h
  · cases h
  split at h
  · cases h
  rename_i hunion
  split at h
  · rename_i hissues
    cases h
    obtain ⟨_, hcreate⟩ := List.append_eq_nil_iff.mp hissues
    constructor
    · intro hon
      have hgoal : b.goalEnabled = some true := by
        cases hg : b.goalEnabled with
        | none => simp [hg] at hon
        | some on => simpa [hg] using hon
      have hboth : (b.goalType.join.isSome = true ∧ b.goalValue.join.isSome = true) ∧
          b.others = [] := by
        simpa [SettingsBody.hasGoal, SettingsBody.hasNoGoal, hgoal, Option.isSome_iff_ne_none] using
          hunion
      exact hboth.1
    · intro hon
      refine of_createIssues hcreate ?_
      cases ht : b.timeFrameEnabled with
      | none => simp [ht] at hon
      | some on => simpa [ht] using hon
  · cases h

end LakiraBackend.Metrics
