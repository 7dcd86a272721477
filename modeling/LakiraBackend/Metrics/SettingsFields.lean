import LakiraBackend.Metrics.SettingsConsistency
import Mathlib.Data.Fintype.Defs

/-!
# Lost updates on a settings row

A save writes all the fields of a row as its call has loaded them, but for those the call sets.
So a save that comes after another call's puts back what the other has set and it has not
(`achievement_reverted`).

A field has, in every state of a run, the value that the last call to set it has saved, and the
row stays consistent, exactly when no save finds a field other than its call has loaded it, and
none breaks the row (`settings_kept_iff`).
-/

namespace LakiraBackend.Metrics

open LakiraBackend.Auth (Err)
open LakiraBackend.Concurrency LakiraBackend.JavaScript LakiraBackend.Postgres

/-- The columns that `save` writes, the options one by one. -/
inductive SettingsField : Type
  | isActive
  | goalEnabled
  | goalType
  | goalValue
  | timeFrameEnabled
  | startDate
  | deadlineDate
  | alertEnabled
  | alertThresholds
  | isAchieved
  | showOnDashboard
  | priority
  | chartType
  | color
  deriving DecidableEq

namespace SettingsField

def all : List SettingsField :=
  [isActive, goalEnabled, goalType, goalValue, timeFrameEnabled, startDate, deadlineDate,
    alertEnabled, alertThresholds, isAchieved, showOnDashboard, priority, chartType, color]

instance : Fintype SettingsField := ⟨⟨all, by decide⟩, fun f => by cases f <;> decide⟩

end SettingsField

variable {V : Type}

abbrev SettingsField.Value (V : Type) : SettingsField → Type
  | .isActive => Bool
  | .goalEnabled => Bool
  | .goalType => Option GoalType
  | .goalValue => Option V
  | .timeFrameEnabled => Bool
  | .startDate => Option Date
  | .deadlineDate => Option Date
  | .alertEnabled => Bool
  | .alertThresholds => Option Int
  | .isAchieved => Bool
  | .showOnDashboard => Option Bool
  | .priority => Option (Option Int)
  | .chartType => Option String
  | .color => Option String

instance [DecidableEq V] (f : SettingsField) : DecidableEq (f.Value V) := by
  cases f <;> dsimp only [SettingsField.Value] <;> infer_instance

def MetricSettings.get (r : MetricSettings V) : (f : SettingsField) → f.Value V
  | .isActive => r.isActive
  | .goalEnabled => r.goalEnabled
  | .goalType => r.goalType
  | .goalValue => r.goalValue
  | .timeFrameEnabled => r.timeFrameEnabled
  | .startDate => r.startDate
  | .deadlineDate => r.deadlineDate
  | .alertEnabled => r.alertEnabled
  | .alertThresholds => r.alertThresholds
  | .isAchieved => r.isAchieved
  | .showOnDashboard => r.displayOptions.showOnDashboard
  | .priority => r.displayOptions.priority
  | .chartType => r.displayOptions.chartType
  | .color => r.displayOptions.color

/-- What a save writes to a field. -/
def SettingsValues.get (v : SettingsValues V) : (f : SettingsField) → f.Value V
  | .isActive => v.isActive
  | .goalEnabled => v.goalEnabled
  | .goalType => v.goalType
  | .goalValue => v.goalValue
  | .timeFrameEnabled => v.timeFrameEnabled
  | .startDate => v.startDate
  | .deadlineDate => v.deadlineDate
  | .alertEnabled => v.alertEnabled
  | .alertThresholds => v.alertThresholds
  | .isAchieved => v.isAchieved
  | .showOnDashboard => (toDisplayOptionsRow v.displayOptions).showOnDashboard
  | .priority => (toDisplayOptionsRow v.displayOptions).priority
  | .chartType => (toDisplayOptionsRow v.displayOptions).chartType
  | .color => (toDisplayOptionsRow v.displayOptions).color

theorem get_apply (v : SettingsValues V) (now : Date) (r : MetricSettings V) (f : SettingsField) :
    (v.apply now r).get f = v.get f := by
  cases f <;> rfl

/-! ### Which fields a request sets -/

/-- An update sets what it carries, and clears what it disables. -/
def SettingsUpdate.sets (u : SettingsUpdate V) : SettingsField → Bool
  | .isActive => false
  | .goalEnabled => u.goalEnabled.isSome
  | .goalType => u.goalType.isSome || u.goalEnabled = some false
  | .goalValue => u.goalValue.isSome || u.goalEnabled = some false
  | .timeFrameEnabled => u.timeFrameEnabled.isSome
  | .startDate => u.startDate.isSome || u.timeFrameEnabled = some false
  | .deadlineDate => u.deadlineDate.isSome || u.timeFrameEnabled = some false
  | .alertEnabled => u.alertEnabled.isSome
  | .alertThresholds => u.alertThresholds.isSome || u.alertEnabled = some false
  | .isAchieved => false
  | .showOnDashboard => u.displayOptions.isSome
  | .priority => u.displayOptions.isSome
  | .chartType => u.displayOptions.isSome
  | .color => u.displayOptions.isSome

def Request.sets : Request V → SettingsField → Bool
  | .updateMetricSettings _ _ _ payload, f => payload.enableTimeFrame.sets f
  | .updateDisplayOptions _ _ _ patch, .showOnDashboard => patch.showOnDashboard.isSome
  | .updateDisplayOptions _ _ _ patch, .priority => patch.priority.isSome
  | .updateDisplayOptions _ _ _ patch, .chartType => patch.chartType.isSome
  | .updateDisplayOptions _ _ _ patch, .color => patch.color.isSome
  | .updateGoalAchievement _ _ _, .isAchieved => true
  | _, _ => false

theorem get_merge {D : Deps V} {u : SettingsUpdate V} {f : SettingsField} (hf : u.sets f = false)
    (s : MetricSettingsEntity V) : (toValues D (u.merge s)).get f = (toValues D s).get f := by
  cases f <;> simp_all [SettingsUpdate.sets, SettingsUpdate.merge, toValues, SettingsValues.get]

/-- **A field that a request does not set is written as it was loaded.** -/
theorem get_of_not_sets {D : Deps V} {q : Request V} {r : MetricSettings V}
    {values : SettingsValues V} {f : SettingsField} (hc : Changes D q r values)
    (hf : q.sets f = false) : values.get f = (toValues D (toEntity r)).get f := by
  obtain ⟨s, hs, rfl⟩ := hc
  cases q with
  | updateMetricSettings u o x payload =>
    obtain ⟨_, rfl⟩ := SettingsUpdate.updateDetails_ok hs
    exact get_merge hf _
  | updateDisplayOptions u o x patch =>
    cases hs
    obtain ⟨showOnDashboard, priority, chartType, color⟩ := patch
    cases f with
    | showOnDashboard => cases showOnDashboard <;> first | rfl | cases hf
    | priority => cases priority <;> first | rfl | cases hf
    | chartType => cases chartType <;> first | rfl | cases hf
    | color => cases color <;> first | rfl | cases hf
    | _ => rfl
  | updateGoalAchievement u o x =>
    cases hs
    cases f <;> first | rfl | cases hf
  | _ =>
    cases hs
    rfl

/-! ### Every run -/

/-- The value of a field of a row. -/
def settingsValue (f : SettingsField) (x : Uuid) (w : World V) : Option (f.Value V) :=
  (settingsRow x w).map (·.get f)

/-- The value that the last call to set the field has saved, or the row was created with. -/
def lastSet (f : SettingsField) (x : Uuid) (w₀ : World V) :
    List (MetricsEvent V) → Option (f.Value V)
  | [] => settingsValue f x w₀
  | e :: past =>
    match savedSettings e with
    | some (y, values) =>
      if y = x then if e.req.sets f then some (values.get f) else lastSet f x w₀ past
      else lastSet f x w₀ past
    | none =>
      if (settingsRow x e.before).isNone || (settingsRow x e.after).isNone then
        settingsValue f x e.after
      else lastSet f x w₀ past

/-- The event saves the row with a field that its call does not set, and that is no longer what
it writes, which is what the call has loaded. -/
def Overwrites (D : Deps V) (f : SettingsField) (x : Uuid) (e : MetricsEvent V)
    (past : List (MetricsEvent V)) : Prop :=
  (∃ saved ∈ savedSettings e, saved.1 = x) ∧ e.req.sets f = false ∧
    settingsValue f x e.before ≠
      (loadedSettings (own e.tid past)).map fun r => (toValues D (toEntity r)).get f

variable [LinearOrder V] [Zero V] {D : Deps V} {w₀ : World V} {e : MetricsEvent V}
  {past : List (MetricsEvent V)} {x : Uuid} {f : SettingsField}

instance : Decidable (Overwrites D f x e past) :=
  inferInstanceAs (Decidable ((∃ _ ∈ _, _) ∧ _ ∧ _))

/-- **One step keeps a field or overwrites it.** -/
theorem field_step (hpend : w₀.store.pending = []) (hl : LegalSettings D w₀ (e :: past))
    (hkept : settingsValue f x (worldAfter w₀ past) = lastSet f x w₀ past) :
    settingsValue f x e.after = lastSet f x w₀ (e :: past) ↔ ¬ Overwrites D f x e past := by
  rw [← hl.1] at hkept
  have hstep := settingsRow_step hpend hl x
  rw [lastSet, settingsValue]
  rw [settingsValue] at hkept
  unfold Overwrites
  rw [settingsValue]
  generalize settingsRow x e.before = row at hstep hkept ⊢
  generalize settingsRow x e.after = row' at hstep ⊢
  cases hstep with
  | @saved row values now hsaved =>
    obtain ⟨r, hload, _, hchanges, _⟩ := saved_settings hl hsaved
    rw [hsaved, hload, ← hkept, Option.map_some, Option.map_some, Option.map_some, get_apply]
    simp only [if_pos]
    by_cases hset : e.req.sets f = true
    · rw [if_pos hset]
      refine iff_of_true rfl fun ho => ?_
      rw [ho.2.1] at hset
      cases hset
    · rw [Bool.not_eq_true] at hset
      rw [get_of_not_sets hchanges hset, hset]
      simp [eq_comm]
  | kept hno =>
    have hnot : ¬ ∃ saved ∈ savedSettings e, saved.1 = x := by
      rintro ⟨⟨y, values⟩, hsaved, rfl⟩
      exact hno values hsaved
    refine iff_of_true ?_ fun ho => hnot ho.1
    split
    · rename_i y values hsaved
      have hne : ¬ y = x := by
        rintro rfl
        exact hno values hsaved
      rw [if_neg hne]
      exact hkept
    · split
      · rfl
      · exact hkept
  | created hno hr =>
    refine iff_of_true ?_ fun ho => not_saves hno ho.1
    rw [hno]
    rfl
  | deleted hno =>
    refine iff_of_true ?_ fun ho => not_saves hno ho.1
    rw [hno]
    rfl

/-- The event saves the row with an overwritten field, or breaks it. -/
def Loses (D : Deps V) (x : Uuid) (e : MetricsEvent V) (past : List (MetricsEvent V)) : Prop :=
  (∃ f, Overwrites D f x e past) ∨ (∃ saved ∈ savedSettings e, saved.1 = x) ∧ Breaks e past

instance : Decidable (Loses D x e past) :=
  inferInstanceAs (Decidable ((∃ _, _) ∨ (∃ _ ∈ _, _) ∧ _))

/-- **No lost update on a settings row**: in every state of a run each field has the value last
set, and the row is consistent, exactly when no save overwrites a field or breaks the row. -/
theorem settings_kept_iff {d : Db V} {cache : List (Entry V)} {c : MetricsConfig V}
    (h : (metricsMachine D).Reachable (StartsFrom d cache) c)
    (haccepted : ∀ e ∈ c.state.hist, e.req.Accepted) (x : Uuid)
    (hx : ∀ r, settingsRow x (World.init d cache) = some r → r.Consistent) :
    (∀ hist, hist <:+ c.state.hist →
      (∀ f, settingsValue f x (worldAfter (World.init d cache) hist) =
        lastSet f x (World.init d cache) hist) ∧
      ∀ r, settingsRow x (worldAfter (World.init d cache) hist) = some r → r.Consistent) ↔
    Throughout (fun e past => ¬ Loses D x e past) c.state.hist := by
  obtain ⟨w₀, rfl, _, hl⟩ :=
    Contract.legal_of_reachable (M := metricsMachine D) (fun _ q s _ => meets_handle q s) h
  refine throughout_iff ⟨fun f => rfl, hx⟩ fun e past hs hpast => ?_
  have hl := hl.suffix hs
  have haccepted : ∀ e' ∈ e :: past, e'.req.Accepted := fun e' he' => haccepted e' (hs.subset he')
  have hrow : (∀ r, settingsRow x e.after = some r → r.Consistent) ↔
      ¬ ((∃ saved ∈ savedSettings e, saved.1 = x) ∧ Breaks e past) :=
    consistent_step rfl hl haccepted fun before hs => (hpast before hs).2
  have hfield : ∀ f, settingsValue f x e.after = lastSet f x (World.init d cache) (e :: past) ↔
      ¬ Overwrites D f x e past :=
    fun f => field_step rfl hl ((hpast past (List.suffix_refl past)).1 f)
  rw [Loses, not_or, not_exists]
  exact and_congr (forall_congr' hfield) hrow

/-! ### Two runs -/

def hide : Request (Fin 100) :=
  .updateDisplayOptions 1 2 (.ofUuid 8) ⟨some false, none, none, none⟩

def achieve : Request (Fin 100) := .updateGoalAchievement 1 2 (.ofUuid 8)

/-- The goal is achieved, and then the options are changed. -/
def inTurn : List (Label Input (Request (Fin 100))) :=
  [.spawn hide, .spawn achieve] ++ calls 1 5 ++ calls 0 5

/-- Both have loaded the row before one of them saves it. -/
def overlapping : List (Label Input (Request (Fin 100))) :=
  [.spawn hide, .spawn achieve] ++ calls 0 1 ++ calls 1 5 ++ calls 0 4

/-- One after the other, both keep what they set. -/
theorem settings_kept_in_turn :
    ∃ c ∈ (metricsMachine utcDeps).run (Machine.boot (World.init walksDb [])) inTurn,
      settingsValue .isAchieved 8 c.state.world = some true ∧
      ∀ hist, hist <:+ c.state.hist →
        (∀ f, settingsValue f 8 (worldAfter (World.init walksDb []) hist) =
          lastSet f 8 (World.init walksDb []) hist) ∧
        ∀ r, settingsRow 8 (worldAfter (World.init walksDb []) hist) = some r → r.Consistent := by
  have hrun : ((metricsMachine utcDeps).run (Machine.boot (World.init walksDb [])) inTurn).map
      (fun c => (settingsValue .isAchieved 8 c.state.world,
        decide (Throughout (fun e past => ¬ Loses utcDeps 8 e past) c.state.hist))) =
      some (some true, true) := by
    decide +kernel
  obtain ⟨c, hc, hval⟩ := Option.map_eq_some_iff.mp hrun
  obtain ⟨hachieved, hno⟩ := Prod.mk.inj hval
  have hstart : StartsFrom walksDb [] (World.init walksDb []) := rfl
  have hreach := Machine.reachable_of_run hstart hc
  have haccepted : ∀ e ∈ c.state.hist, e.req.Accepted := by
    intro e he
    have hreq : e.req ∈ [hide, achieve] := Machine.reqs_of_run hc e he
    simp only [List.mem_cons, List.not_mem_nil, or_false] at hreq
    rcases hreq with hreq | hreq <;> rw [hreq] <;> trivial
  refine ⟨c, hc, hachieved, (settings_kept_iff hreach haccepted 8 fun r hr => ?_).mpr
    (of_decide_eq_true hno)⟩
  have hrow : settingsRow 8 (World.init walksDb []) = some walksSettings := by decide +kernel
  rw [hrow] at hr
  rw [← Option.some.inj hr]
  decide

/-- Every request is answered. -/
def allAnswered (c : MetricsConfig V) : Bool :=
  c.threads.all fun t => match t.2 with
    | .done _ => true
    | _ => false

/-- **An achieved goal undone.**  The options are loaded, the goal is achieved, and the options
are saved with a goal that is not. -/
theorem achievement_reverted :
    ∃ c ∈ (metricsMachine utcDeps).run (Machine.boot (World.init walksDb [])) overlapping,
      allAnswered c = true ∧ lastSet .isAchieved 8 (World.init walksDb []) c.state.hist = some true ∧
      settingsValue .isAchieved 8 c.state.world = some false := by
  decide +kernel

end LakiraBackend.Metrics
