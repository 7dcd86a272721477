import LakiraBackend.Metrics.Percentages
import LakiraBackend.Metrics.SettingsSchema

/-!
# Settings that are consistent

An enabled goal has a type and a value, an enabled time frame has dates in order, an enabled
alert has a threshold.  What the schemas let through creates rows that are, and what a call saves
is again, of a row that is, but for one kind of update: it sends a null for what belongs to a
goal or an alert, and does not say whether that is enabled (`consistent_saved_iff`).

So the stored rows are consistent in every state of a run exactly when no such update is saved
on an enabled goal or alert (`settings_consistent_iff`).
-/

namespace LakiraBackend.Metrics

open LakiraBackend.Auth (Err)
open LakiraBackend.Concurrency LakiraBackend.JavaScript LakiraBackend.Postgres

variable {V : Type}

def MetricSettings.Consistent (r : MetricSettings V) : Prop :=
  (r.goalEnabled = true → r.goalType.isSome = true ∧ r.goalValue.isSome = true) ∧
  (r.timeFrameEnabled = true → ∃ start ∈ r.startDate, ∃ deadline ∈ r.deadlineDate,
    start.ms < deadline.ms) ∧
  (r.alertEnabled = true → r.alertThresholds.isSome = true)

instance (r : MetricSettings V) : Decidable r.Consistent :=
  inferInstanceAs (Decidable ((_ → _) ∧ (_ → _) ∧ (_ → _)))

/-- The update takes from the row what its goal or its alert has to have. -/
def SettingsUpdate.Clears (u : SettingsUpdate V) (r : MetricSettings V) : Prop :=
  (u.goalEnabled = none ∧ r.goalEnabled = true ∧
    (u.goalType = some none ∨ u.goalValue.any Option.isNone = true)) ∨
  u.alertEnabled = none ∧ r.alertEnabled = true ∧ u.alertThresholds = some none

instance (u : SettingsUpdate V) (r : MetricSettings V) : Decidable (u.Clears r) :=
  inferInstanceAs (Decidable (_ ∧ _ ∧ _ ∨ _ ∧ _ ∧ _))

def Request.Clears : Request V → MetricSettings V → Prop
  | .updateMetricSettings _ _ _ payload, r => payload.Clears r
  | _, _ => False

instance (q : Request V) (r : MetricSettings V) : Decidable (q.Clears r) := by
  unfold Request.Clears
  split <;> infer_instance

/-! ### The rows that are written -/

section

variable {u : SettingsUpdate V} {r : MetricSettings V}

theorem clears_enableTimeFrame : u.enableTimeFrame.Clears r ↔ u.Clears r := by
  unfold SettingsUpdate.enableTimeFrame
  split <;> rfl

/-- An update that says nothing of the time frame brings no dates. -/
theorem dates_of_enableTimeFrame (h : u.enableTimeFrame.timeFrameEnabled = none) :
    u.enableTimeFrame.startDate = none ∧ u.enableTimeFrame.deadlineDate = none := by
  unfold SettingsUpdate.enableTimeFrame at h ⊢
  split at h
  · cases h
  · rename_i hno
    rw [if_neg hno]
    simpa [h] using hno

/-- A value that belongs to a flag, in a merged row. -/
theorem isSome_merge_iff {α : Type} {on : Option Bool} {b : Bool} {x : Option (Option α)}
    {y : Option α} (hv : on = some true → x.join.isSome = true) (hr : b = true → y.isSome = true) :
    (on.getD b = true → (if on = some false then none else x.getD y).isSome = true) ↔
      ¬ (on = none ∧ b = true ∧ x = some none) := by
  rcases on with _ | _ | _
  · cases b with
    | false => simp
    | true =>
      have hy := hr rfl
      rcases x with _ | _ | a <;> simp [hy]
  · simp
  · have hx := hv rfl
    cases x with
    | none => simp at hx
    | some a =>
      rw [Option.join_some] at hx
      simp [hx]

/-- The goal of a merged row. -/
theorem goal_merge_iff (hv : u.Valid) (hr : r.Consistent) :
    ((u.merge (toEntity r)).goalEnabled = true →
      (u.merge (toEntity r)).goalType.isSome = true ∧
        (u.merge (toEntity r)).goalValue.isSome = true) ↔
    ¬ (u.goalEnabled = none ∧ r.goalEnabled = true ∧
      (u.goalType = some none ∨ u.goalValue.any Option.isNone = true)) := by
  have htype := isSome_merge_iff (fun h => (hv.goal h).1) fun h => (hr.1 h).1
  have hvalue := isSome_merge_iff (fun h => (hv.goal h).2) fun h => (hr.1 h).2
  have hany : u.goalValue.any Option.isNone = true ↔ u.goalValue = some none := by
    rcases u.goalValue with _ | _ | value <;> simp
  rw [hany, and_or_left, and_or_left, not_or, ← htype, ← hvalue, ← imp_and]
  rfl

/-- The alert of a merged row. -/
theorem alert_merge_iff (hv : u.Valid) (hr : r.Consistent) :
    ((u.merge (toEntity r)).alertEnabled = true →
      (u.merge (toEntity r)).alertThresholds.isSome = true) ↔
    ¬ (u.alertEnabled = none ∧ r.alertEnabled = true ∧ u.alertThresholds = some none) :=
  isSome_merge_iff hv.alert hr.2.2

/-- A row whose time frame is enabled has its dates. -/
theorem isSome_dates (hr : r.Consistent) (hon : r.timeFrameEnabled = true) :
    r.startDate.isSome = true ∧ r.deadlineDate.isSome = true := by
  obtain ⟨start, hstart, deadline, hdeadline, _⟩ := hr.2.1 hon
  exact ⟨Option.isSome_of_mem hstart, Option.isSome_of_mem hdeadline⟩

/-- The dates of a merged row. -/
theorem dates_merge (hv : u.enableTimeFrame.Valid) (hr : r.Consistent)
    (hon : (u.enableTimeFrame.merge (toEntity r)).timeFrameEnabled = true) :
    (u.enableTimeFrame.merge (toEntity r)).startDate.isSome = true ∧
      (u.enableTimeFrame.merge (toEntity r)).deadlineDate.isSome = true := by
  have hnone := dates_of_enableTimeFrame (u := u)
  have hstart := isSome_merge_iff (fun h => (hv.timeFrame h).1) fun h => (isSome_dates hr h).1
  have hdeadline := isSome_merge_iff (fun h => (hv.timeFrame h).2) fun h => (isSome_dates hr h).2
  refine ⟨hstart.mpr ?_ hon, hdeadline.mpr ?_ hon⟩
  · rintro ⟨hno, _, hs⟩
    rw [(hnone hno).1] at hs
    cases hs
  · rintro ⟨hno, _, hd⟩
    rw [(hnone hno).2] at hd
    cases hd

end

/-- The rows that are stored are those of the ids. -/
theorem forall_rows_iff {w : World V} : (∀ r ∈ w.store.db.settings.rows, r.Consistent) ↔
    ∀ x r, settingsRow x w = some r → r.Consistent := by
  constructor
  · exact fun h x r hr => h r (Table.findOne_id.mp hr).1
  · exact fun h r hr => h r.id r (Table.findOne_id.mpr ⟨hr, rfl⟩)

variable [LinearOrder V] [Zero V] {D : Deps V} {q : Request V} {r r' : MetricSettings V}
  {values : SettingsValues V} {now : Date}

/-- Dates that are validated are in order. -/
theorem ordered_of_validateSettings (hv : validateSettings values = .ok ())
    (hs : values.startDate.isSome = true) (hd : values.deadlineDate.isSome = true) :
    ∃ start ∈ values.startDate, ∃ deadline ∈ values.deadlineDate, start.ms < deadline.ms := by
  have hafter := isAfterStart_of_validateSettings hv
  obtain ⟨start, hs⟩ := Option.isSome_iff_exists.mp hs
  obtain ⟨deadline, hd⟩ := Option.isSome_iff_exists.mp hd
  rw [isAfterStart, hs, hd] at hafter
  exact ⟨start, hs, deadline, hd, of_decide_eq_true hafter⟩

/-- **A row that is created is consistent.** -/
theorem consistent_row {id metricId organizationId : Uuid} (hq : q.Accepted)
    (hc : q.creates D = some values) (hv : validateSettings values = .ok ()) :
    (values.row id metricId organizationId now).Consistent := by
  cases q with
  | createMetric input =>
    cases hc
    refine ⟨?_, ?_, ?_⟩ <;> intro h <;> cases h
  | createMetricSettings input =>
    cases hc
    obtain ⟨b, hb⟩ := hq
    obtain ⟨hgoal, htime⟩ := parse_ok hb
    have hon : ∀ {x : Option Bool}, x.getD false = true → x = some true := by
      intro x hx
      cases x with
      | none => cases hx
      | some on => rw [show on = true from hx]
    refine ⟨fun h => hgoal (hon h), fun h => ?_, fun h => ?_⟩
    · obtain ⟨start, hstart, deadline, hdeadline, _⟩ := htime (hon h)
      rw [Option.mem_def] at hstart hdeadline
      exact ordered_of_validateSettings hv (by simp [CreateSettingsInput.values, hstart])
        (by simp [CreateSettingsInput.values, hdeadline])
    · change Option.isSome (CreateSettingsInput.values D input).alertThresholds = true
      cases hn : input.alertThresholds with
      | some n => simp [CreateSettingsInput.values, hn]
      | none => simp [CreateSettingsInput.values, hn, hon h]
  | _ => cases hc

/-- **A row that is saved is consistent, if the one that was loaded is and is not cleared.** -/
theorem consistent_saved_iff (hr : r.Consistent) (hc : Changes D q r values)
    (hv : validateSettings values = .ok ()) : (values.apply now r').Consistent ↔ ¬ q.Clears r := by
  obtain ⟨s, hs, rfl⟩ := hc
  have hordered : s.startDate.isSome = true ∧ s.deadlineDate.isSome = true →
      ∃ start ∈ (toValues D s).startDate, ∃ deadline ∈ (toValues D s).deadlineDate,
        start.ms < deadline.ms := by
    rintro ⟨hstart, hdeadline⟩
    exact ordered_of_validateSettings hv (by simpa [toValues] using hstart)
      (by simpa [toValues] using hdeadline)
  have hrow := isSome_dates hr
  cases q with
  | updateMetricSettings u o x payload =>
    obtain ⟨hvalid, rfl⟩ := SettingsUpdate.updateDetails_ok hs
    rw [Request.Clears, ← clears_enableTimeFrame, SettingsUpdate.Clears, not_or,
      ← goal_merge_iff hvalid hr, ← alert_merge_iff hvalid hr]
    exact ⟨fun h => ⟨h.1, h.2.2⟩, fun h =>
      ⟨h.1, fun hon => hordered (dates_merge hvalid hr hon), h.2⟩⟩
  | updateDisplayOptions u o x patch =>
    cases hs
    exact iff_of_true ⟨hr.1, fun hon => hordered (hrow hon), hr.2.2⟩ nofun
  | updateGoalAchievement u o x =>
    cases hs
    exact iff_of_true ⟨hr.1, fun hon => hordered (hrow hon), hr.2.2⟩ nofun
  | _ =>
    cases hs
    exact iff_of_true ⟨hr.1, fun hon => hordered (hrow hon), hr.2.2⟩ nofun

/-! ### Runs -/

/-- The event saves a row that its update clears. -/
def Breaks (e : MetricsEvent V) (past : List (MetricsEvent V)) : Prop :=
  (savedSettings e).isSome = true ∧ ∃ r ∈ loadedSettings (own e.tid past), e.req.Clears r

instance (e : MetricsEvent V) (past : List (MetricsEvent V)) : Decidable (Breaks e past) :=
  inferInstanceAs (Decidable (_ ∧ ∃ _ ∈ _, _))

variable {w₀ : World V} {e : MetricsEvent V} {past : List (MetricsEvent V)} {x : Uuid}

/-- **One step keeps a row consistent, or breaks it.** -/
theorem consistent_step (hpend : w₀.store.pending = []) (hl : LegalSettings D w₀ (e :: past))
    (haccepted : ∀ e' ∈ e :: past, e'.req.Accepted)
    (hpast : ∀ before, before <:+ past → ∀ r, settingsRow x (worldAfter w₀ before) = some r →
      r.Consistent) :
    (∀ r, settingsRow x e.after = some r → r.Consistent) ↔
      ¬ ((∃ saved ∈ savedSettings e, saved.1 = x) ∧ Breaks e past) := by
  have hbefore := hpast past (List.suffix_refl past)
  rw [← hl.1] at hbefore
  have hstep := settingsRow_step hpend hl x
  generalize settingsRow x e.before = row at hstep hbefore
  generalize settingsRow x e.after = row' at hstep ⊢
  cases hstep with
  | @saved row values now hsaved =>
    obtain ⟨r, hload, hid, hchanges, hvalid⟩ := saved_settings hl hsaved
    have hr : r.Consistent := by
      obtain ⟨before, hs, hrow⟩ := loaded_settings hl.2.2 hload
      exact hpast before hs r (hid ▸ hrow)
    have hbreaks : (∃ saved ∈ savedSettings e, saved.1 = x) ∧ Breaks e past ↔ e.req.Clears r := by
      simp [Breaks, hsaved, hload]
    have hsaves : (values.apply now row).Consistent ↔ ¬ e.req.Clears r :=
      consistent_saved_iff hr hchanges hvalid
    rw [hbreaks, ← hsaves]
    constructor
    · exact fun h => h _ rfl
    · intro h r' hr'
      rw [← Option.some.inj hr']
      exact h
  | kept hno =>
    refine iff_of_true hbefore ?_
    rintro ⟨⟨⟨y, values⟩, hsaved, rfl⟩, _⟩
    exact hno values hsaved
  | created hno hr =>
    refine iff_of_true ?_ fun ho => not_saves hno ho.1
    intro r' hr'
    rw [← Option.some.inj hr']
    obtain ⟨e', he', values, hcreates, hvalid, id, metricId, organizationId, now, rfl⟩ := hr
    exact consistent_row (haccepted e' he') hcreates hvalid
  | deleted hno => exact iff_of_true (fun r' hr' => nomatch hr') fun ho => not_saves hno ho.1

/-- **The settings that are stored are consistent** in every state of a run whose requests the
schemas have let through, exactly when no save breaks them. -/
theorem settings_consistent_iff {d : Db V} {cache : List (Entry V)} {c : MetricsConfig V}
    (hd : ∀ r ∈ d.settings.rows, r.Consistent)
    (h : (metricsMachine D).Reachable (StartsFrom d cache) c)
    (haccepted : ∀ e ∈ c.state.hist, e.req.Accepted) :
    (∀ hist, hist <:+ c.state.hist →
      ∀ r ∈ (worldAfter (World.init d cache) hist).store.db.settings.rows, r.Consistent) ↔
    Throughout (fun e past => ¬ Breaks e past) c.state.hist := by
  obtain ⟨w₀, rfl, _, hl⟩ :=
    Contract.legal_of_reachable (M := metricsMachine D) (fun _ q s _ => meets_handle q s) h
  have hstart := (forall_rows_iff (w := World.init d cache)).mp hd
  simp only [forall_rows_iff]
  refine throughout_iff hstart fun e past hs hpast => ?_
  have hstep : ∀ x, (∀ r, settingsRow x e.after = some r → r.Consistent) ↔
      ¬ ((∃ saved ∈ savedSettings e, saved.1 = x) ∧ Breaks e past) :=
    fun x => consistent_step rfl (hl.suffix hs) (fun e' he' => haccepted e' (hs.subset he'))
      fun before hs => hpast before hs x
  constructor
  · intro hrows hbreaks
    obtain ⟨⟨x, values⟩, hsaved⟩ := Option.isSome_iff_exists.mp hbreaks.1
    exact (hstep x).mp (hrows x) ⟨⟨_, hsaved, rfl⟩, hbreaks⟩
  · exact fun hno x => (hstep x).mpr fun hbreaks => hno hbreaks.2

/-! ### Two runs -/

/-- A thread makes calls, and whatever is drawn is a seven. -/
def calls (i n : Nat) : List (Label Input (Request (Fin 100))) :=
  List.replicate n (.step i ⟨7, Utc.epoch, 0⟩)

def createWalks : Request (Fin 100) :=
  .createMetric ⟨1, 2, none, none, "Walks", none, "km", true⟩

/-- A body in which nothing is sent. -/
def emptyBody : SettingsBody (Fin 100) :=
  ⟨none, none, none, none, none, none, none, none, none, none, []⟩

def goalBody : SettingsBody (Fin 100) :=
  { emptyBody with
    goalEnabled := some true
    goalType := some (some .cumulative)
    goalValue := some (some 5) }

def clearBody : SettingsBody (Fin 100) := { emptyBody with goalType := some none }

def setGoal : Request (Fin 100) :=
  .updateMetricSettings 1 2 (.ofUuid 7)
    ⟨some true, some (some .cumulative), some (some 5), none, none, none, none, none, none⟩

def clearType : Request (Fin 100) :=
  .updateMetricSettings 1 2 (.ofUuid 7) ⟨none, some none, none, none, none, none, none, none, none⟩

theorem accepted_of_mem {q : Request (Fin 100)} (h : q ∈ [createWalks, setGoal, clearType]) :
    q.Accepted := by
  simp only [List.mem_cons, List.not_mem_nil, or_false] at h
  rcases h with rfl | rfl | rfl
  · trivial
  · exact ⟨goalBody, rfl⟩
  · exact ⟨clearBody, rfl⟩

/-- A goal is set on the default row. -/
def setting : List (Label Input (Request (Fin 100))) :=
  [.spawn createWalks] ++ calls 0 10 ++ [.spawn setGoal] ++ calls 1 5

/-- What is set on the default row is consistent. -/
theorem settings_consistent_goal :
    ∃ c ∈ (metricsMachine utcDeps).run (Machine.boot (World.init Db.empty [])) setting,
      ∀ hist, hist <:+ c.state.hist →
        ∀ r ∈ (worldAfter (World.init Db.empty []) hist).store.db.settings.rows, r.Consistent := by
  have hrun : ((metricsMachine utcDeps).run (Machine.boot (World.init Db.empty [])) setting).map
      (fun c => decide (Throughout (fun e past => ¬ Breaks e past) c.state.hist)) = some true := by
    decide +kernel
  obtain ⟨c, hc, hno⟩ := Option.map_eq_some_iff.mp hrun
  have hstart : StartsFrom Db.empty [] (World.init Db.empty [] : World (Fin 100)) := rfl
  have hreach := Machine.reachable_of_run hstart hc
  have haccepted : ∀ e ∈ c.state.hist, e.req.Accepted := by
    intro e he
    have hreq : e.req ∈ [createWalks, setGoal] := Machine.reqs_of_run hc e he
    exact accepted_of_mem (List.mem_append_left [clearType] hreq)
  exact ⟨c, hc, (settings_consistent_iff (fun _ h => absurd h List.not_mem_nil) hreach
    haccepted).mpr (of_decide_eq_true hno)⟩

/-- A goal is set on the default row, and its type is cleared. -/
def clearing : List (Label Input (Request (Fin 100))) :=
  [.spawn createWalks] ++ calls 0 10 ++ [.spawn setGoal] ++ calls 1 5 ++
    [.spawn clearType] ++ calls 2 5

/-- **An enabled goal without a type.** -/
theorem goal_cleared :
    (∀ q ∈ [createWalks, setGoal, clearType], q.Accepted) ∧
    ∃ c ∈ (metricsMachine utcDeps).run (Machine.boot (World.init Db.empty [])) clearing,
      ∃ r ∈ c.state.world.store.db.settings.rows, r.goalEnabled = true ∧ r.goalType = none := by
  exact ⟨fun q => accepted_of_mem, by decide +kernel⟩

end LakiraBackend.Metrics
