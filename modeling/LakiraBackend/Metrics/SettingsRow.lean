import LakiraBackend.Concurrency.History
import LakiraBackend.Metrics.Footprints

/-!
# What the calls make of a settings row

`UpdateMetricSettings`, `UpdateDisplayOptions` and `UpdateGoalAchievement` load a row of settings,
change some of its fields, and save all of them.  Every statement on the settings is made with
values that come from its request, and from the row that its call has loaded (`settingsPre`); so
in a run a row is created, saved or deleted, and nothing else happens to it.
-/

namespace LakiraBackend.Metrics

open LakiraBackend.Auth (Err)
open LakiraBackend.Concurrency LakiraBackend.JavaScript LakiraBackend.Postgres

variable {V : Type}

/-! ### An update of the details -/

/-- What `updateDetails` asks of an update. -/
structure SettingsUpdate.Valid (u : SettingsUpdate V) : Prop where
  goal : u.goalEnabled = some true → u.goalType.join.isSome = true ∧ u.goalValue.join.isSome = true
  timeFrame : u.timeFrameEnabled = some true →
    u.startDate.join.isSome = true ∧ u.deadlineDate.join.isSome = true
  alert : u.alertEnabled = some true → u.alertThresholds.join.isSome = true

namespace SettingsUpdate

variable {u u' : SettingsUpdate V} {s s' : MetricSettingsEntity V}

theorem checkGoal_ok (h : u.checkGoal = .ok u') :
    (u.goalEnabled = some true → u.goalType.join.isSome = true ∧ u.goalValue.join.isSome = true) ∧
      u' = { u with
        goalType := if u.goalEnabled = some false then some none else u.goalType
        goalValue := if u.goalEnabled = some false then some none else u.goalValue } := by
  unfold checkGoal at h
  split at h
  · rename_i hg
    cases h
    simp [hg]
  · rename_i hg
    have hne : ¬ u.goalEnabled = some false := by rw [hg]; simp
    split at h
    · cases h
    · rename_i hsome
      cases h
      simp only [Bool.or_eq_true, not_or, Bool.not_eq_true, Option.isNone_eq_false_iff] at hsome
      exact ⟨fun _ => hsome, by rw [if_neg hne, if_neg hne]⟩
  · rename_i hg
    have hne : ¬ u.goalEnabled = some false := by rw [hg]; simp
    have hno : ¬ u.goalEnabled = some true := by rw [hg]; simp
    cases h
    exact ⟨fun h => absurd h hno, by rw [if_neg hne, if_neg hne]⟩

theorem checkTimeFrame_ok (h : u.checkTimeFrame = .ok u') :
    (u.timeFrameEnabled = some true →
        u.startDate.join.isSome = true ∧ u.deadlineDate.join.isSome = true) ∧
      u' = { u with
        startDate := if u.timeFrameEnabled = some false then some none else u.startDate
        deadlineDate := if u.timeFrameEnabled = some false then some none else u.deadlineDate } := by
  unfold checkTimeFrame at h
  split at h
  · rename_i hg
    cases h
    simp [hg]
  · rename_i hg
    have hne : ¬ u.timeFrameEnabled = some false := by rw [hg]; simp
    split at h
    · rename_i start deadline hstart hdeadline
      split at h
      · cases h
      · cases h
        exact ⟨fun _ => by simp [hstart, hdeadline], by rw [if_neg hne, if_neg hne]⟩
    · cases h
  · rename_i hg
    have hne : ¬ u.timeFrameEnabled = some false := by rw [hg]; simp
    have hno : ¬ u.timeFrameEnabled = some true := by rw [hg]; simp
    cases h
    exact ⟨fun h => absurd h hno, by rw [if_neg hne, if_neg hne]⟩

theorem checkAlert_ok (h : u.checkAlert = .ok u') :
    (u.alertEnabled = some true → u.alertThresholds.join.isSome = true) ∧
      u' = { u with
        alertThresholds := if u.alertEnabled = some false then some none else u.alertThresholds } := by
  unfold checkAlert at h
  split at h
  · rename_i hg
    cases h
    simp [hg]
  · rename_i hg
    have hne : ¬ u.alertEnabled = some false := by rw [hg]; simp
    split at h
    · cases h
    · rename_i hsome
      cases h
      rw [Bool.not_eq_true, Option.isNone_eq_false_iff] at hsome
      exact ⟨fun _ => hsome, by rw [if_neg hne]⟩
  · rename_i hg
    have hne : ¬ u.alertEnabled = some false := by rw [hg]; simp
    have hno : ¬ u.alertEnabled = some true := by rw [hg]; simp
    cases h
    exact ⟨fun h => absurd h hno, by rw [if_neg hne]⟩

/-- The entity with an update: what is disabled is cleared. -/
def merge (u : SettingsUpdate V) (s : MetricSettingsEntity V) : MetricSettingsEntity V :=
  { s with
    goalEnabled := u.goalEnabled.getD s.goalEnabled
    goalType := if u.goalEnabled = some false then none else u.goalType.getD s.goalType
    goalValue := if u.goalEnabled = some false then none else u.goalValue.getD s.goalValue
    timeFrameEnabled := u.timeFrameEnabled.getD s.timeFrameEnabled
    startDate := if u.timeFrameEnabled = some false then none else u.startDate.getD s.startDate
    deadlineDate :=
      if u.timeFrameEnabled = some false then none else u.deadlineDate.getD s.deadlineDate
    alertEnabled := u.alertEnabled.getD s.alertEnabled
    alertThresholds :=
      if u.alertEnabled = some false then none else u.alertThresholds.getD s.alertThresholds
    displayOptions := u.displayOptions.getD s.displayOptions }

/-- **An update that is valid is merged.** -/
theorem updateDetails_ok (h : u.updateDetails s = .ok s') : u.Valid ∧ s' = u.merge s := by
  unfold updateDetails at h
  obtain ⟨u₁, h₁, h⟩ := of_bind_ok h
  obtain ⟨u₂, h₂, h⟩ := of_bind_ok h
  obtain ⟨u₃, h₃, h⟩ := of_bind_ok h
  obtain ⟨hgoal, rfl⟩ := checkGoal_ok h₁
  obtain ⟨htime, rfl⟩ := checkTimeFrame_ok h₂
  obtain ⟨halert, rfl⟩ := checkAlert_ok h₃
  refine ⟨⟨hgoal, htime, halert⟩, ?_⟩
  cases h
  unfold merge
  congr 1 <;> dsimp only <;> split <;> rfl

end SettingsUpdate

/-! ### What a statement is made with -/

abbrev MetricsEvent (V : Type) : Type := Event (Op V) Op.Answer Err (World V) (Request V)

/-- What a request makes of the settings it has loaded. -/
def Request.change : Request V → MetricSettingsEntity V → Except Err (MetricSettingsEntity V)
  | .updateMetricSettings _ _ _ payload, s => payload.enableTimeFrame.updateDetails s
  | .updateDisplayOptions _ _ _ patch, s => .ok (Metrics.updateDisplayOptions patch s)
  | .updateGoalAchievement _ _ _, s => .ok (markAchieved s)
  | _, s => .ok s

/-- The values a request creates a row with. -/
def Request.creates (D : Deps V) : Request V → Option (SettingsValues V)
  | .createMetric _ => some defaultSettings
  | .createMetricSettings input => some (input.values D)
  | _ => none

/-- A statement on another table leaves the settings alone. -/
theorem onSettings_of_table {st : Statement V} {id : Uuid} {now : Date} (h : st.table ≠ .settings)
    (t : Table (MetricSettings.id : MetricSettings V → Uuid)) :
    (st.write id now).onSettings t = t := by
  cases st <;> first | rfl | exact absurd rfl h

/-- The row the event loads, if it loads one. -/
def loads (e : MetricsEvent V) : Option (MetricSettings V) :=
  match e.act with
  | .call (.query false (.findOwnedSettings _ _ _)) (.ok r) => r
  | _ => none

/-- The row a request has loaded last. -/
def loadedSettings (l : List (MetricsEvent V)) : Option (MetricSettings V) := l.findSome? loads

/-- The row the event saves, if there is one, and the values. -/
def savedSettings (e : MetricsEvent V) : Option (Uuid × SettingsValues V) :=
  match e.act with
  | .call (.statement _ (.updateSettings x _ values)) (.ok n) =>
    if (n : Nat) = 0 then none else some (x, values)
  | _ => none

/-- The request has saved the row of the id. -/
def Saved (q : Request V) (x : Uuid) (l : List (MetricsEvent V)) : Prop :=
  ∃ e ∈ l, e.req = q ∧ ∃ values, savedSettings e = some (x, values)

/-- The values are those of the row that is loaded, changed as the request has it. -/
def Changes (D : Deps V) (q : Request V) (r : MetricSettings V) (values : SettingsValues V) : Prop :=
  ∃ s, q.change (toEntity r) = .ok s ∧ values = toValues D s

variable [LinearOrder V] [Zero V]

/-- A row is created with the values of the request, or saved with what the request makes of the
row it has loaded last. -/
def settingsPre (D : Deps V) (i : Nat) (q : Request V) (op : Op V) (s : MetricsState V) : Prop :=
  match op with
  | .statement _ (.createSettings data) =>
    q.creates D = some data.values ∧ validateSettings data.values = .ok ()
  | .statement tx (.updateSettings x _ values) => tx = false ∧ ∃ r,
      loadedSettings (own i s.hist) = some r ∧ r.id = x ∧ Changes D q r values ∧
        validateSettings values = .ok ()
  | .statement tx (.deleteSettings _ _) => tx = false
  | _ => True

abbrev settingsGuard (D : Deps V) (init : World V → Prop) : Contract (metricsMachine D) :=
  Contract.guarded (metricsMachine D) init (settingsPre D)

variable {D : Deps V} {init : World V → Prop} {i : Nat} {q : Request V} {s : MetricsState V}
  {α : Type} {u o x : Uuid}

/-! ### The use cases meet the contract -/

/-- A part of a use case that does not touch the settings. -/
theorem meets_noSettings {Ts : List TableName} {p : Async V α} (hp : Uses Ts p)
    (hT : .settings ∉ Ts) : (settingsGuard D init).Meets i q p := by
  have hpre : ∀ op (t : MetricsState V), Within Ts op → settingsPre D i q op t := by
    intro op t hop
    cases op with
    | statement tx st =>
      cases st with
      | createSettings data => exact absurd hop hT
      | updateSettings x o values => exact absurd hop hT
      | deleteSettings x o => exact absurd hop hT
      | _ => trivial
    | _ => trivial
  exact fun s => Contract.wp_of_calls (Contract.Stable.true i) (fun op t hop _ _ => hpre op t hop)
    (fun _ _ _ _ _ _ _ _ _ => trivial) hp trivial

theorem meets_free {p : Async V α} (hp : Uses [] p) : (settingsGuard D init).Meets i q p :=
  meets_noSettings hp List.not_mem_nil

theorem meets_createSettings {tx : Bool} {data : CreateSettingsData V}
    (h : q.creates D = some data.values) :
    (settingsGuard D init).Meets i q (createSettings tx data) := by
  unfold createSettings
  cases hvalid : validateSettings data.values with
  | error e => exact .fail
  | ok a => exact .bind .done fun _ => .await fun _ => ⟨h, hvalid⟩

theorem meets_createMetric {input : CreateMetricInput} :
    (settingsGuard D init).Meets i (.createMetric input) (createMetric D input) := by
  have hinsert : (settingsGuard D init).Meets i (.createMetric input)
      (insertMetric (V := V) input.data) := by
    have huses : Uses [.metrics] (insertMetric (V := V) input.data) := by
      refine .bind (uses_statement (by simp [Statement.table])) fun id => .bind uses_query
        fun m => ?_
      cases m <;> trivial
    exact meets_noSettings huses (by simp)
  refine .bind (meets_free uses_checkMetricName) fun _ => .bind (meets_free uses_checkCategory)
    fun _ => .bind (meets_free uses_checkOriginalMetric) fun _ => .handle ?_ fun e =>
      meets_free (.bind (.await trivial) fun _ => trivial)
  refine .bind (meets_free (.await trivial)) fun _ => .bind ?_ fun _ =>
    meets_free (.bind (.await trivial) fun _ => trivial)
  exact .bind hinsert fun m => .bind (meets_createSettings rfl) fun _ =>
    meets_free (.bind uses_invalidateMetrics fun _ => trivial)

theorem meets_createMetricSettings {input : CreateSettingsInput V} :
    (settingsGuard D init).Meets i (.createMetricSettings input) (createMetricSettings D input) := by
  refine .bind (meets_free uses_ensureMetricOwnership) fun _ => .bind (meets_free uses_query)
    fun _ => .bind (meets_free uses_ensure) fun _ => .bind ?_ fun _ =>
      meets_free (.bind uses_invalidateSettings fun _ => trivial)
  refine .handle (.bind (meets_createSettings rfl) fun _ => meets_free uses_find) fun e => ?_
  split
  · exact .fail
  · exact .fail

/-- The settings are loaded, those of the id. -/
theorem wp_findSettingsById : (settingsGuard D init).wp i q (findSettingsById u o x)
    (fun r t => loadedSettings (own i t.hist) = some r ∧ r.id = x) (fun _ _ => True) s := by
  refine Contract.wp_seq (Q := fun found t => ∀ r, found = some r →
    loadedSettings (own i t.hist) = some r ∧ r.id = x) (F := fun _ _ => True)
      (Contract.wp_await (Contract.Stable.true i) trivial (fun _ _ _ => trivial) ?_
        fun _ _ _ _ _ _ _ => trivial) (fun _ _ _ => trivial) fun found t ht => ?_
  · rintro t inp found w _ _ he r rfl
    have hexec : exec D i inp (.query false (.findOwnedSettings u o x)) t.world =
        some (.ok (some r), w) := he
    obtain ⟨hfound, _⟩ := exec_query hexec
    obtain ⟨_, hp⟩ := Table.of_findOne hfound.symm
    rw [own_push]
    refine ⟨rfl, ?_⟩
    simp only [Bool.and_eq_true, decide_eq_true_eq] at hp
    exact hp.1.1
  · cases found with
    | none => trivial
    | some r => exact ht r rfl

/-- What has been done stays done. -/
theorem wp_saved {p : Async V α} (hp : Uses [] p) (h : Saved q x (own i s.hist)) :
    (settingsGuard D init).wp i q p (fun _ t => Saved q x (own i t.hist)) (fun _ _ => True) s := by
  refine Contract.wp_mono (fun _ _ h => h) (fun _ _ _ => trivial)
    (Contract.wp_of_calls (Contract.Stable.own i (Saved q x)) (fun op t hop _ _ => ?_)
      (fun op t inp r w _ _ ht _ => ?_) hp h)
  · cases op with
    | statement tx st => exact absurd hop List.not_mem_nil
    | _ => trivial
  · obtain ⟨e, he, hsaved⟩ := ht
    change Saved q x (own i (t.push i q (.call op r) w).hist)
    rw [own_push]
    exact ⟨e, List.mem_cons_of_mem _ he, hsaved⟩

/-- **What is saved is what was loaded, changed**, and a change that completes has saved it. -/
theorem wp_changeSettings {id : IdText} :
    (settingsGuard D init).wp i q (changeSettings D u o id q.change)
      (fun _ t => Saved q id.id (own i t.hist)) (fun _ _ => True) s := by
  refine Contract.wp_seq wp_findSettingsById (fun _ _ h => h) fun r t ⟨ht, hid⟩ => ?_
  refine Contract.wp_seq (wp_liftExcept (Q := fun changed t =>
    q.change (toEntity r) = .ok changed ∧ loadedSettings (own i t.hist) = some r)
      fun changed h => ⟨h, ht⟩) (fun _ _ h => h) fun changed t ⟨hchange, ht⟩ => ?_
  refine Contract.wp_seq (Q := fun _ t => Saved q id.id (own i t.hist)) (F := fun _ _ => True) ?_
    (fun _ _ h => h) fun saved t ht => wp_saved (.bind uses_invalidateSettings fun _ => .done) ht
  refine Contract.wp_seq (wp_liftExcept (Q := fun _ t =>
    validateSettings (toValues D changed) = .ok () ∧ loadedSettings (own i t.hist) = some r)
      fun _ h => ⟨h, ht⟩) (fun _ _ h => h) fun _ t ⟨hvalid, ht⟩ => ?_
  refine Contract.wp_seq (Contract.wp_call rfl fun t _ hown => ?_) (fun _ _ _ => trivial)
    fun n t hown => ?_
  · rw [← hown] at ht
    exact ⟨rfl, r, ht, rfl, ⟨changed, hchange, rfl⟩, hvalid⟩
  · obtain ⟨w, w', hown⟩ := hown
    by_cases hn : (n : Nat) = 0
    · rw [hn]
      trivial
    · have hsaved : Saved q id.id (own i t.hist) :=
        ⟨_, by rw [hown]; exact List.mem_cons_self, rfl, toValues D changed, by
          simp only [savedSettings, hn, hid]
          rfl⟩
      exact wp_saved (.bind uses_ensure fun _ => uses_find) hsaved

theorem meets_changeSettings {id : IdText} :
    (settingsGuard D init).Meets i q (changeSettings D u o id q.change) :=
  fun _ => Contract.wp_mono (fun _ _ _ => trivial) (fun _ _ h => h) wp_changeSettings

theorem meets_deleteMetricSettings {id : IdText} :
    (settingsGuard D init).Meets i q (deleteMetricSettings D u o id) :=
  .bind (meets_free uses_findSettingsById) fun _ => .bind (.await fun _ => rfl) fun _ =>
    meets_free uses_invalidateSettings

theorem meets_handle (q : Request V) : (settingsGuard D init).Meets i q (handle D q) := by
  cases q with
  | createMetric input => exact .bind meets_createMetric fun _ => .done
  | createMetricSettings input => exact .bind meets_createMetricSettings fun _ => .done
  | updateMetricSettings u o id payload => exact .bind meets_changeSettings fun _ => .done
  | updateDisplayOptions u o id patch => exact .bind meets_changeSettings fun _ => .done
  | updateGoalAchievement u o id => exact .bind meets_changeSettings fun _ => .done
  | deleteMetricSettings u o id => exact .bind meets_deleteMetricSettings fun _ => .done
  | _ => exact meets_noSettings (uses_handle _) (by simp [Request.footprint])

/-! ### What happens to a row -/

def settingsRow (x : Uuid) (w : World V) : Option (MetricSettings V) :=
  w.store.db.settings.findOne fun s => s.id = x

/-- The row has the valid values that a request of the history creates it with. -/
def Created (D : Deps V) (hist : List (MetricsEvent V)) (r : MetricSettings V) : Prop :=
  ∃ e ∈ hist, ∃ values, e.req.creates D = some values ∧ validateSettings values = .ok () ∧
    ∃ id metricId organizationId now, r = values.row id metricId organizationId now

theorem Created.cons {hist : List (MetricsEvent V)} {r : MetricSettings V} (e : MetricsEvent V)
    (h : Created D hist r) : Created D (e :: hist) r := by
  obtain ⟨e', he, h⟩ := h
  exact ⟨e', List.mem_cons_of_mem e he, h⟩

/-- A write leaves the settings alone, or inserts a row that a request creates. -/
def Creates (D : Deps V) (hist : List (MetricsEvent V)) (w : Write V) : Prop :=
  (∀ t, w.onSettings t = t) ∨ ∃ r, w = .insertSettings r ∧ Created D hist r

/-- What an event does to the row of an id. -/
inductive RowStep (D : Deps V) (x : Uuid) (e : MetricsEvent V) (past : List (MetricsEvent V)) :
    Option (MetricSettings V) → Option (MetricSettings V) → Prop
  | saved {r : MetricSettings V} {values : SettingsValues V} {now : Date} :
      savedSettings e = some (x, values) → RowStep D x e past (some r) (some (values.apply now r))
  | kept {row : Option (MetricSettings V)} : (∀ values, savedSettings e ≠ some (x, values)) →
      RowStep D x e past row row
  | created {r : MetricSettings V} : savedSettings e = none → Created D (e :: past) r →
      RowStep D x e past none (some r)
  | deleted {r : MetricSettings V} : savedSettings e = none → RowStep D x e past (some r) none

abbrev LegalSettings (D : Deps V) (w₀ : World V) (hist : List (MetricsEvent V)) : Prop :=
  Legal (metricsMachine D) (settingsPre D) w₀ hist

variable {w₀ : World V} {e : MetricsEvent V} {hist past : List (MetricsEvent V)}

omit [LinearOrder V] [Zero V] in
theorem not_saves (h : savedSettings e = none) : ¬ ∃ saved ∈ savedSettings e, saved.1 = x := by
  rintro ⟨saved, hsaved, _⟩
  rw [h] at hsaved
  cases hsaved

/-- What an event does to the store. -/
theorem store_of_obeys (h : Obeys (metricsMachine D) (settingsPre D) e past) :
    (savedSettings e = none ∧ (e.after.store.db = e.before.store.db ∧
        (∀ p ∈ e.after.store.pending, p ∈ e.before.store.pending) ∨
      e.after.store = e.before.store.commit (schema D) e.tid)) ∨
    ∃ tx st, ∃ inp : Input, e.act = .call (.statement tx st)
        (.ok (st.answer inp.id inp.now (e.before.store.base (schema D) e.tid tx))) ∧
      settingsPre D e.tid e.req (.statement tx st) ⟨e.before, past⟩ ∧
      e.after.store = e.before.store.written (schema D) e.tid tx (st.write inp.id inp.now) := by
  obtain ⟨tid, req, act, before, after⟩ := e
  cases act with
  | crash =>
    have ha : after = { before with store := before.store.drop tid } := h
    rw [ha]
    exact .inl ⟨rfl, .inl ⟨rfl, fun p hp => List.mem_of_mem_filter hp⟩⟩
  | call op r =>
    obtain ⟨hpre, inp, he⟩ := h
    have he' : exec D tid inp op before = some (r, after) := he
    have hsame : after.store = before.store →
        after.store.db = before.store.db ∧ ∀ p ∈ after.store.pending, p ∈ before.store.pending := by
      intro hs
      rw [hs]
      exact ⟨rfl, fun p hp => hp⟩
    cases op with
    | statement tx st =>
      rcases exec_statement he' with ⟨err, rfl, rfl⟩ | ⟨rfl, hs, _⟩
      · exact .inl ⟨by cases st <;> rfl, .inl (hsame rfl)⟩
      · exact .inr ⟨tx, st, inp, rfl, hpre, hs⟩
    | _ =>
      rcases exec_store he' with hs | ⟨tx, st, hop, _⟩ | hs | hs
      · exact .inl ⟨rfl, .inl (hsame hs)⟩
      · cases hop
      · exact .inl ⟨rfl, .inr hs⟩
      · refine .inl ⟨rfl, .inl ?_⟩
        rw [hs]
        exact ⟨rfl, fun p hp => List.mem_of_mem_filter hp⟩

/-- **What is not committed creates rows, and does nothing else to the settings.** -/
theorem pending_creates (hpend : w₀.store.pending = []) (h : LegalSettings D w₀ hist) :
    ∀ p ∈ (worldAfter w₀ hist).store.pending, Creates D hist p.2 := by
  refine Legal.invariant (P := fun hist w => ∀ p ∈ w.store.pending, Creates D hist p.2) ?_ ?_ h
  · rw [hpend]
    exact fun p hp => nomatch hp
  intro e past hl hpast p hp
  have hold : p ∈ e.before.store.pending → Creates D (e :: past) p.2 := by
    intro hp
    rcases hpast p hp with hsame | ⟨r, hw, hr⟩
    · exact .inl hsame
    · exact .inr ⟨r, hw, hr.cons e⟩
  rcases store_of_obeys hl.2.1 with ⟨_, ⟨_, hsub⟩ | hs⟩ | ⟨tx, st, inp, _, hpre, hs⟩
  · exact hold (hsub p hp)
  · rw [hs] at hp
    exact hold (List.mem_of_mem_filter hp)
  · rw [hs] at hp
    cases tx with
    | false => exact hold hp
    | true =>
      rcases List.mem_append.mp hp with hp | hp
      · exact hold hp
      rw [List.mem_singleton] at hp
      subst hp
      cases st with
      | createSettings data =>
        exact .inr ⟨_, rfl, e, List.mem_cons_self, _, hpre.1, hpre.2, _, _, _, _, rfl⟩
      | updateSettings y o values => cases hpre.1
      | deleteSettings y o => cases hpre
      | _ => exact .inl fun t => rfl

/-- A row is there before, or it is created. -/
theorem findOne_foldl {ws : List (Write V)} (h : ∀ w ∈ ws, Creates D hist w) (d : Db V) :
    (ws.foldl (fun d w => (schema D).apply w d) d).settings.findOne (fun s => decide (s.id = x)) =
        d.settings.findOne (fun s => decide (s.id = x)) ∨
      d.settings.findOne (fun s => decide (s.id = x)) = none ∧ ∃ r,
        (ws.foldl (fun d w => (schema D).apply w d) d).settings.findOne
          (fun s => decide (s.id = x)) = some r ∧ Created D hist r := by
  induction ws generalizing d with
  | nil => exact .inl rfl
  | cons w ws ih =>
    have hrest := ih (fun w' hw' => h w' (List.mem_cons_of_mem w hw')) ((schema D).apply w d)
    have hone : ((schema D).apply w d).settings = w.onSettings d.settings := rfl
    rw [List.foldl_cons]
    rcases h w List.mem_cons_self with hsame | ⟨r, rfl, hr⟩
    · rw [hone, hsame] at hrest
      exact hrest
    · have hfind := Table.findOne_id_insert (t := d.settings) (r := r) (x := x)
      rw [hone, Write.onSettings, hfind] at hrest
      cases hd : d.settings.findOne fun s => decide (s.id = x) with
      | some r' =>
        rw [hd, Option.some_or] at hrest
        exact hrest
      | none =>
        rw [hd, Option.none_or] at hrest
        split at hrest
        · rcases hrest with hrest | ⟨hno, _⟩
          · exact .inr ⟨rfl, r, hrest, hr⟩
          · cases hno
        · exact hrest

/-- An UPDATE of the settings saves the row of its id, or nothing. -/
theorem rowStep_update {y : Uuid} {values : SettingsValues V} {inp : Input}
    (ha : e.act = .call (.statement false (.updateSettings y o values))
      (.ok (Statement.answer inp.id inp.now (.updateSettings y o values)
        (e.before.store.base (schema D) e.tid false))))
    (hs : e.after.store = e.before.store.written (schema D) e.tid false
      (Statement.write inp.id inp.now (.updateSettings y o values))) :
    RowStep D x e past (settingsRow x e.before) (settingsRow x e.after) := by
  let t := e.before.store.db.settings
  let p : MetricSettings V → Bool := fun s => s.id = y && s.organizationId = o
  have hafter : settingsRow x e.after =
      (settingsRow x e.before).map fun r => if p r then values.apply inp.now r else r := by
    rw [settingsRow, hs]
    exact Table.findOne_id_updateWhere (f := values.apply inp.now) fun _ => rfl
  have hsaved : savedSettings e = if t.count p = 0 then none else some (y, values) := by
    unfold savedSettings
    rw [ha]
    rfl
  have hid : ∀ r, p r = true → r.id = y := by
    intro r hp
    simp only [p, Bool.and_eq_true, decide_eq_true_eq] at hp
    exact hp.1
  have hsame : (∀ r, settingsRow x e.before = some r → ¬ p r = true) →
      settingsRow x e.after = settingsRow x e.before := by
    intro hno
    rw [hafter]
    cases hr : settingsRow x e.before with
    | none => rfl
    | some r => rw [Option.map_some, if_neg (hno r hr)]
  by_cases hcount : t.count p = 0
  · rw [if_pos hcount] at hsaved
    rw [hsame fun r hr hp => ?_]
    · exact .kept fun v hv => by rw [hsaved] at hv; cases hv
    · have hpos : 0 < t.count p := Table.count_pos.mpr ⟨r, (Table.findOne_id.mp hr).1, hp⟩
      exact Nat.ne_of_gt hpos hcount
  · rw [if_neg hcount] at hsaved
    obtain ⟨r, hr, hp⟩ := Table.count_pos.mp (Nat.pos_of_ne_zero hcount)
    by_cases hx : y = x
    · subst hx
      have hrow : settingsRow y e.before = some r := Table.findOne_id.mpr ⟨hr, hid r hp⟩
      rw [hafter, hrow, Option.map_some, if_pos hp]
      exact .saved hsaved
    · rw [hsame fun r' hr' hp' => hx ((hid r' hp').symm.trans (Table.findOne_id.mp hr').2)]
      refine .kept fun v hv => ?_
      rw [hsaved] at hv
      exact hx (Prod.mk.inj (Option.some.inj hv)).1

theorem rowStep_kept (h : savedSettings e = none) (row : Option (MetricSettings V)) :
    RowStep D x e past row row :=
  .kept fun values hv => by rw [h] at hv; cases hv

theorem rowStep_same (hno : savedSettings e = none)
    (hs : e.after.store.db.settings = e.before.store.db.settings) :
    RowStep D x e past (settingsRow x e.before) (settingsRow x e.after) := by
  have hrow : settingsRow x e.after = settingsRow x e.before := by rw [settingsRow, hs]; rfl
  rw [hrow]
  exact rowStep_kept hno _

/-- A commit brings the rows that its session has created. -/
theorem rowStep_commit (hno : savedSettings e = none)
    (hpast : ∀ p ∈ e.before.store.pending, Creates D past p.2)
    (hs : e.after.store = e.before.store.commit (schema D) e.tid) :
    RowStep D x e past (settingsRow x e.before) (settingsRow x e.after) := by
  have hcreates : ∀ w ∈ e.before.store.pendingOf e.tid, Creates D past w := by
    intro w hw
    exact hpast _ (e.before.store.mem_pendingOf.mp hw)
  have hfold := findOne_foldl (x := x) hcreates e.before.store.db
  have hafter : settingsRow x e.after = ((e.before.store.pendingOf e.tid).foldl
      (fun d w => (schema D).apply w d) e.before.store.db).settings.findOne
        (fun s => decide (s.id = x)) := by
    rw [settingsRow, hs]
    rfl
  rw [← hafter] at hfold
  rcases hfold with hsame | ⟨hnone, r, hsome, hr⟩
  · rw [hsame]
    exact rowStep_kept hno _
  · rw [settingsRow, hnone, hsome]
    exact .created hno (hr.cons e)

/-- An INSERT creates the row of its id, where there is none. -/
theorem rowStep_insert {r : MetricSettings V} (hno : savedSettings e = none)
    (hr : Created D (e :: past) r)
    (hs : e.after.store.db.settings = e.before.store.db.settings.insert r) :
    RowStep D x e past (settingsRow x e.before) (settingsRow x e.after) := by
  have hafter : settingsRow x e.after =
      (settingsRow x e.before).or (if r.id = x then some r else none) := by
    rw [settingsRow, hs]
    exact Table.findOne_id_insert
  rw [hafter]
  cases hrow : settingsRow x e.before with
  | some r' => exact rowStep_kept hno _
  | none =>
    rw [Option.none_or]
    split
    · exact .created hno hr
    · exact rowStep_kept hno _

/-- A DELETE deletes the row of its id, or nothing. -/
theorem rowStep_delete {p : MetricSettings V → Bool} (hno : savedSettings e = none)
    (hs : e.after.store.db.settings = e.before.store.db.settings.delete p) :
    RowStep D x e past (settingsRow x e.before) (settingsRow x e.after) := by
  have hafter : settingsRow x e.after = (settingsRow x e.before).filter fun r => !p r := by
    rw [settingsRow, hs]
    exact Table.findOne_id_delete
  rw [hafter]
  cases hrow : settingsRow x e.before with
  | none => exact rowStep_kept hno _
  | some r =>
    rw [Option.filter_some]
    split
    · exact rowStep_kept hno _
    · exact .deleted hno

/-- **A row is created, saved or deleted, and nothing else happens to it.** -/
theorem settingsRow_step (hpend : w₀.store.pending = []) (h : LegalSettings D w₀ (e :: past))
    (x : Uuid) : RowStep D x e past (settingsRow x e.before) (settingsRow x e.after) := by
  rcases store_of_obeys h.2.1 with ⟨hno, ⟨hdb, _⟩ | hs⟩ | ⟨tx, st, inp, ha, hpre, hs⟩
  · exact rowStep_same hno (congrArg Db.settings hdb)
  · have hpast := pending_creates hpend h.2.2
    rw [← h.1] at hpast
    exact rowStep_commit hno hpast hs
  cases tx with
  | true =>
    refine rowStep_same ?_ (by rw [hs]; rfl)
    unfold savedSettings
    rw [ha]
    cases st with
    | updateSettings y o values => cases hpre.1
    | _ => rfl
  | false =>
    have hafter : e.after.store.db.settings =
        (st.write inp.id inp.now).onSettings e.before.store.db.settings := by
      rw [hs]
      rfl
    cases st with
    | updateSettings y o values => exact rowStep_update ha hs
    | createSettings data =>
      refine rowStep_insert (by unfold savedSettings; rw [ha]) ?_ hafter
      exact ⟨e, List.mem_cons_self, _, hpre.1, hpre.2, _, _, _, _, rfl⟩
    | deleteSettings y o => exact rowStep_delete (by unfold savedSettings; rw [ha]) hafter
    | _ =>
      refine rowStep_same (by unfold savedSettings; rw [ha]) ?_
      rw [hafter, onSettings_of_table (by simp [Statement.table])]

/-- A row that was loaded was there. -/
theorem loaded_settings {r : MetricSettings V} (h : LegalSettings D w₀ hist)
    (hload : loadedSettings (own i hist) = some r) :
    ∃ before, before <:+ hist ∧ settingsRow r.id (worldAfter w₀ before) = some r := by
  obtain ⟨e, he, hload⟩ := List.exists_of_findSome?_eq_some hload
  obtain ⟨before, hs⟩ := exists_past (mem_of_mem_own he).1
  refine ⟨before, (List.suffix_cons e before).trans hs, ?_⟩
  unfold loads at hload
  split at hload
  · rename_i u o x found ha
    obtain ⟨inp, hexec⟩ := (h.obeys hs).exec ha
    have hexec' : exec D e.tid inp (.query false (.findOwnedSettings u o x)) e.before =
        some (.ok found, e.after) := hexec
    obtain ⟨heval, _⟩ := exec_query hexec'
    rw [hload] at heval
    have hrow : r ∈ e.before.store.db.settings.rows := (Table.of_findOne heval.symm).1
    rw [← h.before hs]
    exact Table.findOne_id.mpr ⟨hrow, rfl⟩
  · cases hload

/-- What is saved was loaded, changed and validated. -/
theorem saved_settings {values : SettingsValues V} (h : LegalSettings D w₀ (e :: past))
    (hsaved : savedSettings e = some (x, values)) :
    ∃ r, loadedSettings (own e.tid past) = some r ∧ r.id = x ∧ Changes D e.req r values ∧
      validateSettings values = .ok () := by
  unfold savedSettings at hsaved
  split at hsaved
  · rename_i tx y o v n ha
    split at hsaved
    · cases hsaved
    · cases hsaved
      exact (h.2.1.pre ha).2
  · cases hsaved

end LakiraBackend.Metrics
