import LakiraBackend.Metrics.Footprints
import LakiraBackend.Metrics.OwnRows
import LakiraBackend.Metrics.SettingsRow

/-!
# Whose rows a request writes

A request comes from a user in an organization.  Each statement that it makes is on a row of
theirs: one it inserts in their name, or one that it has found by a query that asks for theirs
(`Statement.Own`, `meets_own`).
-/

namespace LakiraBackend.Metrics

open LakiraBackend.Auth (Err)
open LakiraBackend.Concurrency LakiraBackend.JavaScript LakiraBackend.Postgres

variable {V : Type}

/-- The user a request is authenticated as, and the organization it is sent for. -/
def Request.tenant : Request V → Uuid × Uuid
  | .createMetric input => (input.userId, input.organizationId)
  | .updateMetric input => (input.userId, input.organizationId)
  | .deleteMetric userId organizationId _ => (userId, organizationId)
  | .createCategory input => (input.userId, input.organizationId)
  | .updateCategory input => (input.userId, input.organizationId)
  | .deleteCategory userId organizationId _ => (userId, organizationId)
  | .createMetricSettings input => (input.userId, input.organizationId)
  | .updateMetricSettings userId organizationId _ _ => (userId, organizationId)
  | .updateDisplayOptions userId organizationId _ _ => (userId, organizationId)
  | .updateGoalAchievement userId organizationId _ => (userId, organizationId)
  | .deleteMetricSettings userId organizationId _ => (userId, organizationId)
  | .createMetricLog input => (input.userId, input.organizationId)
  | .updateMetricLog input => (input.userId, input.organizationId)
  | .deleteMetricLog userId organizationId _ => (userId, organizationId)

/-- A query outside any transaction was answered so. -/
def Answered (q : Query) (a : q.Answer V) (l : List (MetricsEvent V)) : Prop :=
  ∃ e ∈ l, e.act = .call (.query false q) (.ok a)

/-- The statement is on a row of the user in the organization: it inserts one, or the thread,
which has done `l`, has found it.  What a transaction inserts besides a metric is the settings of
that metric. -/
def Statement.Own (u o : Uuid) (l : List (MetricsEvent V)) (tx : Bool) : Statement V → Prop
  | .createMetric data => data.userId = u ∧ data.organizationId = o
  | .updateMetric id _ => ∃ x m, Answered (.findOwnedMetric u o x) (some m) l ∧ m.id = id
  | .destroyMetric id => ∃ x m, Answered (.findOwnedMetric u o x) (some m) l ∧ m.id = id
  | .createCategory data => data.userId = u ∧ data.organizationId = o
  | .updateCategory id _ => ∃ x r, Answered (.findOwnedCategory u o x) (some r) l ∧ r.category.id = id
  | .destroyCategories userId organizationId _ => userId = u ∧ organizationId = o
  | .createSettings data => tx = false →
      ∃ m, Answered (.findMetricInOrganization o data.metricId) (some m) l ∧ m.userId = u
  | .updateSettings id _ _ => ∃ x r, Answered (.findOwnedSettings u o x) (some r) l ∧ r.id = id
  | .deleteSettings id _ => ∃ x r, Answered (.findOwnedSettings u o x) (some r) l ∧ r.id = id
  | .createLog data =>
      ∃ m, Answered (.findMetricInOrganization o data.metricId) (some m) l ∧ m.userId = u
  | .updateLogs id _ _ => ∃ x r, Answered (.findOwnedLog u o x) (some r) l ∧ r.id = id
  | .deleteLogs id _ => ∃ x r, Answered (.findOwnedLog u o x) (some r) l ∧ r.id = id

variable [LinearOrder V] [Zero V]

/-- What a statement has before it. -/
def tenantPre (i : Nat) (q : Request V) (op : Op V) (s : MetricsState V) : Prop :=
  match op with
  | .statement tx st => st.Own q.tenant.1 q.tenant.2 (own i s.hist) tx
  | _ => True

abbrev tenancy (D : Deps V) (init : World V → Prop) : Contract (metricsMachine D) :=
  Contract.guarded (metricsMachine D) init tenantPre

variable {D : Deps V} {init : World V → Prop} {i : Nat} {q : Request V} {s : MetricsState V}
  {α : Type} {u o x : Uuid}

/-! ### What a thread knows -/

/-- What a thread has found, it has found for good. -/
def Lasting (P : List (MetricsEvent V) → Prop) : Prop := ∀ e l, P l → P (e :: l)

omit [LinearOrder V] [Zero V] in
theorem lasting_answered {y : Query} {a : y.Answer V} : Lasting (Answered y a) := by
  rintro _ l ⟨e, he, ha⟩
  exact ⟨e, List.mem_cons_of_mem _ he, ha⟩

/-- A part of a use case that writes nothing. -/
theorem wp_reading {p : Async V α} {P : List (MetricsEvent V) → Prop} (hP : Lasting P)
    (hp : Uses [] p) (hs : P (own i s.hist)) :
    (tenancy D init).wp i q p (fun _ t => P (own i t.hist)) (fun _ _ => True) s := by
  refine Contract.wp_mono (fun _ _ h => h) (fun _ _ _ => trivial)
    (Contract.wp_of_calls (Contract.Stable.own i P) (fun op t hop _ _ => ?_)
      (fun op t inp r w _ _ ht _ => ?_) hp hs)
  · cases op with
    | statement tx st => exact absurd hop List.not_mem_nil
    | _ => trivial
  · change P (own i (t.push i q (.call op r) w).hist)
    rw [own_push]
    exact hP _ _ ht

theorem meets_reading {p : Async V α} (hp : Uses [] p) : (tenancy D init).Meets i q p :=
  fun _ => Contract.wp_mono (fun _ _ _ => trivial) (fun _ _ h => h)
    (wp_reading (P := fun _ => True) (fun _ _ h => h) hp trivial)

/-- A query of the committed data. -/
theorem wp_answered {y : Query} :
    (tenancy D init).wp i q (await (.query false y)) (fun a t => Answered y a (own i t.hist))
      (fun _ _ => True) s := by
  refine Contract.wp_await (Contract.Stable.true i) trivial (fun _ _ _ => trivial)
    (fun t inp a w _ _ _ => ?_) fun _ _ _ _ _ _ _ => trivial
  rw [own_push]
  exact ⟨_, List.mem_cons_self, rfl⟩

/-- A statement on a row that is known to be theirs. -/
theorem wp_own {tx : Bool} {st : Statement V} {P : List (MetricsEvent V) → Prop}
    (hs : P (own i s.hist)) (hst : ∀ l, P l → st.Own q.tenant.1 q.tenant.2 l tx) :
    (tenancy D init).wp i q (await (.statement tx st)) (fun _ _ => True) (fun _ _ => True) s :=
  Contract.wp_await (P := fun s => P (own i s.hist)) (Contract.Stable.own i P) hs
    (fun _ _ ht => hst _ ht) (fun _ _ _ _ _ _ _ => trivial) fun _ _ _ _ _ _ _ => trivial

theorem meets_own {tx : Bool} {st : Statement V}
    (hst : ∀ l, st.Own q.tenant.1 q.tenant.2 l tx) :
    (tenancy D init).Meets i q (await (.statement tx st)) :=
  fun _ => wp_own (P := fun _ => True) trivial fun l _ => hst l

/-! ### The use cases -/

theorem meets_createSettingsOwn {tx : Bool} {data : CreateSettingsData V}
    {P : List (MetricsEvent V) → Prop} (hs : P (own i s.hist))
    (hst : ∀ l, P l → (Statement.createSettings data).Own q.tenant.1 q.tenant.2 l tx) :
    (tenancy D init).wp i q (createSettings tx data) (fun _ _ => True) (fun _ _ => True) s := by
  unfold createSettings
  cases validateSettings data.values with
  | error e => trivial
  | ok a => exact wp_own hs hst

theorem meets_createOwnMetric {input : CreateMetricInput} :
    (tenancy D init).Meets i (.createMetric input) (createMetric D input) := by
  refine .bind (meets_reading uses_checkMetricName) fun _ =>
    .bind (meets_reading uses_checkCategory) fun _ =>
      .bind (meets_reading uses_checkOriginalMetric) fun _ => .handle ?_ fun e =>
        meets_reading (.bind (.await trivial) fun _ => trivial)
  refine .bind (meets_reading (.await trivial)) fun _ => .bind ?_ fun _ =>
    meets_reading (.bind (.await trivial) fun _ => trivial)
  refine .bind (.bind (meets_own fun _ => ⟨rfl, rfl⟩) fun id => meets_reading ?_) fun m =>
    .bind (fun s => meets_createSettingsOwn (P := fun _ => True) trivial fun _ _ htx => ?_) fun _ =>
      meets_reading (.bind uses_invalidateMetrics fun _ => trivial)
  · refine .bind uses_query fun created => ?_
    cases created <;> trivial
  · cases htx

theorem wp_findOwnMetric :
    (tenancy D init).wp i q (findOwnedById u o x)
      (fun m t => Answered (.findOwnedMetric u o x) (some m) (own i t.hist)) (fun _ _ => True) s := by
  refine Contract.wp_seq wp_answered (fun _ _ h => h) fun _ _ ht => wp_orThrow fun _ hr => ?_
  exact hr ▸ ht

theorem meets_updateOwnMetric {input : UpdateMetricInput} :
    (tenancy D init).Meets i (.updateMetric input) (updateMetric D input) := by
  refine .bind (meets_reading uses_findOwnedById) fun metric =>
    .bind (meets_reading uses_checkCategory) fun _ =>
      .bind (meets_reading uses_checkOriginalMetric) fun _ =>
        .bind (meets_reading uses_checkNewName) fun _ => .bind (meets_reading uses_ensure) fun _ =>
          .bind (meets_reading uses_liftExcept) fun snapshot => .bind (fun s => ?_) fun _ =>
            meets_reading (.bind uses_invalidateMetrics fun _ => trivial)
  refine Contract.wp_seq wp_findOwnMetric (fun _ _ h => h) fun m t hm => ?_
  refine Contract.wp_seq (Q := fun _ _ => True) (F := fun _ _ => True) ?_ (fun _ _ h => h)
    fun _ t _ => meets_reading uses_find t
  unfold updateInstance
  split
  · trivial
  · exact wp_own hm fun _ hl => ⟨_, m, hl, rfl⟩

theorem meets_deleteOwnMetric {id : IdText} (hq : q.tenant = (u, o)) :
    (tenancy D init).Meets i q (deleteMetric D u o id) := by
  refine .bind (meets_reading uses_findOwnedById) fun metric =>
    .bind (meets_reading uses_invalidateMetrics) fun _ => .bind (fun s => ?_) fun _ => .done
  refine Contract.wp_seq wp_findOwnMetric (fun _ _ h => h) fun m t hm => ?_
  exact wp_own hm fun _ hl => ⟨_, m, by rw [hq]; exact hl, rfl⟩

theorem wp_findOwnCategory {e : Err} :
    (tenancy D init).wp i q (findCategory u o x e)
      (fun r t => Answered (.findOwnedCategory u o x) (some r) (own i t.hist)) (fun _ _ => True)
      s := by
  refine Contract.wp_seq wp_answered (fun _ _ h => h) fun _ _ ht => wp_orThrow fun _ hr => ?_
  exact hr ▸ ht

theorem meets_updateOwnCategory {input : UpdateCategoryInput} :
    (tenancy D init).Meets i (.updateCategory input) (updateCategory D input) := by
  refine .bind (meets_reading uses_findCategory) fun _ =>
    .bind (meets_reading uses_checkNewCategoryName) fun _ => .bind (fun s => ?_) fun _ =>
      meets_reading (.bind uses_invalidateCategoryLists fun _ => .bind uses_invalidateCategory
        fun _ => trivial)
  refine Contract.wp_seq wp_findOwnCategory (fun _ _ h => h) fun r t hr => ?_
  refine Contract.wp_seq (Q := fun _ _ => True) (F := fun _ _ => True) ?_ (fun _ _ h => h)
    fun _ t _ => meets_reading uses_find t
  unfold updateCategoryRow
  split
  · trivial
  · exact wp_own hr fun _ hl => ⟨_, r, hl, rfl⟩

/-- A metric in the organization that is checked to be the user's. -/
def OwnMetric (u o id : Uuid) (l : List (MetricsEvent V)) : Prop :=
  ∃ m, Answered (.findMetricInOrganization o id) (some m) l ∧ m.userId = u

omit [LinearOrder V] [Zero V] in
theorem lasting_ownMetric {id : Uuid} : Lasting (OwnMetric (V := V) u o id) := by
  rintro e l ⟨m, hm, hu⟩
  exact ⟨m, lasting_answered e l hm, hu⟩

theorem wp_ensureOwnMetric :
    (tenancy D init).wp i q (ensureMetricOwnership u o x)
      (fun _ t => OwnMetric u o x (own i t.hist)) (fun _ _ => True) s := by
  refine Contract.wp_seq wp_answered (fun _ _ h => h) fun found t ht => Contract.wp_seq (Q := fun m t =>
      Answered (.findMetricInOrganization o x) (some m) (own i t.hist)) (wp_orThrow fun m hm => ?_)
        (fun _ _ h => h) fun m t hm => wp_ensure fun hu => ⟨m, hm, of_decide_eq_true hu⟩
  exact hm ▸ ht

theorem meets_createOwnSettings {input : CreateSettingsInput V} :
    (tenancy D init).Meets i (.createMetricSettings input) (createMetricSettings D input) := by
  intro s
  refine Contract.wp_seq wp_ensureOwnMetric (fun _ _ h => h) fun _ t hm => ?_
  refine Contract.wp_seq (wp_reading lasting_ownMetric uses_query hm) (fun _ _ h => h)
    fun existing t hm => ?_
  refine Contract.wp_seq (wp_reading lasting_ownMetric uses_ensure hm) (fun _ _ h => h)
    fun _ t hm => ?_
  refine Contract.wp_seq (Q := fun _ _ => True) (F := fun _ _ => True) ?_ (fun _ _ h => h)
    fun _ t _ => meets_reading (.bind uses_invalidateSettings fun _ => .done) t
  refine Contract.wp_handle.mpr (Contract.wp_mono (fun _ _ h => h) (fun e t _ => ?_)
    (Contract.wp_seq (meets_createSettingsOwn hm fun _ hl _ => hl) (fun _ _ h => h)
      fun _ t _ => meets_reading uses_find t))
  split <;> trivial

/-- The settings that are found are theirs. -/
theorem wp_findOwnSettings :
    (tenancy D init).wp i q (findSettingsById u o x)
      (fun r t => Answered (.findOwnedSettings u o x) (some r) (own i t.hist)) (fun _ _ => True) s := by
  refine Contract.wp_seq wp_answered (fun _ _ h => h) fun _ _ ht => wp_orThrow fun _ hr => ?_
  exact hr ▸ ht

theorem meets_changeOwnSettings {id : IdText}
    {change : MetricSettingsEntity V → Except Err (MetricSettingsEntity V)}
    (hq : q.tenant = (u, o)) : (tenancy D init).Meets i q (changeSettings D u o id change) := by
  intro s
  refine Contract.wp_seq wp_findOwnSettings (fun _ _ h => h) fun r t hr => ?_
  refine Contract.wp_seq (wp_reading lasting_answered uses_liftExcept hr) (fun _ _ h => h)
    fun changed t hr => ?_
  refine Contract.wp_seq (Q := fun _ _ => True) (F := fun _ _ => True) ?_ (fun _ _ h => h)
    fun _ t _ => meets_reading (.bind uses_invalidateSettings fun _ => .done) t
  refine Contract.wp_seq (wp_reading lasting_answered uses_liftExcept hr) (fun _ _ h => h)
    fun _ t hr => Contract.wp_seq (wp_own hr fun _ hl => ⟨_, r, by rw [hq]; exact hl, rfl⟩)
      (fun _ _ h => h) fun _ t _ => meets_reading (.bind uses_ensure fun _ => uses_find) t

theorem meets_deleteOwnSettings {id : IdText} (hq : q.tenant = (u, o)) :
    (tenancy D init).Meets i q (deleteMetricSettings D u o id) := fun _ =>
  Contract.wp_seq wp_findOwnSettings (fun _ _ h => h) fun r _ hr =>
    Contract.wp_seq (wp_own hr fun _ hl => ⟨_, r, by rw [hq]; exact hl, rfl⟩) (fun _ _ h => h)
      fun _ t _ => meets_reading uses_invalidateSettings t

theorem meets_createOwnLog {input : CreateLogInput V} :
    (tenancy D init).Meets i (.createMetricLog input) (createMetricLog D input) := by
  intro s
  refine Contract.wp_seq wp_ensureOwnMetric (fun _ _ h => h) fun _ t hm => ?_
  refine Contract.wp_seq (wp_reading lasting_ownMetric uses_timestampOf hm) (fun _ _ h => h)
    fun timestamp t hm => ?_
  refine Contract.wp_seq (wp_reading lasting_ownMetric uses_checkTimestamp hm) (fun _ _ h => h)
    fun _ t hm => ?_
  refine Contract.wp_seq (Q := fun _ _ => True) (F := fun _ _ => True) ?_ (fun _ _ h => h)
    fun _ t _ => meets_reading (.bind uses_invalidateLog fun _ => .done) t
  exact Contract.wp_seq (wp_own hm fun _ hl => hl) (fun _ _ h => h)
    fun _ t _ => meets_reading uses_find t

theorem wp_findOwnLog :
    (tenancy D init).wp i q (findLogById u o x)
      (fun r t => Answered (.findOwnedLog u o x) (some r) (own i t.hist)) (fun _ _ => True) s := by
  refine Contract.wp_seq wp_answered (fun _ _ h => h) fun _ _ ht => wp_orThrow fun _ hr => ?_
  exact hr ▸ ht

theorem meets_updateOwnLog {input : UpdateLogInput V} :
    (tenancy D init).Meets i (.updateMetricLog input) (updateMetricLog D input) := by
  intro s
  refine Contract.wp_seq wp_findOwnLog (fun _ _ h => h) fun r t hr => ?_
  refine Contract.wp_seq (wp_reading lasting_answered uses_liftExcept hr) (fun _ _ h => h)
    fun values t hr => ?_
  refine Contract.wp_seq (wp_reading lasting_answered uses_moveTimestamp hr) (fun _ _ h => h)
    fun timestamp t hr => ?_
  refine Contract.wp_seq (Q := fun _ _ => True) (F := fun _ _ => True) ?_ (fun _ _ h => h)
    fun _ t _ => meets_reading (.bind uses_invalidateLog fun _ => .done) t
  exact Contract.wp_seq (wp_own hr fun _ hl => ⟨_, r, hl, rfl⟩) (fun _ _ h => h)
    fun _ t _ => meets_reading uses_orThrow t

theorem meets_deleteOwnLog {id : IdText} (hq : q.tenant = (u, o)) :
    (tenancy D init).Meets i q (deleteMetricLog D u o id) := fun _ =>
  Contract.wp_seq wp_findOwnLog (fun _ _ h => h) fun r _ hr =>
    Contract.wp_seq (wp_own hr fun _ hl => ⟨_, r, by rw [hq]; exact hl, rfl⟩) (fun _ _ h => h)
      fun _ t _ => meets_reading (.bind uses_invalidateLog fun _ => .done) t

/-- **Every request writes its own rows.** -/
theorem meets_tenancy (q : Request V) : (tenancy D init).Meets i q (handle D q) := by
  cases q with
  | createMetric input => exact .bind meets_createOwnMetric fun _ => .done
  | updateMetric input => exact .bind meets_updateOwnMetric fun _ => .done
  | deleteMetric u o id => exact .bind (meets_deleteOwnMetric rfl) fun _ => .done
  | createCategory input =>
    refine .bind (.bind (meets_reading uses_checkCategoryName) fun _ =>
      .bind (meets_own fun _ => ⟨rfl, rfl⟩) fun _ => meets_reading ?_) fun _ => .done
    exact .bind uses_query fun _ => .bind uses_invalidateCategoryLists fun _ => .done
  | updateCategory input => exact .bind meets_updateOwnCategory fun _ => .done
  | deleteCategory u o id =>
    exact .bind (.bind (meets_reading uses_findCategory) fun _ =>
      .bind (meets_own fun _ => ⟨rfl, rfl⟩) fun _ => meets_reading
        (.bind uses_invalidateCategoryLists fun _ => uses_invalidateCategory)) fun _ => .done
  | createMetricSettings input => exact .bind meets_createOwnSettings fun _ => .done
  | updateMetricSettings u o id payload => exact .bind (meets_changeOwnSettings rfl) fun _ => .done
  | updateDisplayOptions u o id patch => exact .bind (meets_changeOwnSettings rfl) fun _ => .done
  | updateGoalAchievement u o id => exact .bind (meets_changeOwnSettings rfl) fun _ => .done
  | deleteMetricSettings u o id => exact .bind (meets_deleteOwnSettings rfl) fun _ => .done
  | createMetricLog input => exact .bind meets_createOwnLog fun _ => .done
  | updateMetricLog input => exact .bind meets_updateOwnLog fun _ => .done
  | deleteMetricLog u o id => exact .bind (meets_deleteOwnLog rfl) fun _ => .done

end LakiraBackend.Metrics
