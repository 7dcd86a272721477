import LakiraBackend.Concurrency.Contract
import LakiraBackend.Metrics.System

/-!
# Which tables each use case writes

`Uses Ts p` is that `p` writes no table outside `Ts`, and every request gets its footprint
(`uses_handle`).  What is to be shown of the writes of some tables then only has to look at the
use cases that write them.
-/

namespace LakiraBackend.Metrics

open LakiraBackend.Auth (Err)
open LakiraBackend.Concurrency LakiraBackend.JavaScript LakiraBackend.Postgres

variable {V α : Type}

/-- The table a statement writes. -/
def Statement.table : Statement V → TableName
  | .createMetric _ => .metrics
  | .updateMetric _ _ => .metrics
  | .destroyMetric _ => .metrics
  | .createCategory _ => .categories
  | .updateCategory _ _ => .categories
  | .destroyCategories _ _ _ => .categories
  | .createSettings _ => .settings
  | .updateSettings _ _ _ => .settings
  | .deleteSettings _ _ => .settings
  | .createLog _ => .logs
  | .updateLogs _ _ _ => .logs
  | .deleteLogs _ _ => .logs

/-- The calls that write no table outside `Ts`. -/
def Within (Ts : List TableName) : Op V → Prop
  | .statement _ s => s.table ∈ Ts
  | _ => True

/-- What a program does with the tables `Ts` alone. -/
abbrev Uses (Ts : List TableName) (p : Async V α) : Prop := p.Calls (Within Ts)

variable {D : Deps V} {Ts : List TableName} {u o : Uuid} {S : Op V → Prop}

theorem uses_query {tx : Bool} {q : Query} : Uses Ts (await (V := V) (.query tx q)) :=
  .await trivial

theorem uses_statement {tx : Bool} {s : Statement V} (h : s.table ∈ Ts) :
    Uses Ts (await (.statement tx s)) := .await h

theorem calls_ensure {condition : Bool} {e : Err} : (ensure (V := V) condition e).Calls S := by
  unfold ensure
  split <;> trivial

theorem calls_orThrow {x : Option α} {e : Err} : (orThrow (V := V) x e).Calls S := by
  cases x <;> trivial

theorem calls_liftExcept {x : Except Err α} : (liftExcept (V := V) x).Calls S := by
  cases x <;> trivial

theorem uses_ensure {condition : Bool} {e : Err} : Uses Ts (ensure (V := V) condition e) :=
  calls_ensure

theorem uses_orThrow {x : Option α} {e : Err} : Uses Ts (orThrow (V := V) x e) := calls_orThrow

theorem uses_liftExcept {x : Except Err α} : Uses Ts (liftExcept (V := V) x) := calls_liftExcept

theorem uses_find {tx : Bool} {q : Query} {f : q.Answer V → Option α} {e : Err} :
    Uses Ts (await (.query tx q) >>= fun a => orThrow (f a) e) :=
  .bind uses_query fun _ => uses_orThrow

theorem calls_runInTransaction {body : Async V α} (hbegin : S .begin) (hcommit : S .commit)
    (hrollback : S .rollback) (h : body.Calls S) : (runInTransaction body).Calls S :=
  .handle (.bind (.await hbegin) fun _ => .bind h fun _ => .bind (.await hcommit) fun _ => trivial)
    fun _ => .bind (.await hrollback) fun _ => trivial

theorem uses_runInTransaction {body : Async V α} (h : Uses Ts body) :
    Uses Ts (runInTransaction body) := calls_runInTransaction trivial trivial trivial h

/-! ### Clearing the cache -/

theorem calls_walks (hpick : S .pick) (hwalk : ∀ pattern, S (.delByPattern pattern)) (n : Nat)
    (patterns : List (List Char)) : (walks (V := V) n patterns).Calls S := by
  induction n generalizing patterns with
  | zero => trivial
  | succ n ih =>
    refine .bind (.await hpick) fun k => ?_
    split
    · trivial
    · exact .bind (.await (hwalk _)) fun _ => ih _

theorem uses_walks (n : Nat) (patterns : List (List Char)) :
    Uses Ts (walks (V := V) n patterns) := calls_walks trivial (fun _ => trivial) n patterns

theorem calls_invalidateMetrics (hpick : S .pick) (hwalk : ∀ pattern, S (.delByPattern pattern))
    {id : List Char} : (invalidateMetrics D u o id).Calls S := by
  unfold invalidateMetrics
  split
  · exact calls_walks hpick hwalk _ _
  · trivial

theorem uses_invalidateMetrics {id : List Char} : Uses Ts (invalidateMetrics D u o id) :=
  calls_invalidateMetrics trivial fun _ => trivial

theorem uses_invalidateLog {metricId id : List Char} :
    Uses Ts (invalidateLog D u o metricId id) := by
  unfold invalidateLog
  split
  · exact uses_walks _ _
  · trivial

theorem uses_invalidateSettings {id : List Char} : Uses Ts (invalidateSettings D u o id) := by
  unfold invalidateSettings
  split
  · exact .bind (.await trivial) fun _ => .await trivial
  · trivial

theorem uses_invalidateCategoryLists : Uses Ts (invalidateCategoryLists D u) := by
  unfold invalidateCategoryLists
  split <;> first | exact .await trivial | trivial

theorem uses_invalidateCategory {id : IdText} : Uses Ts (invalidateCategory D u o id) := by
  unfold invalidateCategory
  split <;> first | exact .await trivial | trivial

/-! ### Metrics and categories -/

section

variable (hquery : ∀ tx q, S (.query tx q))

include hquery

theorem calls_checkCategory {id : Option IdText} : (checkCategory (V := V) u o id).Calls S := by
  cases id with
  | none => trivial
  | some id => exact .bind (.await (hquery _ _)) fun _ => calls_ensure

theorem calls_checkOriginalMetric {id : Option IdText} :
    (checkOriginalMetric (V := V) u id).Calls S := by
  cases id with
  | none => trivial
  | some id => exact .bind (.await (hquery _ _)) fun _ => calls_ensure

theorem calls_checkMetricName {name : String} : (checkMetricName D u o name).Calls S :=
  .bind (.await (hquery _ _)) fun _ => calls_ensure

theorem calls_findOwnedById {id : Uuid} : (findOwnedById (V := V) u o id).Calls S :=
  .bind (.await (hquery _ _)) fun _ => calls_orThrow

theorem calls_checkNewName {current : String} {name : Option String} :
    (checkNewName D u o current name).Calls S := by
  unfold checkNewName
  split
  · trivial
  · split
    · trivial
    · exact calls_checkMetricName hquery

omit hquery in
theorem calls_updateInstance {id : Uuid} {patch : MetricPatch}
    (hupdate : ∀ id patch, S (.statement false (.updateMetric id patch))) :
    (updateInstance (V := V) id patch).Calls S := by
  unfold updateInstance
  split
  · trivial
  · exact .await (hupdate _ _)

theorem calls_saveMetric {id : Uuid} {s : MetricSnapshot}
    (hupdate : ∀ id patch, S (.statement false (.updateMetric id patch))) :
    (saveMetric (V := V) u o id s).Calls S :=
  .bind (calls_findOwnedById hquery) fun _ => .bind (calls_updateInstance hupdate) fun _ =>
    .bind (.await (hquery _ _)) fun _ => calls_orThrow

end

theorem uses_checkCategory {id : Option IdText} : Uses Ts (checkCategory (V := V) u o id) :=
  calls_checkCategory fun _ _ => trivial

theorem uses_checkOriginalMetric {id : Option IdText} :
    Uses Ts (checkOriginalMetric (V := V) u id) := calls_checkOriginalMetric fun _ _ => trivial

theorem uses_checkMetricName {name : String} : Uses Ts (checkMetricName D u o name) :=
  calls_checkMetricName fun _ _ => trivial

theorem uses_findOwnedById {id : Uuid} : Uses Ts (findOwnedById (V := V) u o id) :=
  calls_findOwnedById fun _ _ => trivial

theorem uses_checkNewName {current : String} {name : Option String} :
    Uses Ts (checkNewName D u o current name) := calls_checkNewName fun _ _ => trivial

theorem uses_updateMetric {input : UpdateMetricInput} : Uses [.metrics] (updateMetric D input) := by
  refine .bind uses_findOwnedById fun m => .bind uses_checkCategory fun _ =>
    .bind uses_checkOriginalMetric fun _ => .bind uses_checkNewName fun _ => .bind uses_ensure
      fun _ => .bind uses_liftExcept fun _ => .bind ?_ fun _ => .bind uses_invalidateMetrics
        fun _ => trivial
  exact calls_saveMetric (fun _ _ => trivial) fun _ _ => by simp [Within, Statement.table]

theorem uses_deleteMetric {id : IdText} : Uses [.metrics] (deleteMetric D u o id) :=
  .bind uses_findOwnedById fun _ => .bind uses_invalidateMetrics fun _ =>
    .bind (.bind uses_findOwnedById fun _ => uses_statement (by simp [Statement.table])) fun _ =>
      trivial

theorem uses_checkCategoryName {name message : String} :
    Uses Ts (checkCategoryName (V := V) u o name message) :=
  .bind uses_query fun _ => uses_ensure

theorem uses_createCategory {input : CreateCategoryInput} :
    Uses [.categories] (createCategory D input) :=
  .bind uses_checkCategoryName fun _ => .bind (uses_statement (by simp [Statement.table])) fun _ =>
    .bind uses_query fun _ => .bind uses_invalidateCategoryLists fun _ => trivial

theorem uses_findCategory {id : Uuid} {e : Err} : Uses Ts (findCategory (V := V) u o id e) :=
  uses_find

theorem uses_checkNewCategoryName {current : String} {name : Option String} :
    Uses Ts (checkNewCategoryName (V := V) u o current name) := by
  unfold checkNewCategoryName
  split
  · trivial
  · split
    · trivial
    · exact uses_checkCategoryName

theorem uses_updateCategory {input : UpdateCategoryInput} :
    Uses [.categories] (updateCategory D input) := by
  refine .bind uses_findCategory fun row => .bind uses_checkNewCategoryName fun _ => .bind ?_
    fun _ => .bind uses_invalidateCategoryLists fun _ => .bind uses_invalidateCategory fun _ => trivial
  refine .bind uses_findCategory fun row => .bind ?_ fun _ => uses_find
  unfold updateCategoryRow
  split
  · trivial
  · exact uses_statement (by simp [Statement.table])

theorem uses_deleteCategory {id : IdText} : Uses [.categories] (deleteCategory D u o id) :=
  .bind uses_findCategory fun _ => .bind (uses_statement (by simp [Statement.table])) fun _ =>
    .bind uses_invalidateCategoryLists fun _ => uses_invalidateCategory

/-! ### Settings and logs -/

theorem uses_ensureMetricOwnership {id : Uuid} : Uses Ts (ensureMetricOwnership (V := V) u o id) :=
  .bind uses_query fun _ => .bind uses_orThrow fun _ => uses_ensure

theorem uses_findSettingsById {id : Uuid} : Uses Ts (findSettingsById (V := V) u o id) := uses_find

theorem uses_deleteMetricSettings {id : IdText} :
    Uses [.settings] (deleteMetricSettings D u o id) :=
  .bind uses_findSettingsById fun _ => .bind (uses_statement (by simp [Statement.table])) fun _ =>
    uses_invalidateSettings

theorem uses_checkTimestamp {id : Uuid} {timestamp : Date} {excluded : Option Uuid} :
    Uses Ts (checkTimestamp (V := V) o id timestamp excluded) :=
  .bind uses_query fun _ => uses_ensure

theorem uses_timestampOf {loggedAt : Option (List Char)} : Uses Ts (timestampOf D loggedAt) := by
  unfold timestampOf
  split
  · exact uses_liftExcept
  · exact .await trivial

theorem uses_createMetricLog {input : CreateLogInput V} : Uses [.logs] (createMetricLog D input) := by
  refine .bind uses_ensureMetricOwnership fun _ => .bind uses_timestampOf fun _ =>
    .bind uses_checkTimestamp fun _ => .bind ?_ fun _ => .bind uses_invalidateLog fun _ => trivial
  exact .bind (uses_statement (by simp [Statement.table])) fun _ => uses_find

theorem uses_moveTimestamp {log : MetricLog V} {loggedAt : Option (List Char)} :
    Uses Ts (moveTimestamp D o log loggedAt) := by
  unfold moveTimestamp
  split
  · trivial
  · exact .bind uses_liftExcept fun _ => .bind uses_checkTimestamp fun _ => trivial

theorem uses_findLogById {id : Uuid} : Uses Ts (findLogById (V := V) u o id) := uses_find

theorem uses_deleteMetricLog {id : IdText} : Uses [.logs] (deleteMetricLog D u o id) :=
  .bind uses_findLogById fun _ => .bind (uses_statement (by simp [Statement.table])) fun _ =>
    .bind uses_invalidateLog fun _ => trivial

variable [LinearOrder V] [Zero V]

theorem uses_createSettings {tx : Bool} {data : CreateSettingsData V} (h : .settings ∈ Ts) :
    Uses Ts (createSettings tx data) :=
  .bind uses_liftExcept fun _ => uses_statement h

theorem uses_createMetric {input : CreateMetricInput} :
    Uses [.metrics, .settings] (createMetric D input) := by
  refine .bind uses_checkMetricName fun _ => .bind uses_checkCategory fun _ =>
    .bind uses_checkOriginalMetric fun _ => uses_runInTransaction (.bind ?_ fun _ =>
      .bind (uses_createSettings (by simp)) fun _ => .bind uses_invalidateMetrics fun _ => trivial)
  refine .bind (uses_statement (by simp [Statement.table])) fun id => .bind uses_query fun m => ?_
  cases m <;> trivial

theorem uses_createMetricSettings {input : CreateSettingsInput V} :
    Uses [.settings] (createMetricSettings D input) := by
  refine .bind uses_ensureMetricOwnership fun _ => .bind uses_query fun _ => .bind uses_ensure
    fun _ => .bind (.handle (.bind (uses_createSettings (by simp)) fun _ => uses_find) fun e => ?_)
      fun _ => .bind uses_invalidateSettings fun _ => trivial
  split <;> trivial

theorem uses_changeSettings {id : IdText}
    {change : MetricSettingsEntity V → Except Err (MetricSettingsEntity V)} :
    Uses [.settings] (changeSettings D u o id change) :=
  .bind uses_findSettingsById fun _ => .bind uses_liftExcept fun _ =>
    .bind (.bind uses_liftExcept fun _ => .bind (uses_statement (by simp [Statement.table])) fun _ =>
      .bind uses_ensure fun _ => uses_find) fun _ => .bind uses_invalidateSettings fun _ => trivial

theorem uses_updateMetricLog {input : UpdateLogInput V} : Uses [.logs] (updateMetricLog D input) := by
  refine .bind uses_findLogById fun log => .bind uses_liftExcept fun _ => .bind uses_moveTimestamp
    fun _ => .bind (.bind (uses_statement (by simp [Statement.table])) fun _ => uses_orThrow)
      fun _ => .bind uses_invalidateLog fun _ => trivial

/-- The tables a request writes. -/
def Request.footprint : Request V → List TableName
  | .createMetric _ => [.metrics, .settings]
  | .updateMetric _ => [.metrics]
  | .deleteMetric _ _ _ => [.metrics]
  | .createCategory _ => [.categories]
  | .updateCategory _ => [.categories]
  | .deleteCategory _ _ _ => [.categories]
  | .createMetricLog _ => [.logs]
  | .updateMetricLog _ => [.logs]
  | .deleteMetricLog _ _ _ => [.logs]
  | _ => [.settings]

/-- **Every use case writes its tables alone.** -/
theorem uses_handle (q : Request V) : Uses q.footprint (handle D q) := by
  cases q with
  | createMetric input => exact .bind uses_createMetric fun _ => trivial
  | updateMetric input => exact .bind uses_updateMetric fun _ => trivial
  | deleteMetric u o id => exact .bind uses_deleteMetric fun _ => trivial
  | createCategory input => exact .bind uses_createCategory fun _ => trivial
  | updateCategory input => exact .bind uses_updateCategory fun _ => trivial
  | deleteCategory u o id => exact .bind uses_deleteCategory fun _ => trivial
  | createMetricSettings input => exact .bind uses_createMetricSettings fun _ => trivial
  | updateMetricSettings u o id payload => exact .bind uses_changeSettings fun _ => trivial
  | updateDisplayOptions u o id patch => exact .bind uses_changeSettings fun _ => trivial
  | updateGoalAchievement u o id => exact .bind uses_changeSettings fun _ => trivial
  | deleteMetricSettings u o id => exact .bind uses_deleteMetricSettings fun _ => trivial
  | createMetricLog input => exact .bind uses_createMetricLog fun _ => trivial
  | updateMetricLog input => exact .bind uses_updateMetricLog fun _ => trivial
  | deleteMetricLog u o id => exact .bind uses_deleteMetricLog fun _ => trivial

/-! ### What calls nothing, under any contract -/

section

variable {K : Contract (metricsMachine D)} {i : Nat} {q : Request V} {s : MetricsState V}

theorem wp_ensure {condition : Bool} {e : Err} {Q : MetricsState V → Prop}
    (h : condition = true → Q s) :
    K.wp i q (ensure condition e) (fun _ t => Q t) (fun _ _ => True) s := by
  unfold ensure
  split
  · exact h ‹_›
  · trivial

theorem wp_liftExcept {x : Except Err α} {Q : α → MetricsState V → Prop}
    (h : ∀ a, x = .ok a → Q a s) : K.wp i q (liftExcept x) Q (fun _ _ => True) s := by
  cases x with
  | error e => trivial
  | ok a => exact h a rfl

theorem wp_orThrow {x : Option α} {e : Err} {Q : α → MetricsState V → Prop}
    (h : ∀ a, x = some a → Q a s) : K.wp i q (orThrow x e) Q (fun _ _ => True) s := by
  cases x with
  | none => trivial
  | some a => exact h a rfl

end

end LakiraBackend.Metrics
