import LakiraBackend.Metrics.UseCases.Logs

/-!
# The running features

`metricsMachine` admits any number of writing requests, each answered by its use case, and
interleaves their calls on one database and one cache.  A request comes with the user it is
authenticated as and the organization it is sent for.
-/

namespace LakiraBackend.Metrics

open LakiraBackend.Auth (Err)
open LakiraBackend.Concurrency LakiraBackend.JavaScript LakiraBackend.Postgres

inductive Request (V : Type) : Type
  | createMetric (input : CreateMetricInput)
  | updateMetric (input : UpdateMetricInput)
  | deleteMetric (userId organizationId : Uuid) (metricId : IdText)
  | createCategory (input : CreateCategoryInput)
  | updateCategory (input : UpdateCategoryInput)
  | deleteCategory (userId organizationId : Uuid) (categoryId : IdText)
  | createMetricSettings (input : CreateSettingsInput V)
  | updateMetricSettings (userId organizationId : Uuid) (settingsId : IdText)
      (payload : SettingsUpdate V)
  | updateDisplayOptions (userId organizationId : Uuid) (settingsId : IdText)
      (patch : DisplayOptionsPatch)
  | updateGoalAchievement (userId organizationId : Uuid) (settingsId : IdText)
  | deleteMetricSettings (userId organizationId : Uuid) (settingsId : IdText)
  | createMetricLog (input : CreateLogInput V)
  | updateMetricLog (input : UpdateLogInput V)
  | deleteMetricLog (userId organizationId : Uuid) (logId : IdText)

/-- What a request is answered with. -/
inductive Reply (V : Type) : Type
  | unit
  | metric (m : Metric)
  | category (r : Option CategoryRow)
  | settings (s : MetricSettings V)
  | log (l : MetricLog V)

section

variable {V : Type} [LinearOrder V] [Zero V]

/-- The use case that answers a request. -/
def handle (D : Deps V) : Request V → Async V (Reply V)
  | .createMetric input => (createMetric D input).bind fun m => pure (.metric m)
  | .updateMetric input => (updateMetric D input).bind fun m => pure (.metric m)
  | .deleteMetric userId organizationId metricId =>
    (deleteMetric D userId organizationId metricId).bind fun m => pure (.metric m)
  | .createCategory input => (createCategory D input).bind fun r => pure (.category r)
  | .updateCategory input => (updateCategory D input).bind fun r => pure (.category (some r))
  | .deleteCategory userId organizationId categoryId =>
    (deleteCategory D userId organizationId categoryId).bind fun _ => pure .unit
  | .createMetricSettings input => (createMetricSettings D input).bind fun s => pure (.settings s)
  | .updateMetricSettings userId organizationId settingsId payload =>
    (updateMetricSettings D userId organizationId settingsId payload).bind fun s =>
      pure (.settings s)
  | .updateDisplayOptions userId organizationId settingsId patch =>
    (updateDisplayOptionsOf D userId organizationId settingsId patch).bind fun s =>
      pure (.settings s)
  | .updateGoalAchievement userId organizationId settingsId =>
    (updateGoalAchievement D userId organizationId settingsId).bind fun s => pure (.settings s)
  | .deleteMetricSettings userId organizationId settingsId =>
    (deleteMetricSettings D userId organizationId settingsId).bind fun _ => pure .unit
  | .createMetricLog input => (createMetricLog D input).bind fun l => pure (.log l)
  | .updateMetricLog input => (updateMetricLog D input).bind fun l => pure (.log l)
  | .deleteMetricLog userId organizationId logId =>
    (deleteMetricLog D userId organizationId logId).bind fun l => pure (.log l)

def metricsMachine (D : Deps V) :
    Machine (Op V) Op.Answer Err (World V) Input (Request V) (Reply V) where
  exec := exec D
  crash := fun i w => { w with store := w.store.drop i }
  crashed := .crashed
  prog := handle D
  admits := fun _ _ => true

end

variable {V : Type}

abbrev MetricsState (V : Type) : Type := State (Op V) Op.Answer Err (World V) (Request V)

abbrev MetricsConfig (V : Type) : Type :=
  Config (Op V) Op.Answer Err (World V) (Request V) (Reply V)

/-- A run starts from the data `d`, with nothing under way. -/
def StartsFrom (d : Db V) (cache : List (Entry V)) (w : World V) : Prop := w = World.init d cache

/-- Nothing has been written yet. -/
def Db.empty : Db V := ⟨.empty, .empty, .empty, .empty⟩

/-! ### What a call does to the store -/

variable {D : Deps V} {i : Nat} {inp : Input} {op : Op V} {w w' : World V}
  {r : Except Err op.Answer}

/-- The store of the metrics' database. -/
abbrev MetricsStore (V : Type) : Type := Store (Db V) (Write V) Key Unit

/-- A statement is refused, or done. -/
theorem exec_statement {tx : Bool} {st : Statement V} {r : Except Err st.Answer}
    (h : exec D i inp (.statement tx st) w = some (r, w')) :
    (∃ e, r = .error e ∧ w' = w) ∨
    (r = .ok (st.answer inp.id inp.now (w.store.base (schema D) i tx)) ∧
      w'.store = w.store.written (schema D) i tx (st.write inp.id inp.now) ∧
      w.store.Takes (schema D) i tx (st.write inp.id inp.now)) := by
  obtain ⟨⟨a, store⟩, hw, heq⟩ := Option.map_eq_some_iff.mp h
  obtain ⟨rfl, rfl⟩ := Prod.mk.inj heq
  rcases Store.write_cases hw with ⟨e, rfl, rfl, _⟩ | ⟨rfl, hs, htakes⟩
  · exact .inl ⟨e, rfl, rfl⟩
  · exact .inr ⟨rfl, hs, htakes⟩

/-- A call leaves the store as it is, writes, or ends a transaction. -/
theorem exec_store (h : exec D i inp op w = some (r, w')) :
    w'.store = w.store ∨
    (∃ tx s, op = .statement tx s ∧
      w'.store = w.store.written (schema D) i tx (s.write inp.id inp.now) ∧
      w.store.Takes (schema D) i tx (s.write inp.id inp.now)) ∨
    w'.store = w.store.commit (schema D) i ∨ w'.store = w.store.rollback i := by
  cases op with
  | statement tx s =>
    rcases exec_statement h with ⟨e, _, rfl⟩ | ⟨_, hs, htakes⟩
    · exact .inl rfl
    · exact .inr (.inl ⟨tx, s, rfl, hs, htakes⟩)
  | commit =>
    cases h
    exact .inr (.inr (.inl rfl))
  | rollback =>
    cases h
    exact .inr (.inr (.inr rfl))
  | begin => cases h; exact .inl rfl
  | query tx q => cases h; exact .inl rfl
  | now => cases h; exact .inl rfl
  | pick => cases h; exact .inl rfl
  | delByPattern pattern => cases h; exact .inl rfl
  | del key => cases h; exact .inl rfl

/-- A query answers from the data it runs on. -/
theorem exec_query {tx : Bool} {q : Query} {a : q.Answer V}
    (h : exec D i inp (.query tx q) w = some (.ok a, w')) :
    a = q.eval D (w.store.base (schema D) i tx) ∧ w' = w := by
  obtain ⟨ha, rfl⟩ := Prod.mk.inj (Option.some.inj h)
  exact ⟨(Except.ok.inj ha).symm, rfl⟩

end LakiraBackend.Metrics
