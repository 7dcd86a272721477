import LakiraBackend.Metrics.Isolation
import LakiraBackend.Metrics.TenantWrites

/-!
# Tenants keep apart

A call changes rows of the user and the organization that it is made for, and no others: what a
request has found is still theirs when it writes, as the owner of a metric or a category stays,
and an id that is drawn for a settings row or a log is nobody else's.  So as long as others are
served, a user's rows in an organization, and what the reads make of them, stay as they are
(`tenants_apart`).
-/

namespace LakiraBackend.Metrics

open LakiraBackend.Auth (Err)
open LakiraBackend.Concurrency LakiraBackend.JavaScript LakiraBackend.Postgres

/-! ### Rows that stay -/

section

variable {Row : Type} {key : Row → Uuid} {t : Table key} {p : Row → Bool} {Q : Row → Prop} {r : Row}

theorem mem_insert_other {row : Row} (hrow : Q row) (hr : ¬ Q r) :
    r ∈ t.rows ↔ r ∈ (t.insert row).rows := by
  refine ⟨Table.mem_insert_of_mem, fun h => ?_⟩
  rcases Table.mem_insert h with rfl | h
  · exact absurd hrow hr
  · exact h

theorem mem_updateWhere_other {g : Row → Row} (hg : ∀ r, key (g r) = key r)
    (hQ : ∀ s ∈ t.rows, p s = true → Q s) (hkeep : ∀ s, Q s → Q (g s)) (hr : ¬ Q r) :
    r ∈ t.rows ↔ r ∈ (t.updateWhere p g hg).rows := by
  constructor
  · intro h
    have hp : p r = false := Bool.eq_false_iff.mpr fun hp => hr (hQ r h hp)
    exact Table.mem_updateWhere.mpr (.inr ⟨h, hp⟩)
  · intro h
    rcases Table.mem_updateWhere.mp h with ⟨s, hs, hp, rfl⟩ | ⟨h, _⟩
    · exact absurd (hkeep s (hQ s hs hp)) hr
    · exact h

theorem mem_delete_other (hQ : ∀ s ∈ t.rows, p s = true → Q s) (hr : ¬ Q r) :
    r ∈ t.rows ↔ r ∈ (t.delete p).rows := by
  refine ⟨fun h => Table.mem_delete.mpr ⟨h, ?_⟩, fun h => (Table.mem_delete.mp h).1⟩
  exact Bool.eq_false_iff.mpr fun hp => hr (hQ r h hp)

end

variable {V : Type} {D : Deps V} {d e f : Db V} {u o u' o' id : Uuid} {w : Write V}

/-- What `d` and `e` do not share is of the user in the organization; a settings row or a log is
of the one whose metric it refers to in `f`. -/
structure OnlyOf (f : Db V) (u o : Uuid) (d e : Db V) : Prop where
  metrics : ∀ m : Metric, ¬ (m.userId = u ∧ m.organizationId = o) →
    (m ∈ d.metrics.rows ↔ m ∈ e.metrics.rows)
  categories : ∀ c : MetricCategory, ¬ (c.userId = u ∧ c.organizationId = o) →
    (c ∈ d.categories.rows ↔ c ∈ e.categories.rows)
  settings : ∀ s : MetricSettings V, ¬ HasMetric f u o s.metricId →
    (s ∈ d.settings.rows ↔ s ∈ e.settings.rows)
  logs : ∀ l : MetricLog V, ¬ HasMetric f u o l.metricId → (l ∈ d.logs.rows ↔ l ∈ e.logs.rows)

theorem OnlyOf.refl (f d : Db V) (u o : Uuid) : OnlyOf f u o d d :=
  ⟨fun _ _ => .rfl, fun _ _ => .rfl, fun _ _ => .rfl, fun _ _ => .rfl⟩

theorem OnlyOf.trans {e' : Db V} (h : OnlyOf f u o d e) (h' : OnlyOf f u o e e') :
    OnlyOf f u o d e' where
  metrics m hm := (h.metrics m hm).trans (h'.metrics m hm)
  categories c hc := (h.categories c hc).trans (h'.categories c hc)
  settings s hs := (h.settings s hs).trans (h'.settings s hs)
  logs l hl := (h.logs l hl).trans (h'.logs l hl)

/-- A metric has one owner. -/
theorem HasMetric.owner (h : HasMetric d u o id) (h' : HasMetric d u' o' id) : u = u' ∧ o = o' := by
  obtain ⟨m, hm, hid, rfl, rfl⟩ := h
  obtain ⟨m', hm', hid', rfl, rfl⟩ := h'
  obtain rfl := d.metrics.eq_of_id hm hm' (hid.trans hid'.symm)
  exact ⟨rfl, rfl⟩

/-- The rows of all others are the same. -/
theorem OnlyOf.sameOwn (h : OnlyOf e u o d e) (hne : (u, o) ≠ (u', o')) : SameOwn u' o' d e := by
  have hmetrics : ∀ m : Metric, m.userId = u' → m.organizationId = o' →
      (m ∈ d.metrics.rows ↔ m ∈ e.metrics.rows) := by
    rintro m rfl rfl
    refine h.metrics m fun ho => hne ?_
    rw [ho.1, ho.2]
  have hhas : ∀ id, HasMetric d u' o' id ↔ HasMetric e u' o' id := by
    intro id
    exact exists_congr fun m => and_congr_left fun hm => hmetrics m hm.2.1 hm.2.2
  have hother : ∀ id, HasMetric e u' o' id → ¬ HasMetric e u o id := by
    intro id h' h
    obtain ⟨rfl, rfl⟩ := h.owner h'
    exact hne rfl
  refine ⟨hmetrics, ?_, fun s => ?_, fun l => ?_⟩
  · rintro c rfl rfl
    refine h.categories c fun ho => hne ?_
    rw [ho.1, ho.2]
  · rw [hhas]
    exact and_congr_left fun hs => h.settings s (hother _ hs)
  · rw [hhas]
    exact and_congr_left fun hl => h.logs l (hother _ hl)

theorem SameOwn.refl (u o : Uuid) (d : Db V) : SameOwn u o d d :=
  ⟨fun _ _ _ => .rfl, fun _ _ _ => .rfl, fun _ => .rfl, fun _ => .rfl⟩

theorem SameOwn.trans (h : SameOwn u o d e) (h' : SameOwn u o e f) : SameOwn u o d f where
  metrics m hu ho := (h.metrics m hu ho).trans (h'.metrics m hu ho)
  categories c hu ho := (h.categories c hu ho).trans (h'.categories c hu ho)
  settings s := (h.settings s).trans (h'.settings s)
  logs l := (h.logs l).trans (h'.logs l)

/-- The rows that a write changes are of the user in the organization. -/
def Write.Of (f : Db V) (u o : Uuid) (d : Db V) : Write V → Prop
  | .insertMetric row => row.userId = u ∧ row.organizationId = o
  | .updateMetric id _ _ => HasMetric d u o id
  | .destroyMetric id _ => HasMetric d u o id
  | .insertCategory row => row.userId = u ∧ row.organizationId = o
  | .updateCategory id _ _ => HasCategory d u o id
  | .destroyCategories userId organizationId _ _ => userId = u ∧ organizationId = o
  | .insertSettings row => HasMetric f u o row.metricId
  | .updateSettings id _ _ _ => ∀ s ∈ d.settings.rows, s.id = id → HasMetric f u o s.metricId
  | .deleteSettings id _ => ∀ s ∈ d.settings.rows, s.id = id → HasMetric f u o s.metricId
  | .insertLog row => HasMetric f u o row.metricId
  | .updateLogs id _ _ _ => ∀ l ∈ d.logs.rows, l.id = id → HasMetric f u o l.metricId
  | .deleteLogs id _ => ∀ l ∈ d.logs.rows, l.id = id → HasMetric f u o l.metricId

theorem HasMetric.of_row (h : HasMetric d u o id) {m : Metric} (hm : m ∈ d.metrics.rows)
    (hid : m.id = id) : m.userId = u ∧ m.organizationId = o := by
  obtain ⟨n, hn, hnid, rfl, rfl⟩ := h
  obtain rfl := d.metrics.eq_of_id hm hn (hid.trans hnid.symm)
  exact ⟨rfl, rfl⟩

theorem HasCategory.of_row (h : HasCategory d u o id) {c : MetricCategory}
    (hc : c ∈ d.categories.rows) (hid : c.id = id) : c.userId = u ∧ c.organizationId = o := by
  obtain ⟨n, hn, hnid, rfl, rfl⟩ := h
  obtain rfl := d.categories.eq_of_id hc hn (hid.trans hnid.symm)
  exact ⟨rfl, rfl⟩

/-- **A write on somebody's rows leaves all others.** -/
theorem onlyOf_apply (h : w.Of f u o d) : OnlyOf f u o d (w.apply d) where
  metrics m hm := by
    let Q (m : Metric) : Prop := m.userId = u ∧ m.organizationId = o
    cases w with
    | insertMetric row => exact mem_insert_other (Q := Q) h hm
    | updateMetric id patch now =>
      exact mem_updateWhere_other (Q := Q) (g := patch.apply now) (fun _ => rfl)
        (fun s hs hp => HasMetric.of_row h hs (of_decide_eq_true hp)) (fun _ hs => hs) hm
    | destroyMetric id now =>
      exact mem_updateWhere_other (Q := Q)
        (g := fun m => { m with updatedAt := now, deletedAt := some now }) (fun _ => rfl)
        (fun s hs hp => HasMetric.of_row h hs (of_decide_eq_true hp)) (fun _ hs => hs) hm
    | _ => exact .rfl
  categories c hc := by
    let Q (c : MetricCategory) : Prop := c.userId = u ∧ c.organizationId = o
    cases w with
    | insertCategory row => exact mem_insert_other (Q := Q) h hc
    | updateCategory id patch now =>
      exact mem_updateWhere_other (Q := Q) (g := patch.apply now) (fun _ => rfl)
        (fun s hs hp => HasCategory.of_row h hs (of_decide_eq_true hp)) (fun _ hs => hs) hc
    | destroyCategories userId organizationId id now =>
      refine mem_updateWhere_other (Q := Q) (g := fun c => { c with deletedAt := some now })
        (fun _ => rfl) (fun s hs hp => ?_) (fun _ hs => hs) hc
      simp only [ownsCategory, Bool.and_eq_true, decide_eq_true_eq] at hp
      exact ⟨hp.2.1.1.trans h.1, hp.2.1.2.trans h.2⟩
    | _ => exact .rfl
  settings s hs := by
    let Q (s : MetricSettings V) : Prop := HasMetric f u o s.metricId
    cases w with
    | insertSettings row => exact mem_insert_other (Q := Q) h hs
    | updateSettings id organizationId values now =>
      refine mem_updateWhere_other (Q := Q) (g := values.apply now) (fun _ => rfl)
        (fun s hs hp => h s hs ?_) (fun _ hs => hs) hs
      exact of_decide_eq_true (Bool.and_eq_true_iff.mp hp).1
    | deleteSettings id organizationId =>
      refine mem_delete_other (Q := Q) (fun s hs hp => h s hs ?_) hs
      exact of_decide_eq_true (Bool.and_eq_true_iff.mp hp).1
    | _ => exact .rfl
  logs l hl := by
    let Q (l : MetricLog V) : Prop := HasMetric f u o l.metricId
    cases w with
    | insertLog row => exact mem_insert_other (Q := Q) h hl
    | updateLogs id organizationId values now =>
      refine mem_updateWhere_other (Q := Q) (g := values.apply now) (fun _ => rfl)
        (fun l hl hp => h l hl ?_) (fun _ hl => hl) hl
      exact of_decide_eq_true (Bool.and_eq_true_iff.mp hp).1
    | deleteLogs id organizationId =>
      refine mem_delete_other (Q := Q) (fun l hl hp => h l hl ?_) hl
      exact of_decide_eq_true (Bool.and_eq_true_iff.mp hp).1
    | _ => exact .rfl

/-- A transaction that inserts a metric and its settings. -/
theorem onlyOf_foldl {ws : List (Write V)}
    (h : ∀ w ∈ ws, (∃ m, w = .insertMetric m ∧ m.userId = u ∧ m.organizationId = o) ∨
      ∃ row, w = .insertSettings row ∧ HasMetric f u o row.metricId) :
    OnlyOf f u o d (ws.foldl (fun d w => w.apply d) d) := by
  induction ws generalizing d with
  | nil => exact .refl f d u o
  | cons w ws ih =>
    refine (onlyOf_apply ?_).trans (ih fun v hv => h v (List.mem_cons_of_mem w hv))
    rcases h w List.mem_cons_self with ⟨m, rfl, hm⟩ | ⟨row, rfl, hrow⟩
    · exact hm
    · exact hrow

theorem OnlyOf.mono (h : OnlyOf f u o d e) {f' : Db V} (hk : Keeps f f') : OnlyOf f' u o d e :=
  ⟨h.metrics, h.categories, fun s hs => h.settings s fun hf => hs (hk.metric hf),
    fun l hl => h.logs l fun hf => hl (hk.metric hf)⟩

/-! ### Ids that are drawn -/

/-- A settings row or a log of such an id refers to the metric. -/
def Db.Refers (d : Db V) : TableName → Uuid → Uuid → Prop
  | .settings, id, metricId => ∃ s ∈ d.settings.rows, s.id = id ∧ s.metricId = metricId
  | .logs, id, metricId => ∃ l ∈ d.logs.rows, l.id = id ∧ l.metricId = metricId
  | _, _, _ => False

def Write.Refers : Write V → TableName → Uuid → Uuid → Prop
  | .insertSettings row, .settings, id, metricId => row.id = id ∧ row.metricId = metricId
  | .insertLog row, .logs, id, metricId => row.id = id ∧ row.metricId = metricId
  | _, _, _, _ => False

/-- The id that an event draws for a settings row or a log, and the metric that this refers to. -/
def drawn (e : MetricsEvent V) : Option (TableName × Uuid × Uuid) :=
  match e.act with
  | .call (.statement _ (.createSettings data)) (.ok id) => some (.settings, id, data.metricId)
  | .call (.statement _ (.createLog data)) (.ok id) => some (.logs, id, data.metricId)
  | _ => none

def Db.HasRow (d : Db V) : TableName → Uuid → Prop
  | .settings, id => ∃ s ∈ d.settings.rows, s.id = id
  | .logs, id => ∃ l ∈ d.logs.rows, l.id = id
  | _, _ => False

/-- An id that is drawn is new: no row has had it, and it has not been drawn. -/
def FreshIds (e : MetricsEvent V) (past : List (MetricsEvent V)) : Prop :=
  ∀ x ∈ drawn e, (∀ e' ∈ e :: past, ¬ e'.before.store.db.HasRow x.1 x.2.1) ∧
    ∀ e' ∈ past, ∀ y ∈ drawn e', (y.1, y.2.1) ≠ (x.1, x.2.1)

instance (d : Db V) (t : TableName) (id : Uuid) : Decidable (d.HasRow t id) :=
  match t with
  | .settings => inferInstanceAs (Decidable (∃ s ∈ d.settings.rows, s.id = id))
  | .logs => inferInstanceAs (Decidable (∃ l ∈ d.logs.rows, l.id = id))
  | .metrics => inferInstanceAs (Decidable False)
  | .categories => inferInstanceAs (Decidable False)

instance (e : MetricsEvent V) (past : List (MetricsEvent V)) : Decidable (FreshIds e past) :=
  inferInstanceAs (Decidable (∀ x ∈ drawn e, _))

/-- A row of the id refers to the metric, or has done so, or the id was drawn for one. -/
def Referred (s : MetricsState V) (t : TableName) (id m : Uuid) : Prop :=
  s.world.store.db.Refers t id m ∨
    ∃ e ∈ s.hist, e.before.store.db.Refers t id m ∨ drawn e = some (t, id, m)

/-- A row refers to the same metric for good. -/
theorem refers_apply {t : TableName} {m : Uuid} (h : (w.apply d).Refers t id m) :
    d.Refers t id m ∨ w.Refers t id m := by
  cases t with
  | settings =>
    obtain ⟨s, hs, rfl, rfl⟩ := h
    cases w with
    | insertSettings row =>
      rcases Table.mem_insert hs with rfl | hs
      · exact .inr ⟨rfl, rfl⟩
      · exact .inl ⟨s, hs, rfl, rfl⟩
    | updateSettings x organizationId values now =>
      exact .inl (forall_updateWhere (g := values.apply now) (fun _ => rfl)
        (P := fun s => d.Refers .settings s.id s.metricId) (fun s hs => ⟨s, hs, rfl, rfl⟩)
        (fun _ _ _ h => h) s hs)
    | deleteSettings x organizationId => exact .inl ⟨s, (Table.mem_delete.mp hs).1, rfl, rfl⟩
    | _ => exact .inl ⟨s, hs, rfl, rfl⟩
  | logs =>
    obtain ⟨l, hl, rfl, rfl⟩ := h
    cases w with
    | insertLog row =>
      rcases Table.mem_insert hl with rfl | hl
      · exact .inr ⟨rfl, rfl⟩
      · exact .inl ⟨l, hl, rfl, rfl⟩
    | updateLogs x organizationId values now =>
      exact .inl (forall_updateWhere (g := values.apply now) (fun _ => rfl)
        (P := fun l => d.Refers .logs l.id l.metricId) (fun l hl => ⟨l, hl, rfl, rfl⟩)
        (fun _ _ _ h => h) l hl)
    | deleteLogs x organizationId => exact .inl ⟨l, (Table.mem_delete.mp hl).1, rfl, rfl⟩
    | _ => exact .inl ⟨l, hl, rfl, rfl⟩
  | _ => exact h.elim

theorem refers_foldl {ws : List (Write V)} {t : TableName} {m : Uuid}
    (h : (ws.foldl (fun d w => w.apply d) d).Refers t id m) :
    d.Refers t id m ∨ ∃ w ∈ ws, w.Refers t id m := by
  induction ws generalizing d with
  | nil => exact .inl h
  | cons w ws ih =>
    rcases ih h with h | ⟨v, hv, h⟩
    · exact (refers_apply h).imp_right fun h => ⟨w, List.mem_cons_self, h⟩
    · exact .inr ⟨v, List.mem_cons_of_mem w hv, h⟩

/-- A write that refers to a metric is of a statement that draws the id. -/
theorem drawn_of_refers {i : Nat} {q : Request V} {w₀ w₁ : World V} {st : Statement V} {tx : Bool}
    {x : Uuid} {now : Date} {d : Db V} {t : TableName} {m : Uuid}
    (h : (st.write x now).Refers t id m) :
    drawn ⟨i, q, .call (.statement tx st) (.ok (st.answer x now d)), w₀, w₁⟩ = some (t, id, m) := by
  cases st with
  | createSettings data =>
    cases t with
    | settings =>
      obtain ⟨rfl, rfl⟩ := h
      rfl
    | _ => exact h.elim
  | createLog data =>
    cases t with
    | logs =>
      obtain ⟨rfl, rfl⟩ := h
      rfl
    | _ => exact h.elim
  | _ => exact h.elim

theorem Db.Refers.hasRow {t : TableName} {m : Uuid} (h : d.Refers t id m) : d.HasRow t id := by
  cases t with
  | settings =>
    obtain ⟨s, hs, hid, _⟩ := h
    exact ⟨s, hs, hid⟩
  | logs =>
    obtain ⟨l, hl, hid, _⟩ := h
    exact ⟨l, hl, hid⟩
  | _ => exact h

/-! ### What is known of the rows there are -/

/-- What the history of a run tells of its database. -/
structure Tenanted (D : Deps V) (s : MetricsState V) : Prop where
  answered : ∀ e ∈ s.hist, ∀ (y : Query) (a : y.Answer V),
    e.act = .call (.query false y) (.ok a) → a = y.eval D e.before.store.db
  keeps : ∀ e ∈ s.hist, Keeps e.before.store.db s.world.store.db
  once : ∀ t id m m', Referred s t id m → Referred s t id m' → m = m'
  pending : ∀ p ∈ s.world.store.pending, ∀ t id m, p.2.Refers t id m → Referred s t id m
  owners : ∀ p ∈ s.world.store.pending, ∀ row, p.2 = .insertMetric row →
    ∃ e ∈ s.hist, e.tid = p.1 ∧ e.req.tenant = (row.userId, row.organizationId)

namespace Tenanted

variable {s : MetricsState V} {l : List (MetricsEvent V)} {x : Uuid}

/-- A metric that was found is still theirs. -/
theorem found_metric (h : Tenanted D s) (hl : l ⊆ s.hist) {m : Metric}
    (ha : Answered (.findOwnedMetric u o x) (some m) l) : HasMetric s.world.store.db u o m.id := by
  obtain ⟨e, he, hact⟩ := ha
  obtain ⟨hm, hp⟩ := Table.of_findOne (h.answered e (hl he) _ _ hact).symm
  rw [Bool.and_eq_true, owns_iff] at hp
  exact (h.keeps e (hl he)).metric ⟨m, hm, rfl, hp.2.1⟩

theorem found_category (h : Tenanted D s) (hl : l ⊆ s.hist) {r : CategoryRow}
    (ha : Answered (.findOwnedCategory u o x) (some r) l) :
    HasCategory s.world.store.db u o r.category.id := by
  obtain ⟨e, he, hact⟩ := ha
  obtain ⟨c, hfound, rfl⟩ := Option.map_eq_some_iff.mp (h.answered e (hl he) _ _ hact).symm
  obtain ⟨hc, hp⟩ := Table.of_findOne hfound
  simp only [ownsCategory, Bool.and_eq_true, decide_eq_true_eq] at hp
  exact (h.keeps e (hl he)).category ⟨c, hc, rfl, hp.2.1⟩

theorem found_inOrganization (h : Tenanted D s) (hl : l ⊆ s.hist) {m : Metric}
    (ha : Answered (.findMetricInOrganization o x) (some m) l) :
    HasMetric s.world.store.db m.userId o x := by
  obtain ⟨e, he, hact⟩ := ha
  obtain ⟨hm, hp⟩ := Table.of_findOne (h.answered e (hl he) _ _ hact).symm
  simp only [Bool.and_eq_true, decide_eq_true_eq] at hp
  exact (h.keeps e (hl he)).metric ⟨m, hm, hp.1.1, rfl, hp.1.2⟩

/-- Settings that were found are still of a metric of theirs. -/
theorem found_settings (h : Tenanted D s) (hl : l ⊆ s.hist) {r : MetricSettings V}
    (ha : Answered (.findOwnedSettings u o x) (some r) l) :
    ∀ row ∈ s.world.store.db.settings.rows, row.id = r.id →
      HasMetric s.world.store.db u o row.metricId := by
  intro row hrow hid
  obtain ⟨e, he, hact⟩ := ha
  obtain ⟨hr, hp⟩ := Table.of_findOne (h.answered e (hl he) _ _ hact).symm
  have hmetric := hasMetric_of_joins (Bool.and_eq_true_iff.mp hp).2
  have hsame : row.metricId = r.metricId := h.once .settings r.id _ _
    (.inl ⟨row, hrow, hid, rfl⟩) (.inr ⟨e, hl he, .inl ⟨r, hr, rfl, rfl⟩⟩)
  exact hsame ▸ (h.keeps e (hl he)).metric hmetric

theorem found_logs (h : Tenanted D s) (hl : l ⊆ s.hist) {r : MetricLog V}
    (ha : Answered (.findOwnedLog u o x) (some r) l) :
    ∀ row ∈ s.world.store.db.logs.rows, row.id = r.id →
      HasMetric s.world.store.db u o row.metricId := by
  intro row hrow hid
  obtain ⟨e, he, hact⟩ := ha
  obtain ⟨hr, hp⟩ := Table.of_findOne (h.answered e (hl he) _ _ hact).symm
  have hmetric := hasMetric_of_joins (Bool.and_eq_true_iff.mp hp).2
  have hsame : row.metricId = r.metricId := h.once .logs r.id _ _
    (.inl ⟨row, hrow, hid, rfl⟩) (.inr ⟨e, hl he, .inl ⟨r, hr, rfl, rfl⟩⟩)
  exact hsame ▸ (h.keeps e (hl he)).metric hmetric

/-- What a request writes outside a transaction is on its own rows. -/
theorem of_own (h : Tenanted D s) (hl : l ⊆ s.hist) {st : Statement V} (hst : st.Own u o l false)
    (x : Uuid) (now : Date) : (st.write x now).Of s.world.store.db u o s.world.store.db := by
  cases st with
  | createMetric data => exact hst
  | updateMetric id patch =>
    obtain ⟨_, m, ha, rfl⟩ := hst
    exact h.found_metric hl ha
  | destroyMetric id =>
    obtain ⟨_, m, ha, rfl⟩ := hst
    exact h.found_metric hl ha
  | createCategory data => exact hst
  | updateCategory id patch =>
    obtain ⟨_, r, ha, rfl⟩ := hst
    exact h.found_category hl ha
  | destroyCategories userId organizationId id => exact hst
  | createSettings data =>
    obtain ⟨m, ha, rfl⟩ := hst rfl
    exact h.found_inOrganization hl ha
  | updateSettings id organizationId values =>
    obtain ⟨_, r, ha, rfl⟩ := hst
    exact h.found_settings hl ha
  | deleteSettings id organizationId =>
    obtain ⟨_, r, ha, rfl⟩ := hst
    exact h.found_settings hl ha
  | createLog data =>
    obtain ⟨m, ha, rfl⟩ := hst
    exact h.found_inOrganization hl ha
  | updateLogs id organizationId values =>
    obtain ⟨_, r, ha, rfl⟩ := hst
    exact h.found_logs hl ha
  | deleteLogs id organizationId =>
    obtain ⟨_, r, ha, rfl⟩ := hst
    exact h.found_logs hl ha

variable {i : Nat} {q : Request V} {op : Op V} {inp : Input} {r : Except Err op.Answer}
  {w' : World V}

/-- What a request commits is its own. -/
theorem onlyOf_commit (h : Tenanted D s) (hg : Guarded s.world.store)
    (hsame : ∀ e ∈ s.hist, e.tid = i → e.req = q) :
    OnlyOf (s.world.store.view (schema D) i) q.tenant.1 q.tenant.2 s.world.store.db
      (s.world.store.view (schema D) i) := by
  have howner : ∀ m, (i, .insertMetric m) ∈ s.world.store.pending →
      m.userId = q.tenant.1 ∧ m.organizationId = q.tenant.2 := by
    intro m hm
    obtain ⟨e, he, hi, ht⟩ := h.owners _ hm m rfl
    rw [← hsame e he hi, ht]
    exact ⟨rfl, rfl⟩
  refine onlyOf_foldl fun w hw => ?_
  rcases hg.pending (i, w) (s.world.store.mem_pendingOf.mp hw) with
    ⟨m, hwm, _⟩ | ⟨row, hrow, m, hm, hid, _⟩
  · exact .inl ⟨m, hwm, howner m (hwm ▸ s.world.store.mem_pendingOf.mp hw)⟩
  · obtain ⟨hu, ho⟩ := howner m hm
    exact .inr ⟨row, hrow, hu ▸ ho ▸ hid ▸ hg.hasMetric_view hm⟩

/-- **A call changes rows of its own request.** -/
theorem onlyOf_exec (h : Tenanted D s) (hg : Guarded s.world.store) (hpre : tenantPre i q op s)
    (hsame : ∀ e ∈ s.hist, e.tid = i → e.req = q)
    (he : exec D i inp op s.world = some (r, w')) :
    OnlyOf w'.store.db q.tenant.1 q.tenant.2 s.world.store.db w'.store.db := by
  rcases exec_store he with hs | ⟨tx, st, rfl, hs, _⟩ | hs | hs
  · rw [hs]
    exact .refl _ _ _ _
  · rw [hs]
    cases tx with
    | true => exact .refl _ _ _ _
    | false =>
      have hof := h.of_own (fun e he => (mem_of_mem_own he).1) hpre inp.id inp.now
      exact (onlyOf_apply hof).mono (keeps_apply _ _)
  · rw [hs]
    exact h.onlyOf_commit hg hsame
  · rw [hs]
    exact .refl _ _ _ _

/-! ### Steps -/

/-- What a step does to what is known. -/
theorem push {a : Act (Op V) Op.Answer Err} (h : Tenanted D s)
    (hanswered : ∀ (y : Query) (b : y.Answer V), a = .call (.query false y) (.ok b) →
      b = y.eval D s.world.store.db)
    (hkeeps : Keeps s.world.store.db w'.store.db)
    (hrefers : ∀ t id m, w'.store.db.Refers t id m →
      Referred s t id m ∨ drawn ⟨i, q, a, s.world, w'⟩ = some (t, id, m))
    (hpending : ∀ p ∈ w'.store.pending, p ∈ s.world.store.pending ∨
      (∀ t id m, p.2.Refers t id m → drawn ⟨i, q, a, s.world, w'⟩ = some (t, id, m)) ∧
        ∀ row, p.2 = .insertMetric row → p.1 = i ∧ q.tenant = (row.userId, row.organizationId))
    (hfresh : FreshIds ⟨i, q, a, s.world, w'⟩ s.hist) : Tenanted D (s.push i q a w') := by
  have hmono : ∀ {t id m}, Referred s t id m → Referred (s.push i q a w') t id m := by
    rintro t id m (hdb | ⟨e, he, hr⟩)
    · exact .inr ⟨_, List.mem_cons_self, .inl hdb⟩
    · exact .inr ⟨e, List.mem_cons_of_mem _ he, hr⟩
  have hcases : ∀ {t id m}, Referred (s.push i q a w') t id m →
      Referred s t id m ∨ drawn ⟨i, q, a, s.world, w'⟩ = some (t, id, m) := by
    rintro t id m (hdb | ⟨e, he, hr⟩)
    · exact hrefers t id m hdb
    · rcases List.mem_cons.mp he with rfl | he
      · exact hr.imp_left .inl
      · exact .inl (.inr ⟨e, he, hr⟩)
  have hnew : ∀ {t id m m'}, drawn ⟨i, q, a, s.world, w'⟩ = some (t, id, m) → ¬ Referred s t id m' := by
    intro t id m m' hd hr
    obtain ⟨hbefore, hdrawn⟩ := hfresh _ hd
    rcases hr with hdb | ⟨e, he, hdb | hr⟩
    · exact hbefore _ List.mem_cons_self hdb.hasRow
    · exact hbefore e (List.mem_cons_of_mem _ he) hdb.hasRow
    · exact hdrawn e he _ hr rfl
  refine ⟨?_, ?_, ?_, ?_, ?_⟩
  · intro e he y b hact
    rcases List.mem_cons.mp he with rfl | he
    · exact hanswered y b hact
    · exact h.answered e he y b hact
  · intro e he
    rcases List.mem_cons.mp he with rfl | he
    · exact hkeeps
    · exact (h.keeps e he).trans hkeeps
  · intro t id m m' hr hr'
    rcases hcases hr with hr | hd <;> rcases hcases hr' with hr' | hd'
    · exact h.once t id m m' hr hr'
    · exact absurd hr (hnew hd')
    · exact absurd hr' (hnew hd)
    · cases hd.symm.trans hd'
      rfl
  · intro p hp t id m hr
    rcases hpending p hp with hp | ⟨hd, _⟩
    · exact hmono (h.pending p hp t id m hr)
    · exact .inr ⟨_, List.mem_cons_self, .inr (hd t id m hr)⟩
  · intro p hp row hrow
    rcases hpending p hp with hp | ⟨_, ho⟩
    · obtain ⟨e, he, ht⟩ := h.owners p hp row hrow
      exact ⟨e, List.mem_cons_of_mem _ he, ht⟩
    · exact ⟨_, List.mem_cons_self, (ho row hrow).1.symm, (ho row hrow).2⟩

/-- What is known after a call. -/
theorem call (h : Tenanted D s) (hpre : tenantPre i q op s)
    (he : exec D i inp op s.world = some (r, w'))
    (hfresh : FreshIds ⟨i, q, .call op r, s.world, w'⟩ s.hist) :
    Tenanted D (s.push i q (.call op r) w') := by
  have hanswered : ∀ (y : Query) (b : y.Answer V),
      (.call op r : Act (Op V) Op.Answer Err) = .call (.query false y) (.ok b) →
        b = y.eval D s.world.store.db := by
    intro y b hact
    cases hact
    exact (exec_query he).1
  have hsame : w'.store.db = s.world.store.db → Keeps s.world.store.db w'.store.db ∧
      ∀ t id m, w'.store.db.Refers t id m →
        Referred s t id m ∨ drawn ⟨i, q, .call op r, s.world, w'⟩ = some (t, id, m) :=
    fun hdb => ⟨hdb ▸ Keeps.refl _, fun t id m hr => .inl (.inl (hdb ▸ hr))⟩
  rcases exec_store he with hs | ⟨tx, st, rfl, _⟩ | hs | hs
  · obtain ⟨hkeeps, hrefers⟩ := hsame (congrArg Store.db hs)
    exact h.push hanswered hkeeps hrefers (fun p hp => .inl (hs ▸ hp)) hfresh
  · rcases exec_statement he with ⟨e, _, rfl⟩ | ⟨rfl, hs, _⟩
    · obtain ⟨hkeeps, hrefers⟩ := hsame rfl
      exact h.push hanswered hkeeps hrefers (fun p hp => .inl hp) hfresh
    cases tx with
    | true =>
      obtain ⟨hkeeps, hrefers⟩ := hsame (by rw [hs]; rfl)
      refine h.push hanswered hkeeps hrefers (fun p hp => ?_) hfresh
      rw [hs] at hp
      rcases List.mem_append.mp hp with hp | hp
      · exact .inl hp
      · obtain rfl := List.mem_singleton.mp hp
        refine .inr ⟨fun _ _ _ hr => drawn_of_refers hr, fun row hrow => ⟨rfl, ?_⟩⟩
        cases st with
        | createMetric data =>
          cases hrow
          exact Prod.ext hpre.1.symm hpre.2.symm
        | _ => cases hrow
    | false =>
      have hdb : w'.store.db = (st.write inp.id inp.now).apply s.world.store.db :=
        congrArg Store.db hs
      refine h.push hanswered (hdb ▸ keeps_apply _ _) (fun t id m hr => ?_) (fun p hp => ?_) hfresh
      · exact (refers_apply (hdb ▸ hr)).imp .inl drawn_of_refers
      · rw [hs] at hp
        exact .inl hp
  · have hdb : w'.store.db = s.world.store.view (schema D) i := congrArg Store.db hs
    refine h.push hanswered (hdb ▸ keeps_view D _ i) (fun t id m hr => ?_) (fun p hp => ?_) hfresh
    · rcases refers_foldl (hdb ▸ hr) with hr | ⟨w, hw, hr⟩
      · exact .inl (.inl hr)
      · exact .inl (h.pending _ (s.world.store.mem_pendingOf.mp hw) t id m hr)
    · rw [hs] at hp
      exact .inl (List.mem_of_mem_filter hp)
  · obtain ⟨hkeeps, hrefers⟩ := hsame (by rw [hs]; rfl)
    refine h.push hanswered hkeeps hrefers (fun p hp => ?_) hfresh
    rw [hs] at hp
    exact .inl (List.mem_of_mem_filter hp)

/-- A crash leaves what is committed. -/
theorem crash (h : Tenanted D s) :
    Tenanted D (s.push i q .crash { s.world with store := s.world.store.drop i }) := by
  refine h.push (fun _ _ hact => ?_) (Keeps.refl _) (fun _ _ _ hr => .inl (.inl hr))
    (fun p hp => .inl (List.mem_of_mem_filter hp)) fun x hx => ?_
  · cases hact
  · cases hx

end Tenanted

/-! ### Runs -/

section

variable [LinearOrder V] [Zero V]

/-- Every thread serves one request. -/
def OneRequest (hist : List (MetricsEvent V)) : Prop :=
  ∀ e ∈ hist, ∀ e' ∈ hist, e.tid = e'.tid → e.req = e'.req

theorem oneRequest_of_reachable {init : World V → Prop} {c : MetricsConfig V}
    (h : (metricsMachine D).Reachable init c) : OneRequest c.state.hist := by
  intro e he e' he' hi
  obtain ⟨p, hp⟩ := Contract.thread_of_event h e he
  obtain ⟨p', hp'⟩ := Contract.thread_of_event h e' he'
  rw [hi, hp'] at hp
  exact (congrArg Prod.fst (Option.some.inj hp)).symm

/-- What a run knows, and whose rows its calls have changed. -/
def Attributed (D : Deps V) (s : MetricsState V) : Prop :=
  Throughout FreshIds s.hist → OneRequest s.hist → Tenanted D s ∧
    ∀ e ∈ s.hist, OnlyOf e.after.store.db e.req.tenant.1 e.req.tenant.2 e.before.store.db
      e.after.store.db

omit [LinearOrder V] [Zero V] in
theorem tenanted_init {w : World V} (hw : StartsScoped w) : Tenanted D ⟨w, []⟩ := by
  obtain ⟨d, cache, _, rfl⟩ := hw
  refine ⟨fun e he => absurd he List.not_mem_nil, fun e he => absurd he List.not_mem_nil, ?_,
    fun p hp => absurd hp List.not_mem_nil, fun p hp => absurd hp List.not_mem_nil⟩
  have hdb : ∀ {t id m}, Referred ⟨World.init d cache, []⟩ t id m → d.Refers t id m := by
    rintro t id m (h | ⟨e, he, _⟩)
    · exact h
    · cases he
  intro t id m m' h h'
  have hm := hdb h
  have hm' := hdb h'
  cases t with
  | settings =>
    obtain ⟨r, hr, rfl, rfl⟩ := hm
    obtain ⟨r', hr', hid, rfl⟩ := hm'
    rw [d.settings.eq_of_id hr hr' hid.symm]
  | logs =>
    obtain ⟨r, hr, rfl, rfl⟩ := hm
    obtain ⟨r', hr', hid, rfl⟩ := hm'
    rw [d.logs.eq_of_id hr hr' hid.symm]
  | _ => exact hm.elim

omit [LinearOrder V] [Zero V] in
theorem guarded_init {w : World V} (hw : StartsScoped w) : Guarded w.store := by
  obtain ⟨d, cache, hd, rfl⟩ := hw
  exact ⟨hd, fun _ hp => absurd hp List.not_mem_nil, fun _ hp => absurd hp List.not_mem_nil,
    List.Pairwise.nil⟩

/-- **Every call of a run changes rows of its own request.** -/
theorem attributed_of_reachable {c : MetricsConfig V}
    (h : (metricsMachine D).Reachable StartsScoped c) : Attributed D c.state := by
  refine ((ownership D).inter (tenancy D StartsScoped)).keeps_of_reachable
    (J := Attributed D) (fun w hw => ⟨⟨guarded_init hw, w, hw, rfl, trivial⟩, fun _ _ =>
      ⟨tenanted_init hw, fun e he => absurd he List.not_mem_nil⟩⟩) (fun i q s _ _ _ => ?_)
    (fun i q op s inp r w hinv hj hpre he hfresh hone => ?_) (fun i q s _ hj hfresh hone => ?_) h
  · exact Contract.wp_mono (fun _ _ _ => trivial) (fun _ _ _ => trivial)
      (Contract.wp_inter (Ownership.meets_handle q s) (meets_tenancy q s))
  · obtain ⟨ht, honly⟩ := hj hfresh.2 fun e he e' he' =>
      hone e (List.mem_cons_of_mem _ he) e' (List.mem_cons_of_mem _ he')
    refine ⟨ht.call hpre.2 he hfresh.1, fun e hmem => ?_⟩
    rcases List.mem_cons.mp hmem with rfl | hmem
    · exact ht.onlyOf_exec hinv.1 hpre.2 (fun e hmem hi =>
        hone e (List.mem_cons_of_mem _ hmem) _ List.mem_cons_self hi) he
    · exact honly e hmem
  · obtain ⟨ht, honly⟩ := hj hfresh.2 fun e he e' he' =>
      hone e (List.mem_cons_of_mem _ he) e' (List.mem_cons_of_mem _ he')
    refine ⟨ht.crash, fun e hmem => ?_⟩
    rcases List.mem_cons.mp hmem with rfl | hmem
    · exact .refl _ _ _ _
    · exact honly e hmem

/-- A decision of the scheduler leaves the rows of those it does not serve. -/
theorem sameOwn_next {c c' : MetricsConfig V} {l : Label Input (Request V)}
    (h : (metricsMachine D).Reachable StartsScoped c) (hn : (metricsMachine D).next c l = some c')
    (hfresh : Throughout FreshIds c'.state.hist) :
    ∃ since, c'.state.hist = since ++ c.state.hist ∧
      ((∀ e ∈ since, e.req.tenant ≠ (u, o)) →
        SameOwn u o c.state.world.store.db c'.state.world.store.db) := by
  have hr := h.step hn
  obtain ⟨_, honly⟩ := attributed_of_reachable hr hfresh (oneRequest_of_reachable hr)
  rcases Machine.next_cases hn with
    ⟨q, _, rfl⟩ | ⟨i, inp, q, op, k, r, w, _, _, rfl⟩ | ⟨i, q, op, k, _, rfl⟩
  · exact ⟨[], rfl, fun _ => .refl u o _⟩
  · exact ⟨[_], rfl, fun ho => (honly _ List.mem_cons_self).sameOwn (ho _ List.mem_cons_self)⟩
  · exact ⟨[_], rfl, fun _ => .refl u o _⟩

theorem sameOwn_run {c c' : MetricsConfig V} {ls : List (Label Input (Request V))}
    (h : (metricsMachine D).Reachable StartsScoped c)
    (hrun : (metricsMachine D).run c ls = some c') (hfresh : Throughout FreshIds c'.state.hist) :
    ∃ since, c'.state.hist = since ++ c.state.hist ∧
      ((∀ e ∈ since, e.req.tenant ≠ (u, o)) →
        SameOwn u o c.state.world.store.db c'.state.world.store.db) := by
  induction ls generalizing c with
  | nil =>
    cases hrun
    exact ⟨[], rfl, fun _ => .refl u o _⟩
  | cons l ls ih =>
    obtain ⟨c₁, hn, hrun⟩ := Option.bind_eq_some_iff.mp hrun
    obtain ⟨later, hlater, hrest⟩ := ih (h.step hn) hrun
    have hfresh₁ : Throughout FreshIds c₁.state.hist :=
      hfresh.suffix (hlater ▸ List.suffix_append later _)
    obtain ⟨since, hsince, hfirst⟩ := sameOwn_next h hn hfresh₁
    refine ⟨later ++ since, by rw [hlater, hsince, List.append_assoc], fun ho => ?_⟩
    exact (hfirst fun e he => ho e (List.mem_append_right later he)).trans
      (hrest fun e he => ho e (List.mem_append_left since he))

/-- **Tenants keep apart**: as long as the calls that are made are for others, the rows of a user
in an organization stay as they are, and his reads there are answered as before. -/
theorem tenants_apart {c c' : MetricsConfig V} {ls : List (Label Input (Request V))}
    {since : List (MetricsEvent V)} (h : (metricsMachine D).Reachable StartsScoped c)
    (hrun : (metricsMachine D).run c ls = some c') (hfresh : Throughout FreshIds c'.state.hist)
    (hsince : c'.state.hist = since ++ c.state.hist)
    (hothers : ∀ e ∈ since, e.req.tenant ≠ (u, o)) :
    SameOwn u o c.state.world.store.db c'.state.world.store.db ∧
    ∀ g : GetRequest V,
      (∀ id, g.accesses = some id →
        (findOwnedMetric c.state.world.store.db u o id).isSome = true) →
      respond D c'.state.world.store.db u o g = respond D c.state.world.store.db u o g := by
  obtain ⟨since', hsince', hsame⟩ := sameOwn_run h hrun hfresh
  obtain rfl := List.append_cancel_right (hsince.symm.trans hsince')
  have hown := hsame hothers
  exact ⟨hown, fun g hg => (hown.respond_eq (scoped_of_reachable h)
    (scoped_of_reachable (h.run hrun)) g hg).symm⟩

end

/-! ### Two users in one organization -/

/-- User 3 creates a metric in organization 2. -/
def creatingOther : List (Label Input (Request (Fin 100))) :=
  .spawn (.createMetric ⟨3, 2, none, none, "Runs", none, "km", true⟩) ::
    List.replicate 10 (.step 1 ⟨8, Utc.epoch, 0⟩)

/-- What user 1 has created is listed as before. -/
theorem tenants_apart_created :
    ∃ c ∈ (metricsMachine utcDeps).run atStart creating,
      ∃ c' ∈ (metricsMachine utcDeps).run c creatingOther,
        (findMetricInOrganization c'.state.world.store.db 2 8).isSome = true ∧
        ∀ opts, respond utcDeps c'.state.world.store.db 1 2 (.listMetrics opts) =
          respond utcDeps c.state.world.store.db 1 2 (.listMetrics opts) := by
  have hval : (((metricsMachine utcDeps).run atStart creating).bind fun c =>
      ((metricsMachine utcDeps).run c creatingOther).map fun c' =>
        (decide (Throughout FreshIds c'.state.hist),
          decide (∀ e ∈ c'.state.hist.take (c'.state.hist.length - c.state.hist.length),
            e.req.tenant ≠ (1, 2)),
          (findMetricInOrganization c'.state.world.store.db 2 8).isSome)) =
        some (true, true, true) := by
    decide +kernel
  obtain ⟨c, hc, hval⟩ := Option.bind_eq_some_iff.mp hval
  obtain ⟨c', hc', hval⟩ := Option.map_eq_some_iff.mp hval
  obtain ⟨hfresh, hval⟩ := Prod.mk.inj hval
  obtain ⟨hothers, hfound⟩ := Prod.mk.inj hval
  have hr := Machine.reachable_of_run startsScoped_empty hc
  obtain ⟨since, hsince, _⟩ := sameOwn_run (u := 1) (o := 2) hr hc' (of_decide_eq_true hfresh)
  have htake : c'.state.hist.take (c'.state.hist.length - c.state.hist.length) = since := by
    rw [hsince, List.length_append, Nat.add_sub_cancel, List.take_left]
  rw [htake] at hothers
  exact ⟨c, hc, c', hc', hfound, fun opts => (tenants_apart hr hc' (of_decide_eq_true hfresh)
    hsince (of_decide_eq_true hothers)).2 (.listMetrics opts) fun _ hid => by cases hid⟩

end LakiraBackend.Metrics
