import LakiraBackend.Metrics.System
import Mathlib.Data.List.Pairwise

/-!
# What a row refers to

A metric names a category, a settings row and a log name a metric.  `Scoped` says that the
category is of the metric's user in its organization, and the metric of the organization of
what names it.  Rows of categories and of metrics stay, with their owner (`keeps_apply`), so a
write keeps a database scoped when what it refers to is there (`Scoped.apply`).

In a store the uncommitted writes are a metric and its settings, and nobody else has a metric
of that id (`Guarded`): a session's data is scoped when it commits.
-/

namespace LakiraBackend.Metrics

open LakiraBackend.Auth (Err)
open LakiraBackend.Concurrency LakiraBackend.JavaScript LakiraBackend.Postgres

variable {V : Type}

/-! ### Identities -/

/-- There is such a category, deleted or not. -/
def HasCategory (d : Db V) (userId organizationId id : Uuid) : Prop :=
  ∃ c ∈ d.categories.rows, c.id = id ∧ c.userId = userId ∧ c.organizationId = organizationId

/-- There is such a metric, deleted or not. -/
def HasMetric (d : Db V) (userId organizationId id : Uuid) : Prop :=
  ∃ m ∈ d.metrics.rows, m.id = id ∧ m.userId = userId ∧ m.organizationId = organizationId

/-- A metric of anyone in the organization. -/
def InOrganization (d : Db V) (organizationId id : Uuid) : Prop :=
  ∃ userId, HasMetric d userId organizationId id

/-- What one database has of identities, another has. -/
structure Keeps (d e : Db V) : Prop where
  category : ∀ {u o id : Uuid}, HasCategory d u o id → HasCategory e u o id
  metric : ∀ {u o id : Uuid}, HasMetric d u o id → HasMetric e u o id

variable {d e f : Db V} {u o id : Uuid}

theorem Keeps.refl (d : Db V) : Keeps d d := ⟨fun h => h, fun h => h⟩

theorem Keeps.trans (h : Keeps d e) (h' : Keeps e f) : Keeps d f :=
  ⟨fun hc => h'.category (h.category hc), fun hm => h'.metric (h.metric hm)⟩

theorem Keeps.inOrganization (h : Keeps d e) (hm : InOrganization d o id) : InOrganization e o id :=
  hm.imp fun _ => h.metric

/-- An UPDATE that leaves the owner of each row keeps the identities. -/
theorem exists_of_updateWhere {Row : Type} {key : Row → Uuid} {t : Table key} {p : Row → Bool}
    {g : Row → Row} (hg : ∀ r, key (g r) = key r) {P : Row → Prop} (hP : ∀ r, P r → P (g r))
    (h : ∃ r ∈ t.rows, P r) : ∃ r ∈ (t.updateWhere p g hg).rows, P r := by
  obtain ⟨r, hr, hp⟩ := h
  by_cases hpr : p r = true
  · exact ⟨g r, Table.mem_updateWhere.mpr (.inl ⟨r, hr, hpr, rfl⟩), hP r hp⟩
  · exact ⟨r, Table.mem_updateWhere.mpr (.inr ⟨hr, Bool.not_eq_true _ ▸ hpr⟩), hp⟩

/-- No write takes an identity away. -/
theorem keeps_apply (w : Write V) (d : Db V) : Keeps d (w.apply d) where
  category := by
    intro u o id h
    cases w with
    | insertCategory row => exact h.imp fun c hc => ⟨Table.mem_insert_of_mem hc.1, hc.2⟩
    | updateCategory _ patch now =>
      exact exists_of_updateWhere (g := patch.apply now) (fun _ => rfl) (fun _ hc => hc) h
    | destroyCategories _ _ _ now =>
      exact exists_of_updateWhere (g := fun c => { c with deletedAt := some now }) (fun _ => rfl)
        (fun _ hc => hc) h
    | _ => exact h
  metric := by
    intro u o id h
    cases w with
    | insertMetric row => exact h.imp fun m hm => ⟨Table.mem_insert_of_mem hm.1, hm.2⟩
    | updateMetric _ patch now =>
      exact exists_of_updateWhere (g := patch.apply now) (fun _ => rfl) (fun _ hm => hm) h
    | destroyMetric _ now =>
      exact exists_of_updateWhere
        (g := fun m => { m with updatedAt := now, deletedAt := some now }) (fun _ => rfl)
        (fun _ hm => hm) h
    | _ => exact h

theorem keeps_foldl (ws : List (Write V)) (d : Db V) :
    Keeps d (ws.foldl (fun d w => w.apply d) d) := by
  induction ws generalizing d with
  | nil => exact Keeps.refl d
  | cons w ws ih => exact (keeps_apply w d).trans (ih (w.apply d))

/-! ### References -/

/-- Every reference of a row of `d` is to a row that `e` has. -/
structure RefersTo (e d : Db V) : Prop where
  category : ∀ m ∈ d.metrics.rows, ∀ c, m.categoryId = some c →
    HasCategory e m.userId m.organizationId c
  settings : ∀ s ∈ d.settings.rows, InOrganization e s.organizationId s.metricId
  logs : ∀ l ∈ d.logs.rows, InOrganization e l.organizationId l.metricId

abbrev Scoped (d : Db V) : Prop := RefersTo d d

/-- The references that a write makes. -/
def WriteRefersTo (e d : Db V) : Write V → Prop
  | .insertMetric row => ∀ c, row.categoryId = some c →
      HasCategory e row.userId row.organizationId c
  | .updateMetric id patch _ => ∀ m ∈ d.metrics.rows, m.id = id → ∀ c,
      patch.categoryId = some (some c) → HasCategory e m.userId m.organizationId c
  | .insertSettings row => InOrganization e row.organizationId row.metricId
  | .insertLog row => InOrganization e row.organizationId row.metricId
  | _ => True

theorem RefersTo.mono (h : RefersTo e d) (hk : Keeps e f) : RefersTo f d where
  category := fun m hm c hc => hk.category (h.category m hm c hc)
  settings := fun s hs => hk.inOrganization (h.settings s hs)
  logs := fun l hl => hk.inOrganization (h.logs l hl)

/-- What holds of the rows, and of each row an UPDATE makes, holds after it. -/
theorem forall_updateWhere {Row : Type} {key : Row → Uuid} {t : Table key} {p : Row → Bool}
    {g : Row → Row} (hg : ∀ r, key (g r) = key r) {P : Row → Prop} (h : ∀ r ∈ t.rows, P r)
    (hg' : ∀ r ∈ t.rows, p r = true → P r → P (g r)) : ∀ r ∈ (t.updateWhere p g hg).rows, P r := by
  intro r hr
  rcases Table.mem_updateWhere.mp hr with ⟨s, hs, hp, rfl⟩ | ⟨hr, _⟩
  · exact hg' s hs hp (h s hs)
  · exact h r hr

theorem forall_insert {Row : Type} {key : Row → Uuid} {t : Table key} {row : Row} {P : Row → Prop}
    (h : ∀ r ∈ t.rows, P r) (hrow : P row) : ∀ r ∈ (t.insert row).rows, P r := by
  intro r hr
  rcases Table.mem_insert hr with rfl | hr
  · exact hrow
  · exact h r hr

/-- **A write adds the references it makes, and no others.** -/
theorem RefersTo.apply {w : Write V} (h : RefersTo e d) (hw : WriteRefersTo e d w) :
    RefersTo e (w.apply d) where
  category := by
    cases w with
    | insertMetric row => exact forall_insert h.category hw
    | updateMetric id patch now =>
      refine forall_updateWhere (g := patch.apply now) (fun _ => rfl) h.category
        fun m hm hid hold c hc => ?_
      cases hp : patch.categoryId with
      | none =>
        refine hold c ?_
        rw [← hc]
        change m.categoryId = patch.categoryId.getD m.categoryId
        rw [hp]
        rfl
      | some x =>
        have hx : x = some c := by
          rw [← hc]
          change x = patch.categoryId.getD m.categoryId
          rw [hp]
          rfl
        exact hw m hm (of_decide_eq_true hid) c (hp.trans (congrArg some hx))
    | destroyMetric id now =>
      exact forall_updateWhere
        (g := fun m => { m with updatedAt := now, deletedAt := some now }) (fun _ => rfl) h.category
        fun _ _ _ hold => hold
    | _ => exact h.category
  settings := by
    cases w with
    | insertSettings row => exact forall_insert h.settings hw
    | updateSettings id organizationId values now =>
      exact forall_updateWhere (g := values.apply now) (fun _ => rfl) h.settings
        fun _ _ _ hold => hold
    | deleteSettings id organizationId => exact fun s hs => h.settings s (Table.mem_delete.mp hs).1
    | _ => exact h.settings
  logs := by
    cases w with
    | insertLog row => exact forall_insert h.logs hw
    | updateLogs id organizationId values now =>
      exact forall_updateWhere (g := values.apply now) (fun _ => rfl) h.logs
        fun _ _ _ hold => hold
    | deleteLogs id organizationId => exact fun l hl => h.logs l (Table.mem_delete.mp hl).1
    | _ => exact h.logs

theorem Scoped.apply {w : Write V} (h : Scoped d) (hw : WriteRefersTo d d w) :
    Scoped (w.apply d) :=
  (RefersTo.apply h hw).mono (keeps_apply w d)

/-! ### Uncommitted writes -/

/-- Two writes do not insert one metric. -/
def Apart (v w : Write V) : Prop :=
  ∀ m n, v = .insertMetric m → w = .insertMetric n → m.id ≠ n.id

instance : Std.Symm fun p q : Nat × Write V => Apart p.2 q.2 where
  symm _ _ h m n hm hn := (h n m hn hm).symm

def metricIds (d : Db V) : List Uuid := d.metrics.rows.map Metric.id

theorem metricIds_apply {w : Write V} (h : ∀ m, w ≠ .insertMetric m) :
    metricIds (w.apply d) = metricIds d := by
  have hupdate : ∀ (p : Metric → Bool) (g : Metric → Metric) (hg : ∀ m, (g m).id = m.id),
      (d.metrics.updateWhere p g hg).rows.map Metric.id = metricIds d := by
    intro p g hg
    refine List.map_map.trans (List.map_congr_left fun m _ => ?_)
    change (if p m then g m else m).id = m.id
    split
    · exact hg m
    · rfl
  cases w with
  | insertMetric m => exact absurd rfl (h m)
  | updateMetric _ patch now => exact hupdate _ (patch.apply now) fun _ => rfl
  | destroyMetric _ now =>
    exact hupdate _ (fun m => { m with updatedAt := now, deletedAt := some now }) fun _ => rfl
  | _ => rfl

/-- The ids of a database are those there were, and that of the metric that is inserted. -/
theorem mem_metricIds_apply {w : Write V} :
    id ∈ metricIds (w.apply d) ↔ id ∈ metricIds d ∨ ∃ m, w = .insertMetric m ∧ m.id = id := by
  by_cases h : ∃ m, w = .insertMetric m
  · obtain ⟨m, rfl⟩ := h
    constructor
    · intro hid
      obtain ⟨n, hn, rfl⟩ := List.mem_map.mp hid
      rcases Table.mem_insert hn with rfl | hn
      · exact .inr ⟨n, rfl, rfl⟩
      · exact .inl (List.mem_map_of_mem hn)
    · rintro (hid | ⟨n, hn, rfl⟩)
      · obtain ⟨n, hn, rfl⟩ := List.mem_map.mp hid
        exact List.mem_map_of_mem (Table.mem_insert_of_mem hn)
      · cases hn
        by_cases hold : m.id ∈ metricIds d
        · obtain ⟨n, hn, hid⟩ := List.mem_map.mp hold
          exact hid ▸ List.mem_map_of_mem (Table.mem_insert_of_mem hn)
        · exact List.mem_map_of_mem (Table.mem_insert_self hold)
  · rw [metricIds_apply fun m hm => h ⟨m, hm⟩]
    exact ⟨.inl, fun hid => hid.resolve_right fun ⟨m, hm, _⟩ => h ⟨m, hm⟩⟩

theorem mem_metricIds_foldl {ws : List (Write V)} :
    id ∈ metricIds (ws.foldl (fun d w => w.apply d) d) ↔
      id ∈ metricIds d ∨ ∃ m, .insertMetric m ∈ ws ∧ m.id = id := by
  induction ws generalizing d with
  | nil => simp
  | cons w ws ih =>
    rw [List.foldl_cons, ih, mem_metricIds_apply, or_assoc]
    refine or_congr_right ?_
    constructor
    · rintro (⟨m, rfl, hm⟩ | ⟨m, hmem, hm⟩)
      · exact ⟨m, List.mem_cons_self, hm⟩
      · exact ⟨m, List.mem_cons_of_mem w hmem, hm⟩
    · rintro ⟨m, hmem, hm⟩
      rcases List.mem_cons.mp hmem with h | h
      · exact .inl ⟨m, h.symm, hm⟩
      · exact .inr ⟨m, h, hm⟩

/-- A metric that is inserted under a new id is there. -/
theorem hasMetric_foldl {ws : List (Write V)} {m : Metric}
    (hnew : ∀ n, .insertMetric n ∈ ws → n.id ∉ metricIds d) (hapart : ws.Pairwise Apart)
    (hm : .insertMetric m ∈ ws) :
    HasMetric (ws.foldl (fun d w => w.apply d) d) m.userId m.organizationId m.id := by
  induction ws generalizing d with
  | nil => cases hm
  | cons w ws ih =>
    obtain ⟨hw, hrest⟩ := List.pairwise_cons.mp hapart
    rcases List.mem_cons.mp hm with rfl | hm
    · have hin : HasMetric ((Write.insertMetric (V := V) m).apply d) m.userId m.organizationId
          m.id := ⟨m, Table.mem_insert_self (hnew m List.mem_cons_self), rfl, rfl, rfl⟩
      exact (keeps_foldl ws _).metric hin
    · refine ih (fun n hn hmem => ?_) hrest hm
      rcases mem_metricIds_apply.mp hmem with h | ⟨n', rfl, hid⟩
      · exact hnew n (List.mem_cons_of_mem w hn) h
      · exact hw _ hn n' n rfl rfl hid

theorem RefersTo.foldl {ws : List (Write V)} (h : RefersTo e d)
    (hws : ∀ w ∈ ws, ∀ d, WriteRefersTo e d w) :
    RefersTo e (ws.foldl (fun d w => w.apply d) d) := by
  induction ws generalizing d with
  | nil => exact h
  | cons w ws ih =>
    exact ih (h.apply (hws w List.mem_cons_self d)) fun v hv => hws v (List.mem_cons_of_mem w hv)

/-! ### Stores -/

/-- A transaction inserts a metric, then its settings; nobody else has a metric of that id. -/
structure Guarded (s : MetricsStore V) : Prop where
  refers : Scoped s.db
  pending : ∀ p ∈ s.pending,
    (∃ m, p.2 = .insertMetric m ∧ WriteRefersTo s.db s.db p.2) ∨
    ∃ row, p.2 = .insertSettings row ∧ ∃ m : Metric, (p.1, .insertMetric m) ∈ s.pending ∧
      m.id = row.metricId ∧ m.organizationId = row.organizationId
  new : ∀ p ∈ s.pending, ∀ m, p.2 = .insertMetric m → m.id ∉ metricIds s.db
  apart : s.pending.Pairwise fun p q => Apart p.2 q.2

variable {D : Deps V} {s s' : MetricsStore V} {i j : Nat} {m : Metric}

theorem keeps_view (D : Deps V) (s : MetricsStore V) (i : Nat) : Keeps s.db (s.view (schema D) i) :=
  keeps_foldl (s.pendingOf i) s.db

namespace Guarded

/-- A metric that a session has inserted is in its data. -/
theorem hasMetric_view (h : Guarded s) (hm : (i, .insertMetric m) ∈ s.pending) :
    HasMetric (s.view (schema D) i) m.userId m.organizationId m.id := by
  refine hasMetric_foldl (fun n hn => h.new _ (s.mem_pendingOf.mp hn) n rfl) ?_
    (s.mem_pendingOf.mpr hm)
  refine List.pairwise_map.mpr (h.apart.sublist List.filter_sublist)

/-- The data of a session is scoped, as it is when the session commits. -/
theorem scoped_view (h : Guarded s) (i : Nat) : Scoped (s.view (schema D) i) := by
  refine RefersTo.foldl (h.refers.mono (keeps_view D s i)) fun w hw d => ?_
  rcases h.pending (i, w) (s.mem_pendingOf.mp hw) with
    ⟨m, rfl, hrefers⟩ | ⟨row, rfl, m, hm, hid, ho⟩
  · exact fun c hc => (keeps_view D s i).category (hrefers c hc)
  · exact ⟨m.userId, hid ▸ ho ▸ h.hasMetric_view hm⟩

theorem mono (h : Guarded s) (hdb : s'.db = s.db)
    (hp : s'.pending = s.pending.filter fun p => p.1 ≠ i) : Guarded s' where
  refers := hdb ▸ h.refers
  pending := by
    intro p hmem
    rw [hp] at hmem
    obtain ⟨hmem, hne⟩ := List.mem_filter.mp hmem
    rcases h.pending p hmem with hw | ⟨row, hrow, m, hm, hrefers⟩
    · exact .inl (hdb ▸ hw)
    · exact .inr ⟨row, hrow, m, hp ▸ List.mem_filter.mpr ⟨hm, hne⟩, hrefers⟩
  new := by
    rw [hp, hdb]
    exact fun p hmem => h.new p (List.mem_of_mem_filter hmem)
  apart := hp ▸ h.apart.sublist List.filter_sublist

theorem rollback (h : Guarded s) (i : Nat) : Guarded (s.rollback i) := h.mono rfl rfl

theorem drop (h : Guarded s) (i : Nat) : Guarded (s.drop i) := h.mono rfl rfl

theorem commit (h : Guarded s) (i : Nat) : Guarded (s.commit (schema D) i) where
  refers := h.scoped_view i
  pending := by
    intro p hmem
    rcases (h.rollback i).pending p hmem with ⟨m, hm, hrefers⟩ | hsettings
    · rw [hm] at hrefers
      exact .inl ⟨m, hm, hm ▸ fun c hc => (keeps_view D s i).category (hrefers c hc)⟩
    · exact .inr hsettings
  new := by
    intro p hmem m hm hid
    obtain ⟨hmem, hne⟩ := List.mem_filter.mp hmem
    rcases mem_metricIds_foldl.mp hid with hold | ⟨n, hn, hnid⟩
    · exact h.new p hmem m hm hold
    · have hn' : (i, Write.insertMetric n) ∈ s.pending := s.mem_pendingOf.mp hn
      have hpq : p ≠ (i, .insertMetric n) := fun heq => of_decide_eq_true hne (heq ▸ rfl)
      exact h.apart.forall hmem hn' hpq m n hm rfl hnid.symm
  apart := (h.rollback i).apart

/-- An id the database does not refuse is new. -/
theorem not_mem_of_refuse {d : Db V} (h : (schema D).refuse (.insertMetric m) d = none) :
    m.id ∉ metricIds d := by
  intro hmem
  rw [show (schema D).refuse (.insertMetric m) d = some (.uniqueConstraint "metrics_pkey") from
    if_pos hmem] at h
  cases h

/-- What a write in a transaction may be. -/
theorem put {w : Write V} (h : Guarded s) (ht : s.Takes (schema D) i true w)
    (hw : (∃ m, w = .insertMetric m ∧ WriteRefersTo s.db s.db w) ∨
      ∃ row, w = .insertSettings row ∧ ∃ m : Metric, (i, .insertMetric m) ∈ s.pending ∧
        m.id = row.metricId ∧ m.organizationId = row.organizationId) :
    Guarded (s.put (schema D) i w) where
  refers := h.refers
  pending := by
    intro p hp
    rcases List.mem_append.mp hp with hp | hp
    · refine (h.pending p hp).imp_right ?_
      rintro ⟨row, hrow, m, hm, hrefers⟩
      exact ⟨row, hrow, m, List.mem_append_left _ hm, hrefers⟩
    · rw [List.mem_singleton.mp hp]
      refine hw.imp_right ?_
      rintro ⟨row, hrow, m, hm, hrefers⟩
      exact ⟨row, hrow, m, List.mem_append_left _ hm, hrefers⟩
  new := by
    intro p hp m hm hid
    rcases List.mem_append.mp hp with hp | hp
    · exact h.new p hp m hm hid
    · rw [List.mem_singleton.mp hp] at hm
      subst hm
      exact not_mem_of_refuse ht.accepted (mem_metricIds_foldl.mpr (.inl hid))
  apart := by
    refine List.pairwise_append.mpr ⟨h.apart, List.pairwise_singleton _ _, ?_⟩
    intro p hp q hq m n hm hn hid
    rw [List.mem_singleton.mp hq] at hn
    subst hn
    obtain ⟨j, v⟩ := p
    have hv : v ∈ s.pendingOf j := s.mem_pendingOf.mpr hp
    have hview : n.id ∈ metricIds (s.view (schema D) j) :=
      mem_metricIds_foldl.mpr (.inr ⟨m, hm ▸ hv, hid⟩)
    by_cases hj : j = i
    · exact not_mem_of_refuse ht.accepted (hj ▸ hview)
    · exact not_mem_of_refuse (ht.uncontested j v hj hp) hview

theorem autocommit {w : Write V} (h : Guarded s) (hw : WriteRefersTo s.db s.db w)
    (hm : ∀ m, w ≠ .insertMetric m) : Guarded (s.autocommit (schema D) w) where
  refers := Scoped.apply h.refers hw
  pending := by
    intro p hp
    rcases h.pending p hp with ⟨m, hm, hrefers⟩ | hsettings
    · rw [hm] at hrefers
      exact .inl ⟨m, hm, hm ▸ fun c hc => (keeps_apply w s.db).category (hrefers c hc)⟩
    · exact .inr hsettings
  new := by
    intro p hp n hn
    change n.id ∉ metricIds (w.apply s.db)
    rw [metricIds_apply hm]
    exact h.new p hp n hn
  apart := h.apart

end Guarded

end LakiraBackend.Metrics
