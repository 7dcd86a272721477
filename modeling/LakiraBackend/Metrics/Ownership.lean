import LakiraBackend.Concurrency.Contract
import LakiraBackend.Metrics.Footprints
import LakiraBackend.Metrics.References

/-!
# What a row refers to is its owner's

Each use case looks for what a row is to refer to among the rows of its user and organization,
before it writes the row.  What it has found stays, so in every state that is reached, however
the calls interleave, the data is scoped (`scoped_of_reachable`).
-/

namespace LakiraBackend.Metrics

open LakiraBackend.Auth (Err)
open LakiraBackend.Concurrency LakiraBackend.JavaScript LakiraBackend.Postgres

variable {V : Type}

/-- What a thread has to know when it makes a statement. -/
def StatementGuard (i : Nat) (s : MetricsStore V) : Bool → Statement V → Prop
  | true, .createMetric data => ∀ c, data.categoryId = some c →
      HasCategory s.db data.userId data.organizationId c
  | true, .createSettings data => ∃ m : Metric, (i, .insertMetric m) ∈ s.pending ∧
      m.id = data.metricId ∧ m.organizationId = data.organizationId
  | true, _ => False
  | false, .createMetric _ => False
  | false, .updateMetric id patch => ∀ m ∈ s.db.metrics.rows, m.id = id → ∀ c,
      patch.categoryId = some (some c) → HasCategory s.db m.userId m.organizationId c
  | false, .createSettings data => InOrganization s.db data.organizationId data.metricId
  | false, .createLog data => InOrganization s.db data.organizationId data.metricId
  | false, _ => True

section

variable {D : Deps V} {i : Nat} {s : MetricsStore V} {tx : Bool} {st : Statement V} {id : Uuid}
  {now : Date}

/-- A statement made with its guard leaves a guarded store. -/
theorem Guarded.written (h : Guarded s) (hst : StatementGuard i s tx st)
    (ht : s.Takes (schema D) i tx (st.write id now)) :
    Guarded (s.written (schema D) i tx (st.write id now)) := by
  cases tx with
  | true =>
    cases st with
    | createMetric data => exact h.put ht (.inl ⟨_, rfl, hst⟩)
    | createSettings data => exact h.put ht (.inr ⟨_, rfl, hst⟩)
    | _ => exact hst.elim
  | false =>
    cases st with
    | createMetric data => exact hst.elim
    | updateMetric metricId patch => exact h.autocommit hst fun _ => nofun
    | createSettings data => exact h.autocommit hst fun _ => nofun
    | createLog data => exact h.autocommit hst fun _ => nofun
    | _ => exact h.autocommit trivial fun _ => nofun

theorem keeps_exec {inp : Input} {op : Op V} {w w' : World V} {r : Except Err op.Answer}
    (h : exec D i inp op w = some (r, w')) : Keeps w.store.db w'.store.db := by
  rcases exec_store h with hs | ⟨tx, st, rfl, hs, _⟩ | hs | hs
  · exact hs ▸ Keeps.refl _
  · rw [hs]
    cases tx with
    | true => exact Keeps.refl _
    | false => exact keeps_apply _ _
  · exact hs ▸ keeps_view D w.store i
  · exact hs ▸ Keeps.refl _

end

variable [LinearOrder V] [Zero V]

def ownership (D : Deps V) : Contract (metricsMachine D) where
  Inv := fun s => Guarded s.world.store
  Pre := fun i _ op s => match op with
    | .statement tx st => StatementGuard i s.world.store tx st
    | _ => True
  call_inv := by
    intro i q op s inp r w hinv hpre he
    rcases exec_store he with hs | ⟨tx, st, rfl, hs, ht⟩ | hs | hs
    · exact hs ▸ hinv
    · exact hs ▸ hinv.written hpre ht
    · exact hs ▸ hinv.commit i
    · exact hs ▸ hinv.rollback i
  crash_inv := fun h => h.drop _

variable {D : Deps V} {i : Nat} {q : Request V} {s t : MetricsState V} {u o id : Uuid}

namespace Ownership

/-! ### What the others leave alone -/

/-- A fact about the identities of the committed data stays. -/
theorem stable_of_keeps {P : Db V → Prop} (hP : ∀ {d e}, Keeps d e → P d → P e) :
    (ownership D).Stable i fun s => P s.world.store.db := by
  intro s t h hs
  cases h with
  | call _ _ _ he => exact hP (keeps_exec he) hs
  | crash _ _ => exact hs

/-- What a session has not committed stays while others go on. -/
theorem stable_pending {w : Write V} :
    (ownership D).Stable i fun s => (i, w) ∈ s.world.store.pending := by
  intro s t h hs
  cases h with
  | @call j _ _ _ _ w' hj _ _ he =>
    have hfilter : (i, w) ∈ s.world.store.pending.filter fun p => p.1 ≠ j :=
      List.mem_filter.mpr ⟨hs, decide_eq_true (Ne.symm hj)⟩
    rw [State.push_world]
    rcases exec_store he with he | ⟨tx, st, rfl, he, _⟩ | he | he
    · exact he ▸ hs
    · rw [he]
      cases tx with
      | true => exact List.mem_append_left _ hs
      | false => exact hs
    · exact he ▸ hfilter
    · exact he ▸ hfilter
  | crash hj _ => exact List.mem_filter.mpr ⟨hs, decide_eq_true (Ne.symm hj)⟩

/-! ### Calls -/

/-- What is known of the identities is kept by whatever a thread does. -/
theorem wp_keeps {α : Type} {P : Db V → Prop} (hP : ∀ {d e}, Keeps d e → P d → P e)
    {p : Async V α} {Q : α → MetricsState V → Prop} {E : Err → MetricsState V → Prop}
    (h : (ownership D).wp i q p Q E s) (hs : P s.world.store.db) :
    (ownership D).wp i q p (fun a t => Q a t ∧ P t.world.store.db) E s := by
  induction p generalizing s with
  | done a => exact ⟨h, hs⟩
  | fail e => exact h
  | call op k ih =>
    intro t ho hi
    obtain ⟨hpre, hk⟩ := h t ho hi
    have ht : P t.world.store.db := (stable_of_keeps hP).others ho hs
    exact ⟨hpre, fun inp r w he => ih r (hk inp r w he) (hP (keeps_exec he) ht)⟩

theorem Meets.keeps {α : Type} {P : Db V → Prop} (hP : ∀ {d e}, Keeps d e → P d → P e)
    {p : Async V α} (h : (ownership D).Meets i q p) (hs : P s.world.store.db) :
    (ownership D).wp i q p (fun _ t => P t.world.store.db) (fun _ _ => True) s :=
  Contract.wp_mono (fun _ _ h => h.2) (fun _ _ h => h) (wp_keeps hP (h s) hs)

/-- A query answers from data that is guarded, and what the others leave alone holds of. -/
theorem wp_query {P : MetricsStore V → Prop} {tx : Bool} {qr : Query}
    (hP : (ownership D).Stable i fun s => P s.world.store) (hs : P s.world.store) :
    (ownership D).wp i q (await (.query tx qr))
      (fun a t => P t.world.store ∧ Guarded t.world.store ∧
        a = qr.eval D (t.world.store.base (schema D) i tx)) (fun _ _ => True) s :=
  Contract.wp_await hP hs (fun _ _ _ => trivial)
    (fun t inp a w hi ht he => by
      have he' : exec D i inp (.query tx qr) t.world = some (.ok a, w) := he
      obtain ⟨ha, rfl⟩ := exec_query he'
      exact ⟨ht, hi, ha⟩)
    fun _ _ _ _ _ _ _ => trivial

/-- A query of the committed data. -/
theorem wp_read {qr : Query} : (ownership D).wp i q (await (.query false qr))
    (fun a t => Guarded t.world.store ∧ a = qr.eval D t.world.store.db) (fun _ _ => True) s :=
  Contract.wp_mono (fun _ _ h => h.2) (fun _ _ h => h)
    (wp_query (P := fun _ => True) (Contract.Stable.true i) trivial)

/-- A statement whose guard follows from the identities there are. -/
theorem wp_statement {P : Db V → Prop} {st : Statement V} (hP : ∀ {d e}, Keeps d e → P d → P e)
    (hs : P s.world.store.db)
    (hst : ∀ t : MetricsStore V, Guarded t → P t.db → StatementGuard i t false st) :
    (ownership D).wp i q (await (.statement false st)) (fun _ _ => True) (fun _ _ => True) s :=
  Contract.wp_await (stable_of_keeps hP) hs (fun t hi ht => hst t.world.store hi ht)
    (fun _ _ _ _ _ _ _ => trivial) fun _ _ _ _ _ _ _ => trivial

/-- A part of a use case that writes nothing. -/
theorem meets_reads {α : Type} {p : Async V α} (hp : Uses [] p) : (ownership D).Meets i q p := by
  have hpre : ∀ op (t : MetricsState V), Within [] op → (ownership D).Pre i q op t := by
    intro op t hop
    cases op with
    | statement tx st => exact absurd hop List.not_mem_nil
    | _ => trivial
  exact fun s => Contract.wp_of_calls (Contract.Stable.true i) (fun op t hop _ _ => hpre op t hop)
    (fun _ _ _ _ _ _ _ _ _ => trivial) hp trivial

theorem wp_reads {α : Type} {p : Async V α} (hp : Uses [] p) :
    (ownership D).wp i q p (fun _ _ => True) (fun _ _ => True) s := meets_reads hp s

/-! ### What a use case has looked for -/

/-- The category that is named, if one is. -/
def HasNamed (u o : Uuid) (x : Option Uuid) (d : Db V) : Prop :=
  ∀ c, x = some c → HasCategory d u o c

omit [LinearOrder V] [Zero V] in
theorem HasNamed.keeps {x : Option Uuid} {d e : Db V} (hk : Keeps d e) (h : HasNamed u o x d) :
    HasNamed u o x e := fun c hc => hk.category (h c hc)

/-- The category that is asked for is there. -/
theorem wp_checkCategory {x : Option IdText} : (ownership D).wp i q (checkCategory u o x)
    (fun _ t => HasNamed u o (x.map IdText.id) t.world.store.db)
    (fun _ _ => True) s := by
  cases x with
  | none => exact fun c hc => nomatch hc
  | some x =>
    refine Contract.wp_seq wp_read (fun _ _ h => h) fun found t ⟨_, ha⟩ => wp_ensure fun hfound => ?_
    rintro c hc
    cases hc
    rw [ha] at hfound
    obtain ⟨r, hr, hp⟩ := List.any_eq_true.mp hfound
    simp only [ownsCategory, Bool.and_eq_true, decide_eq_true_eq] at hp
    exact ⟨r, hr, hp.1, hp.2.1.1, hp.2.1.2⟩

/-- What is known of a metric that is found, for good. -/
def Found (u o : Uuid) (m : Metric) (d : Db V) : Prop :=
  HasMetric d u o m.id ∧ HasNamed u o m.categoryId d

omit [LinearOrder V] [Zero V] in
theorem Found.keeps {m : Metric} {d e : Db V} (hk : Keeps d e) (h : Found u o m d) :
    Found u o m e := ⟨hk.metric h.1, h.2.keeps hk⟩

theorem wp_findOwnedById : (ownership D).wp i q (findOwnedById u o id)
    (fun m t => Found u o m t.world.store.db) (fun _ _ => True) s := by
  refine Contract.wp_seq wp_read (fun _ _ h => h) fun found t ⟨hi, ha⟩ => wp_orThrow fun m hm => ?_
  rw [hm] at ha
  obtain ⟨hmem, hp⟩ := Table.of_findOne ha.symm
  simp only [owns, Bool.and_eq_true, decide_eq_true_eq] at hp
  obtain ⟨_, ⟨rfl, rfl⟩, _⟩ := hp
  exact ⟨⟨m, hmem, rfl, rfl, rfl⟩, fun c hc => hi.refers.category m hmem c hc⟩

/-- The metric that a settings row or a log is to refer to is there. -/
theorem wp_ensureMetricOwnership : (ownership D).wp i q (ensureMetricOwnership u o id)
    (fun _ t => InOrganization t.world.store.db o id) (fun _ _ => True) s := by
  refine Contract.wp_seq wp_read (fun _ _ h => h) fun found t ⟨_, ha⟩ => ?_
  refine Contract.wp_seq (Q := fun _ t => InOrganization t.world.store.db o id)
    (wp_orThrow fun m hm => ?_) (fun _ _ h => h) fun m t h => wp_ensure fun _ => h
  rw [hm] at ha
  obtain ⟨hmem, hp⟩ := Table.of_findOne ha.symm
  simp only [Bool.and_eq_true, decide_eq_true_eq] at hp
  exact ⟨m.userId, m, hmem, hp.1.1, rfl, hp.1.2⟩

/-! ### The use cases -/

/-- The metric that a session inserts is in what it has not committed. -/
theorem wp_insertMetric {data : CreateMetricData}
    (hs : HasNamed data.userId data.organizationId data.categoryId s.world.store.db) :
    (ownership D).wp i q (insertMetric data)
      (fun m t => ∃ row : Metric, (i, .insertMetric row) ∈ t.world.store.pending ∧
        row.id = m.id ∧ row.organizationId = data.organizationId) (fun _ _ => True) s := by
  refine Contract.wp_seq (Q := fun a t => ∃ row : Metric,
    (i, .insertMetric row) ∈ t.world.store.pending ∧ row.id = a ∧
      row.organizationId = data.organizationId) (F := fun _ _ => True) ?_ (fun _ _ h => h)
    fun a t ⟨row, hrow, hid, ho⟩ => ?_
  · refine Contract.wp_await (stable_of_keeps HasNamed.keeps) hs (fun t _ ht => ht)
      (fun t inp a w _ _ he => ?_) fun _ _ _ _ _ _ _ => trivial
    have he' : exec D i inp (.statement true (.createMetric data)) t.world = some (.ok a, w) := he
    rcases exec_statement he' with ⟨e, herr, _⟩ | ⟨ha, hw, _⟩
    · cases herr
    · have hmem : (i, (Statement.createMetric data).write inp.id inp.now) ∈ w.store.pending := by
        rw [hw]
        exact List.mem_append_right _ List.mem_cons_self
      exact ⟨_, hmem, (Except.ok.inj ha).symm, rfl⟩
  · refine Contract.wp_seq (wp_query (P := fun s => (i, .insertMetric row) ∈ s.pending)
      stable_pending hrow) (fun _ _ h => h) fun created t ⟨hrow, _, ha⟩ => ?_
    cases created with
    | none => trivial
    | some m =>
      obtain ⟨_, hp⟩ := Table.of_findOne ha.symm
      simp only [Bool.and_eq_true, decide_eq_true_eq] at hp
      exact ⟨row, hrow, hid.trans hp.1.symm, ho⟩

theorem meets_createMetric {input : CreateMetricInput} :
    (ownership D).Meets i q (createMetric D input) := by
  intro s
  refine Contract.wp_seq (meets_reads uses_checkMetricName s) (fun _ _ h => h) fun _ t _ => ?_
  refine Contract.wp_seq wp_checkCategory (fun _ _ h => h) fun _ t hcategory => ?_
  refine Contract.wp_seq (Meets.keeps HasNamed.keeps (meets_reads uses_checkOriginalMetric)
    hcategory) (fun _ _ h => h) fun _ t hcategory => ?_
  refine Contract.wp_handle.mpr (Contract.wp_mono (fun _ _ h => h)
    (fun e t _ => wp_reads (.bind (.await trivial) fun _ => .fail))
    (?_ : (ownership D).wp i q _ (fun _ _ => True) (fun _ _ => True) t))
  refine Contract.wp_seq (Meets.keeps HasNamed.keeps
    (meets_reads (p := await .begin) (.await trivial)) hcategory) (fun _ _ h => h)
    fun _ t hcategory => ?_
  refine Contract.wp_seq (Q := fun _ _ => True) (F := fun _ _ => True) ?_ (fun _ _ h => h)
    fun m t _ => wp_reads (.bind (.await trivial) fun _ => .done)
  refine Contract.wp_seq (wp_insertMetric hcategory) (fun _ _ h => h)
    fun m t ⟨row, hrow, hid, ho⟩ => ?_
  refine Contract.wp_seq (Q := fun _ _ => True) (F := fun _ _ => True) ?_ (fun _ _ h => h)
    fun _ t _ => wp_reads (.bind uses_invalidateMetrics fun _ => .done)
  have hcreate : createSettings true ⟨m.id, input.organizationId, defaultSettings⟩ =
      await (.statement true (.createSettings ⟨m.id, input.organizationId, (defaultSettings :
        SettingsValues V)⟩)) := rfl
  rw [hcreate]
  exact Contract.wp_await stable_pending hrow (fun t _ ht => ⟨row, ht, hid, ho⟩)
    (fun _ _ _ _ _ _ _ => trivial) fun _ _ _ _ _ _ _ => trivial

omit [LinearOrder V] [Zero V] in
/-- The category that an update sets is one that was asked for, or the metric's. -/
theorem HasNamed.of_update {m : Metric} {data : UpdateMetricData} {s' : MetricSnapshot} {d : Db V}
    (hm : HasNamed u o m.categoryId d) (hdata : HasNamed u o (data.categoryId.join.map IdText.id) d)
    (h : data.update (toSnapshot m) = .ok s') : HasNamed u o (s'.categoryId.map IdText.id) d := by
  rw [UpdateMetricData.update_ok h, UpdateMetricData.merge]
  cases hc : data.categoryId with
  | none =>
    have hid : IdText.id ∘ IdText.ofUuid = id := rfl
    rw [Option.getD_none, toSnapshot, Option.map_map, hid, Option.map_id]
    exact hm
  | some x =>
    rw [hc] at hdata
    exact hdata

/-- The metric that is saved is the one that was found. -/
theorem wp_saveMetric {x : MetricSnapshot}
    (hs : HasNamed u o (x.categoryId.map IdText.id) s.world.store.db) :
    (ownership D).wp i q (saveMetric u o id x) (fun _ _ => True) (fun _ _ => True) s := by
  refine Contract.wp_seq (wp_keeps HasNamed.keeps wp_findOwnedById hs) (fun _ _ h => h)
    fun m t ⟨hfound, hnamed⟩ => ?_
  refine Contract.wp_seq (Q := fun _ _ => True) (F := fun _ _ => True) ?_ (fun _ _ h => h)
    fun _ t _ => wp_reads uses_find
  unfold updateInstance
  split
  · trivial
  refine wp_statement (P := fun d => HasMetric d u o m.id ∧ HasNamed u o (x.categoryId.map IdText.id) d)
    (fun hk h => ⟨hk.metric h.1, h.2.keeps hk⟩) ⟨hfound.1, hnamed⟩ ?_
  rintro t hi ⟨⟨n, hn, hid, rfl, rfl⟩, hnamed⟩ m' hm' hid' c hc
  obtain rfl : m' = n := t.db.metrics.eq_of_id hm' hn (hid'.trans hid.symm)
  refine hnamed c ?_
  simp only [MetricSnapshot.changes] at hc
  split at hc
  · cases hc
  · exact Option.some.inj hc

theorem meets_updateMetric {input : UpdateMetricInput} :
    (ownership D).Meets i q (updateMetric D input) := by
  intro s
  refine Contract.wp_seq wp_findOwnedById (fun _ _ h => h) fun m t hfound => ?_
  refine Contract.wp_seq (wp_keeps Found.keeps wp_checkCategory hfound) (fun _ _ h => h)
    fun _ t hnamed => ?_
  have hkeeps : ∀ {d e : Db V}, Keeps d e → HasNamed input.userId input.organizationId
      (input.data.categoryId.join.map IdText.id) d ∧ Found input.userId input.organizationId m d →
      HasNamed input.userId input.organizationId (input.data.categoryId.join.map IdText.id) e ∧
        Found input.userId input.organizationId m e := fun hk h => ⟨h.1.keeps hk, h.2.keeps hk⟩
  refine Contract.wp_seq (Meets.keeps hkeeps (meets_reads uses_checkOriginalMetric) hnamed)
    (fun _ _ h => h) fun _ t hnamed => ?_
  refine Contract.wp_seq (Meets.keeps hkeeps (meets_reads uses_checkNewName) hnamed)
    (fun _ _ h => h) fun _ t hnamed => ?_
  refine Contract.wp_seq (Meets.keeps hkeeps (meets_reads uses_ensure) hnamed)
    (fun _ _ h => h) fun _ t hnamed => ?_
  refine Contract.wp_seq (wp_liftExcept (Q := fun x t => HasNamed input.userId input.organizationId
    (x.categoryId.map IdText.id) t.world.store.db) fun x hx =>
      HasNamed.of_update hnamed.2.2 hnamed.1 hx) (fun _ _ h => h) fun x t hx => ?_
  exact Contract.wp_seq (wp_saveMetric hx) (fun _ _ h => h) fun _ t _ =>
    wp_reads (.bind uses_invalidateMetrics fun _ => .done)

theorem wp_createSettings {data : CreateSettingsData V}
    (hs : InOrganization s.world.store.db data.organizationId data.metricId) :
    (ownership D).wp i q (createSettings false data) (fun _ _ => True) (fun _ _ => True) s := by
  unfold createSettings
  cases validateSettings data.values with
  | error e => trivial
  | ok a => exact wp_statement Keeps.inOrganization hs fun _ _ h => h

theorem meets_createMetricSettings {input : CreateSettingsInput V} :
    (ownership D).Meets i q (createMetricSettings D input) := by
  intro s
  refine Contract.wp_seq wp_ensureMetricOwnership (fun _ _ h => h) fun _ t hin => ?_
  refine Contract.wp_seq (Meets.keeps Keeps.inOrganization (meets_reads uses_query) hin)
    (fun _ _ h => h) fun existing t hin => ?_
  refine Contract.wp_seq (Meets.keeps Keeps.inOrganization (meets_reads uses_ensure) hin)
    (fun _ _ h => h) fun _ t hin => ?_
  refine Contract.wp_seq (Q := fun _ _ => True) (F := fun _ _ => True) ?_ (fun _ _ h => h)
    fun _ t _ => wp_reads (.bind uses_invalidateSettings fun _ => .done)
  refine Contract.wp_handle.mpr (Contract.wp_mono (fun _ _ h => h) (fun e t _ => ?_)
    (Contract.wp_seq (wp_createSettings hin) (fun _ _ h => h) fun _ t _ => wp_reads uses_find))
  split <;> trivial

theorem meets_createMetricLog {input : CreateLogInput V} :
    (ownership D).Meets i q (createMetricLog D input) := by
  intro s
  refine Contract.wp_seq wp_ensureMetricOwnership (fun _ _ h => h) fun _ t hin => ?_
  refine Contract.wp_seq (Meets.keeps Keeps.inOrganization (meets_reads uses_timestampOf) hin)
    (fun _ _ h => h) fun timestamp t hin => ?_
  refine Contract.wp_seq (Meets.keeps Keeps.inOrganization (meets_reads uses_checkTimestamp) hin)
    (fun _ _ h => h) fun _ t hin => ?_
  refine Contract.wp_seq (Q := fun _ _ => True) (F := fun _ _ => True) ?_ (fun _ _ h => h)
    fun _ t _ => wp_reads (.bind uses_invalidateLog fun _ => .done)
  exact Contract.wp_seq (wp_statement Keeps.inOrganization hin fun _ _ h => h) (fun _ _ h => h)
    fun _ t _ => wp_reads uses_find

/-- A statement that needs nothing, between what writes nothing. -/
theorem meets_write {α : Type} {st : Statement V} {f : st.Answer → Async V α}
    (hst : ∀ t, StatementGuard i t false st) (hf : ∀ a, Uses [] (f a)) :
    (ownership D).Meets i q (await (.statement false st) >>= f) :=
  .bind (.await fun t => hst t.world.store) fun a => meets_reads (hf a)

theorem meets_changeSettings {x : IdText}
    {change : MetricSettingsEntity V → Except Err (MetricSettingsEntity V)} :
    (ownership D).Meets i q (changeSettings D u o x change) :=
  .bind (meets_reads uses_findSettingsById) fun _ => .bind (meets_reads uses_liftExcept) fun _ =>
    .bind (.bind (meets_reads uses_liftExcept) fun _ => meets_write (fun _ => trivial) fun _ =>
      .bind uses_ensure fun _ => uses_find) fun _ =>
      meets_reads (.bind uses_invalidateSettings fun _ => .done)

/-- **Every request owns what it refers to.** -/
theorem meets_handle (q : Request V) : (ownership D).Meets i q (handle D q) := by
  cases q with
  | createMetric input => exact .bind meets_createMetric fun _ => .done
  | updateMetric input => exact .bind meets_updateMetric fun _ => .done
  | deleteMetric u o x =>
    refine .bind (.bind (meets_reads uses_findOwnedById) fun _ =>
      .bind (meets_reads uses_invalidateMetrics) fun _ => .bind (.bind (meets_reads uses_findOwnedById)
        fun _ => .await fun _ => trivial) fun _ => .done) fun _ => .done
  | createCategory input =>
    exact .bind (.bind (meets_reads uses_checkCategoryName) fun _ => meets_write (fun _ => trivial)
      fun _ => .bind uses_query fun _ => .bind uses_invalidateCategoryLists fun _ => .done) fun _ =>
        .done
  | updateCategory input =>
    refine .bind (.bind (meets_reads uses_findCategory) fun _ =>
      .bind (meets_reads uses_checkNewCategoryName) fun _ => .bind ?_ fun _ => meets_reads
        (.bind uses_invalidateCategoryLists fun _ => .bind uses_invalidateCategory fun _ => .done))
        fun _ => .done
    refine .bind (meets_reads uses_findCategory) fun _ => .bind ?_ fun _ => meets_reads uses_find
    unfold updateCategoryRow
    split
    · exact .done
    · exact .await fun _ => trivial
  | deleteCategory u o x =>
    exact .bind (.bind (meets_reads uses_findCategory) fun _ => meets_write (fun _ => trivial)
      fun _ => .bind uses_invalidateCategoryLists fun _ => uses_invalidateCategory) fun _ => .done
  | createMetricSettings input => exact .bind meets_createMetricSettings fun _ => .done
  | updateMetricSettings u o x payload => exact .bind meets_changeSettings fun _ => .done
  | updateDisplayOptions u o x patch => exact .bind meets_changeSettings fun _ => .done
  | updateGoalAchievement u o x => exact .bind meets_changeSettings fun _ => .done
  | deleteMetricSettings u o x =>
    exact .bind (.bind (meets_reads uses_findSettingsById) fun _ => meets_write (fun _ => trivial)
      fun _ => uses_invalidateSettings) fun _ => .done
  | createMetricLog input => exact .bind meets_createMetricLog fun _ => .done
  | updateMetricLog input =>
    exact .bind (.bind (meets_reads uses_findLogById) fun _ => .bind (meets_reads uses_liftExcept)
      fun _ => .bind (meets_reads uses_moveTimestamp) fun _ => .bind (meets_write (fun _ => trivial)
        fun _ => uses_orThrow) fun _ => meets_reads (.bind uses_invalidateLog fun _ => .done))
        fun _ => .done
  | deleteMetricLog u o x =>
    exact .bind (.bind (meets_reads uses_findLogById) fun _ => meets_write (fun _ => trivial)
      fun _ => .bind uses_invalidateLog fun _ => .done) fun _ => .done

end Ownership

/-- Data that is scoped, with nothing under way. -/
def StartsScoped (w : World V) : Prop := ∃ d cache, Scoped d ∧ w = World.init d cache

/-- **Every reference stays with its owner**, in every state that is reached. -/
theorem scoped_of_reachable {c : MetricsConfig V} (h : (metricsMachine D).Reachable StartsScoped c) :
    Scoped c.state.world.store.db := by
  refine ((ownership D).inv_of_reachable (fun w hw => ?_)
    (fun i q s _ _ _ => Ownership.meets_handle q s) h).refers
  obtain ⟨d, cache, hd, rfl⟩ := hw
  exact ⟨hd, fun _ hp => absurd hp List.not_mem_nil, fun _ hp => absurd hp List.not_mem_nil,
    List.Pairwise.nil⟩

end LakiraBackend.Metrics
