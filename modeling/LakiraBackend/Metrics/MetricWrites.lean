import LakiraBackend.Concurrency.Interrupted
import LakiraBackend.Metrics.Footprints
import LakiraBackend.Metrics.ListQueries

/-!
# A write of a metric, and what is read meanwhile

A write of a metric runs alone, and between its calls any number of GET requests for metrics are
served and cached, each of the data committed then.  What the requests do is not seen by the write
(`apart_core`), so a write that returns has walked over each of its patterns once (`perm_walked`).
-/

namespace LakiraBackend.Metrics

open LakiraBackend.Auth (Err)
open LakiraBackend.Concurrency LakiraBackend.JavaScript LakiraBackend.Postgres LakiraBackend.Redis

/-! ### Reads -/

/-- A query of the list that its schema accepts. -/
structure MetricsPage : Type where
  query : ListQuery MetricSortField SentMetricFilter
  opts : ListOpts MetricFilter
  parsed : parseMetricsQuery query = some opts

inductive MetricGet : Type
  | list (page : MetricsPage)
  | detail (id : IdText) (includes : List MetricDetailInclude) (logsLimit : Nat)

namespace MetricGet

def request {V : Type} : MetricGet → GetRequest V
  | list page => .listMetrics page.opts
  | detail id includes logsLimit => .getMetricDetail id includes logsLimit

def key (userId organizationId : Uuid) : MetricGet → List Char
  | list page => metricsCursorCacheKey userId organizationId page.opts
  | detail id includes logsLimit =>
    metricEntryKey userId organizationId id.text includes logsLimit

/-- A list, or a detail of the metric `m`. -/
def Of (m : Uuid) : MetricGet → Prop
  | list _ => True
  | detail id _ _ => id.id = m

def Canonical : MetricGet → Prop
  | list _ => True
  | detail id _ _ => id.Canonical

end MetricGet

/-- A GET request that goes through the cache. -/
structure CachedRead : Type where
  userId : Uuid
  organizationId : Uuid
  get : MetricGet

def CachedRead.key (r : CachedRead) : List Char := r.get.key r.userId r.organizationId

/-- What was stored, and which patterns were walked over before. -/
structure Stored (V : Type) : Type where
  entry : Entry V
  walked : List (List Char)

/-- A world with what has happened to its cache, which nothing reads. -/
structure Traced (V : Type) : Type where
  world : World V
  walked : List (List Char)
  stored : List (Stored V)

variable {V : Type} [LinearOrder V] [Zero V]

/-- `cacheMiddleware`: an answer is stored if it is a 200 and nothing is there. -/
def Traced.read (D : Deps V) (r : CachedRead) (s : Traced V) : Traced V :=
  if D.cacheEnabled then
    if s.world.cache.any fun e => e.key = r.key then s
    else match respond D s.world.store.db r.userId r.organizationId r.get.request with
      | .ok value =>
        let entry : Entry V := ⟨r.key, value, s.world.store.db⟩
        { s with
          world := { s.world with cache := entry :: s.world.cache }
          stored := ⟨entry, s.walked⟩ :: s.stored }
      | .error _ => s
  else s

/-! ### Writes -/

inductive MetricWrite : Type
  | createMetric (input : CreateMetricInput)
  | updateMetric (input : UpdateMetricInput)
  | deleteMetric (userId organizationId : Uuid) (metricId : IdText)

namespace MetricWrite

def userId : MetricWrite → Uuid
  | createMetric input => input.userId
  | updateMetric input => input.userId
  | deleteMetric userId _ _ => userId

def organizationId : MetricWrite → Uuid
  | createMetric input => input.organizationId
  | updateMetric input => input.organizationId
  | deleteMetric _ organizationId _ => organizationId

def program (D : Deps V) : MetricWrite → Async V Metric
  | createMetric input => Metrics.createMetric D input
  | updateMetric input => Metrics.updateMetric D input
  | deleteMetric userId organizationId metricId =>
    Metrics.deleteMetric D userId organizationId metricId

end MetricWrite

/-- The patterns that a call walks over. -/
def Op.walked : Op V → List (List Char)
  | .delByPattern pattern => [pattern]
  | _ => []

def execTraced (D : Deps V) (inp : Input) (op : Op V) (s : Traced V) :
    Option (Except Err op.Answer × Traced V) :=
  (exec D 0 inp op s.world).map fun (r, w) =>
    (r, { s with world := w, walked := s.walked ++ op.walked })

/-- What the write of `q` has returned, and the world it leaves: the reads are served between its
calls. -/
def writeDuring (D : Deps V) (q : MetricWrite) (d : Db V) (cache : List (Entry V))
    (ms : List (Moment Input CachedRead)) : Option (Metric × Traced V) :=
  match during (execTraced D) (Traced.read D) ms (q.program D) ⟨World.init d cache, [], []⟩ with
  | some (.done m, t) => some (m, t)
  | _ => none

/-! ### The calls of a write -/

/-- What the calls work on. -/
def Traced.core (s : Traced V) : MetricsStore V × List (List Char) := (s.world.store, s.walked)

def execCore (D : Deps V) (inp : Input) (op : Op V) (c : MetricsStore V × List (List Char)) :
    Option (Except Err op.Answer × MetricsStore V × List (List Char)) :=
  (exec D 0 inp op ⟨c.1, []⟩).map fun (r, w) => (r, w.store, c.2 ++ op.walked)

section Calls

variable {D : Deps V} {α : Type} {p : Async V α} {c : MetricsStore V × List (List Char)}

omit [LinearOrder V] [Zero V]

/-- A call does not look at the cache. -/
theorem exec_store_eq {i : Nat} {inp : Input} {op : Op V} {w w' : World V}
    {r : Except Err op.Answer} (h : exec D i inp op w = some (r, w')) (cache : List (Entry V)) :
    ∃ cache', exec D i inp op ⟨w.store, cache⟩ = some (r, ⟨w'.store, cache'⟩) := by
  cases op with
  | statement tx s =>
    obtain ⟨⟨a, store⟩, hw, heq⟩ := Option.map_eq_some_iff.mp h
    obtain ⟨rfl, rfl⟩ := Prod.mk.inj heq
    exact ⟨cache, Option.map_eq_some_iff.mpr ⟨_, hw, rfl⟩⟩
  | _ =>
    cases h
    exact ⟨_, rfl⟩

theorem ensures_execCore {op : Op V} {Q : Except Err op.Answer → _ → Prop}
    (h : ∀ inp r w, exec D 0 inp op ⟨c.1, []⟩ = some (r, w) → Q r (w.store, c.2 ++ op.walked)) :
    Ensures (execCore D) (fun _ _ => true) (await op) Q c := by
  refine ensures_await.mpr fun inp r c' _ he => ?_
  obtain ⟨⟨a, w⟩, hw, heq⟩ := Option.map_eq_some_iff.mp he
  cases heq
  exact h inp r w hw

/-- A program that clears nothing. -/
theorem ensures_walked (hp : p.Calls fun op => op.walked = []) :
    Ensures (execCore D) (fun _ _ => true) p (fun _ c' => c'.2 = c.2) c := by
  induction p generalizing c with
  | done a => rfl
  | fail e => rfl
  | call op k ih =>
    intro inp r c' _ he
    obtain ⟨⟨a, w⟩, _, heq⟩ := Option.map_eq_some_iff.mp he
    cases heq
    refine (ih r (hp.2 r)).mono fun x c' hc' => ?_
    rw [hc', hp.1, List.append_nil]

/-- Sequencing, where it is told only what a program that succeeds has done. -/
theorem Ensures.ok {β : Type} {f : α → Async V β} {Q : Except Err α → _ → Prop}
    {R : β → MetricsStore V × List (List Char) → Prop}
    (h : Ensures (execCore D) (fun _ _ => true) p Q c)
    (hf : ∀ a c', Q (.ok a) c' →
      Ensures (execCore D) (fun _ _ => true) (f a) (fun x c' => ∀ b, x = .ok b → R b c') c') :
    Ensures (execCore D) (fun _ _ => true) (p >>= f) (fun x c' => ∀ b, x = .ok b → R b c') c :=
  h.seq hf fun _ _ _ _ hb => by cases hb

/-- The walks over some patterns are over once each. -/
theorem ensures_walks {n : Nat} {patterns : List (List Char)} (hn : patterns.length = n) :
    Ensures (execCore D) (fun _ _ => true) (walks n patterns)
      (fun x c' => x = .ok () ∧ c'.1 = c.1 ∧ c'.2.Perm (c.2 ++ patterns)) c := by
  induction n generalizing patterns c with
  | zero =>
    obtain rfl := List.length_eq_zero_iff.mp hn
    exact ⟨rfl, rfl, by rw [List.append_nil]⟩
  | succ n ih =>
    refine Ensures.seq (Q := fun x c' => (∃ k, x = .ok k) ∧ c = c')
      (ensures_execCore fun inp r w he => ?_) (fun k c' hk => ?_) fun e c' he => ?_
    · cases he
      exact ⟨⟨_, rfl⟩, Prod.ext rfl (List.append_nil _).symm⟩
    · obtain ⟨_, rfl⟩ := hk
      have hlt : k % patterns.length < patterns.length := Nat.mod_lt _ (by omega)
      rw [List.getElem?_eq_getElem hlt]
      dsimp only
      refine Ensures.seq (Q := fun x c' => x = .ok () ∧ c'.1 = c.1 ∧
          c'.2 = c.2 ++ [patterns[k % patterns.length]])
        (ensures_execCore fun inp r w he => ?_) (fun _ c' hc' => ?_) fun e c' he => ?_
      · cases he
        exact ⟨rfl, rfl, rfl⟩
      · obtain ⟨_, hstore, hwalked⟩ := hc'
        refine (ih (c := c') (by rw [List.length_eraseIdx_of_lt hlt, hn]; rfl)).mono
          fun x c'' hx => ⟨hx.1, hx.2.1.trans hstore, hx.2.2.trans ?_⟩
        rw [hwalked, List.append_assoc]
        exact (List.getElem_cons_eraseIdx_perm hlt).append_left c.2
      · cases he.1
    · cases he.1.choose_spec

/-- The patterns that a write of the metric walks over, while Redis is there. -/
def metricPatterns (D : Deps V) (userId organizationId id : Uuid) : List (List Char) :=
  if D.cacheEnabled then [cursorPattern userId organizationId METRIC_CURSOR_FEATURE,
    metricEntryPattern userId organizationId id.text]
  else []

variable {u o id : Uuid}

theorem ensures_invalidateMetrics :
    Ensures (execCore D) (fun _ _ => true) (invalidateMetrics D u o id.text)
      (fun _ c' => c'.2.Perm (c.2 ++ metricPatterns D u o id)) c := by
  unfold invalidateMetrics metricPatterns
  split
  · exact (ensures_walks rfl).mono fun x c' h => h.2.2
  · change c.2.Perm (c.2 ++ [])
    rw [List.append_nil]

theorem ensures_queryCore {tx : Bool} {qr : Query} {Q : Except Err (qr.Answer V) → _ → Prop}
    (h : Q (.ok (qr.eval D (c.1.base (schema D) 0 tx))) c) :
    Ensures (execCore D) (fun _ _ => true) (await (.query tx qr)) Q c := by
  refine ensures_execCore fun inp r w he => ?_
  cases he
  rw [show c.2 ++ (Op.query tx qr : Op V).walked = c.2 from List.append_nil _]
  exact h

theorem ensures_findOwnedById :
    Ensures (execCore D) (fun _ _ => true) (findOwnedById u o id)
      (fun x c' => c = c' ∧ ∀ m, x = .ok m → m.id = id) c := by
  refine Ensures.seq (Q := fun x c' => c = c' ∧ ∀ m, x = .ok (some m) → m.id = id)
    (ensures_queryCore ⟨rfl, fun m hm => ?_⟩) (fun a c' h => ?_) fun e c' h => ⟨h.1, fun m hm => by
      cases hm⟩
  · have hp := (Table.of_findOne (Except.ok.inj hm)).2
    rw [Bool.and_eq_true] at hp
    exact of_decide_eq_true hp.1
  · cases a with
    | none => exact ⟨h.1, fun m hm => by cases hm⟩
    | some m =>
      refine ⟨h.1, fun m' hm => ?_⟩
      cases hm
      exact h.2 m rfl

theorem ensures_reloadMetric {tx : Bool} {e : Err} :
    Ensures (execCore D) (fun _ _ => true)
      (await (V := V) (.query tx (.reloadMetric id)) >>= fun m => orThrow m e)
      (fun x c' => c = c' ∧ ∀ m, x = .ok m → m.id = id ∧ m ∈ (c.1.base (schema D) 0 tx).metrics.rows)
      c := by
  refine Ensures.seq (Q := fun x c' => c = c' ∧ ∀ m, x = .ok (some m) →
      m.id = id ∧ m ∈ (c.1.base (schema D) 0 tx).metrics.rows)
    (ensures_queryCore ⟨rfl, fun m hm => ?_⟩) (fun a c' h => ?_) fun e c' h => ⟨h.1, fun m hm => by
      cases hm⟩
  · obtain ⟨hmem, hp⟩ := Table.of_findOne (Except.ok.inj hm)
    rw [Bool.and_eq_true] at hp
    exact ⟨of_decide_eq_true hp.1, hmem⟩
  · cases a with
    | none => exact ⟨h.1, fun m hm => by cases hm⟩
    | some m =>
      refine ⟨h.1, fun m' hm => ?_⟩
      cases hm
      exact h.2 m rfl

/-! ### The three writes -/

theorem ensures_deleteMetric {metricId : IdText} :
    Ensures (execCore D) (fun _ _ => true) (deleteMetric D u o metricId)
      (fun x c' => ∀ m, x = .ok m → c'.2.Perm (c.2 ++ metricPatterns D u o m.id)) c := by
  refine Ensures.ok ensures_findOwnedById fun m c₁ h₁ => ?_
  obtain ⟨rfl, _⟩ := h₁
  refine Ensures.ok ensures_invalidateMetrics fun _ c₂ h₂ => ?_
  have hdestroy : (destroyMetric (V := V) u o m.id).Calls fun op => op.walked = [] :=
    .bind (calls_findOwnedById fun _ _ => rfl) fun _ => .await rfl
  refine Ensures.ok (ensures_walked hdestroy) fun _ c₃ h₃ => ?_
  intro m' hm'
  cases hm'
  rw [h₃]
  exact h₂

theorem ensures_saveMetric {s : MetricSnapshot} :
    Ensures (execCore D) (fun _ _ => true) (saveMetric u o id s)
      (fun x c' => c'.2 = c.2 ∧ ∀ m, x = .ok m → m.id = id) c := by
  refine Ensures.seq ensures_findOwnedById (fun m c' h => ?_) fun e c' h =>
    ⟨by rw [h.1], fun m hm => by cases hm⟩
  obtain ⟨rfl, hid⟩ := h
  refine Ensures.seq (ensures_walked (calls_updateInstance fun _ _ => rfl)) (fun _ c' h => ?_)
    fun e c' h => ⟨h, fun m hm => by cases hm⟩
  refine ensures_reloadMetric.mono fun x c'' hx => ?_
  obtain ⟨rfl, hreloaded⟩ := hx
  exact ⟨h, fun m' hm' => (hreloaded m' hm').1.trans (hid m rfl)⟩

theorem ensures_updateMetric {input : UpdateMetricInput} :
    Ensures (execCore D) (fun _ _ => true) (updateMetric D input)
      (fun x c' => ∀ m, x = .ok m →
        c'.2.Perm (c.2 ++ metricPatterns D input.userId input.organizationId m.id)) c := by
  refine Ensures.ok ensures_findOwnedById fun m c₀ h₀ => ?_
  obtain ⟨rfl, _⟩ := h₀
  refine Ensures.ok (ensures_walked (calls_checkCategory fun _ _ => rfl)) fun _ c₁ h₁ => ?_
  refine Ensures.ok (ensures_walked (calls_checkOriginalMetric fun _ _ => rfl)) fun _ c₂ h₂ => ?_
  refine Ensures.ok (ensures_walked (calls_checkNewName fun _ _ => rfl)) fun _ c₃ h₃ => ?_
  refine Ensures.ok (ensures_walked calls_ensure) fun _ c₄ h₄ => ?_
  refine Ensures.ok (ensures_walked calls_liftExcept) fun snapshot c₅ h₅ => ?_
  refine Ensures.ok ensures_saveMetric fun saved c₆ h₆ => ?_
  refine Ensures.ok ensures_invalidateMetrics fun _ c₇ h₇ => ?_
  intro m' hm'
  cases hm'
  rw [h₆.1, h₅, h₄, h₃, h₂, h₁, ← h₆.2 saved rfl] at h₇
  exact h₇

/-- The metric that is created is the user's. -/
theorem ensures_insertMetric_core {data : CreateMetricData} :
    Ensures (execCore D) (fun _ _ => true) (insertMetric data)
      (fun x c' => c'.2 = c.2 ∧ ∀ m, x = .ok m → m.userId = data.userId) c := by
  refine Ensures.seq (Q := fun x c' => c'.2 = c.2 ∧ ∀ a, x = .ok a →
      ∀ m ∈ (c'.1.base (schema D) 0 true).metrics.rows, m.id = a → m.userId = data.userId)
    (ensures_execCore fun inp r w he => ⟨List.append_nil _, fun a ha m hm hid => ?_⟩)
    (fun a c' h => ?_) fun e c' h => ⟨h.1, fun m hm => by cases hm⟩
  · rcases exec_statement he with ⟨e, rfl, _⟩ | ⟨rfl, hstore, htakes⟩
    · cases ha
    · cases ha
      change m ∈ (w.store.view (schema D) 0).metrics.rows at hm
      rw [hstore, Store.written, if_pos rfl, Store.view_put_self] at hm
      rcases Table.mem_insert hm with rfl | hm
      · rfl
      · have hnew : inp.id ∉ (c.1.view (schema D) 0).metrics.rows.map Metric.id := by
          intro hold
          cases (if_pos hold).symm.trans htakes.accepted
        have hid : m.id = inp.id := hid
        exact absurd (hid ▸ List.mem_map_of_mem hm) hnew
  · refine Ensures.seq (Q := fun x c'' => c''.2 = c.2 ∧ ∀ m, x = .ok (some m) →
        m.userId = data.userId) (ensures_queryCore ⟨h.1, fun m hm => ?_⟩) (fun found c'' h' => ?_)
      fun e c'' h' => ⟨h'.1, fun m hm => by cases hm⟩
    · obtain ⟨hmem, hp⟩ := Table.of_findOne (Except.ok.inj hm)
      rw [Bool.and_eq_true] at hp
      exact h.2 a rfl m hmem (of_decide_eq_true hp.1)
    · cases found with
      | none => exact ⟨h'.1, fun m hm => by cases hm⟩
      | some m =>
        refine ⟨h'.1, fun m' hm => ?_⟩
        cases hm
        exact h'.2 m rfl

theorem ensures_runInTransaction {body : Async V α} {R : α → List (List Char) → Prop}
    (h : ∀ c', c'.2 = c.2 → Ensures (execCore D) (fun _ _ => true) body
      (fun x c' => ∀ a, x = .ok a → R a c'.2) c') :
    Ensures (execCore D) (fun _ _ => true) (runInTransaction body)
      (fun x c' => ∀ a, x = .ok a → R a c'.2) c := by
  refine ensures_handle.mpr (Ensures.mono
    (Q := fun x c' => ∀ a, x = .ok a → R a c'.2) ?_ fun x c' hx => ?_)
  · refine Ensures.ok (R := fun a c' => R a c'.2) (ensures_walked (.await rfl)) fun _ c₁ h₁ => ?_
    refine Ensures.ok (R := fun a c' => R a c'.2) (h c₁ h₁) fun a c₂ h₂ => ?_
    refine Ensures.ok (R := fun a c' => R a c'.2) (ensures_walked (.await rfl)) fun _ c₃ h₃ => ?_
    intro b hb
    cases hb
    rw [h₃]
    exact h₂ a rfl
  · cases x with
    | ok a => exact hx
    | error e =>
      exact Ensures.ok (R := fun a c' => R a c'.2) (ensures_walked (.await rfl))
        fun _ c₁ _ b hb => by cases hb

theorem ensures_createMetric [LinearOrder V] [Zero V] {input : CreateMetricInput} :
    Ensures (execCore D) (fun _ _ => true) (createMetric D input)
      (fun x c' => ∀ m, x = .ok m →
        c'.2.Perm (c.2 ++ metricPatterns D input.userId input.organizationId m.id)) c := by
  refine Ensures.ok (ensures_walked (calls_checkMetricName fun _ _ => rfl)) fun _ c₁ h₁ => ?_
  refine Ensures.ok (ensures_walked (calls_checkCategory fun _ _ => rfl)) fun _ c₂ h₂ => ?_
  refine Ensures.ok (ensures_walked (calls_checkOriginalMetric fun _ _ => rfl)) fun _ c₃ h₃ => ?_
  refine ensures_runInTransaction (R := fun (m : Metric) walked =>
    walked.Perm (c.2 ++ metricPatterns D input.userId input.organizationId m.id)) ?_
  intro c₄ h₄
  refine Ensures.ok ensures_insertMetric_core fun m c₅ h₅ => ?_
  have hsettings : (createSettings (V := V) true
      ⟨m.id, input.organizationId, defaultSettings⟩).Calls fun op => op.walked = [] :=
    .bind calls_liftExcept fun _ => .await rfl
  refine Ensures.ok (ensures_walked hsettings) fun _ c₆ h₆ => ?_
  refine Ensures.ok ensures_invalidateMetrics fun _ c₇ h₇ => ?_
  intro m' hm'
  cases hm'
  rw [h₆, h₅.1, h₄, h₃, h₂, h₁, h₅.2 m rfl] at h₇
  exact h₇

end Calls

section

variable {D : Deps V} {q : MetricWrite} {d : Db V} {cache : List (Entry V)}
  {ms : List (Moment Input CachedRead)} {m : Metric} {s t : Traced V} {key : List Char}

theorem apart_core : Apart (execTraced D) (Traced.read D) Traced.core (execCore D) where
  exec_core := by
    intro inp op w w' r h
    obtain ⟨⟨a, world⟩, he, heq⟩ := Option.map_eq_some_iff.mp h
    cases heq
    obtain ⟨cache', he'⟩ := exec_store_eq he []
    exact Option.map_eq_some_iff.mpr ⟨_, he', rfl⟩
  other_part := by
    intro r s
    unfold Traced.read
    split
    · split
      · rfl
      · split <;> rfl
    · rfl

theorem ensures_program (q : MetricWrite) (c : MetricsStore V × List (List Char)) :
    Ensures (execCore D) (fun _ _ => true) (q.program D)
      (fun x c' => ∀ m, x = .ok m →
        c'.2.Perm (c.2 ++ metricPatterns D q.userId q.organizationId m.id)) c := by
  cases q with
  | createMetric input => exact ensures_createMetric
  | updateMetric input => exact ensures_updateMetric
  | deleteMetric userId organizationId metricId => exact ensures_deleteMetric

/-- A run that has returned. -/
theorem during_of_writeDuring (h : writeDuring D q d cache ms = some (m, t)) :
    during (execTraced D) (Traced.read D) ms (q.program D) ⟨World.init d cache, [], []⟩ =
      some (.done m, t) := by
  unfold writeDuring at h
  split at h
  · rename_i hrun
    cases h
    exact hrun
  · cases h

/-- **A write that returns has walked over each of its patterns once.** -/
theorem perm_walked (h : writeDuring D q d cache ms = some (m, t)) :
    t.walked.Perm (metricPatterns D q.userId q.organizationId m.id) :=
  (Ensures.of_during apart_core (ensures_program q _) (during_of_writeDuring h)) m rfl

end

end LakiraBackend.Metrics
