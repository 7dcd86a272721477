import LakiraBackend.Metrics.EntryPatterns
import LakiraBackend.Metrics.MetricWrites

/-!
# What is cached while a metric is written

The pages of the user and the details of the metric are walked over once in a write that succeeds
(`countP_patterns`), but not the details that are cached under an id that is spelled otherwise.

An update saves before it walks, so what is cached after a walk is of the data it leaves.  The other
two walk before the write is visible: what is cached between stays (`nothingStale_iff_onTime`).
-/

namespace LakiraBackend.Metrics

open LakiraBackend.Auth (Err)
open LakiraBackend.Concurrency LakiraBackend.JavaScript LakiraBackend.Postgres LakiraBackend.Redis

/-! ### Keys of pages and of details -/

section

variable {u o : Uuid}

theorem head_metric {parts : List (List Char)} :
    ∃ rest, joinParts ("metric".toList :: parts) = 'm' :: rest :=
  head_joinParts ⟨['e', 't', 'r', 'i', 'c'], by decide⟩

theorem cursor_chars : "cursor:".toList = 'c' :: ['u', 'r', 's', 'o', 'r', ':'] := by decide

theorem head_cursor {feature version : List Char} {parts : List (List Char)} :
    ∃ rest, joinParts (cursorCacheNamespace feature version :: parts) = 'c' :: rest := by
  refine head_joinParts ?_
  unfold cursorCacheNamespace
  rw [cursor_chars]
  exact ⟨_, List.cons_append⟩

theorem metricEntryPattern_list (id : List Char) (page : MetricsPage) :
    globMatch (metricEntryPattern u o id) ((MetricGet.list page).key u o) = false := by
  obtain ⟨pattern, hpattern⟩ : ∃ rest, metricEntryPattern u o id = 'm' :: rest := head_metric
  obtain ⟨rest, hrest⟩ : ∃ rest, (MetricGet.list page).key u o = 'c' :: rest := head_cursor
  rw [hpattern, hrest]
  exact globMatch_of_head (by decide) (by decide)

theorem cursorPattern_detail (id : IdText) (includes : List MetricDetailInclude)
    (logsLimit : Nat) : globMatch (cursorPattern u o METRIC_CURSOR_FEATURE)
      ((MetricGet.detail id includes logsLimit).key u o) = false := by
  obtain ⟨pattern, hpattern⟩ : ∃ rest, cursorPattern u o METRIC_CURSOR_FEATURE = 'c' :: rest :=
    head_cursor
  obtain ⟨rest, hrest⟩ : ∃ rest, (MetricGet.detail id includes logsLimit).key u o = 'm' :: rest :=
    head_metric
  rw [hpattern, hrest]
  exact globMatch_of_head (by decide) (by decide)

end

/-! ### What is stale -/

namespace MetricWrite

/-- Whether the write is visible before the cache is cleared. -/
def savesFirst : MetricWrite → Bool
  | updateMetric _ => true
  | _ => false

/-- The keys that the write of the metric `m` concerns. -/
def Concerns (q : MetricWrite) (m : Uuid) (key : List Char) : Prop :=
  ∃ g : MetricGet, g.Of m ∧ g.key q.userId q.organizationId = key

/-- Those with the id as the database writes it. -/
def Walks (q : MetricWrite) (m : Uuid) (key : List Char) : Prop :=
  ∃ g : MetricGet, g.Of m ∧ g.Canonical ∧ g.key q.userId q.organizationId = key

end MetricWrite

variable {V : Type} [LinearOrder V] [Zero V]

/-- Nothing that the write concerns is cached of other data than it leaves. -/
def NothingStale (D : Deps V) (q : MetricWrite) (d : Db V) (cache : List (Entry V))
    (ms : List (Moment Input CachedRead)) : Prop :=
  ∀ m t, writeDuring D q d cache ms = some (m, t) →
    ∀ e ∈ t.world.cache, q.Concerns m.id e.key → e.source = t.world.store.db

/-- What was cached before is walked over, and what is stored too: after the walk only what the
write leaves is stored, if it does not save first. -/
def OnTime (D : Deps V) (q : MetricWrite) (d : Db V) (cache : List (Entry V))
    (ms : List (Moment Input CachedRead)) : Prop :=
  ∀ m t, writeDuring D q d cache ms = some (m, t) →
    (∀ e ∈ cache, q.Concerns m.id e.key →
      (D.cacheEnabled = true ∧ q.Walks m.id e.key) ∨ e.source = t.world.store.db) ∧
    ∀ x ∈ t.stored, q.Concerns m.id x.entry.key →
      (q.Walks m.id x.entry.key ∧
        (q.savesFirst = true ∨ ∀ pattern ∈ x.walked, globMatch pattern x.entry.key = false)) ∨
      x.entry.source = t.world.store.db

/-! ### What the patterns take -/

section

variable {u o m : Uuid} {g : MetricGet}

theorem cursorPattern_list (D : Deps V) (page : MetricsPage) :
    globMatch (cursorPattern u o METRIC_CURSOR_FEATURE) ((MetricGet.list page).key u o) = true := by
  have hparse : AnyQuery.parse D (.metrics page.query) = some (.metrics page.opts) := by
    rw [AnyQuery.parse, page.parsed]
    rfl
  exact (Listed.pattern_matches_iff (D := D) (Listed.accepted_of_parse hparse) .metrics).mpr
    ⟨rfl, .inl ⟨rfl, rfl⟩⟩

/-- A page is walked over, and a detail under the id as the database writes it: once each. -/
theorem countP_patterns {D : Deps V} (hD : D.cacheEnabled = true) (hg : g.Of m)
    (hc : g.Canonical) :
    (metricPatterns D u o m).countP (fun pattern => globMatch pattern (g.key u o)) = 1 := by
  rw [metricPatterns, if_pos hD, List.countP_cons, List.countP_cons, List.countP_nil]
  cases g with
  | list page => rw [cursorPattern_list D page, metricEntryPattern_list]; rfl
  | detail id includes logsLimit =>
    obtain rfl : id.id = m := hg
    have hmatch : globMatch (metricEntryPattern u o id.id.text)
        ((MetricGet.detail id includes logsLimit).key u o) = true :=
      metricEntryPattern_matches_iff.mpr hc
    rw [cursorPattern_detail, hmatch]
    rfl

omit [LinearOrder V] [Zero V] in
/-- A detail under another spelling is not, and nothing is while Redis is not there. -/
theorem not_globMatch_patterns {D : Deps V} (hg : g.Of m)
    (hc : ¬(D.cacheEnabled = true ∧ g.Canonical)) :
    ∀ pattern ∈ metricPatterns D u o m, globMatch pattern (g.key u o) = false := by
  rw [metricPatterns]
  split
  · rename_i hD
    cases g with
    | list page => exact absurd ⟨hD, trivial⟩ hc
    | detail id includes logsLimit =>
      obtain rfl : id.id = m := hg
      have hmiss : globMatch (metricEntryPattern u o id.id.text)
          ((MetricGet.detail id includes logsLimit).key u o) = false :=
        Bool.eq_false_iff.mpr fun hmatch => hc ⟨hD, metricEntryPattern_matches_iff.mp hmatch⟩
      exact List.forall_mem_cons.mpr ⟨cursorPattern_detail id includes logsLimit,
        List.forall_mem_singleton.mpr hmiss⟩
  · exact fun pattern hpattern => absurd hpattern List.not_mem_nil

end

/-! ### What stays cached -/

/-- Nothing that was walked over since takes the key. -/
def Spared (walked walked' : List (List Char)) (key : List Char) : Prop :=
  ∃ since, walked' = walked ++ since ∧ ∀ pattern ∈ since, globMatch pattern key = false

/-- The calls that drop no key by name. -/
def Op.DropsNoKey : Op V → Prop
  | .del _ => False
  | _ => True

/-- The calls that leave the committed data as it is. -/
def Op.KeepsData : Op V → Prop
  | .commit => False
  | .statement _ _ => False
  | _ => True

section

variable {D : Deps V} {q : MetricWrite} {d : Db V} {cache : List (Entry V)}
  {ms : List (Moment Input CachedRead)} {m : Metric} {p : Async V Metric} {s s' t : Traced V}
  {inp : Input} {op : Op V} {r : Except Err op.Answer} {w w' : World V} {key : List Char}

omit [LinearOrder V] [Zero V]

theorem Spared.refl (walked : List (List Char)) : Spared walked walked key :=
  ⟨[], (List.append_nil walked).symm, fun _ h => absurd h List.not_mem_nil⟩

theorem spared_append_iff {walked walked' since : List (List Char)} (h : walked <+: walked') :
    Spared walked (walked' ++ since) key ↔
      Spared walked walked' key ∧ ∀ pattern ∈ since, globMatch pattern key = false := by
  obtain ⟨before, rfl⟩ := h
  constructor
  · rintro ⟨all, hall, hmiss⟩
    rw [List.append_assoc, List.append_cancel_left_eq] at hall
    subst hall
    obtain ⟨hbefore, hsince⟩ := List.forall_mem_append.mp hmiss
    exact ⟨⟨before, rfl, hbefore⟩, hsince⟩
  · rintro ⟨⟨before', heq, hbefore⟩, hsince⟩
    rw [List.append_cancel_left_eq] at heq
    subst heq
    exact ⟨before ++ since, List.append_assoc _ _ _,
      List.forall_mem_append.mpr ⟨hbefore, hsince⟩⟩

theorem mem_cache_of_exec (h : exec D 0 inp op w = some (r, w')) (hop : op.DropsNoKey)
    (e : Entry V) : e ∈ w'.cache ↔
      e ∈ w.cache ∧ ∀ pattern ∈ op.walked, globMatch pattern e.key = false := by
  cases op with
  | delByPattern pattern =>
    cases h
    rw [Op.walked, List.forall_mem_singleton, List.mem_filter, Bool.not_eq_true']
  | del key => cases hop
  | statement tx st =>
    obtain ⟨_, _, heq⟩ := Option.map_eq_some_iff.mp h
    cases heq
    exact (and_iff_left fun _ hnil => absurd hnil List.not_mem_nil).symm
  | _ =>
    cases h
    exact (and_iff_left fun _ hnil => absurd hnil List.not_mem_nil).symm

theorem db_of_exec (h : exec D 0 inp op w = some (r, w')) (hop : op.KeepsData) :
    w'.store.db = w.store.db := by
  cases op with
  | commit => cases hop
  | statement tx st => cases hop
  | _ =>
    cases h
    rfl

/-- What was walked over when something was stored, has been since. -/
def Traced.Follows (s : Traced V) : Prop := ∀ x ∈ s.stored, x.walked <+: s.walked

theorem execTraced_cases (h : execTraced D inp op s = some (r, s')) :
    exec D 0 inp op s.world = some (r, s'.world) ∧ s'.walked = s.walked ++ op.walked ∧
      s'.stored = s.stored := by
  obtain ⟨⟨a, w⟩, he, heq⟩ := Option.map_eq_some_iff.mp h
  cases heq
  exact ⟨he, rfl, rfl⟩

theorem Traced.Follows.exec (hs : s.Follows) (h : execTraced D inp op s = some (r, s')) :
    s'.Follows := by
  obtain ⟨_, hwalked, hstored⟩ := execTraced_cases h
  intro x hx
  rw [hstored] at hx
  rw [hwalked]
  exact (hs x hx).trans (List.prefix_append _ _)

/-- The world with one more entry, that is of the committed data. -/
def Traced.storing (s : Traced V) (entry : Entry V) : Traced V :=
  { s with
    world := { s.world with cache := entry :: s.world.cache }
    stored := ⟨entry, s.walked⟩ :: s.stored }

end

section

variable {D : Deps V} {q : MetricWrite} {d : Db V} {cache : List (Entry V)}
  {ms : List (Moment Input CachedRead)} {m : Metric} {p : Async V Metric} {s s' t : Traced V}
  {inp : Input} {op : Op V} {r : Except Err op.Answer}

theorem read_cases (D : Deps V) (r : CachedRead) (s : Traced V) :
    Traced.read D r s = s ∨ ∃ entry : Entry V, D.cacheEnabled = true ∧
      entry.source = s.world.store.db ∧ Traced.read D r s = s.storing entry := by
  unfold Traced.read
  split
  · rename_i hD
    split
    · exact .inl rfl
    · split
      · exact .inr ⟨_, hD, rfl, rfl⟩
      · exact .inl rfl
  · exact .inl rfl

theorem Traced.Follows.read (hs : s.Follows) (r : CachedRead) : (Traced.read D r s).Follows := by
  rcases read_cases D r s with heq | ⟨entry, _, _, heq⟩
  · rwa [heq]
  · rw [heq]
    exact List.forall_mem_cons.mpr ⟨List.prefix_refl _, hs⟩

/-- What is cached was there before or was stored, and no walk since has taken it. -/
structure Tracked (D : Deps V) (cache : List (Entry V)) (p : Async V Metric) (s : Traced V) :
    Prop where
  calls : p.Calls Op.DropsNoKey
  enabled : ∀ x ∈ s.stored, D.cacheEnabled = true
  follows : s.Follows
  mem_cache : ∀ e, e ∈ s.world.cache ↔ (e ∈ cache ∧ Spared [] s.walked e.key) ∨
    ∃ x ∈ s.stored, x.entry = e ∧ Spared x.walked s.walked e.key

omit [LinearOrder V] [Zero V] in
theorem Tracked.call {k : Except Err op.Answer → Async V Metric}
    (hs : Tracked D cache (.call op k) s) (h : execTraced D inp op s = some (r, s')) :
    Tracked D cache (k r) s' := by
  obtain ⟨he, hwalked, hstored⟩ := execTraced_cases h
  refine ⟨hs.calls.2 r, by rw [hstored]; exact hs.enabled, hs.follows.exec h, fun e => ?_⟩
  rw [mem_cache_of_exec he hs.calls.1, hs.mem_cache, hwalked, hstored, or_and_right, and_assoc,
    spared_append_iff (List.nil_prefix)]
  refine or_congr_right ⟨?_, ?_⟩
  · rintro ⟨⟨x, hx, rfl, hspared⟩, hmiss⟩
    exact ⟨x, hx, rfl, (spared_append_iff (hs.follows x hx)).mpr ⟨hspared, hmiss⟩⟩
  · rintro ⟨x, hx, rfl, hspared⟩
    obtain ⟨hspared, hmiss⟩ := (spared_append_iff (hs.follows x hx)).mp hspared
    exact ⟨⟨x, hx, rfl, hspared⟩, hmiss⟩

theorem Tracked.read (hs : Tracked D cache p s) (r : CachedRead) :
    Tracked D cache p (Traced.read D r s) := by
  have hfollows := hs.follows.read (D := D) r
  rcases read_cases D r s with heq | ⟨entry, hD, _, heq⟩
  · rwa [heq]
  · rw [heq] at hfollows ⊢
    refine ⟨hs.calls, fun _ _ => hD, hfollows, fun e => ?_⟩
    change e ∈ entry :: s.world.cache ↔ _ ∨ ∃ x ∈ ⟨entry, s.walked⟩ :: s.stored, _
    rw [List.mem_cons, hs.mem_cache, List.exists_mem_cons_iff, or_left_comm]
    refine or_congr_right (or_congr_left ⟨?_, fun h => h.1.symm⟩)
    rintro rfl
    exact ⟨rfl, .refl _⟩

/-- Once something was walked over, the data is as the write leaves it. -/
structure WrittenFirst (p : Async V Metric) (s : Traced V) : Prop where
  turns : p.Turns (fun op => op.walked ≠ []) Op.KeepsData
  after : s.walked ≠ [] → p.Calls Op.KeepsData
  follows : s.Follows
  source : ∀ x ∈ s.stored, x.walked ≠ [] → x.entry.source = s.world.store.db

omit [LinearOrder V] [Zero V] in
theorem WrittenFirst.call {k : Except Err op.Answer → Async V Metric}
    (hs : WrittenFirst (.call op k) s) (h : execTraced D inp op s = some (r, s')) :
    WrittenFirst (k r) s' := by
  obtain ⟨he, hwalked, hstored⟩ := execTraced_cases h
  refine ⟨hs.turns.2 r, fun hne => ?_, hs.follows.exec h, fun x hx hne => ?_⟩
  · by_cases hop : op.walked = []
    · rw [hwalked, hop, List.append_nil] at hne
      exact (hs.after hne).2 r
    · exact hs.turns.1 hop r
  · rw [hstored] at hx
    have hbefore : s.walked ≠ [] := (hs.follows x hx).ne_nil hne
    rw [db_of_exec he (hs.after hbefore).1]
    exact hs.source x hx hne

theorem WrittenFirst.read (hs : WrittenFirst p s) (r : CachedRead) :
    WrittenFirst p (Traced.read D r s) := by
  have hfollows := hs.follows.read (D := D) r
  rcases read_cases D r s with heq | ⟨entry, _, hsource, heq⟩
  · rwa [heq]
  · rw [heq] at hfollows ⊢
    exact ⟨hs.turns, hs.after, hfollows,
      List.forall_mem_cons.mpr ⟨fun _ => hsource, hs.source⟩⟩

/-! ### The calls of the three -/

theorem dropsNoKey_program (q : MetricWrite) : (q.program D).Calls Op.DropsNoKey := by
  cases q with
  | createMetric input =>
    refine .bind (calls_checkMetricName fun _ _ => trivial) fun _ =>
      .bind (calls_checkCategory fun _ _ => trivial) fun _ =>
      .bind (calls_checkOriginalMetric fun _ _ => trivial) fun _ =>
      calls_runInTransaction trivial trivial trivial (.bind ?_ fun m => .bind ?_ fun _ =>
        .bind (calls_invalidateMetrics trivial fun _ => trivial) fun _ => trivial)
    · refine .bind (.await trivial) fun id => .bind (.await trivial) fun m => ?_
      cases m <;> trivial
    · exact .bind calls_liftExcept fun _ => .await trivial
  | updateMetric input =>
    exact .bind (calls_findOwnedById fun _ _ => trivial) fun m =>
      .bind (calls_checkCategory fun _ _ => trivial) fun _ =>
      .bind (calls_checkOriginalMetric fun _ _ => trivial) fun _ =>
      .bind (calls_checkNewName fun _ _ => trivial) fun _ => .bind calls_ensure fun _ =>
      .bind calls_liftExcept fun _ =>
      .bind (calls_saveMetric (fun _ _ => trivial) fun _ _ => trivial) fun _ =>
      .bind (calls_invalidateMetrics trivial fun _ => trivial) fun _ => trivial
  | deleteMetric userId organizationId metricId =>
    exact .bind (calls_findOwnedById fun _ _ => trivial) fun m =>
      .bind (calls_invalidateMetrics trivial fun _ => trivial) fun _ =>
      .bind (.bind (calls_findOwnedById fun _ _ => trivial) fun _ => .await trivial) fun _ => trivial

omit [LinearOrder V] [Zero V] in
theorem turns_updateMetric (input : UpdateMetricInput) :
    (updateMetric D input).Turns (fun op => op.walked ≠ []) Op.KeepsData := by
  refine .bind (calls_findOwnedById fun _ _ => fun hne => hne rfl) fun m =>
    .bind (calls_checkCategory fun _ _ => fun hne => hne rfl) fun _ =>
    .bind (calls_checkOriginalMetric fun _ _ => fun hne => hne rfl) fun _ =>
    .bind (calls_checkNewName fun _ _ => fun hne => hne rfl) fun _ => .bind calls_ensure fun _ =>
    .bind calls_liftExcept fun _ =>
    .bind (calls_saveMetric (fun _ _ => fun hne => hne rfl) fun _ _ => fun hne => hne rfl) fun _ =>
    .of_calls ?_
  exact .bind (calls_invalidateMetrics trivial fun _ => trivial) fun _ => trivial

/-! ### A run -/

theorem tracked_of_writeDuring (h : writeDuring D q d cache ms = some (m, t)) :
    Tracked D cache (.done m) t := by
  refine during_induction (I := Tracked D cache) (fun hI he => hI.call he) (fun r _ _ hI => hI.read r)
    ⟨dropsNoKey_program q, ?_, ?_, fun e => ?_⟩ (during_of_writeDuring h)
  · exact fun x hx => absurd hx List.not_mem_nil
  · exact fun x hx => absurd hx List.not_mem_nil
  · change e ∈ cache ↔ _ ∨ ∃ x ∈ [], _
    simp [Spared.refl]

/-- An update has saved before it walks over anything. -/
theorem source_of_savesFirst (h : writeDuring D q d cache ms = some (m, t))
    (hq : q.savesFirst = true) :
    ∀ x ∈ t.stored, x.walked ≠ [] → x.entry.source = t.world.store.db := by
  cases q with
  | updateMetric input =>
    refine (during_induction (I := WrittenFirst) (fun hI he => hI.call he)
      (fun r _ _ hI => hI.read r) ⟨turns_updateMetric input, ?_, ?_, ?_⟩
      (during_of_writeDuring h)).source
    · exact fun hne => absurd rfl hne
    · exact fun x hx => absurd hx List.not_mem_nil
    · exact fun x hx => absurd hx List.not_mem_nil
  | _ => cases hq

/-- A key that a write walks over is taken by one pattern. -/
theorem countP_walked (h : writeDuring D q d cache ms = some (m, t)) (hD : D.cacheEnabled = true)
    {key : List Char} (hwalks : q.Walks m.id key) :
    t.walked.countP (fun pattern => globMatch pattern key) = 1 := by
  obtain ⟨g, hg, hc, rfl⟩ := hwalks
  rw [(perm_walked h).countP_eq, countP_patterns hD hg hc]

/-- It stays cached only where that was walked over before. -/
theorem exists_of_spared (h : writeDuring D q d cache ms = some (m, t)) (hD : D.cacheEnabled = true)
    {key : List Char} (hwalks : q.Walks m.id key) {before : List (List Char)}
    (hspared : Spared before t.walked key) : ∃ pattern ∈ before, globMatch pattern key = true := by
  obtain ⟨since, heq, hmiss⟩ := hspared
  have hcount := countP_walked h hD hwalks
  have hnone : since.countP (fun pattern => globMatch pattern key) = 0 :=
    List.countP_eq_zero.mpr fun pattern hp => Bool.eq_false_iff.mp (hmiss pattern hp)
  rw [heq, List.countP_append, hnone] at hcount
  exact List.countP_pos_iff.mp (by omega)

theorem spared_of_exists (h : writeDuring D q d cache ms = some (m, t)) (hD : D.cacheEnabled = true)
    {key : List Char} (hwalks : q.Walks m.id key) {before : List (List Char)}
    (hbefore : before <+: t.walked) (hmatch : ∃ pattern ∈ before, globMatch pattern key = true) :
    Spared before t.walked key := by
  obtain ⟨since, heq⟩ := hbefore
  have hcount := countP_walked h hD hwalks
  have hpos := List.countP_pos_iff.mpr hmatch
  rw [← heq, List.countP_append] at hcount
  have hnone : since.countP (fun pattern => globMatch pattern key) = 0 := by omega
  exact ⟨since, heq.symm, fun pattern hp =>
    Bool.eq_false_iff.mpr (List.countP_eq_zero.mp hnone pattern hp)⟩

/-- A key that it does not walk over stays. -/
theorem spared_of_not_walks (h : writeDuring D q d cache ms = some (m, t)) {key : List Char}
    (hconcerns : q.Concerns m.id key) (hnot : ¬(D.cacheEnabled = true ∧ q.Walks m.id key))
    {before : List (List Char)} (hbefore : before <+: t.walked) : Spared before t.walked key := by
  obtain ⟨since, heq⟩ := hbefore
  obtain ⟨g, hg, rfl⟩ := hconcerns
  refine ⟨since, heq.symm, fun pattern hp => ?_⟩
  refine not_globMatch_patterns hg (fun hc => hnot ⟨hc.1, g, hg, hc.2, rfl⟩) pattern
    ((perm_walked h).mem_iff.mp ?_)
  rw [← heq]
  exact List.mem_append_right before hp

/-- **Nothing stale is cached by the time a write returns, if and only if it is all on time.** -/
theorem nothingStale_iff_onTime (D : Deps V) (q : MetricWrite) (d : Db V) (cache : List (Entry V))
    (ms : List (Moment Input CachedRead)) :
    NothingStale D q d cache ms ↔ OnTime D q d cache ms := by
  refine forall₃_congr fun m t h => ?_
  have htracked := tracked_of_writeDuring h
  constructor
  · intro hstale
    refine ⟨fun e he hconcerns => ?_, fun x hx hconcerns => ?_⟩
    · by_cases hwalks : D.cacheEnabled = true ∧ q.Walks m.id e.key
      · exact .inl hwalks
      · have hspared := spared_of_not_walks h hconcerns hwalks List.nil_prefix
        exact .inr (hstale e ((htracked.mem_cache e).mpr (.inl ⟨he, hspared⟩)) hconcerns)
    · have hstays : Spared x.walked t.walked x.entry.key →
          x.entry.source = t.world.store.db := fun hspared =>
        hstale x.entry ((htracked.mem_cache x.entry).mpr (.inr ⟨x, hx, rfl, hspared⟩)) hconcerns
      have hbefore := htracked.follows x hx
      by_cases hwalks : q.Walks m.id x.entry.key
      · by_cases hwalked : ∃ pattern ∈ x.walked, globMatch pattern x.entry.key = true
        · exact .inr (hstays (spared_of_exists h (htracked.enabled x hx) hwalks hbefore hwalked))
        · refine .inl ⟨hwalks, .inr fun pattern hp => Bool.eq_false_iff.mpr fun hmatch => ?_⟩
          exact hwalked ⟨pattern, hp, hmatch⟩
      · exact .inr (hstays (spared_of_not_walks h hconcerns (fun hw => hwalks hw.2) hbefore))
  · rintro ⟨hcache, hstored⟩ e he hconcerns
    rcases (htracked.mem_cache e).mp he with ⟨he, hspared⟩ | ⟨x, hx, rfl, hspared⟩
    · rcases hcache e he hconcerns with ⟨hD, hwalks⟩ | hsource
      · obtain ⟨_, hp, _⟩ := exists_of_spared h hD hwalks hspared
        exact absurd hp List.not_mem_nil
      · exact hsource
    · rcases hstored x hx hconcerns with ⟨hwalks, hontime⟩ | hsource
      · obtain ⟨pattern, hp, hmatch⟩ :=
          exists_of_spared h (htracked.enabled x hx) hwalks hspared
        rcases hontime with hfirst | hmissed
        · exact source_of_savesFirst h hfirst x hx (List.ne_nil_of_mem hp)
        · rw [hmissed pattern hp] at hmatch
          cases hmatch
      · exact hsource

end

/-- The newest twenty metrics. -/
def newestMetrics : MetricsPage where
  query := ⟨20, .createdAt, .DESC, none, none, false, ⟨none, none⟩, none⟩
  opts := ⟨20, "-createdAt".toList, none, none, none, false⟩
  parsed := rfl

/-- The page is asked for after the walks of a deletion, and before the row is gone. -/
def askedBetween : List (Moment Input CachedRead) :=
  List.replicate 5 (.call ⟨0, Utc.epoch, 0⟩) ++ .other ⟨1, 2, .list newestMetrics⟩ ::
    List.replicate 2 (.call ⟨0, Utc.epoch, 0⟩)

/-- The page that is cached then still has the metric. -/
theorem not_nothingStale_deleteMetric :
    ¬NothingStale utcDeps (.deleteMetric 1 2 (.ofUuid 7)) walksDb [] askedBetween := by
  intro hstale
  have hsource := hstale walking _ rfl _ List.mem_cons_self ⟨.list newestMetrics, trivial, rfl⟩
  have hrows := congrArg (fun d => d.metrics.rows.map Metric.deletedAt) hsource
  cases hrows

end LakiraBackend.Metrics
