import LakiraBackend.Metrics.Ownership
import LakiraBackend.Postgres.UniqueIndex

/-!
# Names are unique

The indexes `uq_metrics_user_name` and `uq_metric_categories_user_name` are on the user and the name
in lower case, of rows that are not deleted.  The database refuses a write that would give two rows
one key, among the rows that are committed and those that a session has not committed; so in every
state that is reached the names of a user are unique, over all organizations
(`named_of_reachable`).
-/

namespace LakiraBackend.Metrics

open LakiraBackend.Auth (Err)
open LakiraBackend.Concurrency LakiraBackend.JavaScript LakiraBackend.Postgres

variable {V : Type}

/-- What the indexes have of a row. -/
def nameKey (D : Deps V) (live : Bool) (userId : Uuid) (name : String) : Option (Uuid × String) :=
  if live then some (userId, D.lower name) else none

def metricKey (D : Deps V) (m : Metric) : Option (Uuid × String) :=
  nameKey D m.deletedAt.isNone m.userId m.name

def categoryKey (D : Deps V) (c : MetricCategory) : Option (Uuid × String) :=
  nameKey D c.deletedAt.isNone c.userId c.name

/-- The indexes are in force. -/
structure Named (D : Deps V) (d : Db V) : Prop where
  metrics : Unique (metricKey D) d.metrics
  categories : Unique (categoryKey D) d.categories

variable {D : Deps V} {d : Db V} {m n : Metric} {c : MetricCategory} {id u : Uuid} {now : Date}
  {name : String}

theorem nameKey_eq_some {live : Bool} {k : Uuid × String} :
    nameKey D live u name = some k ↔ live = true ∧ u = k.1 ∧ D.lower name = k.2 := by
  unfold nameKey
  split
  · rename_i hlive
    rw [Option.some.injEq, Prod.ext_iff]
    exact (and_iff_right hlive).symm
  · rename_i hlive
    exact iff_of_false nofun fun h => hlive h.1

/-- Another row has the name, in terms of the index. -/
theorem taken_iff {Row : Type} {rows : List Row} {idOf userOf : Row → Uuid} {live : Row → Bool}
    {nameOf : Row → String} :
    (rows.any fun r => idOf r ≠ id && userOf r = u && live r &&
      D.lower (nameOf r) = D.lower name) = true ↔
    ∃ r ∈ rows, idOf r ≠ id ∧ nameKey D (live r) (userOf r) (nameOf r) = some (u, D.lower name) := by
  simp only [List.any_eq_true, Bool.and_eq_true, decide_eq_true_eq, nameKey_eq_some]
  refine exists_congr fun r => and_congr_right fun _ => ?_
  constructor
  · rintro ⟨⟨⟨hid, hu⟩, hlive⟩, hname⟩
    exact ⟨hid, hlive, hu, hname⟩
  · rintro ⟨hid, hlive, hu, hname⟩
    exact ⟨⟨⟨hid, hu⟩, hlive⟩, hname⟩

/-- A row that fits and is not refused has a name that is free. -/
theorem free_of_refuse {Row : Type} {idOf : Row → Uuid} (userOf : Row → Uuid) (live : Row → Bool)
    (nameOf : Row → String) {t : Table idOf} {row : Row} {fits : Bool} {tooLong taken : Err}
    (h : (if !fits then some tooLong
      else if live row && t.rows.any fun r => idOf r ≠ idOf row && userOf r = userOf row && live r &&
        D.lower (nameOf r) = D.lower (nameOf row) then some taken
      else none) = none) :
    Free (fun r => nameKey D (live r) (userOf r) (nameOf r)) t row := by
  intro r hr hne k hk hk'
  obtain ⟨hlive, hu, hname⟩ := nameKey_eq_some.mp hk
  split at h
  · cases h
  · split at h
    · cases h
    · rename_i hfree
      rw [Bool.and_eq_true, not_and] at hfree
      refine hfree hlive (taken_iff.mpr ⟨r, hr, hne, ?_⟩)
      exact hk'.trans (by rw [hu, hname])

theorem free_of_refuseMetric (h : Write.refuseMetric D d m = none) :
    Free (metricKey D) d.metrics m :=
  free_of_refuse Metric.userId (fun m => m.deletedAt.isNone) Metric.name h

theorem free_of_refuseCategory (h : Write.refuseCategory D d c = none) :
    Free (categoryKey D) d.categories c :=
  free_of_refuse MetricCategory.userId (fun c => c.deletedAt.isNone) MetricCategory.name h

/-! ### What a session sees -/

variable {s s' : MetricsStore V} {i j : Nat} {w : Write V}

/-- The metrics of a session are those that are committed, and those that it has inserted. -/
theorem mem_metrics_foldl {ws : List (Write V)}
    (hws : ∀ w ∈ ws, (∃ m, w = .insertMetric m) ∨ ∃ row, w = .insertSettings row)
    (hnew : ∀ n, .insertMetric n ∈ ws → n.id ∉ metricIds d) (hapart : ws.Pairwise Apart) :
    m ∈ (ws.foldl (fun d w => w.apply d) d).metrics.rows ↔
      m ∈ d.metrics.rows ∨ .insertMetric m ∈ ws := by
  induction ws generalizing d with
  | nil => simp
  | cons w ws ih =>
    obtain ⟨hw, hrest⟩ := List.pairwise_cons.mp hapart
    have hnew' : ∀ n, .insertMetric n ∈ ws → n.id ∉ metricIds (w.apply d) := by
      intro n hn hmem
      rcases mem_metricIds_apply.mp hmem with hold | ⟨n', rfl, hid⟩
      · exact hnew n (List.mem_cons_of_mem w hn) hold
      · exact hw _ hn n' n rfl rfl hid
    rw [List.foldl_cons, ih (fun w' hw' => hws w' (List.mem_cons_of_mem w hw')) hnew' hrest]
    rcases hws w List.mem_cons_self with ⟨n, rfl⟩ | ⟨row, rfl⟩
    · have hins : m ∈ ((Write.insertMetric (V := V) n).apply d).metrics.rows ↔
          m = n ∨ m ∈ d.metrics.rows := by
        constructor
        · exact Table.mem_insert
        · rintro (rfl | hm)
          · exact Table.mem_insert_self (hnew m List.mem_cons_self)
          · exact Table.mem_insert_of_mem hm
      rw [hins, List.mem_cons, Write.insertMetric.injEq, or_comm (a := m = n), or_assoc]
    · rw [List.mem_cons]
      exact or_congr_right ⟨.inr, fun h => h.resolve_left nofun⟩

theorem categories_foldl {ws : List (Write V)}
    (hws : ∀ w ∈ ws, (∃ m, w = .insertMetric m) ∨ ∃ row, w = .insertSettings row) :
    (ws.foldl (fun d w => w.apply d) d).categories = d.categories := by
  induction ws generalizing d with
  | nil => rfl
  | cons w ws ih =>
    rw [List.foldl_cons, ih fun w' hw' => hws w' (List.mem_cons_of_mem w hw')]
    rcases hws w List.mem_cons_self with ⟨n, rfl⟩ | ⟨row, rfl⟩ <;> rfl

namespace Guarded

theorem inserts (h : Guarded s) (hw : w ∈ s.pendingOf i) :
    (∃ m, w = .insertMetric m) ∨ ∃ row, w = .insertSettings row := by
  rcases h.pending (i, w) (s.mem_pendingOf.mp hw) with ⟨m, hm, _⟩ | ⟨row, hrow, _⟩
  · exact .inl ⟨m, hm⟩
  · exact .inr ⟨row, hrow⟩

theorem mem_view (h : Guarded s) : m ∈ (s.view (schema D) i).metrics.rows ↔
    m ∈ s.db.metrics.rows ∨ (i, .insertMetric m) ∈ s.pending := by
  rw [← s.mem_pendingOf]
  refine mem_metrics_foldl (fun w hw => h.inserts hw)
    (fun n hn => h.new _ (s.mem_pendingOf.mp hn) n rfl) ?_
  exact List.pairwise_map.mpr (h.apart.sublist List.filter_sublist)

end Guarded

/-! ### Names in a store -/

/-- The write changes the table of metrics. -/
def Write.TouchesMetrics : Write V → Prop
  | .insertMetric _ => True
  | .updateMetric _ _ _ => True
  | .destroyMetric _ _ => True
  | _ => False

/-- The two do not have one key. -/
def Distinct (D : Deps V) (v w : Write V) : Prop :=
  ∀ m n, v = .insertMetric m → w = .insertMetric n → ∀ k, metricKey D m = some k →
    metricKey D n ≠ some k

instance : Std.Symm fun p q : Nat × Write V => Distinct D p.2 q.2 where
  symm _ _ h m n hm hn k hk hk' := h n m hn hm k hk' hk

/-- The names of what is committed, and of what is not, are unique. -/
structure NamedStore (D : Deps V) (s : MetricsStore V) : Prop where
  named : Named D s.db
  new : ∀ p ∈ s.pending, ∀ m, p.2 = .insertMetric m → Free (metricKey D) s.db.metrics m
  apart : s.pending.Pairwise fun p q => Distinct D p.2 q.2

namespace NamedStore

theorem mono (h : NamedStore D s) (hdb : s'.db = s.db)
    (hp : s'.pending = s.pending.filter fun p => p.1 ≠ i) : NamedStore D s' where
  named := hdb ▸ h.named
  new := by
    rw [hp, hdb]
    exact fun p hmem => h.new p (List.mem_of_mem_filter hmem)
  apart := hp ▸ h.apart.sublist List.filter_sublist

theorem rollback (h : NamedStore D s) (i : Nat) : NamedStore D (s.rollback i) := h.mono rfl rfl

theorem drop (h : NamedStore D s) (i : Nat) : NamedStore D (s.drop i) := h.mono rfl rfl

/-- What a session has inserted has no other metric's name. -/
theorem free_view (h : NamedStore D s) (hg : Guarded s) {p : Nat × Write V} (hp : p ∈ s.pending)
    (hm : p.2 = .insertMetric m) : Free (metricKey D) (s.view (schema D) i).metrics m := by
  intro n hn hne k hk
  rcases hg.mem_view.mp hn with hn | hn
  · exact h.new p hp m hm n hn hne k hk
  · have hpq : p ≠ (i, .insertMetric n) := by
      rintro rfl
      cases hm
      exact hne rfl
    exact h.apart.forall hp hn hpq m n hm rfl k hk

theorem commit (h : NamedStore D s) (hg : Guarded s) (i : Nat) :
    NamedStore D (s.commit (schema D) i) where
  named := by
    refine ⟨?_, ?_⟩
    · intro r hr r' hr' k hk hk'
      by_contra hne
      have hid : ∀ {a b : Metric}, a ∈ (s.view (schema D) i).metrics.rows →
          b ∈ (s.view (schema D) i).metrics.rows → a ≠ b → a.id ≠ b.id :=
        fun ha hb hab heq => hab ((s.view (schema D) i).metrics.eq_of_id ha hb heq)
      rcases hg.mem_view.mp hr with hold | hpend
      · rcases hg.mem_view.mp hr' with hold' | hpend'
        · exact hne (h.named.metrics r hold r' hold' k hk hk')
        · exact h.free_view hg hpend' rfl r hr (hid hr hr' hne) k hk' hk
      · exact h.free_view hg hpend rfl r' hr' (hid hr' hr (Ne.symm hne)) k hk hk'
    · have hsame : (s.view (schema D) i).categories = s.db.categories :=
        categories_foldl fun w hw => hg.inserts hw
      change Unique (categoryKey D) (s.view (schema D) i).categories
      rw [hsame]
      exact h.named.categories
  new p hp _ hm := h.free_view hg (List.mem_of_mem_filter hp) hm
  apart := (h.rollback i).apart

/-- A row that is free among what a session sees is free among what is committed. -/
theorem free_of_view (hg : Guarded s) (hfree : Free (metricKey D) (s.view (schema D) i).metrics m) :
    Free (metricKey D) s.db.metrics m :=
  fun n hn => hfree n (hg.mem_view.mpr (.inl hn))

/-- What the database asks of a metric that is inserted. -/
theorem of_refuse_insert (h : (schema D).refuse (.insertMetric m) d = none) :
    Free (metricKey D) d.metrics m := by
  refine free_of_refuseMetric ?_
  have hid := Guarded.not_mem_of_refuse h
  have hrefuse : (schema D).refuse (.insertMetric m) d = Write.refuseMetric D d m := if_neg hid
  rwa [hrefuse] at h

/-- What it asks of one that is updated. -/
theorem of_refuse_update {patch : MetricPatch}
    (h : (schema D).refuse (.updateMetric id patch now) d = none) (hm : m ∈ d.metrics.rows)
    (hid : m.id = id) : Free (metricKey D) d.metrics (patch.apply now m) := by
  have hfound : d.metrics.findOne (fun m => decide (m.id = id)) = some m :=
    Table.findOne_id.mpr ⟨hm, hid⟩
  have hrefuse : (schema D).refuse (.updateMetric id patch now) d =
      Write.refuseMetric D d (patch.apply now m) := by
    change (d.metrics.findOne fun m => decide (m.id = id)).bind _ = _
    rw [hfound]
    rfl
  exact free_of_refuseMetric (hrefuse ▸ h)

theorem put (h : NamedStore D s) (hg : Guarded s) (ht : s.Takes (schema D) i true w)
    (hw : (∃ m, w = .insertMetric m) ∨ ∃ row, w = .insertSettings row) :
    NamedStore D (s.put (schema D) i w) where
  named := h.named
  new := by
    intro p hp m hm
    rcases List.mem_append.mp hp with hp | hp
    · exact h.new p hp m hm
    · rw [List.mem_singleton.mp hp] at hm
      have hwm : w = .insertMetric m := hm
      subst hwm
      have hfree : Free (metricKey D) s.db.metrics m :=
        free_of_view hg (of_refuse_insert ht.accepted)
      exact hfree
  apart := by
    refine List.pairwise_append.mpr ⟨h.apart, List.pairwise_singleton _ _, ?_⟩
    intro p hp q hq m n hm hn k hk hk'
    rw [List.mem_singleton.mp hq] at hn
    have hwn : w = .insertMetric n := hn
    subst hwn
    obtain ⟨j, v⟩ := p
    have hv : v = .insertMetric m := hm
    subst hv
    have hview : m ∈ (s.view (schema D) j).metrics.rows := hg.mem_view.mpr (.inr hp)
    have hclash : (schema D).refuse (.insertMetric n) (s.view (schema D) j) = none → False := by
      intro hrefuse
      have hid : m.id ≠ n.id := fun heq =>
        Guarded.not_mem_of_refuse hrefuse (heq ▸ List.mem_map_of_mem hview)
      exact of_refuse_insert hrefuse m hview hid k hk' hk
    by_cases hj : j = i
    · exact hclash (hj ▸ ht.accepted)
    · exact hclash (ht.uncontested j _ hj hp)

theorem of_refuse_insertCategory (h : (schema D).refuse (.insertCategory c) d = none) :
    Free (categoryKey D) d.categories c := by
  refine free_of_refuseCategory ?_
  change (if c.id ∈ d.categories.rows.map MetricCategory.id then _ else _) = none at h
  split at h
  · cases h
  · exact h

theorem of_refuse_updateCategory {patch : CategoryPatch}
    (h : (schema D).refuse (.updateCategory id patch now) d = none) (hc : c ∈ d.categories.rows)
    (hid : c.id = id) : Free (categoryKey D) d.categories (patch.apply now c) := by
  have hfound : d.categories.findOne (fun c => decide (c.id = id)) = some c :=
    Table.findOne_id.mpr ⟨hc, hid⟩
  have hrefuse : (schema D).refuse (.updateCategory id patch now) d =
      Write.refuseCategory D d (patch.apply now c) := by
    change (d.categories.findOne fun c => decide (c.id = id)).bind _ = _
    rw [hfound]
    rfl
  exact free_of_refuseCategory (hrefuse ▸ h)

/-- **A write that the database takes keeps the indexes.** -/
theorem named_apply (h : Named D d) (hw : (schema D).refuse w d = none) : Named D (w.apply d) where
  metrics := by
    cases w with
    | insertMetric m => exact h.metrics.insert (of_refuse_insert hw)
    | updateMetric id patch now =>
      exact h.metrics.updateWhere (f := patch.apply now) (fun _ => rfl)
        (fun m hm => of_decide_eq_true hm)
        fun m hm hid => of_refuse_update hw hm (of_decide_eq_true hid)
    | destroyMetric id now =>
      exact h.metrics.updateWhere (f := fun m => { m with updatedAt := now, deletedAt := some now })
        (fun _ => rfl) (fun m hm => of_decide_eq_true hm) fun m _ _ => .of_none rfl
    | _ => exact h.metrics
  categories := by
    cases w with
    | insertCategory c => exact h.categories.insert (of_refuse_insertCategory hw)
    | updateCategory id patch now =>
      exact h.categories.updateWhere (f := patch.apply now) (fun _ => rfl)
        (fun c hc => of_decide_eq_true hc) fun c hc hid =>
          of_refuse_updateCategory hw hc (of_decide_eq_true hid)
    | destroyCategories u o id now =>
      exact h.categories.updateWhere (f := fun c => { c with deletedAt := some now }) (fun _ => rfl)
        (fun c hc => of_decide_eq_true (Bool.and_eq_true_iff.mp hc).1) fun c _ _ => .of_none rfl
    | _ => exact h.categories

/-- What another session has inserted stays free. -/
theorem free_apply (h : NamedStore D s) (hg : Guarded s) (hm : (j, .insertMetric m) ∈ s.pending)
    (hw : (schema D).refuse w (s.view (schema D) j) = none) (hnew : ∀ m, w ≠ .insertMetric m) :
    Free (metricKey D) (w.apply s.db).metrics m := by
  have hold : Free (metricKey D) s.db.metrics m := h.new _ hm m rfl
  have hview : m ∈ (s.view (schema D) j).metrics.rows := hg.mem_view.mpr (.inr hm)
  intro n hn hne k hk hk'
  cases w with
  | insertMetric row => exact hnew row rfl
  | updateMetric id patch now =>
    have hn : n ∈ (s.db.metrics.updateWhere (fun m => m.id = id) (patch.apply now)
      fun _ => rfl).rows := hn
    rcases Table.mem_updateWhere.mp hn with ⟨n, hn', hid, rfl⟩ | ⟨hn', _⟩
    · exact of_refuse_update hw (hg.mem_view.mpr (.inl hn')) (of_decide_eq_true hid) m hview
        (Ne.symm hne) k hk' hk
    · exact hold n hn' hne k hk hk'
  | destroyMetric id now =>
    have hn : n ∈ (s.db.metrics.updateWhere (fun m => m.id = id)
      (fun m => { m with updatedAt := now, deletedAt := some now }) fun _ => rfl).rows := hn
    rcases Table.mem_updateWhere.mp hn with ⟨n, hn', _, rfl⟩ | ⟨hn', _⟩
    · cases hk'
    · exact hold n hn' hne k hk hk'
  | _ => exact hold n hn hne k hk hk'

theorem autocommit (h : NamedStore D s) (hg : Guarded s) (ht : s.Takes (schema D) i false w)
    (hown : w.TouchesMetrics → s.pendingOf i = []) (hnew : ∀ m, w ≠ .insertMetric m) :
    NamedStore D (s.autocommit (schema D) w) where
  named := named_apply h.named ht.accepted
  new := by
    rintro ⟨j, v⟩ hp m hm
    have hv : v = .insertMetric m := hm
    subst hv
    by_cases hw : w.TouchesMetrics
    · have hj : j ≠ i := by
        rintro rfl
        have hmem : Write.insertMetric m ∈ s.pendingOf j := s.mem_pendingOf.mpr hp
        rw [hown hw] at hmem
        cases hmem
      exact free_apply h hg hp (ht.uncontested j _ hj hp) hnew
    · have hsame : (w.apply s.db).metrics = s.db.metrics := by
        cases w <;> first | rfl | exact absurd trivial hw
      change Free (metricKey D) (w.apply s.db).metrics m
      rw [hsame]
      exact h.new _ hp m rfl
  apart := h.apart

end NamedStore

/-! ### Names are trimmed -/

/-- A name is sent without white space at its ends, as `zMetricName` makes it. -/
def Request.TrimsName : Request V → Prop
  | .createMetric input => trim input.name = input.name
  | _ => True

def Write.TrimsName : Write V → Prop
  | .insertMetric row => trim row.name = row.name
  | .updateMetric _ patch _ => ∀ name, patch.name = some name → trim name = name
  | _ => True

def Trimmed (d : Db V) : Prop := ∀ m ∈ d.metrics.rows, trim m.name = m.name

theorem trimmed_apply (h : Trimmed d) (hw : w.TrimsName) : Trimmed (w.apply d) := by
  cases w with
  | insertMetric row => exact forall_insert h hw
  | updateMetric id patch now =>
    refine forall_updateWhere (g := patch.apply now) (fun _ => rfl) h fun m _ _ hm => ?_
    change trim (patch.name.getD m.name) = patch.name.getD m.name
    cases hp : patch.name with
    | none => exact hm
    | some name => exact hw name hp
  | destroyMetric id now =>
    intro m hm
    have hm : m ∈ (d.metrics.updateWhere (fun m => m.id = id)
      (fun m => { m with updatedAt := now, deletedAt := some now }) fun _ => rfl).rows := hm
    rcases Table.mem_updateWhere.mp hm with ⟨r, hr, _, rfl⟩ | ⟨hr, _⟩
    · exact h r hr
    · exact h m hr
  | _ => exact h

theorem trimmed_foldl {ws : List (Write V)} (h : Trimmed d) (hws : ∀ w ∈ ws, w.TrimsName) :
    Trimmed (ws.foldl (fun d w => w.apply d) d) := by
  induction ws generalizing d with
  | nil => exact h
  | cons w ws ih =>
    exact ih (trimmed_apply h (hws w List.mem_cons_self))
      fun w' hw' => hws w' (List.mem_cons_of_mem w hw')

structure TrimmedStore (s : MetricsStore V) : Prop where
  db : Trimmed s.db
  pending : ∀ p ∈ s.pending, p.2.TrimsName

namespace TrimmedStore

theorem rollback (h : TrimmedStore s) (i : Nat) : TrimmedStore (s.rollback i) :=
  ⟨h.db, fun p hp => h.pending p (List.mem_of_mem_filter hp)⟩

theorem drop (h : TrimmedStore s) (i : Nat) : TrimmedStore (s.drop i) :=
  ⟨h.db, fun p hp => h.pending p (List.mem_of_mem_filter hp)⟩

theorem commit (h : TrimmedStore s) (i : Nat) : TrimmedStore (s.commit (schema D) i) :=
  ⟨trimmed_foldl h.db fun _ hw => h.pending _ (s.mem_pendingOf.mp hw),
    fun p hp => h.pending p (List.mem_of_mem_filter hp)⟩

theorem written {tx : Bool} (h : TrimmedStore s) (hw : w.TrimsName) :
    TrimmedStore (s.written (schema D) i tx w) := by
  cases tx with
  | true =>
    refine ⟨h.db, fun p hp => ?_⟩
    rcases List.mem_append.mp hp with hp | hp
    · exact h.pending p hp
    · rw [List.mem_singleton.mp hp]
      exact hw
  | false => exact ⟨trimmed_apply h.db hw, h.pending⟩

end TrimmedStore

/-! ### What the use cases write -/

/-- The names of the requests so far are trimmed. -/
def Trims (hist : List (Event (Op V) Op.Answer Err (World V) (Request V))) : Prop :=
  ∀ e ∈ hist, e.req.TrimsName

/-- What is not committed is of a thread that has done something. -/
def Known (s : MetricsState V) : Prop :=
  ∀ p ∈ s.world.store.pending, ∃ e ∈ s.hist, e.tid = p.1

/-- A statement on the metrics, outside of a transaction, is by a thread that has none; and its
name is trimmed. -/
def namingPre (i : Nat) (q : Request V) (op : Op V) (s : MetricsState V) : Prop :=
  match op with
  | .statement tx st => st.table = .metrics →
      (tx = false → s.world.store.pendingOf i = []) ∧
      (Trims s.hist → q.TrimsName → ∀ id now, (st.write id now).TrimsName)
  | _ => True

theorem trimsName_of_table {st : Statement V} (h : st.table ≠ .metrics) (id : Uuid) (now : Date) :
    (st.write id now).TrimsName := by
  cases st with
  | createMetric data => exact absurd rfl h
  | updateMetric metricId patch => exact absurd rfl h
  | _ => trivial

theorem Known.push {i : Nat} {q : Request V} {a : Act (Op V) Op.Answer Err} {s : MetricsState V}
    {w : World V} (h : Known s)
    (hsub : ∀ p ∈ w.store.pending, p ∈ s.world.store.pending ∨ p.1 = i) : Known (s.push i q a w) := by
  intro p hp
  rcases hsub p hp with hp | hi
  · obtain ⟨e, he, hid⟩ := h p hp
    exact ⟨e, List.mem_cons_of_mem _ he, hid⟩
  · exact ⟨_, List.mem_cons_self, hi.symm⟩

variable [LinearOrder V] [Zero V]

def naming (D : Deps V) : Contract (metricsMachine D) where
  Inv s := Known s ∧ (Trims s.hist → TrimmedStore s.world.store)
  Pre := namingPre
  call_inv := by
    intro i q op s inp r w ⟨hknown, htrim⟩ hpre he
    have hfilter : ∀ {P : Nat × Write V → Bool},
        ∀ p ∈ s.world.store.pending.filter P, p ∈ s.world.store.pending ∨ p.1 = i :=
      fun p hp => .inl (List.mem_of_mem_filter hp)
    rcases exec_store he with hs | ⟨tx, st, rfl, hs, ht⟩ | hs | hs
    · refine ⟨hknown.push fun p hp => .inl (hs ▸ hp), fun h => ?_⟩
      exact hs ▸ htrim (List.forall_mem_cons.mp h).2
    · refine ⟨hknown.push fun p hp => ?_, fun h => ?_⟩
      · rw [hs] at hp
        cases tx with
        | true =>
          refine (List.mem_append.mp hp).imp_right fun hp => ?_
          rw [List.mem_singleton.mp hp]
        | false => exact .inl hp
      · obtain ⟨hq, hh⟩ := List.forall_mem_cons.mp h
        rw [State.push_world, hs]
        refine (htrim hh).written ?_
        by_cases htable : st.table = .metrics
        · exact (hpre htable).2 hh hq _ _
        · exact trimsName_of_table htable _ _
    · refine ⟨hknown.push fun p hp => hfilter p (hs ▸ hp), fun h => ?_⟩
      exact hs ▸ (htrim (List.forall_mem_cons.mp h).2).commit i
    · refine ⟨hknown.push fun p hp => hfilter p (hs ▸ hp), fun h => ?_⟩
      exact hs ▸ (htrim (List.forall_mem_cons.mp h).2).rollback i
  crash_inv := by
    intro i q s ⟨hknown, htrim⟩
    refine ⟨hknown.push fun p hp => .inl (List.mem_of_mem_filter hp), fun h => ?_⟩
    exact (htrim (List.forall_mem_cons.mp h).2).drop i

/-! ### The use cases -/

variable {q : Request V} {x : MetricsState V} {A B : Prop} {o : Uuid}

omit [LinearOrder V] [Zero V] in
/-- What a session has not committed is its own affair. -/
theorem pendingOf_exec {inp : Input} {op : Op V} {w w' : World V} {r : Except Err op.Answer}
    (h : exec D j inp op w = some (r, w')) (hj : i ≠ j) :
    w'.store.pendingOf i = w.store.pendingOf i := by
  rcases exec_store h with hs | ⟨tx, st, rfl, hs, _⟩ | hs | hs
  · rw [hs]
  · rw [hs]
    cases tx with
    | true => exact Store.pendingOf_put_ne _ _ hj
    | false => rfl
  · rw [hs]
    exact Store.pendingOf_rollback_ne _ hj
  · rw [hs]
    exact Store.pendingOf_rollback_ne _ hj

omit [LinearOrder V] [Zero V] in
/-- A thread that writes in no transaction has nothing uncommitted. -/
theorem pendingOf_exec_self {inp : Input} {op : Op V} {w w' : World V} {r : Except Err op.Answer}
    (h : exec D i inp op w = some (r, w')) (hop : ∀ st, op ≠ .statement true st)
    (hnil : w.store.pendingOf i = []) : w'.store.pendingOf i = [] := by
  rcases exec_store h with hs | ⟨tx, st, rfl, hs, _⟩ | hs | hs
  · rw [hs, hnil]
  · rw [hs]
    cases tx with
    | true => exact absurd rfl (hop st)
    | false => exact hnil
  · rw [hs]
    exact Store.pendingOf_rollback_self _
  · rw [hs]
    exact Store.pendingOf_rollback_self _

/-- The thread has nothing uncommitted, and knows `A` of names that are trimmed. -/
def Idle (i : Nat) (A : Prop) (s : MetricsState V) : Prop :=
  s.world.store.pendingOf i = [] ∧ (Trims s.hist → A)

namespace Naming

omit [LinearOrder V] [Zero V] in
theorem trims_of_push {i : Nat} {q : Request V} {a : Act (Op V) Op.Answer Err} {s : MetricsState V}
    {w : World V} (h : Trims (s.push i q a w).hist) : q.TrimsName ∧ Trims s.hist :=
  List.forall_mem_cons.mp h

theorem stable_idle : (naming D).Stable i (Idle i A) := by
  intro s t h hs
  cases h with
  | call hj _ _ he =>
    exact ⟨(pendingOf_exec he (Ne.symm hj)).trans hs.1, fun ht => hs.2 (trims_of_push ht).2⟩
  | crash hj _ =>
    exact ⟨(Store.pendingOf_rollback_ne _ (Ne.symm hj)).trans hs.1,
      fun ht => hs.2 (trims_of_push ht).2⟩

omit [LinearOrder V] [Zero V] in
theorem idle_push {inp : Input} {op : Op V} {w : World V} {r : Except Err op.Answer}
    {s : MetricsState V} (he : exec D i inp op s.world = some (r, w))
    (hop : ∀ st, op ≠ .statement true st) (hs : Idle i A s) : Idle i A (s.push i q (.call op r) w) :=
  ⟨pendingOf_exec_self he hop hs.1, fun ht => hs.2 (trims_of_push ht).2⟩

omit [LinearOrder V] [Zero V] in
theorem not_statement {op : Op V} (h : Within [] op) (tx : Bool) (st : Statement V) :
    op ≠ .statement tx st := by
  rintro rfl
  exact absurd h List.not_mem_nil

omit [LinearOrder V] [Zero V] in
theorem pre_reads {op : Op V} (h : Within [] op) : namingPre i q op x := by
  cases op with
  | statement tx st => exact absurd h List.not_mem_nil
  | _ => trivial

/-- A part of a use case that writes nothing. -/
theorem wp_reads {α : Type} {p : Async V α} (hp : Uses [] p) (hs : Idle i A x) :
    (naming D).wp i q p (fun _ t => Idle i A t) (fun _ _ => True) x :=
  Contract.wp_mono (fun _ _ h => h) (fun _ _ _ => trivial)
    (Contract.wp_of_calls stable_idle (fun _ _ hop _ _ => pre_reads hop)
      (fun _ _ _ _ _ hop _ ht he => idle_push he (not_statement hop true) ht) hp hs)

theorem meets_reads {α : Type} {p : Async V α} (hp : Uses [] p) : (naming D).Meets i q p :=
  fun _ => Contract.wp_of_calls (Contract.Stable.true i) (fun _ _ hop _ _ => pre_reads hop)
    (fun _ _ _ _ _ _ _ _ _ => trivial) hp trivial

/-- A metric that is found has a name that is trimmed. -/
theorem wp_findOwnedById (hs : Idle i A x) : (naming D).wp i q (findOwnedById u o id)
    (fun m t => Idle i (A ∧ trim m.name = m.name) t) (fun _ _ => True) x := by
  refine Contract.wp_seq (Q := fun found t => ∀ m, found = some m →
    Idle i (A ∧ trim m.name = m.name) t) (F := fun _ _ => True)
      (Contract.wp_await stable_idle hs (fun _ _ _ => trivial) ?_ fun _ _ _ _ _ _ _ => trivial)
      (fun _ _ h => h) fun found t ht => ?_
  · rintro t inp found w hinv ht he m rfl
    have hexec : exec D i inp (.query false (.findOwnedMetric u o id)) t.world =
        some (.ok (some m), w) := he
    obtain ⟨hfound, rfl⟩ := exec_query hexec
    refine ⟨ht.1, fun htrim => ?_⟩
    obtain ⟨_, hh⟩ := trims_of_push htrim
    exact ⟨ht.2 hh, (hinv.2 hh).db m (Table.of_findOne hfound.symm).1⟩
  · exact wp_orThrow ht

theorem wp_saveMetric {s : MetricSnapshot} (hs : Idle i (trim s.name = s.name) x) :
    (naming D).wp i q (saveMetric u o id s) (fun _ _ => True) (fun _ _ => True) x := by
  refine Contract.wp_seq (wp_findOwnedById hs) (fun _ _ h => h) fun m t ht => ?_
  refine Contract.wp_seq (Q := fun _ _ => True) (F := fun _ _ => True) ?_ (fun _ _ h => h)
    fun _ t _ => meets_reads uses_find t
  unfold updateInstance
  split
  · trivial
  refine Contract.wp_await stable_idle ht (fun t _ ht _ => ?_) (fun _ _ _ _ _ _ _ => trivial)
    fun _ _ _ _ _ _ _ => trivial
  refine ⟨fun _ => ht.1, fun htrim _ _ _ name hname => ?_⟩
  simp only [MetricSnapshot.changes] at hname
  split at hname
  · cases hname
  · rw [← Option.some.inj hname]
    exact (ht.2 htrim).1

theorem wp_updateMetric {input : UpdateMetricInput} (hs : Idle i True x) :
    (naming D).wp i q (updateMetric D input) (fun _ _ => True) (fun _ _ => True) x := by
  refine Contract.wp_seq (wp_findOwnedById hs) (fun _ _ h => h) fun m t ht => ?_
  refine Contract.wp_seq (wp_reads uses_checkCategory ht) (fun _ _ h => h) fun _ t ht => ?_
  refine Contract.wp_seq (wp_reads uses_checkOriginalMetric ht) (fun _ _ h => h) fun _ t ht => ?_
  refine Contract.wp_seq (wp_reads uses_checkNewName ht) (fun _ _ h => h) fun _ t ht => ?_
  refine Contract.wp_seq (wp_reads uses_ensure ht) (fun _ _ h => h) fun _ t ht => ?_
  refine Contract.wp_seq (wp_liftExcept (Q := fun s t => Idle i (trim s.name = s.name) t)
    fun s hu => ⟨ht.1, fun htrim => ?_⟩) (fun _ _ h => h) fun s t ht => ?_
  · have hname : s.name = (input.data.name.map trim).getD m.name := by
      rw [UpdateMetricData.update_ok hu]
      rfl
    rw [hname]
    cases input.data.name with
    | none =>
      rw [Option.map_none, Option.getD_none]
      exact (ht.2 htrim).2
    | some name =>
      rw [Option.map_some, Option.getD_some]
      exact trim_trim name
  · exact Contract.wp_seq (wp_saveMetric ht) (fun _ _ h => h) fun _ t _ =>
      meets_reads (.bind uses_invalidateMetrics fun _ => .done) t

theorem wp_deleteMetric {metricId : IdText} (hs : Idle i True x) :
    (naming D).wp i q (deleteMetric D u o metricId) (fun _ _ => True) (fun _ _ => True) x := by
  refine Contract.wp_seq (wp_findOwnedById hs) (fun _ _ h => h) fun m t ht => ?_
  refine Contract.wp_seq (wp_reads uses_invalidateMetrics ht) (fun _ _ h => h) fun _ t ht => ?_
  refine Contract.wp_seq (Q := fun _ _ => True) (F := fun _ _ => True) ?_ (fun _ _ h => h)
    fun _ _ _ => trivial
  refine Contract.wp_seq (wp_findOwnedById ht) (fun _ _ h => h) fun m t ht => ?_
  exact Contract.wp_await stable_idle ht (fun t _ ht _ => ⟨fun _ => ht.1, fun _ _ _ _ => trivial⟩)
    (fun _ _ _ _ _ _ _ => trivial) fun _ _ _ _ _ _ _ => trivial

/-- The only statement of a creation on the metrics is made in its transaction. -/
def InsertsOnly (name : String) : Op V → Prop
  | .statement tx st => st.table = .metrics → tx = true ∧
      ∀ id now, ∃ m, st.write id now = .insertMetric m ∧ m.name = name
  | _ => True

theorem calls_createMetric {input : CreateMetricInput} :
    (createMetric D input).Calls (InsertsOnly input.name) := by
  have hreads : ∀ {α : Type} {p : Async V α}, Uses [] p → p.Calls (InsertsOnly input.name) := by
    intro α p hp
    refine hp.mono fun op hop => ?_
    cases op with
    | statement tx st => exact absurd hop List.not_mem_nil
    | _ => trivial
  have hinsert : (insertMetric (V := V) input.data).Calls (InsertsOnly input.name) := by
    refine .bind (.await fun _ => ⟨rfl, fun id now => ⟨_, rfl, rfl⟩⟩) fun _ =>
      .bind (.await trivial) fun created => ?_
    cases created <;> trivial
  have hsettings : ∀ data, (createSettings (V := V) true data).Calls (InsertsOnly input.name) := by
    intro data
    unfold createSettings
    exact .bind (hreads uses_liftExcept) fun _ => .await nofun
  refine .bind (hreads uses_checkMetricName) fun _ => .bind (hreads uses_checkCategory) fun _ =>
    .bind (hreads uses_checkOriginalMetric) fun _ => .handle (.bind (.await trivial) fun _ =>
      .bind (.bind hinsert fun m => .bind (hsettings _) fun _ =>
        hreads (.bind uses_invalidateMetrics fun _ => .done)) fun m =>
          .bind (.await trivial) fun _ => .done) fun e => .bind (.await trivial) fun _ => .fail

theorem meets_createMetric {input : CreateMetricInput} :
    (naming D).Meets i (.createMetric input) (createMetric D input) := by
  have hpre : ∀ op (t : MetricsState V), InsertsOnly input.name op →
      namingPre i (.createMetric input) op t := by
    intro op t hop
    cases op with
    | statement tx st =>
      intro htable
      obtain ⟨rfl, hwrite⟩ := hop htable
      refine ⟨nofun, fun _ (htrim : trim input.name = input.name) id now => ?_⟩
      obtain ⟨m, hm, hname⟩ := hwrite id now
      rw [hm, Write.TrimsName, hname]
      exact htrim
    | _ => trivial
  exact fun _ => Contract.wp_of_calls (Contract.Stable.true i) (fun op t hop _ _ => hpre op t hop)
    (fun _ _ _ _ _ _ _ _ _ => trivial) calls_createMetric trivial

/-- A use case that does not write the metrics. -/
theorem meets_others {α : Type} {Ts : List TableName} {p : Async V α} (hp : Uses Ts p)
    (hT : .metrics ∉ Ts) : (naming D).Meets i q p := by
  have hpre : ∀ op (t : MetricsState V), Within Ts op → namingPre i q op t := by
    intro op t hop
    cases op with
    | statement tx st => exact fun htable => absurd (htable ▸ hop) hT
    | _ => trivial
  exact fun _ => Contract.wp_of_calls (Contract.Stable.true i) (fun op t hop _ _ => hpre op t hop)
    (fun _ _ _ _ _ _ _ _ _ => trivial) hp trivial

theorem wp_handle (q : Request V) (hs : Idle i True x) :
    (naming D).wp i q (handle D q) (fun _ _ => True) (fun _ _ => True) x := by
  cases q with
  | createMetric input => exact Contract.Meets.bind meets_createMetric (fun _ => .done) x
  | updateMetric input =>
    exact Contract.wp_seq (wp_updateMetric hs) (fun _ _ h => h) fun _ _ _ => trivial
  | deleteMetric u o metricId =>
    exact Contract.wp_seq (wp_deleteMetric hs) (fun _ _ h => h) fun _ _ _ => trivial
  | _ => exact meets_others (uses_handle _) (by simp [Request.footprint]) x

omit [LinearOrder V] [Zero V] in
/-- A statement made with its guards leaves the names unique. -/
theorem named_written {i : Nat} {s : MetricsStore V} {tx : Bool} {st : Statement V} {id : Uuid}
    {now : Date} (h : NamedStore D s) (hg : Guarded s) (hst : StatementGuard i s tx st)
    (hown : st.table = .metrics → tx = false → s.pendingOf i = [])
    (ht : s.Takes (schema D) i tx (st.write id now)) :
    NamedStore D (s.written (schema D) i tx (st.write id now)) := by
  cases tx with
  | true =>
    cases st with
    | createMetric data => exact h.put hg ht (.inl ⟨_, rfl⟩)
    | createSettings data => exact h.put hg ht (.inr ⟨_, rfl⟩)
    | _ => exact hst.elim
  | false =>
    cases st with
    | createMetric data => exact hst.elim
    | updateMetric metricId patch =>
      exact h.autocommit hg ht (fun _ => hown rfl rfl) fun _ => nofun
    | destroyMetric metricId => exact h.autocommit hg ht (fun _ => hown rfl rfl) fun _ => nofun
    | _ => exact h.autocommit hg ht False.elim fun _ => nofun

end Naming

/-! ### What is reached -/

/-- Data that is scoped and in which the names are unique, with nothing under way. -/
def StartsNamed (D : Deps V) (w : World V) : Prop :=
  ∃ d cache, Scoped d ∧ Named D d ∧ Trimmed d ∧ w = World.init d cache

omit [LinearOrder V] [Zero V] in
/-- A thread that has done nothing has nothing uncommitted. -/
theorem Known.pendingOf_nil {i : Nat} {s : MetricsState V} (h : Known s)
    (hi : ∀ e ∈ s.hist, e.tid ≠ i) : s.world.store.pendingOf i = [] := by
  refine List.eq_nil_iff_forall_not_mem.mpr fun w hw => ?_
  obtain ⟨e, he, hid⟩ := h _ (s.world.store.mem_pendingOf.mp hw)
  exact hi e he hid

theorem meets_both {i : Nat} (h : ((ownership D).inter (naming D)).Inv x)
    (hi : ∀ e ∈ x.hist, e.tid ≠ i) : ((ownership D).inter (naming D)).wp i q (handle D q)
      (fun _ _ => True) (fun _ _ => True) x :=
  Contract.wp_mono (fun _ _ _ => trivial) (fun _ _ _ => trivial)
    (Contract.wp_inter (Ownership.meets_handle q x)
      (Naming.wp_handle q ⟨h.2.1.pendingOf_nil hi, fun _ => trivial⟩))

theorem inv_of_startsNamed {w : World V} (hw : StartsNamed D w) :
    ((ownership D).inter (naming D)).Inv ⟨w, []⟩ := by
  obtain ⟨d, cache, hscoped, _, htrim, rfl⟩ := hw
  refine ⟨⟨hscoped, ?_, ?_, List.Pairwise.nil⟩, ?_, fun _ => ⟨htrim, ?_⟩⟩ <;>
    exact fun _ hp => absurd hp List.not_mem_nil

/-- Where a run may be, and what is known of it there. -/
structure Sound (D : Deps V) (s : MetricsState V) : Prop where
  guarded : Guarded s.world.store
  known : Known s
  trimmed : Trims s.hist → TrimmedStore s.world.store
  named : NamedStore D s.world.store

/-- **The names of a user are unique**, and trimmed where the requests trim them, in every state
that is reached. -/
theorem named_of_reachable {c : MetricsConfig V}
    (h : (metricsMachine D).Reachable (StartsNamed D) c) : Sound D c.state := by
  have hinv := ((ownership D).inter (naming D)).inv_of_reachable (fun w hw => inv_of_startsNamed hw)
    (fun i q s hs _ hi => meets_both hs hi) h
  refine ⟨hinv.1, hinv.2.1, hinv.2.2, ?_⟩
  refine ((ownership D).inter (naming D)).keeps_of_reachable (J := fun s => NamedStore D s.world.store)
    (fun w hw => ⟨inv_of_startsNamed hw, ?_⟩) (fun i q s hs _ hi => meets_both hs hi) ?_ ?_ h
  · obtain ⟨d, cache, _, hnamed, _, rfl⟩ := hw
    exact ⟨hnamed, fun _ hp => absurd hp List.not_mem_nil, List.Pairwise.nil⟩
  · intro i q op s inp r w ⟨hg, _⟩ hs ⟨hst, hpre⟩ he
    rw [State.push_world]
    rcases exec_store he with hw | ⟨tx, st, rfl, hw, ht⟩ | hw | hw
    · exact hw ▸ hs
    · exact hw ▸ Naming.named_written hs hg hst (fun htable => (hpre htable).1) ht
    · exact hw ▸ hs.commit hg i
    · exact hw ▸ hs.rollback i
  · exact fun i _ s _ hs => hs.drop i

end LakiraBackend.Metrics
