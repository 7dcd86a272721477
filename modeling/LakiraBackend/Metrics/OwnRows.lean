import LakiraBackend.Metrics.ListPaging
import LakiraBackend.Metrics.Reads
import LakiraBackend.Metrics.References

/-!
# What a read depends on

A user's rows in an organization are his metrics and categories there, and the settings and logs
of those metrics.  On scoped data a read finds no other row: what it is answered with depends on
these alone (`SameOwn.respond_eq`), but for the two reads that first look for a metric of anyone
in the organization.
-/

namespace LakiraBackend.Metrics

open LakiraBackend.Auth (Err notFoundError forbiddenError)
open LakiraBackend.JavaScript LakiraBackend.Postgres

/-! ### Pages -/

section

variable {Row R F : Type} {C : Column Row} {id : Row → Uuid} {toDomain : Row → R} {dir : Dir}
  {base base' : Row → Bool}

/-- The rows of a page are those of the base and of the cursor. -/
theorem windowWhere_cases (C : Column Row) (id : Row → Uuid) (dir : Dir) (sort : List Char)
    (after : Option (List Char)) :
    (∀ base, windowWhere C id dir sort after base = none) ∨
      ∃ p : Row → Bool, ∀ base, windowWhere C id dir sort after base = some fun r => base r && p r := by
  have hall : ∀ base : Row → Bool, some base = some fun r => base r && true := by
    intro base
    simp only [Bool.and_true]
  unfold windowWhere
  cases after.bind Json.ofBase64url with
  | none => exact .inr ⟨fun _ => true, hall⟩
  | some cursor =>
    dsimp only
    split
    · cases hp : buildCursorPredicate C id dir cursor with
      | none => exact .inl fun _ => rfl
      | some p => exact .inr ⟨p, fun _ => rfl⟩
    · exact .inr ⟨fun _ => true, hall⟩

/-- **A page depends on the rows its condition holds of.** -/
theorem listByCursor_congr {opts : ListOpts F} {rows rows' : List Row}
    (hids : (rows.map id).Nodup) (hids' : (rows'.map id).Nodup)
    (h : ∀ r, r ∈ rows ∧ base r = true ↔ r ∈ rows' ∧ base' r = true) :
    listByCursor C id toDomain dir opts rows base =
      listByCursor C id toDomain dir opts rows' base' := by
  have hperm : ∀ p : Row → Bool, (rows.filter fun r => base r && p r).Perm
      (rows'.filter fun r => base' r && p r) := by
    intro p
    refine (List.perm_ext_iff_of_nodup (hids.of_map.filter _) (hids'.of_map.filter _)).mpr fun r => ?_
    simp only [List.mem_filter, Bool.and_eq_true, ← and_assoc]
    exact and_congr_left fun _ => h r
  have hcount : rows.countP base = rows'.countP base' := by
    have hlength := (hperm fun _ => true).length_eq
    simpa only [Bool.and_true, ← List.countP_eq_length_filter] using hlength
  unfold listByCursor
  rcases windowWhere_cases C id dir opts.sort opts.after with hnone | ⟨p, hp⟩
  · rw [hnone, hnone]
    rfl
  · obtain ⟨K, _, ⟨P⟩⟩ := exists_positions C id dir
    have hsorted : (rows.filter fun r => base r && p r).insertionSort (buildOrder C id dir) =
        (rows'.filter fun r => base' r && p r).insertionSort (buildOrder C id dir) := by
      rw [P.insertionSort_eq, P.insertionSort_eq]
      exact Paging.eq_found (Paging.pairwise_found none (P.nodup_keys _ hids))
        ((Paging.found_perm.trans (.of_eq (List.filter_eq_self.mpr fun _ _ => rfl))).trans (hperm p))
    rw [hp, hp, Option.map_some, Option.map_some, hsorted, hcount]

end

/-! ### A user's rows -/

variable {V : Type} {D : Deps V} {d e : Db V} {u o id : Uuid}

/-- Two databases have the same rows of a user in an organization. -/
structure SameOwn (u o : Uuid) (d e : Db V) : Prop where
  metrics : ∀ m : Metric, m.userId = u → m.organizationId = o →
    (m ∈ d.metrics.rows ↔ m ∈ e.metrics.rows)
  categories : ∀ c : MetricCategory, c.userId = u → c.organizationId = o →
    (c ∈ d.categories.rows ↔ c ∈ e.categories.rows)
  settings : ∀ s : MetricSettings V, (s ∈ d.settings.rows ∧ HasMetric d u o s.metricId) ↔
    s ∈ e.settings.rows ∧ HasMetric e u o s.metricId
  logs : ∀ l : MetricLog V, (l ∈ d.logs.rows ∧ HasMetric d u o l.metricId) ↔
    l ∈ e.logs.rows ∧ HasMetric e u o l.metricId

theorem owns_iff {m : Metric} : owns u o m = true ↔
    (m.userId = u ∧ m.organizationId = o) ∧ m.deletedAt.isNone = true := by
  simp only [owns, Bool.and_eq_true, decide_eq_true_eq]

theorem hasMetric_of_joins {d : Db V} (h : joinsMetric d (owns u o) id = true) :
    HasMetric d u o id := by
  obtain ⟨m, hm, hp⟩ := List.any_eq_true.mp h
  rw [Bool.and_eq_true, decide_eq_true_eq, owns_iff] at hp
  exact ⟨m, hm, hp.1, hp.2.1.1, hp.2.1.2⟩

theorem hasMetric_of_found {m : Metric} (h : findOwnedMetric d u o id = some m) :
    HasMetric d u o id := by
  obtain ⟨hm, hp⟩ := Table.of_findOne h
  rw [Bool.and_eq_true, decide_eq_true_eq, owns_iff] at hp
  exact ⟨m, hm, hp.1, hp.2.1.1, hp.2.1.2⟩

/-- The category of a metric is its owner's. -/
theorem Scoped.category_own (hd : Scoped d) {m : Metric} (hm : m ∈ d.metrics.rows)
    {c : MetricCategory} (hc : c ∈ d.categories.rows) (h : m.categoryId = some c.id) :
    c.userId = m.userId ∧ c.organizationId = m.organizationId := by
  obtain ⟨c', hc', hid, hu, ho⟩ := hd.category m hm c.id h
  obtain rfl : c' = c := d.categories.eq_of_id hc' hc hid
  exact ⟨hu, ho⟩

namespace SameOwn

theorem hasMetric_iff (h : SameOwn u o d e) : HasMetric d u o id ↔ HasMetric e u o id := by
  refine exists_congr fun m => and_congr_left fun ⟨_, hu, ho⟩ => h.metrics m hu ho

theorem owned_iff (h : SameOwn u o d e) {p : Metric → Bool} (m : Metric) :
    (m ∈ d.metrics.rows ∧ (p m && owns u o m) = true) ↔
      m ∈ e.metrics.rows ∧ (p m && owns u o m) = true := by
  refine and_congr_left fun hp => ?_
  rw [Bool.and_eq_true, owns_iff] at hp
  exact h.metrics m hp.2.1.1 hp.2.1.2

theorem joinsMetric_eq (h : SameOwn u o d e) :
    joinsMetric d (owns u o) id = joinsMetric e (owns u o) id := by
  rw [Bool.eq_iff_iff, joinsMetric, joinsMetric, List.any_eq_true, List.any_eq_true]
  exact exists_congr fun m => h.owned_iff (p := fun m => m.id = id) m

theorem setting_iff (h : SameOwn u o d e) {s : MetricSettings V} (hs : HasMetric d u o s.metricId) :
    s ∈ d.settings.rows ↔ s ∈ e.settings.rows := by
  have hiff := h.settings s
  rwa [and_iff_left hs, and_iff_left (h.hasMetric_iff.mp hs)] at hiff

theorem log_iff (h : SameOwn u o d e) {l : MetricLog V} (hl : HasMetric d u o l.metricId) :
    l ∈ d.logs.rows ↔ l ∈ e.logs.rows := by
  have hiff := h.logs l
  rwa [and_iff_left hl, and_iff_left (h.hasMetric_iff.mp hl)] at hiff

/-- What is joined to the user's metrics is the same. -/
theorem joined_iff {Row : Type} {rows rows' : List Row} {p : Row → Bool}
    (h : SameOwn u o d e) (metricId : Row → Uuid)
    (hrow : ∀ r, HasMetric d u o (metricId r) → (r ∈ rows ↔ r ∈ rows')) (r : Row) :
    (r ∈ rows ∧ (p r && joinsMetric d (owns u o) (metricId r)) = true) ↔
      r ∈ rows' ∧ (p r && joinsMetric e (owns u o) (metricId r)) = true := by
  rw [← h.joinsMetric_eq]
  refine and_congr_left fun hp => hrow r (hasMetric_of_joins (Bool.and_eq_true_iff.mp hp).2)

theorem findOwnedMetric_eq (h : SameOwn u o d e) :
    findOwnedMetric d u o id = findOwnedMetric e u o id :=
  Table.findOne_congr fun m => h.owned_iff (p := fun m => m.id = id) m

theorem findOwnedCategory_eq (h : SameOwn u o d e) :
    findOwnedCategory d u o id = findOwnedCategory e u o id := by
  refine Table.findOne_congr fun c => and_congr_left fun hp => ?_
  simp only [ownsCategory, Bool.and_eq_true, decide_eq_true_eq] at hp
  exact h.categories c hp.2.1.1 hp.2.1.2

theorem findOwnedSettings_eq (h : SameOwn u o d e) :
    findOwnedSettings d u o id = findOwnedSettings e u o id :=
  Table.findOne_congr fun s => h.joined_iff MetricSettings.metricId
    (p := fun s => s.id = id && s.organizationId = o) (fun _ hs => h.setting_iff hs) s

theorem findOwnedLog_eq (h : SameOwn u o d e) :
    findOwnedLog d u o id = findOwnedLog e u o id :=
  Table.findOne_congr fun l => h.joined_iff MetricLog.metricId
    (p := fun l => l.id = id && l.organizationId = o) (fun _ hl => h.log_iff hl) l

/-- The category of a user's metric. -/
theorem joinedCategory_eq (h : SameOwn u o d e) (hd : Scoped d) (he : Scoped e) {m : Metric}
    (hm : m ∈ d.metrics.rows) (hu : m.userId = u) (ho : m.organizationId = o) :
    joinedCategory d m = joinedCategory e m := by
  unfold joinedCategory
  cases hc : m.categoryId with
  | none => rfl
  | some id =>
    rw [Option.bind_some, Option.bind_some]
    refine Table.findOne_congr fun c => and_congr_left fun hp => ?_
    rw [Bool.and_eq_true, decide_eq_true_eq] at hp
    have hid : m.categoryId = some c.id := by rw [hc, hp.1]
    constructor
    · intro hmem
      obtain ⟨hcu, hco⟩ := hd.category_own hm hmem hid
      exact (h.categories c (hcu.trans hu) (hco.trans ho)).mp hmem
    · intro hmem
      obtain ⟨hcu, hco⟩ := he.category_own ((h.metrics m hu ho).mp hm) hmem hid
      exact (h.categories c (hcu.trans hu) (hco.trans ho)).mpr hmem

/-- The metrics of a user's category are his. -/
theorem metricCount_eq (h : SameOwn u o d e) (hd : Scoped d) (he : Scoped e) {c : MetricCategory}
    (hc : c ∈ d.categories.rows) (hu : c.userId = u) (ho : c.organizationId = o) :
    metricCount d c.id = metricCount e c.id := by
  refine Table.count_congr fun m => and_congr_left fun hp => ?_
  rw [Bool.and_eq_true, decide_eq_true_eq] at hp
  constructor
  · intro hm
    obtain ⟨hcu, hco⟩ := hd.category_own hm hc hp.1
    exact (h.metrics m (hcu.symm.trans hu) (hco.symm.trans ho)).mp hm
  · intro hm
    obtain ⟨hcu, hco⟩ := he.category_own hm ((h.categories c hu ho).mp hc) hp.1
    exact (h.metrics m (hcu.symm.trans hu) (hco.symm.trans ho)).mpr hm

/-- The logs of a user's metric. -/
theorem logs_select_eq (h : SameOwn u o d e) (hid : HasMetric d u o id)
    {p : MetricLog V → Bool} (p' : MetricLog V → Bool)
    (hp : ∀ l, p l = true ↔ l.metricId = id ∧ p' l = true) :
    d.logs.select p = e.logs.select p := by
  refine Table.select_congr fun l => and_congr_left fun hl => ?_
  exact h.log_iff (((hp l).mp hl).1 ▸ hid)

theorem logCount_eq (h : SameOwn u o d e) (hid : HasMetric d u o id) :
    logCount d id = logCount e id :=
  congrArg List.length (h.logs_select_eq hid (fun _ => true) fun l => by simp)

theorem latestLogs_eq (h : SameOwn u o d e) (hid : HasMetric d u o id) (limit : Nat) :
    latestLogs d id limit = latestLogs e id limit := by
  unfold latestLogs
  rw [h.logs_select_eq hid (fun _ => true) fun l => by simp]

theorem toMetricRow_eq (h : SameOwn u o d e) (hd : Scoped d) (he : Scoped e) {m : Metric}
    (hm : m ∈ d.metrics.rows) (hu : m.userId = u) (ho : m.organizationId = o) :
    toMetricRow d m = toMetricRow e m := by
  rw [toMetricRow, toMetricRow, h.joinedCategory_eq hd he hm hu ho,
    h.logCount_eq ⟨m, hm, rfl, hu, ho⟩]

theorem toCategoryRow_eq (h : SameOwn u o d e) (hd : Scoped d) (he : Scoped e) {c : MetricCategory}
    (hc : c ∈ d.categories.rows) (hu : c.userId = u) (ho : c.organizationId = o) :
    toCategoryRow d c = toCategoryRow e c := by
  rw [toCategoryRow, toCategoryRow, h.metricCount_eq hd he hc hu ho]

/-! ### One row -/

theorem getMetricDetail_eq (h : SameOwn u o d e) (hd : Scoped d) (he : Scoped e)
    (includes : List MetricDetailInclude) (logsLimit : Nat) :
    getMetricDetail d u o id includes logsLimit = getMetricDetail e u o id includes logsLimit := by
  unfold getMetricDetail
  rw [← h.findOwnedMetric_eq]
  cases hfound : findOwnedMetric d u o id with
  | none => rfl
  | some m =>
    obtain ⟨hm, hp⟩ := Table.of_findOne hfound
    rw [Bool.and_eq_true, owns_iff] at hp
    have hmetric : HasMetric d u o m.id := ⟨m, hm, rfl, hp.2.1.1, hp.2.1.2⟩
    have hsettings : d.settings.findOne (fun s => s.metricId = m.id) =
        e.settings.findOne fun s => s.metricId = m.id := by
      refine Table.findOne_congr fun s => and_congr_left fun hs => h.setting_iff ?_
      rw [of_decide_eq_true hs]
      exact hmetric
    dsimp only
    rw [h.joinedCategory_eq hd he hm hp.2.1.1 hp.2.1.2, hsettings, h.latestLogs_eq hmetric]

theorem getCategory_eq (h : SameOwn u o d e) (hd : Scoped d) (he : Scoped e) :
    getCategory d u o id = getCategory e u o id := by
  unfold getCategory
  rw [← h.findOwnedCategory_eq]
  cases hfound : findOwnedCategory d u o id with
  | none => rfl
  | some c =>
    obtain ⟨hc, hp⟩ := Table.of_findOne hfound
    simp only [ownsCategory, Bool.and_eq_true, decide_eq_true_eq] at hp
    simp only [h.toCategoryRow_eq hd he hc hp.2.1.1 hp.2.1.2]

theorem getMetricSettings_eq (h : SameOwn u o d e) :
    getMetricSettings d u o id = getMetricSettings e u o id := by
  rw [getMetricSettings, getMetricSettings, h.findOwnedSettings_eq]

theorem getLogById_eq (h : SameOwn u o d e) (metricId : IdText) :
    getLogById d u o id metricId = getLogById e u o id metricId := by
  rw [getLogById, getLogById, h.findOwnedLog_eq]

/-! ### Lists -/

theorem listMetrics_eq (h : SameOwn u o d e) (hd : Scoped d) (he : Scoped e)
    (opts : ListOpts MetricFilter) : listMetrics D d u o opts = listMetrics D e u o opts := by
  have hids : ∀ d : Db V, ((d.metrics.rows.map (toMetricRow d)).map fun r => r.metric.id).Nodup := by
    intro d
    rw [List.map_map]
    exact d.metrics.nodup
  have howned : ∀ r, metricWhere D u o opts r = true →
      r.metric.userId = u ∧ r.metric.organizationId = o := by
    intro r hr
    simp only [metricWhere, Bool.and_eq_true] at hr
    exact (owns_iff.mp hr.1.1.1).1
  unfold listMetrics
  obtain ⟨field, dir⟩ := normalizeMetricSort opts.sort
  dsimp only
  refine congrArg (fun page => pageOf (Option.map _ page))
    (listByCursor_congr (hids d) (hids e) fun r => ?_)
  rw [List.mem_map, List.mem_map]
  refine and_congr_left fun hr => exists_congr fun m => ?_
  constructor
  · rintro ⟨hm, rfl⟩
    obtain ⟨hu, ho⟩ := howned _ hr
    exact ⟨(h.metrics m hu ho).mp hm, (h.toMetricRow_eq hd he hm hu ho).symm⟩
  · rintro ⟨hm, rfl⟩
    obtain ⟨hu, ho⟩ := howned _ hr
    have hm' := (h.metrics m hu ho).mpr hm
    exact ⟨hm', h.toMetricRow_eq hd he hm' hu ho⟩

theorem listCategories_eq (h : SameOwn u o d e) (hd : Scoped d) (he : Scoped e)
    (opts : ListOpts CategoryFilter) : listCategories D d u o opts = listCategories D e u o opts := by
  have hids : ∀ d : Db V,
      ((d.categories.rows.map (toCategoryRow d)).map fun r => r.category.id).Nodup := by
    intro d
    rw [List.map_map]
    exact d.categories.nodup
  have howned : ∀ r, categoryWhere D u o opts r = true →
      r.category.userId = u ∧ r.category.organizationId = o := by
    intro r hr
    simp only [categoryWhere, ownsCategory, Bool.and_eq_true, decide_eq_true_eq] at hr
    exact hr.1.1.1
  unfold listCategories
  refine congrArg pageOf (listByCursor_congr (hids d) (hids e) fun r => ?_)
  rw [List.mem_map, List.mem_map]
  refine and_congr_left fun hr => exists_congr fun c => ?_
  constructor
  · rintro ⟨hc, rfl⟩
    obtain ⟨hu, ho⟩ := howned _ hr
    exact ⟨(h.categories c hu ho).mp hc, (h.toCategoryRow_eq hd he hc hu ho).symm⟩
  · rintro ⟨hc, rfl⟩
    obtain ⟨hu, ho⟩ := howned _ hr
    have hc' := (h.categories c hu ho).mpr hc
    exact ⟨hc', h.toCategoryRow_eq hd he hc' hu ho⟩

theorem listSettings_eq (h : SameOwn u o d e) {E : Engine}
    (opts : ListOpts SettingsFilter) :
    listSettings E d u o opts = listSettings E e u o opts :=
  listByCursor_congr d.settings.nodup e.settings.nodup fun s =>
    h.joined_iff MetricSettings.metricId (fun _ hs => h.setting_iff hs) s

theorem shownMetrics_eq (h : SameOwn u o d e) (hd : Scoped d) (he : Scoped e) :
    shownMetrics d u o = shownMetrics e u o := by
  have hselect : (d.settings.select fun s => joinsMetric d (owns u o) s.metricId &&
      s.displayOptions.showOnDashboard.getD false && s.isActive) =
      e.settings.select fun s => joinsMetric e (owns u o) s.metricId &&
        s.displayOptions.showOnDashboard.getD false && s.isActive := by
    refine Table.select_congr fun s => ?_
    rw [← h.joinsMetric_eq]
    refine and_congr_left fun hp => ?_
    rw [Bool.and_eq_true, Bool.and_eq_true] at hp
    exact h.setting_iff (hasMetric_of_joins hp.1.1)
  unfold shownMetrics
  rw [hselect]
  refine congrArg (List.mergeSort · shownBefore) (List.filterMap_congr fun s _ => ?_)
  rw [← h.findOwnedMetric_eq]
  cases hfound : findOwnedMetric d u o s.metricId with
  | none => rfl
  | some m =>
    obtain ⟨hm, hp⟩ := Table.of_findOne hfound
    rw [Bool.and_eq_true, owns_iff] at hp
    rw [Option.map_some, Option.map_some, h.joinedCategory_eq hd he hm hp.2.1.1 hp.2.1.2]

/-- The rows of the dashboard are of the user's metrics. -/
theorem hasMetric_of_shown {d : Db V} {r : DashboardMetricRow V} (hr : r ∈ shownMetrics d u o) :
    HasMetric d u o r.metric.id := by
  obtain ⟨s, _, hs⟩ := List.mem_filterMap.mp (List.mem_mergeSort.mp hr)
  obtain ⟨m, hfound, rfl⟩ := Option.map_eq_some_iff.mp hs
  obtain ⟨hm, hp⟩ := Table.of_findOne hfound
  rw [Bool.and_eq_true, owns_iff] at hp
  exact ⟨m, hm, rfl, hp.2.1.1, hp.2.1.2⟩

section

variable [LinearOrder V] [Zero V]

theorem listLogs_eq (h : SameOwn u o d e) {trim : String → String}
    {E : Engine} (opts : ListOpts (LogFilter V)) :
    listLogs D.numbers E trim d u o opts = listLogs D.numbers E trim e u o opts :=
  listByCursor_congr d.logs.nodup e.logs.nodup fun l =>
    h.joined_iff MetricLog.metricId (fun _ hl => h.log_iff hl) l

/-! ### Statistics and visualizations -/

theorem computeStats_eq (h : SameOwn u o d e) {metricId : Option Uuid} {from_ to_ : Option Date}
    (hmetric : ∀ id, metricId = some id → HasMetric d u o id) :
    computeStats D d u o metricId from_ to_ = computeStats D e u o metricId from_ to_ := by
  let p : MetricLog V → Bool := fun l => l.organizationId = o && inRange from_ to_ l
  unfold computeStats
  cases metricId with
  | some id =>
    have hselect : (d.logs.select fun l => p l && l.metricId = id) =
        e.logs.select fun l => p l && l.metricId = id :=
      h.logs_select_eq (hmetric id rfl) p fun l => by
        rw [Bool.and_eq_true, decide_eq_true_eq, and_comm]
    rw [hselect]
  | none =>
    have hselect : (d.logs.select fun l => p l && joinsMetric d (owns u o) l.metricId) =
        e.logs.select fun l => p l && joinsMetric e (owns u o) l.metricId :=
      Table.select_congr fun l =>
        h.joined_iff MetricLog.metricId (p := p) (fun _ hl => h.log_iff hl) l
    rw [hselect]

omit [Zero V] in
theorem series_eq (h : SameOwn u o d e) (hid : HasMetric d u o id) (spec : BucketSpec)
    (startISO endISO tz : List Char) :
    series D d spec id startISO endISO tz = series D e spec id startISO endISO tz := by
  unfold series
  dsimp only
  rw [h.logs_select_eq hid (fun l => D.timestamptz startISO ≤ l.loggedAt.ms * 1000 &&
    l.loggedAt.ms * 1000 < D.timestamptz endISO) fun l => by simp [and_assoc]]

theorem getVisualization_eq (h : SameOwn u o d e) (metricId : IdText) (q : VizQuery) :
    getVisualization D d u o metricId q = getVisualization D e u o metricId q := by
  unfold getVisualization
  rw [← h.findOwnedMetric_eq]
  refine congrArg _ (funext fun _ => ?_)
  cases hfound : findOwnedMetric d u o metricId.id with
  | none => rfl
  | some m =>
    simp only [vizResponse, h.series_eq (hasMetric_of_found hfound)]

theorem buildDashboardItem_eq (h : SameOwn u o d e) (q : VizQuery) {r : DashboardMetricRow V}
    (hr : HasMetric d u o r.metric.id) : buildDashboardItem D d q r = buildDashboardItem D e q r := by
  have hlifecycle : ∀ spec tz, lifecycle D d spec tz r.metric.id = lifecycle D e spec tz r.metric.id := by
    intro spec tz
    unfold lifecycle
    rw [h.logCount_eq hr, h.latestLogs_eq hr]
  unfold buildDashboardItem
  simp only [hlifecycle, h.series_eq hr]

theorem getDashboardVisualization_eq (h : SameOwn u o d e) (hd : Scoped d) (he : Scoped e)
    (q : VizQuery) (limit : Nat) :
    getDashboardVisualization D d u o q limit = getDashboardVisualization D e u o q limit := by
  have hmetrics : fetchDashboardMetrics D d u o limit = fetchDashboardMetrics D e u o limit := by
    unfold fetchDashboardMetrics
    rw [h.shownMetrics_eq hd he]
  have hitems : (fetchDashboardMetrics D e u o limit).1.map (buildDashboardItem D d q) =
      (fetchDashboardMetrics D e u o limit).1.map (buildDashboardItem D e q) := by
    rw [← hmetrics]
    exact List.map_congr_left fun r hr => h.buildDashboardItem_eq q
      (hasMetric_of_shown (List.mem_of_mem_take hr))
  unfold getDashboardVisualization dashboardResponse
  simp only [hmetrics, hitems]

end

end SameOwn

/-! ### Reads that look for a metric of anyone -/

/-- The metric that a read looks for in the organization, before it reads its logs. -/
def GetRequest.accesses : GetRequest V → Option Uuid
  | .getStats (some id) _ _ => some id.id
  | .getMetricTrend id _ => some id.id
  | _ => none

/-- The access is granted to the owner of the metric, and to nobody else. -/
theorem validateMetricAccess_ok {m : Metric} :
    validateMetricAccess d u o id = .ok m ↔ findOwnedMetric d u o id = some m := by
  unfold validateMetricAccess
  constructor
  · intro h
    split at h
    · cases h
    · rename_i n hfound
      split at h
      · cases h
      · rename_i hu
        obtain rfl := Except.ok.inj h
        obtain ⟨hm, hp⟩ := Table.of_findOne hfound
        simp only [Bool.and_eq_true, decide_eq_true_eq] at hp
        refine Table.findOne_eq_some hm ?_ fun n _ hn => ?_
        · rw [Bool.and_eq_true, decide_eq_true_eq, owns_iff]
          exact ⟨hp.1.1, ⟨not_not.mp hu, hp.1.2⟩, hp.2⟩
        · rw [Bool.and_eq_true, decide_eq_true_eq] at hn
          exact hn.1.trans hp.1.1.symm
  · intro h
    obtain ⟨hm, hp⟩ := Table.of_findOne h
    rw [Bool.and_eq_true, decide_eq_true_eq, owns_iff] at hp
    have hfound : findMetricInOrganization d o id = some m := by
      refine Table.findOne_eq_some hm ?_ fun n _ hn => ?_
      · simp only [Bool.and_eq_true, decide_eq_true_eq]
        exact ⟨⟨hp.1, hp.2.1.2⟩, hp.2.2⟩
      · simp only [Bool.and_eq_true, decide_eq_true_eq] at hn
        exact hn.1.1.trans hp.1.symm
    rw [hfound]
    exact if_neg (not_not.mpr hp.2.1.1)

/-- What anyone else is refused with tells whether there is such a metric. -/
def accessError (d : Db V) (o id : Uuid) : Err :=
  if (findMetricInOrganization d o id).isSome then forbiddenError "Unauthorized access to metric"
  else notFoundError "Metric not found"

theorem validateMetricAccess_error (h : findOwnedMetric d u o id = none) :
    validateMetricAccess d u o id = .error (accessError d o id) := by
  have hno : ∀ m, validateMetricAccess d u o id ≠ .ok m := by
    intro m hm
    rw [validateMetricAccess_ok, h] at hm
    cases hm
  unfold validateMetricAccess at hno ⊢
  unfold accessError
  cases hfound : findMetricInOrganization d o id with
  | none => rfl
  | some m =>
    simp only [hfound] at hno
    dsimp only
    split
    · rfl
    · rename_i hu
      exact absurd (if_neg hu) (hno m)

variable [LinearOrder V] [Zero V]

/-- **A read depends on the user's own rows**, if the metric it asks access to is his. -/
theorem SameOwn.respond_eq (h : SameOwn u o d e) (hd : Scoped d) (he : Scoped e) (g : GetRequest V)
    (hg : ∀ id, g.accesses = some id → (findOwnedMetric d u o id).isSome = true) :
    respond D d u o g = respond D e u o g := by
  have haccess : ∀ id, g.accesses = some id → ∃ m, validateMetricAccess d u o id = .ok m ∧
      validateMetricAccess e u o id = .ok m ∧ HasMetric d u o id := by
    intro id hid
    obtain ⟨m, hm⟩ := Option.isSome_iff_exists.mp (hg id hid)
    exact ⟨m, validateMetricAccess_ok.mpr hm,
      validateMetricAccess_ok.mpr (h.findOwnedMetric_eq ▸ hm), hasMetric_of_found hm⟩
  cases g with
  | listMetrics opts => rw [respond, respond, h.listMetrics_eq hd he]
  | getMetricDetail id includes logsLimit =>
    rw [respond, respond, h.getMetricDetail_eq hd he]
  | listCategories opts => rw [respond, respond, h.listCategories_eq hd he]
  | getCategory id => rw [respond, respond, h.getCategory_eq hd he]
  | listSettings opts => rw [respond, respond, h.listSettings_eq]
  | getSettings id => rw [respond, respond, h.getMetricSettings_eq]
  | listLogs opts => rw [respond, respond, h.listLogs_eq]
  | getLog id metricId => rw [respond, respond, h.getLogById_eq]
  | getStats metricId startDate endDate =>
    cases metricId with
    | none =>
      exact congrArg (fun stats => (Except.ok stats).map Response.stats)
        (h.computeStats_eq fun id hid => nomatch hid)
    | some x =>
      obtain ⟨m, hok, hok', hmetric⟩ := haccess x.id rfl
      have hstats : computeStats D d u o (some x.id) startDate endDate =
          computeStats D e u o (some x.id) startDate endDate :=
        h.computeStats_eq fun id hid => Option.some.inj hid ▸ hmetric
      simp only [respond, getMetricLogStats, Option.map_some, hok, hok', hstats]
  | getVisualization metricId q => rw [respond, respond, h.getVisualization_eq]
  | getDashboardVisualization q limit => rw [respond, respond, h.getDashboardVisualization_eq hd he]
  | getMetricTrend x since =>
    obtain ⟨m, hok, hok', hmetric⟩ := haccess x.id rfl
    have hselect : (d.logs.select fun l => l.metricId = x.id && l.organizationId = o &&
        since.ms ≤ l.loggedAt.ms) = e.logs.select fun l => l.metricId = x.id &&
          l.organizationId = o && since.ms ≤ l.loggedAt.ms :=
      h.logs_select_eq hmetric (fun l => l.organizationId = o && since.ms ≤ l.loggedAt.ms)
        fun l => by simp [and_assoc]
    simp only [respond, getMetricTrend, hok, hok', hselect]

/-- A read that asks access to a metric that is not the user's is refused. -/
theorem respond_refused {g : GetRequest V} (hg : g.accesses = some id)
    (h : findOwnedMetric d u o id = none) :
    respond D d u o g = .error (accessError d o id) := by
  have herror := validateMetricAccess_error h
  cases g with
  | getStats metricId startDate endDate =>
    cases metricId with
    | none => cases hg
    | some x =>
      obtain rfl : x.id = id := Option.some.inj hg
      simp only [respond, getMetricLogStats, Option.map_some, herror, Except.map]
  | getMetricTrend x since =>
    obtain rfl : x.id = id := Option.some.inj hg
    simp only [respond, getMetricTrend, herror, Except.map]
  | _ => cases hg

end LakiraBackend.Metrics
