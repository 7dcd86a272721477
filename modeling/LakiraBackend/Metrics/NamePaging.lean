import LakiraBackend.JavaScript.LowerCase
import LakiraBackend.JavaScript.Whole
import LakiraBackend.Metrics.ListPaging
import LakiraBackend.Metrics.Percentages

/-!
# Paging of metrics and of categories

The lists of metrics and of categories are sorted by dates, by counts and by names.  A date or a
count is read from a cursor as it was written; a name is written in JavaScript's lower case and
compared with SQL's.  So these lists are exact just where, sorted by names, their pages meet
(`metricLists_exact_iff`).
-/

namespace LakiraBackend.Metrics

open LakiraBackend.JavaScript LakiraBackend.Postgres

variable {V : Type} (D : Deps V)

/-! ### Counts -/

/-- A count has no zero in front. -/
theorem head?_toDigits {n : Nat} (hn : 0 < n) : (Nat.toDigits 10 n).head? ≠ some '0' := by
  induction n using Nat.strongRecOn with
  | ind n ih =>
    rcases Nat.lt_or_ge n 10 with hlt | hge
    · have hdigit : ∀ d < 10, 0 < d → d.digitChar ≠ '0' := by decide
      rw [Nat.toDigits_of_lt_base hlt, List.head?_cons]
      exact fun h => hdigit n hlt hn (Option.some.inj h)
    · rw [Nat.toDigits_of_base_le (by decide) hge, List.head?_append_of_ne_nil _ Nat.toDigits_ne_nil]
      exact ih (n / 10) (by omega) (by omega)

theorem isNumber_toDigits (n : Nat) : (Json.num (Nat.toDigits 10 n)).Scalar := by
  have hdigits : ∀ c ∈ Nat.toDigits 10 n, c.isDigit = true :=
    fun c hc => Nat.isDigit_of_mem_toDigits (by decide) (by decide) hc
  have hunsigned : (Nat.toDigits 10 n).head? ≠ some '-' := by
    intro h
    cases hdigits '-' (List.mem_of_mem_head? h)
  have htake : (Nat.toDigits 10 n).takeWhile Char.isDigit = Nat.toDigits 10 n :=
    List.takeWhile_eq_self_iff.mpr hdigits
  have hdrop : (Nat.toDigits 10 n).dropWhile Char.isDigit = [] :=
    List.dropWhile_eq_nil_iff.mpr hdigits
  have hzero : (Nat.toDigits 10 n).head? ≠ some '0' ∨ (Nat.toDigits 10 n).length = 1 := by
    rcases Nat.eq_zero_or_pos n with rfl | hn
    · exact .inr (by decide)
    · exact .inl (head?_toDigits hn)
  refine ⟨?_, fun c hc => by simp [Json.inNumber, hdigits c hc]⟩
  simp only [Json.isNumber, if_neg hunsigned, htake, hdrop]
  simp [Nat.toDigits_ne_nil, hzero, Json.isFraction, Json.isExponent]

theorem countOf_toDigits (n : Nat) : countOf (.num (Nat.toDigits 10 n)) = some n := by
  have hdigits : (Nat.toDigits 10 n).all Char.isDigit = true :=
    List.all_eq_true.mpr fun c hc => Nat.isDigit_of_mem_toDigits (by decide) (by decide) hc
  simp only [countOf, hdigits, if_true]
  rw [← Nat.ofDigitChars_eq_foldl, Nat.ofDigitChars_ten_toDigits]

/-! ### Columns -/

/-- What a column of metrics is read as from the cursors: of a name, its lower case in JavaScript. -/
def metricMark : (field : MetricSortField) → MetricRow → (metricColumn D field).K
  | .name => fun r => D.toLowerCase r.metric.name
  | .createdAt => (metricColumn D .createdAt).of
  | .updatedAt => (metricColumn D .updatedAt).of
  | .logCount => (metricColumn D .logCount).of

def categoryMark : (field : CategorySortField) → CategoryRow → (categoryColumn D field).K
  | .name => fun r => D.toLowerCase r.category.name
  | .createdAt => (categoryColumn D .createdAt).of
  | .updatedAt => (categoryColumn D .updatedAt).of
  | .metricCount => (categoryColumn D .metricCount).of

theorem metricColumn_reads (field : MetricSortField) :
    (metricColumn D field).Reads (metricMark D field) := by
  have hpayload : (metricColumn D field).payload = metricPayload D := by cases field <;> rfl
  refine ⟨fun r => ?_, fun r => ?_, fun r sort i => ?_⟩
  · rw [hpayload]
    exact List.forall_mem_cons.mpr ⟨trivial, List.forall_mem_cons.mpr ⟨trivial,
      List.forall_mem_cons.mpr ⟨trivial, List.forall_mem_singleton.mpr (isNumber_toDigits _)⟩⟩⟩
  · rw [hpayload, metricPayload]
    simp only [List.forall_mem_cons]
    decide
  · rw [hpayload]
    generalize hcursor : Json.obj (("sort".toList, .str sort) :: ("id".toList, .str i) ::
      metricPayload D r) = cursor
    have hcreated : cursor.get "createdAt" = some (.str r.metric.createdAt.toISOString) :=
      hcursor ▸ rfl
    have hupdated : cursor.get "updatedAt" = some (.str r.metric.updatedAt.toISOString) :=
      hcursor ▸ rfl
    have hname : cursor.get "nameLower" = some (.str (D.toLowerCase r.metric.name).toList) :=
      hcursor ▸ rfl
    have hcount : cursor.get "logCount" = some (.num (Nat.toDigits 10 r.logCount)) :=
      hcursor ▸ rfl
    have hdate : ∀ {name : String} {d : Date}, cursor.get name = some (.str d.toISOString) →
        (sentDateOrNow D.toEngine name cursor).bind Bound.time = some (some d.ms) := by
      intro name d h
      have hne : d.toISOString ≠ [] := by
        intro hnil
        have hparse := Date.parse_toISOString (fun _ => none) d
        rw [hnil] at hparse
        cases hparse
      simp only [sentDateOrNow, h, Json.truthy, hne, ne_eq, not_false_eq_true, decide_true, if_true,
        Json.toDate, Date.parse_toISOString, Option.map_some, Option.bind_some, Bound.time]
    cases field with
    | createdAt => exact hdate hcreated
    | updatedAt => exact hdate hupdated
    | name => simp only [Column.read, metricColumn, lastMetric, orElse, hname, Option.bind_some,
        Bound.value, nameOf, String.ofList_toList, Option.map_some, metricMark]
    | logCount => simp only [Column.read, metricColumn, lastMetric, orElse, hcount,
        Option.bind_some, Bound.value, countOf_toDigits, Option.map_some, metricMark]

theorem categoryColumn_reads (field : CategorySortField) :
    (categoryColumn D field).Reads (categoryMark D field) := by
  cases field with
  | createdAt => exact dateColumn_roundTrips (E := D.toEngine) rfl (by decide)
  | updatedAt => exact dateColumn_roundTrips (E := D.toEngine) rfl (by decide)
  | name =>
    refine reads_of_field (fun _ => rfl) (by decide) (fun _ => trivial) fun r c h => ?_
    simp only [Column.read, categoryColumn, lastCategory, asSent, h, Option.bind_some, Bound.value,
      nameOf, String.ofList_toList, Option.map_some, categoryMark]
  | metricCount =>
    refine reads_of_field (fun _ => rfl) (by decide) (fun _ => isNumber_toDigits _) fun r c h => ?_
    simp only [Column.read, categoryColumn, lastCategory, asSent, h, Option.bind_some, Bound.value,
      countOf_toDigits, Option.map_some, categoryMark]

/-! ### Pages that say another limit -/

section

variable {D F : Type} {list : Option (List Char) → Option (ListResult D F)} {limit : Nat}

theorem Walk.withLimit {after : Option (List Char)} {pages : List (ListResult D F)}
    (h : Walk list after pages) : Walk (fun after => (list after).map fun page =>
      { page with limit := limit }) after (pages.map fun page => { page with limit := limit }) := by
  induction h with
  | last hlist hlast => exact .last (by rw [hlist]; rfl) hlast
  | more hlist hmore _ ih => exact .more (by rw [hlist]; rfl) hmore ih

theorem Walk.of_withLimit {after : Option (List Char)} {pages : List (ListResult D F)}
    (h : Walk (fun after => (list after).map fun page => { page with limit := limit }) after pages) :
    ∃ pages', Walk list after pages' ∧
      pages = pages'.map fun page => { page with limit := limit } := by
  induction h with
  | last hlist hlast =>
    obtain ⟨page, hpage, rfl⟩ := Option.map_eq_some_iff.mp hlist
    exact ⟨[page], .last hpage hlast, rfl⟩
  | more hlist hmore _ ih =>
    obtain ⟨page, hpage, rfl⟩ := Option.map_eq_some_iff.mp hlist
    obtain ⟨pages', hwalk, rfl⟩ := ih
    exact ⟨page :: pages', .more hpage hmore hwalk, rfl⟩

/-- The limit a page says is no matter. -/
theorem exactPaging_withLimit {Row : Type} {toDomain : Row → D} {rows : List Row}
    {before : Row → Row → Prop} : ExactPaging (fun after => (list after).map fun page =>
      { page with limit := limit }) toDomain rows before ↔ ExactPaging list toDomain rows before := by
  have henum : ∀ pages : List (ListResult D F),
      enumerated (pages.map fun page => { page with limit := limit }) = enumerated pages :=
    fun pages => List.flatMap_map _ _ _
  constructor
  · rintro ⟨⟨pages, hends⟩, hexact⟩
    obtain ⟨pages', hwalk, -⟩ := hends.of_withLimit
    refine ⟨⟨pages', hwalk⟩, fun pages h => ?_⟩
    obtain ⟨sorted, hperm, hordered, hsorted, htotals⟩ := hexact _ h.withLimit
    rw [henum] at hsorted htotals
    exact ⟨sorted, hperm, hordered, hsorted, fun page hpage =>
      htotals { page with limit := limit } (List.mem_map_of_mem hpage)⟩
  · rintro ⟨⟨pages, hends⟩, hexact⟩
    refine ⟨⟨_, hends.withLimit⟩, fun pages h => ?_⟩
    obtain ⟨pages', hwalk, rfl⟩ := h.of_withLimit
    obtain ⟨sorted, hperm, hordered, hsorted, htotals⟩ := hexact _ hwalk
    refine ⟨sorted, hperm, hordered, (henum pages').trans hsorted, fun page hpage => ?_⟩
    obtain ⟨page', hpage', rfl⟩ := List.mem_map.mp hpage
    rw [henum]
    exact htotals page' hpage'

theorem toOption_pageOf (page : Option (ListResult D F)) : (pageOf page).toOption = page := by
  cases page <;> rfl

end

/-! ### Metrics and categories -/

theorem normalizeMetricSort_text (field : MetricSortField) (dir : Dir) :
    normalizeMetricSort (sortText dir field.text) = (field, dir) := by
  cases field <;> cases dir <;> decide

theorem normalizeCategorySort_text (field : CategorySortField) (dir : Dir) :
    normalizeCategorySort (sortText dir field.text) = (field, dir) := by
  cases field <;> cases dir <;> decide

/-- **Paging of metrics**, whatever they are sorted by. -/
theorem listMetrics_exact_iff (db : Db V) (userId organizationId : Uuid) (limit : Nat) (dir : Dir)
    (q : Option String) (includeTotal : Bool) (field : MetricSortField)
    (filter : Option MetricFilter) :
    let opts := fun after => ⟨limit, sortText dir field.text, q, filter, after, includeTotal⟩
    let rows := (db.metrics.rows.map (toMetricRow db)).filter
      (metricWhere D userId organizationId (opts none))
    ExactPaging (fun after => (listMetrics D db userId organizationId (opts after)).toOption)
        toMetricPreview rows (precedes (metricColumn D field) (fun r => r.metric.id) dir) ↔
      (field = .name → PagesMeet (metricColumn D .name) (fun r => r.metric.id)
        (fun r => D.toLowerCase r.metric.name) dir (clampLimit limit) rows) := by
  intro opts rows
  have hlist : ∀ after, (listMetrics D db userId organizationId (opts after)).toOption =
      (listByCursor (metricColumn D field) (fun r => r.metric.id) toMetricPreview dir (opts after)
        (db.metrics.rows.map (toMetricRow db))
        (metricWhere D userId organizationId (opts none))).map
          fun page => { page with limit := limit } := by
    intro after
    rw [listMetrics, normalizeMetricSort_text, toOption_pageOf]
    rfl
  have hids : ((db.metrics.rows.map (toMetricRow db)).map fun r => r.metric.id).Nodup := by
    rw [List.map_map]
    exact db.metrics.nodup
  simp only [hlist]
  rw [exactPaging_withLimit]
  refine (listByCursor_exact_iff (opts none) (metricColumn_reads D field) hids MetricPreview.id
    fun _ => rfl).trans ?_
  cases field with
  | name => exact ⟨fun h _ => h, fun h => h rfl⟩
  | _ => exact iff_of_true (pagesMeet_of_roundTrips _ _ hids) fun h => by cases h

/-- **Paging of categories**, whatever they are sorted by. -/
theorem listCategories_exact_iff (db : Db V) (userId organizationId : Uuid) (limit : Nat)
    (dir : Dir) (q : Option String) (includeTotal : Bool) (field : CategorySortField)
    (filter : Option CategoryFilter) :
    let opts := fun after => ⟨limit, sortText dir field.text, q, filter, after, includeTotal⟩
    let rows := (db.categories.rows.map (toCategoryRow db)).filter
      (categoryWhere D userId organizationId (opts none))
    ExactPaging (fun after => (listCategories D db userId organizationId (opts after)).toOption)
        toCategoryResponse rows (precedes (categoryColumn D field) (fun r => r.category.id) dir) ↔
      (field = .name → PagesMeet (categoryColumn D .name) (fun r => r.category.id)
        (fun r => D.toLowerCase r.category.name) dir (clampLimit limit) rows) := by
  intro opts rows
  have hlist : ∀ after, (listCategories D db userId organizationId (opts after)).toOption =
      listByCursor (categoryColumn D field) (fun r => r.category.id) toCategoryResponse dir
        (opts after) (db.categories.rows.map (toCategoryRow db))
        (categoryWhere D userId organizationId (opts none)) := by
    intro after
    rw [listCategories, normalizeCategorySort_text, toOption_pageOf]
    rfl
  have hids : ((db.categories.rows.map (toCategoryRow db)).map fun r => r.category.id).Nodup := by
    rw [List.map_map]
    exact db.categories.nodup
  simp only [hlist]
  refine (listByCursor_exact_iff (opts none) (categoryColumn_reads D field) hids
    MetricCategoryResponse.id fun _ => rfl).trans ?_
  cases field with
  | name => exact ⟨fun h _ => h, fun h => h rfl⟩
  | _ => exact iff_of_true (pagesMeet_of_roundTrips _ _ hids) fun h => by cases h

/-- **Paging of metrics and of categories is exact just where, sorted by names, its pages meet.** -/
theorem metricLists_exact_iff (D : Deps V) (db : Db V) (userId organizationId : Uuid) (limit : Nat)
    (dir : Dir) (q : Option String) (includeTotal : Bool) :
    (∀ (field : MetricSortField) (filter : Option MetricFilter),
      let opts := fun after => ⟨limit, sortText dir field.text, q, filter, after, includeTotal⟩
      let rows := (db.metrics.rows.map (toMetricRow db)).filter
        (metricWhere D userId organizationId (opts none))
      ExactPaging (fun after => (listMetrics D db userId organizationId (opts after)).toOption)
          toMetricPreview rows (precedes (metricColumn D field) (fun r => r.metric.id) dir) ↔
        (field = .name → PagesMeet (metricColumn D .name) (fun r => r.metric.id)
          (fun r => D.toLowerCase r.metric.name) dir (clampLimit limit) rows)) ∧
    ∀ (field : CategorySortField) (filter : Option CategoryFilter),
      let opts := fun after => ⟨limit, sortText dir field.text, q, filter, after, includeTotal⟩
      let rows := (db.categories.rows.map (toCategoryRow db)).filter
        (categoryWhere D userId organizationId (opts none))
      ExactPaging (fun after => (listCategories D db userId organizationId (opts after)).toOption)
          toCategoryResponse rows (precedes (categoryColumn D field) (fun r => r.category.id) dir) ↔
        (field = .name → PagesMeet (categoryColumn D .name) (fun r => r.category.id)
          (fun r => D.toLowerCase r.category.name) dir (clampLimit limit) rows) :=
  ⟨listMetrics_exact_iff D db userId organizationId limit dir q includeTotal,
    listCategories_exact_iff D db userId organizationId limit dir q includeTotal⟩

/-! ### Names -/

/-- Where every name has the same lower case on both sides, pages meet. -/
theorem pagesMeet_of_lower {Row : Type} {C : Column Row} {id : Row → Uuid} {dir : Dir}
    {mark : Row → C.K} {rows : List Row} (hids : (rows.map id).Nodup) (base : Row → Bool)
    (limit : Nat) (hmark : ∀ r ∈ rows.filter base, mark r = C.of r) :
    PagesMeet C id mark dir limit (rows.filter base) := by
  intro before r s rest hsorted hdvd
  have hr : r ∈ rows.filter base := by
    rw [← List.mem_insertionSort (buildOrder C id dir), hsorted]
    exact List.mem_append_right _ List.mem_cons_self
  rw [hmark r hr]
  exact pagesMeet_of_roundTrips base limit hids before r s rest hsorted hdvd

/-- **Names without `İ` and `Σ`**: where SQL maps each character as Unicode's simple mapping does,
their pages meet. -/
theorem pagesMeet_of_plain {U : CaseData} (htoLowerCase : D.toLowerCase = toLowerCase U)
    (hlower : D.lower = mapLower U) {rows : List MetricRow}
    (hids : (rows.map fun r => r.metric.id).Nodup) (base : MetricRow → Bool) (limit : Nat) (dir : Dir)
    (hplain : ∀ r ∈ rows.filter base, 'İ' ∉ r.metric.name.toList ∧ 'Σ' ∉ r.metric.name.toList) :
    PagesMeet (metricColumn D .name) (fun r => r.metric.id) (fun r => D.toLowerCase r.metric.name)
      dir limit (rows.filter base) := by
  refine pagesMeet_of_lower hids base limit fun r hr => ?_
  rw [htoLowerCase, toLowerCase_of_plain (hplain r hr), ← hlower]
  rfl

/-- What Unicode says of the capitals of ASCII, and of `İ`. -/
def fewCapitals : CaseData where
  lower c := if c = 'İ' then 'i' else c.toLower
  cased c := c.isAlpha || c = 'İ'
  ignorable _ := false

def fewDeps : Deps (Fin 100) :=
  { utcDeps with toLowerCase := toLowerCase fewCapitals, lower := mapLower fewCapitals }

/-- Three metrics, whose names are in another order than their ids. -/
def swims : Db (Fin 100) where
  metrics := ⟨[{ walking with id := 3, name := "walks" }, { walking with id := 4, name := "Runs" },
    { walking with id := 5, name := "SWIMS" }], by decide⟩
  categories := ⟨[], List.nodup_nil⟩
  settings := ⟨[], List.nodup_nil⟩
  logs := ⟨[], List.nodup_nil⟩

/-- Page by page, all three are listed. -/
theorem metricLists_exact_swims :
    (listMetrics fewDeps swims 1 2
      ⟨1, sortText .ASC MetricSortField.name.text, none, none, none, true⟩).toOption.map
        (fun page => page.items.map MetricPreview.name) = some ["Runs"] ∧
    ExactPaging (fun after => (listMetrics fewDeps swims 1 2
        ⟨1, sortText .ASC MetricSortField.name.text, none, none, after, true⟩).toOption)
      toMetricPreview ((swims.metrics.rows.map (toMetricRow swims)).filter (metricWhere fewDeps 1 2
        ⟨1, sortText .ASC MetricSortField.name.text, none, none, none, true⟩))
      (precedes (metricColumn fewDeps .name) (fun r => r.metric.id) .ASC) := by
  refine ⟨by decide +kernel, ((metricLists_exact_iff fewDeps swims 1 2 1 .ASC none true).1
    .name none).mpr fun _ => pagesMeet_of_plain fewDeps rfl rfl (by decide) _ _ _ ?_⟩
  decide +kernel

/-- Two metrics, whose names SQL has in one lower case. -/
def dotted : Db (Fin 100) where
  metrics := ⟨[{ walking with id := 3, name := "İ" }, { walking with id := 4, name := "i" }],
    by decide⟩
  categories := ⟨[], List.nodup_nil⟩
  settings := ⟨[], List.nodup_nil⟩
  logs := ⟨[], List.nodup_nil⟩

/-- Page by page, one of the two metrics is not listed. -/
theorem metricLists_skip : ¬ ExactPaging
    (fun after => (listMetrics fewDeps dotted 1 2
      ⟨1, sortText .ASC MetricSortField.name.text, none, none, after, false⟩).toOption)
    toMetricPreview ((dotted.metrics.rows.map (toMetricRow dotted)).filter (metricWhere fewDeps 1 2
      ⟨1, sortText .ASC MetricSortField.name.text, none, none, none, false⟩))
    (precedes (metricColumn fewDeps .name) (fun r => r.metric.id) .ASC) := by
  intro hexact
  have hpages := (listMetrics_exact_iff fewDeps dotted 1 2 1 .ASC none false .name none).mp hexact rfl
  have hmeet := (hpages [] ⟨{ walking with id := 3, name := "İ" }, none, 0⟩
    ⟨{ walking with id := 4, name := "i" }, none, 0⟩ [] (by decide +kernel) (by decide)).2
  revert hmeet
  decide +kernel

end LakiraBackend.Metrics
