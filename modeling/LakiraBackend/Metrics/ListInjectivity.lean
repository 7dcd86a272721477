import LakiraBackend.Metrics.ListKeys

/-!
# Lists with one key are asked for the same

A query that a schema accepts has its search and its names trimmed, and its ids as they are read
(`Listed.accepted_of_parse`); the segments of its key then tell what the repository is asked for
(`Listed.asked_eq`).
-/

namespace LakiraBackend.Metrics

open LakiraBackend.JavaScript LakiraBackend.Postgres LakiraBackend.Redis

/-! ### Accepted queries -/

/-- The sort, the search and the cursor of a query that is accepted. -/
structure ListOpts.Accepted {F : Type} (opts : ListOpts F) : Prop where
  sort : (∀ c ∈ opts.sort, isWhiteSpace c = false) ∧ opts.sort ≠ [] ∧ opts.sort.length < 36
  q : SentTrimmed String.toList opts.q

theorem sortText_accepted (field : List Char) (dir : Dir)
    (h : (field.all fun c => isWhiteSpace c = false) = true ∧ field ≠ [] ∧ field.length < 35) :
    (∀ c ∈ sortText dir field, isWhiteSpace c = false) ∧ sortText dir field ≠ [] ∧
      (sortText dir field).length < 36 := by
  obtain ⟨hall, hne, hlt⟩ := h
  have hspace : ∀ c ∈ field, isWhiteSpace c = false := fun c hc =>
    of_decide_eq_true (List.all_eq_true.mp hall c hc)
  cases dir with
  | ASC => exact ⟨hspace, hne, Nat.lt_succ_of_lt hlt⟩
  | DESC =>
    exact ⟨List.forall_mem_cons.mpr ⟨by decide, hspace⟩, List.cons_ne_nil _ _,
      Nat.succ_lt_succ hlt⟩

namespace Listed

variable {V : Type}

/-- The segments of its key. -/
def segments (D : Deps V) : Listed V → List (List Char × SegmentValue)
  | metrics opts => listSegments opts
    [("fn".toList, optionalText ((opts.filter.bind MetricFilter.name).map String.toList)),
      ("fc".toList, optionalText ((opts.filter.bind MetricFilter.categoryId).map IdText.text))]
  | metricLogs opts => listSegments opts
    [("fm".toList, optionalText ((opts.filter.bind LogQueryFilter.metricId).map IdText.text)),
      ("fn".toList, match opts.filter.bind LogQueryFilter.logValue with
        | some v => .number (D.numbers.literal v)
        | none => .missing)]
  | metricSettings opts => listSegments opts
    [("fm".toList,
        optionalText ((opts.filter.bind SettingsQueryFilter.metricId).map IdText.text)),
      ("fa".toList, match opts.filter.bind SettingsQueryFilter.isActive with
        | some b => .boolean b
        | none => .missing)]
  | categories opts => listSegments opts
    [("fn".toList, optionalText ((opts.filter.bind CategoryFilter.name).map String.toList))]

theorem key_eq (D : Deps V) (u o : Uuid) (l : Listed V) :
    l.key D u o = buildCursorCacheKey l.kind.feature u o (l.segments D) := by
  cases l <;> rfl

/-- What a schema lets through. -/
def Accepted : Listed V → Prop
  | metrics opts => opts.Accepted ∧ ∃ name categoryId, SentTrimmed String.toList name ∧ opts.filter =
    if name.isSome || categoryId.isSome then some ⟨name, categoryId⟩ else none
  | metricLogs opts => opts.Accepted ∧ ∃ metricId logValue, opts.filter =
    if logValue.isSome || metricId.isSome then some ⟨metricId, logValue⟩ else none
  | metricSettings opts => opts.Accepted ∧ ∃ metricId isActive, opts.filter =
    if metricId.isSome || isActive.isSome then some ⟨metricId, isActive⟩ else none
  | categories opts => opts.Accepted ∧ ∃ name, SentTrimmed String.toList name ∧
    opts.filter = name.map fun name => ⟨some name⟩

theorem accepted_of_parse [LinearOrder V] [Zero V] {D : Deps V} {query : AnyQuery} {l : Listed V}
    (h : query.parse D = some l) : l.Accepted := by
  cases query with
  | metrics query =>
    obtain ⟨opts, hopts, rfl⟩ := Option.map_eq_some_iff.mp h
    obtain ⟨q, hq, hopts⟩ := Option.bind_eq_some_iff.mp hopts
    obtain ⟨keyName, hkey, hopts⟩ := Option.bind_eq_some_iff.mp hopts
    obtain ⟨fieldName, hfield, hopts⟩ := Option.bind_eq_some_iff.mp hopts
    obtain ⟨keyId, _, hopts⟩ := Option.bind_eq_some_iff.mp hopts
    obtain ⟨fieldId, _, hopts⟩ := Option.bind_eq_some_iff.mp hopts
    obtain rfl := Option.some.inj hopts
    have hsort := sortText_accepted query.field.text query.dir
      (by cases query.field <;> decide)
    exact ⟨⟨hsort, trimmed_of_normalizedSearchParam hq⟩, _, _,
      (trimmed_of_normalizedSearchParam hkey).orElse (trimmed_of_normalizedSearchParam hfield), rfl⟩
  | metricLogs query after =>
    obtain ⟨opts, hopts, rfl⟩ := Option.map_eq_some_iff.mp h
    obtain ⟨q, logValue, metricId, hq, _, _, rfl⟩ := parse_eq_some hopts
    have hsort := sortText_accepted query.field.text query.dir
      (by cases query.field <;> decide)
    exact ⟨⟨hsort, trimmed_of_normalizedSearchParam hq⟩, _, _, rfl⟩
  | metricSettings query =>
    obtain ⟨opts, hopts, rfl⟩ := Option.map_eq_some_iff.mp h
    obtain ⟨q, hq, hopts⟩ := Option.bind_eq_some_iff.mp hopts
    obtain ⟨keyId, _, hopts⟩ := Option.bind_eq_some_iff.mp hopts
    obtain ⟨fieldId, _, hopts⟩ := Option.bind_eq_some_iff.mp hopts
    obtain ⟨keyActive, _, hopts⟩ := Option.bind_eq_some_iff.mp hopts
    obtain ⟨fieldActive, _, hopts⟩ := Option.bind_eq_some_iff.mp hopts
    obtain rfl := Option.some.inj hopts
    have hsort := sortText_accepted query.field.text query.dir
      (by cases query.field <;> decide)
    exact ⟨⟨hsort, trimmed_of_normalizedSearchParam hq⟩, _, _, rfl⟩
  | categories query =>
    obtain ⟨opts, hopts, rfl⟩ := Option.map_eq_some_iff.mp h
    obtain ⟨q, hq, hopts⟩ := Option.bind_eq_some_iff.mp hopts
    obtain ⟨keyName, hkey, hopts⟩ := Option.bind_eq_some_iff.mp hopts
    obtain ⟨fieldName, hfield, hopts⟩ := Option.bind_eq_some_iff.mp hopts
    obtain rfl := Option.some.inj hopts
    have hsort := sortText_accepted query.field.text query.dir
      (by cases query.field <;> decide)
    exact ⟨⟨hsort, trimmed_of_normalizedSearchParam hq⟩, _,
      (trimmed_of_normalizedSearchParam hkey).orElse (trimmed_of_normalizedSearchParam hfield), rfl⟩

end Listed

/-! ### Segments tell what is asked -/

theorem flatParts_append (a b : List (List Char × SegmentValue)) :
    flatParts (a ++ b) = flatParts a ++ flatParts b := List.flatMap_append

theorem length_flatParts (a : List (List Char × SegmentValue)) :
    (flatParts a).length = 2 * a.length := by
  induction a with
  | nil => rfl
  | cons s a ih =>
    rw [List.length_cons, Nat.mul_succ, ← ih]
    rfl

theorem toDigits_injective : Function.Injective (Nat.toDigits 10) := by
  intro m n h
  rw [← Nat.ofDigitChars_toDigits (b := 10) (n := m) (by decide) (by decide), h,
    Nat.ofDigitChars_toDigits (by decide) (by decide)]

theorem boolean_injective {a b : Bool}
    (h : normalizeSegmentValue (.boolean a) = normalizeSegmentValue (.boolean b)) : a = b := by
  revert h
  cases a <;> cases b <;> decide

/-- The segments that all lists have, and those of the filter. -/
theorem listSegments_inj {F : Type} {opts opts' : ListOpts F}
    {filter filter' : List (List Char × SegmentValue)} (hopts : opts.Accepted)
    (hopts' : opts'.Accepted)
    (h : flatParts (listSegments opts filter) = flatParts (listSegments opts' filter'))
    (hlength : filter.length = filter'.length) :
    flatParts filter = flatParts filter' ∧
      (opts.filter = opts'.filter → opts.repositoryQuery = opts'.repositoryQuery) := by
  simp only [listSegments, flatParts_append] at h
  obtain ⟨h, hlast⟩ := List.append_inj h (by simp [length_flatParts, hlength])
  obtain ⟨hfirst, hfilter⟩ := List.append_inj h rfl
  refine ⟨hfilter, fun hf => ?_⟩
  simp only [flatParts, List.flatMap_cons, List.flatMap_nil, List.cons_append, List.nil_append,
    List.cons.injEq, and_true, true_and] at hfirst hlast
  obtain ⟨hlimit, hsort, hq⟩ := hfirst
  obtain ⟨hafter, htotal⟩ := hlast
  have hlimit : opts.limit = opts'.limit := toDigits_injective hlimit
  have hsort : opts.sort = opts'.sort := by
    rw [← trimText_of_not_isWhiteSpace hopts.sort.1, trimText_eq_of_segment hsort,
      trimText_of_not_isWhiteSpace hopts'.sort.1]
  have hq : opts.q = opts'.q := eq_of_optionalText toList_injective hopts.q hopts'.q hq
  have hafter : decodeCursor opts.after = decodeCursor opts'.after := by
    rw [decodeCursor_eq, decodeCursor_eq, trimText_eq_of_segment hafter]
  rw [ListOpts.repositoryQuery, ListOpts.repositoryQuery, hlimit, hsort, hq, hf, hafter,
    boolean_injective htotal]

namespace Listed

variable {V : Type} {D : Deps V}

theorem literal_inj {v v' : Option V}
    (h : normalizeSegmentValue (match v with
        | some v => .number (D.numbers.literal v)
        | none => .missing) =
      normalizeSegmentValue (match v' with
        | some v => .number (D.numbers.literal v)
        | none => .missing)) : v = v' := by
  have hne : ∀ v, D.numbers.literal v ≠ ['_'] := by
    intro v heq
    have hin := (D.numbers.literal_isNumber v).2 '_' (by rw [heq]; exact List.mem_singleton_self _)
    exact absurd hin (by decide)
  have hinj : Function.Injective D.numbers.literal := by
    intro v v' heq
    have hread := D.numbers.ofLiteral_literal v
    rw [heq, D.numbers.ofLiteral_literal] at hread
    exact (Option.some.inj hread).symm
  cases v <;> cases v'
  · rfl
  · exact absurd h.symm (hne _)
  · exact absurd h (hne _)
  · exact congrArg some (hinj h)

theorem active_inj {b b' : Option Bool}
    (h : normalizeSegmentValue (match b with
        | some b => .boolean b
        | none => .missing) =
      normalizeSegmentValue (match b' with
        | some b => .boolean b
        | none => .missing)) : b = b' := by
  revert h
  rcases b with _ | _ | _ <;> rcases b' with _ | _ | _ <;> decide

/-- What a filter of two parts is made of is read off it. -/
theorem bind_filter {F α β : Type} {mk : Option α → Option β → F} {a : F → Option α}
    {b : F → Option β} (ha : ∀ x y, a (mk x y) = x) (hb : ∀ x y, b (mk x y) = y) {p : Prop}
    [Decidable p] {filter : Option F} {x : Option α} {y : Option β}
    (hp : p ↔ x.isSome = true ∨ y.isSome = true) (h : filter = if p then some (mk x y) else none) :
    filter.bind a = x ∧ filter.bind b = y := by
  rw [h]
  by_cases hsome : p
  · rw [if_pos hsome]
    exact ⟨ha x y, hb x y⟩
  · have hnone := mt hp.mpr hsome
    rw [not_or, Option.not_isSome_iff_eq_none, Option.not_isSome_iff_eq_none] at hnone
    obtain ⟨rfl, rfl⟩ := hnone
    rw [if_neg hsome]
    exact ⟨rfl, rfl⟩

/-- **The segments of a list tell what it is asked for.** -/
theorem asked_eq {l l' : Listed V} (h : l.Accepted) (h' : l'.Accepted) (hkind : l.kind = l'.kind)
    (hflat : flatParts (l.segments D) = flatParts (l'.segments D)) : l.asked = l'.asked := by
  cases l with
  | metrics opts =>
    cases l' with
    | metrics opts' =>
      obtain ⟨hopts, name, id, hname, hf⟩ := h
      obtain ⟨hopts', name', id', hname', hf'⟩ := h'
      obtain ⟨hfilter, heq⟩ := listSegments_inj hopts hopts' hflat rfl
      obtain ⟨hn, hi⟩ := bind_filter (a := MetricFilter.name)
        (b := MetricFilter.categoryId) (fun _ _ => rfl) (fun _ _ => rfl) (by simp) hf
      obtain ⟨hn', hi'⟩ := bind_filter (a := MetricFilter.name)
        (b := MetricFilter.categoryId) (fun _ _ => rfl) (fun _ _ => rfl) (by simp) hf'
      simp only [flatParts, List.flatMap_cons, List.flatMap_nil, List.cons_append, List.nil_append,
        List.cons.injEq, and_true, true_and, hn, hi, hn', hi'] at hfilter
      obtain rfl := eq_of_optionalText toList_injective hname hname' hfilter.1
      obtain rfl := eq_of_optionalText idText_injective (trimmed_id _) (trimmed_id _) hfilter.2
      exact congrArg Asked.metrics (heq (hf.trans hf'.symm))
    | _ => cases hkind
  | metricLogs opts =>
    cases l' with
    | metricLogs opts' =>
      obtain ⟨hopts, id, v, hf⟩ := h
      obtain ⟨hopts', id', v', hf'⟩ := h'
      obtain ⟨hfilter, heq⟩ := listSegments_inj hopts hopts' hflat rfl
      obtain ⟨hi, hv⟩ := bind_filter (a := LogQueryFilter.metricId)
        (b := LogQueryFilter.logValue) (fun _ _ => rfl) (fun _ _ => rfl) (by simp [or_comm]) hf
      obtain ⟨hi', hv'⟩ := bind_filter (a := LogQueryFilter.metricId)
        (b := LogQueryFilter.logValue) (fun _ _ => rfl) (fun _ _ => rfl) (by simp [or_comm]) hf'
      simp only [flatParts, List.flatMap_cons, List.flatMap_nil, List.cons_append, List.nil_append,
        List.cons.injEq, and_true, true_and, hv, hi, hv', hi'] at hfilter
      obtain rfl := eq_of_optionalText idText_injective (trimmed_id _) (trimmed_id _) hfilter.1
      obtain rfl := literal_inj hfilter.2
      exact congrArg Asked.metricLogs (heq (hf.trans hf'.symm))
    | _ => cases hkind
  | metricSettings opts =>
    cases l' with
    | metricSettings opts' =>
      obtain ⟨hopts, id, b, hf⟩ := h
      obtain ⟨hopts', id', b', hf'⟩ := h'
      obtain ⟨hfilter, heq⟩ := listSegments_inj hopts hopts' hflat rfl
      obtain ⟨hi, hb⟩ := bind_filter (a := SettingsQueryFilter.metricId)
        (b := SettingsQueryFilter.isActive) (fun _ _ => rfl) (fun _ _ => rfl) (by simp) hf
      obtain ⟨hi', hb'⟩ := bind_filter (a := SettingsQueryFilter.metricId)
        (b := SettingsQueryFilter.isActive) (fun _ _ => rfl) (fun _ _ => rfl) (by simp) hf'
      simp only [flatParts, List.flatMap_cons, List.flatMap_nil, List.cons_append, List.nil_append,
        List.cons.injEq, and_true, true_and, hb, hi, hb', hi'] at hfilter
      obtain rfl := eq_of_optionalText idText_injective (trimmed_id _) (trimmed_id _) hfilter.1
      obtain rfl := active_inj hfilter.2
      exact congrArg Asked.metricSettings (heq (hf.trans hf'.symm))
    | _ => cases hkind
  | categories opts =>
    cases l' with
    | categories opts' =>
      obtain ⟨hopts, name, hname, hf⟩ := h
      obtain ⟨hopts', name', hname', hf'⟩ := h'
      obtain ⟨hfilter, heq⟩ := listSegments_inj hopts hopts' hflat rfl
      have hn : opts.filter.bind CategoryFilter.name = name := by
        rw [hf]
        cases name <;> rfl
      have hn' : opts'.filter.bind CategoryFilter.name = name' := by
        rw [hf']
        cases name' <;> rfl
      simp only [flatParts, List.flatMap_cons, List.flatMap_nil, List.cons_append, List.nil_append,
        List.cons.injEq, and_true, true_and, hn, hn'] at hfilter
      obtain rfl := eq_of_optionalText toList_injective hname hname' hfilter
      exact congrArg Asked.categories (heq (hf.trans hf'.symm))
    | _ => cases hkind

end Listed

end LakiraBackend.Metrics
