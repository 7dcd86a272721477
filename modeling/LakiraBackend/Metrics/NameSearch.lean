import LakiraBackend.Metrics.LogFilters
import LakiraBackend.Postgres.Like

/-!
# The search for names

The lists of metrics and of categories find a name with ILIKE, by the text of the request between
two `%`; nothing in the text is escaped.  So a text is searched for as it is where it has no
character that LIKE reads in another way, and where it has one there is a name that is found
without having it (`search_iff`), but for texts that no name is long enough for.
-/

namespace LakiraBackend.Metrics

open LakiraBackend.JavaScript LakiraBackend.Postgres LakiraBackend.Postgres.Like

variable {V : Type}

/-- `like(v)`. -/
def like (v : String) : List Char := '%' :: (v.toList ++ ['%'])

/-- A text as it is written to a statement.  The database has no NUL, and the driver's escape
for it is one to LIKE, too. -/
def sqlText (s : List Char) : List Char := s.flatMap fun c => if c = '\x00' then ['\\', '0'] else [c]

/-- The names are compared by ILIKE. -/
def SearchesBy (F : CaseFold) (D : Deps V) : Prop :=
  ∀ v name, some (D.iLike v name) = iLike F (sqlText (like v)) name.toList

/-- The text is in the name, whatever the case. -/
def Contains (F : CaseFold) (v name : String) : Prop :=
  v.toList.map F.fold <:+: name.toList.map F.fold

/-- The columns of the names have the type `varchar(255)`. -/
def Storable (name : String) : Prop := name.toList.length ≤ 255 ∧ '\x00' ∉ name.toList

/-- The text has no character that is read in another way. -/
def Literal (v : String) : Prop := Plain v.toList ∧ '\x00' ∉ v.toList

/-- The shortest text that is found is too long for a name. -/
def TooLong (v : String) : Prop := 255 < (shortest (sqlText v.toList)).length

instance (F : CaseFold) (v name : String) : Decidable (Contains F v name) :=
  inferInstanceAs (Decidable (_ <:+: _))

instance (name : String) : Decidable (Storable name) := inferInstanceAs (Decidable (_ ∧ ¬_))

instance (v : String) : Decidable (Literal v) := inferInstanceAs (Decidable (_ ∧ ¬_))

instance (v : String) : Decidable (TooLong v) := inferInstanceAs (Decidable (_ < _))

/-! ### The statement -/

theorem sqlText_of_not_mem {s : List Char} (h : '\x00' ∉ s) : sqlText s = s := by
  induction s with
  | nil => rfl
  | cons c s ih =>
    rw [List.mem_cons, not_or] at h
    rw [sqlText, List.flatMap_cons, if_neg (Ne.symm h.1)]
    exact congrArg (c :: ·) (ih h.2)

theorem not_mem_sqlText (s : List Char) : '\x00' ∉ sqlText s := by
  intro h
  obtain ⟨c, -, h⟩ := List.mem_flatMap.mp h
  split at h
  · revert h
    decide
  · rename_i hc
    exact hc (List.mem_singleton.mp h).symm

theorem sqlText_like (v : String) : sqlText (like v) = '%' :: (sqlText v.toList ++ ['%']) := by
  rw [sqlText, like, List.flatMap_cons, List.flatMap_append]
  rfl

section

variable {F : CaseFold} {D : Deps V} {v name : String}

theorem mem_map_fold {c : Char} (hc : c ∈ ['\x00', '%', '_', '\\']) {s : List Char} :
    c ∈ s.map F.fold ↔ c ∈ s := by
  rw [List.mem_map]
  constructor
  · rintro ⟨d, hd, hfold⟩
    rwa [← (F.caseless c hc d).mp hfold]
  · exact fun h => ⟨c, h, (F.caseless c hc c).mpr rfl⟩

/-- **What a name is compared with**: it has no error, and what it matches is known. -/
theorem exists_tokens (F : CaseFold) (v : String) : ∃ p,
    tokens ((sqlText v.toList).map F.fold ++ ['%']) = some p ∧
      (∀ name : String, iLike F (sqlText (like v)) name.toList =
        some (isMatch (.any :: p) (name.toList.map F.fold))) ∧
      Shortest (.any :: p) ((shortest (sqlText v.toList)).map F.fold) := by
  obtain ⟨p, hp, hshort⟩ := isMatch_shortest ((sqlText v.toList).map F.fold)
  rw [shortest_map_fold] at hshort
  refine ⟨p, hp, fun name => ?_, hshort.any⟩
  have hpercent : F.fold '%' = '%' := (F.caseless '%' (by decide) '%').mpr rfl
  rw [iLike, sqlText_like, List.map_cons, List.map_append, List.map_singleton, hpercent, tokens, hp]
  rfl

/-- **A text without special characters** is searched for as it is. -/
theorem iLike_literal (hD : SearchesBy F D) (hv : Literal v) (name : String) :
    D.iLike v name = true ↔ Contains F v name := by
  obtain ⟨p, hp, hlike, -⟩ := exists_tokens F v
  have hplain : Plain (v.toList.map F.fold) := plain_map_fold.mpr hv.1
  rw [sqlText_of_not_mem hv.2, tokens_append hplain] at hp
  have hp : (v.toList.map F.fold).map .char ++ [.any] = p := Option.some.inj hp
  rw [Option.some.inj ((hD v name).trans (hlike name)), ← hp, isMatch_within_chars]
  rfl

/-- No name that can be stored is found, and none has the text, where that is too long. -/
theorem not_found_of_tooLong (hD : SearchesBy F D) (hv : TooLong v) (hname : Storable name) :
    ¬ D.iLike v name = true ∧ ¬ Contains F v name := by
  obtain ⟨p, -, hlike, hshort⟩ := exists_tokens F v
  constructor
  · rw [Option.some.inj ((hD v name).trans (hlike name))]
    intro hm
    have hle := hshort.2 _ hm
    rw [List.length_map, List.length_map] at hle
    exact Nat.lt_irrefl _ (hv.trans_le (hle.trans hname.1))
  · intro hin
    by_cases hnul : '\x00' ∈ v.toList
    · have hmem := hin.subset ((mem_map_fold (by decide)).mpr hnul)
      exact hname.2 ((mem_map_fold (by decide)).mp hmem)
    · have hle := hin.length_le
      have hshorter := length_shortest_le v.toList
      rw [List.length_map, List.length_map] at hle
      rw [TooLong, sqlText_of_not_mem hnul] at hv
      have hbound := hname.1
      omega

/-- **A name that is found and does not have the text**, where that has a special character. -/
theorem exists_found (hD : SearchesBy F D) (hliteral : ¬ Literal v) (hlong : ¬ TooLong v) :
    ∃ name, Storable name ∧ D.iLike v name = true ∧ ¬ Contains F v name := by
  obtain ⟨p, -, hlike, hshort⟩ := exists_tokens F v
  let name := String.ofList ((shortest (sqlText v.toList)).map F.fold)
  have hname : name.toList = (shortest (sqlText v.toList)).map F.fold := String.toList_ofList
  have hfolded : name.toList.map F.fold = name.toList := by
    rw [hname, map_fold_idem]
  have hnul : '\x00' ∉ name.toList := by
    rw [hname, mem_map_fold (by decide)]
    intro h
    rcases mem_shortest h with h | h
    · exact not_mem_sqlText _ h
    · exact absurd h (by decide)
  refine ⟨name, ⟨?_, hnul⟩, ?_, fun hin => ?_⟩
  · rw [hname, List.length_map]
    exact Nat.le_of_not_lt hlong
  · rw [Option.some.inj ((hD v name).trans (hlike name)), hfolded, hname]
    exact hshort.1
  · rw [Contains, hfolded] at hin
    have hno : '\x00' ∉ v.toList := fun h => hnul (hin.subset ((mem_map_fold (by decide)).mpr h))
    rw [hname, sqlText_of_not_mem hno, ← shortest_map_fold] at hin
    exact hliteral ⟨plain_map_fold.mp (plain_of_isInfix hin), hno⟩

/-- **A text is searched for as it is** exactly where it is literal, or too long for a name. -/
theorem likes_iff (hD : SearchesBy F D) (hne : v ≠ "") :
    (∀ name, Storable name → (likes D (some v) name = true ↔ Contains F v name)) ↔
      Literal v ∨ TooLong v := by
  have hlikes : ∀ name, likes D (some v) name = D.iLike v name := by
    intro name
    rw [likes, decide_eq_false hne, Bool.false_or]
  simp only [hlikes]
  constructor
  · intro hall
    by_contra hno
    rw [not_or] at hno
    obtain ⟨name, hname, hfound, hnot⟩ := exists_found hD hno.1 hno.2
    exact hnot ((hall name hname).mp hfound)
  · rintro (hv | hv) name hname
    · exact iLike_literal hD hv name
    · exact iff_of_false (not_found_of_tooLong hD hv hname).1 (not_found_of_tooLong hD hv hname).2

/-! ### The lists -/

/-- A condition of a list that a name has to be found, besides another one. -/
theorem criterion_iff {O Row : Type} {where₀ where₁ : O → Row → Bool} {nameOf : Row → String}
    (hD : SearchesBy F D) (hne : v ≠ "")
    (hwhere : ∀ opts r, where₁ opts r = (where₀ opts r && likes D (some v) (nameOf r)))
    (hrow : ∀ name, ∃ opts r, where₀ opts r = true ∧ nameOf r = name) :
    (∀ opts r, Storable (nameOf r) → (where₁ opts r = true ↔
      where₀ opts r = true ∧ Contains F v (nameOf r))) ↔ Literal v ∨ TooLong v := by
  rw [← likes_iff hD hne]
  constructor
  · intro hall name hname
    obtain ⟨opts, r, h₀, rfl⟩ := hrow name
    have hr := hall opts r hname
    rwa [hwhere, h₀, Bool.true_and, eq_self, true_and] at hr
  · intro hall opts r hname
    rw [hwhere, Bool.and_eq_true, hall _ hname]

/-- What is asked for, when nothing is. -/
def noOpts (F : Type) : ListOpts F := ⟨20, sortText .DESC "createdAt".toList, none, none, none, false⟩

def namedMetric (userId organizationId : Uuid) (name : String) : MetricRow :=
  ⟨⟨7, userId, organizationId, none, none, name, none, "km", true, Utc.epoch, Utc.epoch, none⟩,
    none, 0⟩

def namedCategory (userId organizationId : Uuid) (name : String) : CategoryRow :=
  ⟨⟨7, userId, organizationId, name, "#fff", "walk", Utc.epoch, Utc.epoch, none⟩, 0⟩

/-- **The search for names is a search for a text in them** exactly where the text is literal, or
too long for a name: by `q` and by the name of the filter, of metrics and of categories.  The
rows that are listed are those that would be without, and have the text in their name. -/
theorem search_iff (hD : SearchesBy F D) {s : String}
    (h : normalizedSearchParam (some s) = some (some v)) (userId organizationId : Uuid) :
    ((∀ (opts : ListOpts MetricFilter) r, Storable r.metric.name →
        (metricWhere D userId organizationId { opts with q := some v } r = true ↔
          metricWhere D userId organizationId { opts with q := none } r = true ∧
            Contains F v r.metric.name)) ↔ Literal v ∨ TooLong v) ∧
    ((∀ (opts : ListOpts MetricFilter × MetricFilter) r, Storable r.metric.name →
        (metricWhere D userId organizationId
            { opts.1 with filter := some { opts.2 with name := some v } } r = true ↔
          metricWhere D userId organizationId
              { opts.1 with filter := some { opts.2 with name := none } } r = true ∧
            Contains F v r.metric.name)) ↔ Literal v ∨ TooLong v) ∧
    ((∀ (opts : ListOpts CategoryFilter) r, Storable r.category.name →
        (categoryWhere D userId organizationId { opts with q := some v } r = true ↔
          categoryWhere D userId organizationId { opts with q := none } r = true ∧
            Contains F v r.category.name)) ↔ Literal v ∨ TooLong v) ∧
    ((∀ (opts : ListOpts CategoryFilter) r, Storable r.category.name →
        (categoryWhere D userId organizationId { opts with filter := some ⟨some v⟩ } r = true ↔
          categoryWhere D userId organizationId { opts with filter := some ⟨none⟩ } r = true ∧
            Contains F v r.category.name)) ↔ Literal v ∨ TooLong v) := by
  have hne : v ≠ "" := by
    obtain ⟨hv, hs⟩ := normalizedSearchParam_eq_some h
    rw [Option.some.inj hv]
    exact hs s rfl
  have hnone : ∀ name, likes D none name = true := fun _ => rfl
  refine ⟨criterion_iff hD hne (fun opts r => ?_) fun name => ?_,
    criterion_iff hD hne (fun opts r => ?_) fun name => ?_,
    criterion_iff hD hne (fun opts r => ?_) fun name => ?_,
    criterion_iff hD hne (fun opts r => ?_) fun name => ?_⟩
  · simp only [metricWhere, hnone, Bool.and_true]
    ac_rfl
  · exact ⟨noOpts _, namedMetric userId organizationId name, by
      simp [metricWhere, noOpts, namedMetric, owns, hnone], rfl⟩
  · simp only [metricWhere, Option.bind_some, hnone, Bool.and_true]
    ac_rfl
  · exact ⟨⟨noOpts _, none, none⟩, namedMetric userId organizationId name, by
      simp [metricWhere, noOpts, namedMetric, owns, hnone], rfl⟩
  · simp only [categoryWhere, hnone, Bool.and_true]
    ac_rfl
  · exact ⟨noOpts _, namedCategory userId organizationId name, by
      simp [categoryWhere, noOpts, namedCategory, ownsCategory, hnone], rfl⟩
  · simp only [categoryWhere, Option.bind_some, hnone, Bool.and_true]
  · exact ⟨noOpts _, namedCategory userId organizationId name, by
      simp [categoryWhere, noOpts, namedCategory, ownsCategory, hnone], rfl⟩

end

/-! ### Two searches -/

def searchDeps : Deps (Fin 100) :=
  { utcDeps with
    iLike := fun v name => (iLike .ascii (sqlText (like v)) name.toList).getD false }

theorem searchesBy_searchDeps : SearchesBy .ascii searchDeps := by
  intro v name
  obtain ⟨p, -, hlike, -⟩ := exists_tokens .ascii v
  change some ((iLike .ascii (sqlText (like v)) name.toList).getD false) = _
  rw [hlike]
  rfl

theorem literal_alk : Literal "ALK" := by
  constructor
  · intro c hc
    simp only [String.reduceToList, List.mem_cons, List.not_mem_nil, or_false] at hc
    rcases hc with rfl | rfl | rfl <;> rfl
  · decide

/-- A part of a name finds it. -/
theorem search_alk :
    metricWhere searchDeps 1 2 { noOpts MetricFilter with q := some "ALK" }
      (namedMetric 1 2 "Walks") = true := by
  refine (((search_iff searchesBy_searchDeps (s := " ALK ") (by decide) 1 2).1.mpr
    (.inl literal_alk) (noOpts _) (namedMetric 1 2 "Walks") (by decide)).mpr ⟨?_, ?_⟩)
  · decide
  · decide

/-- **A search for `_` finds a name without it.** -/
theorem underscore_found :
    SearchesBy .ascii searchDeps ∧ normalizedSearchParam (some "_") = some (some "_") ∧
      metricWhere searchDeps 1 2 { noOpts MetricFilter with q := some "_" }
        (namedMetric 1 2 "Walks") = true ∧
      ¬ Contains .ascii "_" (namedMetric 1 2 "Walks").metric.name :=
  ⟨searchesBy_searchDeps, by decide, by decide, by decide⟩

end LakiraBackend.Metrics
