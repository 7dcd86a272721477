import LakiraBackend.Metrics.ListInjectivity
import LakiraBackend.Metrics.NamePaging
import LakiraBackend.Metrics.System

/-!
# Which pages a pattern takes

A pattern of list pages names parts of a key, in order (`matches_iff`).  One that names a user and
an organization takes that user's pages there (`cursorPattern_matches_iff`); that of the categories
names the user alone, and takes the user's pages in every organization, and any page with the user's
id for another part (`categoryCursorPattern_matches_iff`).
-/

namespace LakiraBackend.Metrics

open LakiraBackend.JavaScript LakiraBackend.Postgres LakiraBackend.Redis

/-! ### Patterns -/

theorem literal_joinParts {parts : List (List Char)} (h : ∀ p ∈ parts, Redis.Literal p) :
    Redis.Literal (joinParts parts) := by
  induction parts with
  | nil => decide
  | cons p parts ih =>
    obtain ⟨hp, hrest⟩ := List.forall_mem_cons.mp h
    cases parts with
    | nil => rwa [joinParts_singleton]
    | cons q parts =>
      rw [joinParts_cons_cons]
      exact hp.append (.cons (by decide) (ih hrest))

/-- What a pattern of list pages names, among the parts of a key after its first two. -/
theorem matches_iff {feature feature' : List Char} (hf : ':' ∉ feature) (hf' : ':' ∉ feature')
    (hstar : Redis.Literal feature') {named parts : List (List Char)}
    (hnamed : ∀ p ∈ named, ':' ∉ p ∧ Redis.Literal p) (hne : named ≠ [])
    (hparts : ∀ p ∈ parts, ':' ∉ p) :
    globMatch (joinParts (cursorCacheNamespace feature' ['*'] :: (named ++ [['*']])))
        (joinParts ("cursor".toList :: feature :: "v4".toList :: parts)) = true ↔
      feature = feature' ∧ ∃ front back, parts = front ++ (named ++ back) ∧ back ≠ [] := by
  have hlabel : cursorCacheNamespace feature' ['*'] =
      "cursor".toList ++ ':' :: (feature' ++ ':' :: ['v', '*']) := by
    have hcursor : "cursor:".toList = "cursor".toList ++ [':'] := by decide
    have hcolon : ":v".toList = [':', 'v'] := by decide
    unfold cursorCacheNamespace
    rw [hcursor, hcolon, List.append_assoc]
    rfl
  have hcursor : Redis.Literal "cursor".toList ∧ ':' ∉ "cursor".toList := by decide
  generalize "cursor".toList = label at hlabel hcursor ⊢
  have hpattern : joinParts (cursorCacheNamespace feature' ['*'] :: (named ++ [['*']])) =
      (label ++ ':' :: (feature' ++ [':', 'v'])) ++
        '*' :: ((':' :: (joinParts named ++ [':'])) ++ ['*']) := by
    obtain ⟨n, named, rfl⟩ := List.exists_cons_of_ne_nil hne
    rw [List.cons_append, joinParts_cons_cons, ← List.cons_append,
      joinParts_append (List.cons_ne_nil _ _) (List.cons_ne_nil _ _), joinParts_singleton, hlabel]
    simp only [List.append_assoc, List.cons_append, List.nil_append]
  have hl : Redis.Literal (label ++ ':' :: (feature' ++ [':', 'v'])) :=
    hcursor.1.append (.cons (by decide) (hstar.append (by decide)))
  have hm : Redis.Literal (':' :: (joinParts named ++ [':'])) :=
    .cons (by decide) ((literal_joinParts fun p hp => (hnamed p hp).2).append (by decide))
  rw [hpattern, globMatch_inside_iff hl hm]
  constructor
  · rintro ⟨skipped, rest, hs⟩
    have hsplit := congrArg (List.splitOn ':') hs
    have hkey : ∀ p ∈ label :: feature :: "v4".toList :: parts, ':' ∉ p :=
      List.forall_mem_cons.mpr ⟨hcursor.2, List.forall_mem_cons.mpr ⟨hf,
        List.forall_mem_cons.mpr ⟨by decide, hparts⟩⟩⟩
    have hshape : (label ++ ':' :: (feature' ++ [':', 'v'])) ++ (skipped ++
        ((':' :: (joinParts named ++ [':'])) ++ rest)) = label ++ ':' :: (feature' ++
          ':' :: (('v' :: skipped) ++ ':' :: (joinParts named ++ ':' :: rest))) := by
      simp only [List.append_assoc, List.cons_append, List.nil_append]
    rw [hshape, joinParts, List.splitOn_intercalate ':' hkey (List.cons_ne_nil _ _),
      List.splitOn_append_cons_self_of_not_mem hcursor.2,
      List.splitOn_append_cons_self_of_not_mem hf', List.splitOn_append_cons_self,
      List.splitOn_append_cons_self, joinParts,
      List.splitOn_intercalate ':' (fun p hp => (hnamed p hp).1) hne] at hsplit
    obtain ⟨x, front, hfront⟩ :=
      List.exists_cons_of_ne_nil (List.splitOn_ne_nil ':' ('v' :: skipped))
    rw [hfront] at hsplit
    simp only [List.cons_append, List.cons.injEq, true_and] at hsplit
    exact ⟨hsplit.1, front, _, hsplit.2.2, List.splitOn_ne_nil _ _⟩
  · rintro ⟨rfl, front, back, rfl, hback⟩
    have hversion : ∃ skipped, joinParts ("v4".toList :: front) = 'v' :: skipped := by
      cases front with
      | nil => exact ⟨['4'], by rw [joinParts_singleton]; decide⟩
      | cons p front => exact ⟨_, joinParts_cons_cons _ _ _⟩
    obtain ⟨skipped, hskipped⟩ := hversion
    refine ⟨skipped, joinParts back, ?_⟩
    have hsplit : joinParts (("v4".toList :: front) ++ (named ++ back)) =
        'v' :: skipped ++ ':' :: (joinParts named ++ ':' :: joinParts back) := by
      rw [joinParts_append (List.cons_ne_nil _ _) (by simp [hne]), joinParts_append hne hback,
        hskipped]
    rw [joinParts_cons_cons, joinParts_cons_cons]
    rw [List.cons_append] at hsplit
    rw [hsplit]
    simp only [List.append_assoc, List.cons_append, List.nil_append]

/-- An id and the word after it are no two parts of the segments. -/
theorem not_infix_flatParts {u : Uuid} {segments : List (List Char × SegmentValue)}
    (h : ∀ s ∈ segments, s.1 ≠ "org".toList ∧ s.1.length < 36) (v : List Char) :
    ¬[u.text, "org".toList] <:+: v :: flatParts segments := by
  generalize "org".toList = word at h
  induction segments generalizing v with
  | nil =>
    intro hcontains
    have hlength := hcontains.length_le
    simp [flatParts] at hlength
  | cons s segments ih =>
    obtain ⟨hs, hrest⟩ := List.forall_mem_cons.mp h
    intro hcontains
    have hflat : flatParts (s :: segments) =
        s.1 :: normalizeSegmentValue s.2 :: flatParts segments := rfl
    rw [hflat] at hcontains
    rcases List.infix_cons_iff.mp hcontains with hfirst | hcontains
    · obtain ⟨_, hfirst⟩ := List.cons_prefix_cons.mp hfirst
      exact hs.1 (List.cons_prefix_cons.mp hfirst).1.symm
    rcases List.infix_cons_iff.mp hcontains with hfirst | hcontains
    · have hlabel := (List.cons_prefix_cons.mp hfirst).1
      rw [← hlabel, length_text] at hs
      exact absurd hs.2 (Nat.lt_irrefl 36)
    · exact ih _ hrest hcontains

/-- The parts of a key that ids and segments make. -/
theorem keyParts_eq (feature : List Char) (u o : Uuid)
    (segments : List (List Char × SegmentValue)) :
    keyParts feature u o segments = "cursor".toList :: feature :: "v4".toList ::
      (u.text :: "org".toList :: o.text :: flatParts segments) := by
  rw [keyParts, normalizeSegmentValue_uuid, normalizeSegmentValue_uuid]

theorem not_mem_text {u : Uuid} : ':' ∉ u.text ∧ Redis.Literal u.text :=
  ⟨fun h => absurd (isKept_of_mem_text h) (by decide),
    fun h => absurd (isKept_of_mem_text h) (by decide)⟩

section

variable {feature feature' : List Char} {u u' o o' : Uuid}
  {segments : List (List Char × SegmentValue)}

/-- **A pattern that names a user and an organization** is of that user's keys there. -/
theorem cursorPattern_matches_iff (hf : ':' ∉ feature) (hf' : ':' ∉ feature')
    (hstar : Redis.Literal feature') (hplain : SegmentsPlain segments)
    (hlabels : ∀ s ∈ segments, s.1 ≠ "org".toList ∧ s.1.length < 36) (hne : segments ≠ []) :
    globMatch (cursorPattern u' o' feature') (buildCursorCacheKey feature u o segments) = true ↔
      feature = feature' ∧ u' = u ∧ o' = o := by
  have hword : ':' ∉ "org".toList ∧ Redis.Literal "org".toList := by decide
  have hlength : "org".toList.length < 36 := by decide
  have hcontains := fun u => not_infix_flatParts (u := u) hlabels
  have hparts : ∀ p ∈ keyParts feature u o segments, ':' ∉ p := not_mem_keyParts hf hplain u o
  rw [keyParts_eq] at hparts
  have hnamed : ∀ p ∈ [u'.text, "org".toList, o'.text], ':' ∉ p ∧ Redis.Literal p := by
    intro p hp
    simp only [List.mem_cons, List.not_mem_nil, or_false] at hp
    rcases hp with rfl | rfl | rfl
    · exact not_mem_text
    · exact hword
    · exact not_mem_text
  have hmatch := matches_iff hf hf' hstar hnamed (List.cons_ne_nil _ _) (fun p hp => hparts p
    (List.mem_cons_of_mem _ (List.mem_cons_of_mem _ (List.mem_cons_of_mem _ hp))))
  rw [buildCursorCacheKey_eq, keyParts_eq]
  refine hmatch.trans (and_congr_right fun _ => ?_)
  generalize "org".toList = word at hlength hcontains
  constructor
  · rintro ⟨front, back, heq, _⟩
    cases front with
    | nil =>
      simp only [List.nil_append, List.cons_append, List.cons.injEq, true_and] at heq
      exact ⟨(Uuid.text_injective heq.1).symm, (Uuid.text_injective heq.2.1).symm⟩
    | cons x front =>
      obtain ⟨_, heq⟩ := List.cons.inj heq
      cases front with
      | nil =>
        obtain ⟨hu, _⟩ := List.cons.inj heq
        rw [hu, length_text] at hlength
        exact absurd hlength (Nat.lt_irrefl 36)
      | cons y front =>
        obtain ⟨_, heq⟩ := List.cons.inj heq
        refine absurd ⟨front, o'.text :: back, ?_⟩ (hcontains u' o.text)
        rw [heq, List.append_assoc]
        rfl
  · rintro ⟨rfl, rfl⟩
    obtain ⟨s, segments, rfl⟩ := List.exists_cons_of_ne_nil hne
    exact ⟨[], _, rfl, List.cons_ne_nil _ _⟩

theorem mem_dropLast_iff {α : Type} {x : α} {l : List α} :
    (∃ front back, l = front ++ ([x] ++ back) ∧ back ≠ []) ↔ x ∈ l.dropLast := by
  constructor
  · rintro ⟨front, back, rfl, hback⟩
    rw [List.dropLast_append_of_ne_nil (by simp), List.dropLast_append_of_ne_nil hback]
    exact List.mem_append_right _ (List.mem_append_left _ (List.mem_singleton_self x))
  · intro hx
    have hne : l ≠ [] := by
      rintro rfl
      cases hx
    obtain ⟨front, back, hsplit⟩ := List.append_of_mem hx
    refine ⟨front, back ++ [l.getLast hne], ?_, by simp⟩
    conv_lhs => rw [← List.dropLast_append_getLast hne, hsplit]
    simp only [List.append_assoc, List.cons_append, List.nil_append]

/-- **The pattern of the categories** names one part, and takes it for any but the last. -/
theorem categoryCursorPattern_matches_iff (hf : ':' ∉ feature) (hplain : SegmentsPlain segments)
    (hne : segments ≠ []) :
    globMatch (categoryCursorPattern u') (buildCursorCacheKey feature u o segments) = true ↔
      feature = METRIC_CATEGORY_CURSOR_FEATURE ∧
        (u' = u ∨ u' = o ∨ u'.text ∈ (flatParts segments).dropLast) := by
  have hword : "org".toList.length < 36 := by decide
  have hparts : ∀ p ∈ keyParts feature u o segments, ':' ∉ p := not_mem_keyParts hf hplain u o
  rw [keyParts_eq] at hparts
  have hmatch := @matches_iff feature METRIC_CATEGORY_CURSOR_FEATURE hf (by decide) (by decide) _ _
    (List.forall_mem_singleton.mpr (not_mem_text (u := u'))) (List.cons_ne_nil _ _)
    (fun p hp => hparts p
      (List.mem_cons_of_mem _ (List.mem_cons_of_mem _ (List.mem_cons_of_mem _ hp))))
  have hflat : flatParts segments ≠ [] := by
    obtain ⟨s, segments, rfl⟩ := List.exists_cons_of_ne_nil hne
    exact List.cons_ne_nil _ _
  have hu : u'.text ≠ "org".toList := fun heq => by
    rw [← heq, length_text] at hword
    exact absurd hword (Nat.lt_irrefl 36)
  rw [buildCursorCacheKey_eq, keyParts_eq]
  refine hmatch.trans (and_congr_right fun _ => ?_)
  generalize "org".toList = word at hu
  rw [mem_dropLast_iff, List.dropLast_cons_of_ne_nil (List.cons_ne_nil _ _),
    List.dropLast_cons_of_ne_nil (List.cons_ne_nil _ _), List.dropLast_cons_of_ne_nil hflat,
    List.mem_cons, List.mem_cons, List.mem_cons, Uuid.text_injective.eq_iff,
    Uuid.text_injective.eq_iff, or_iff_right hu]

end

/-! ### The four lists -/

theorem normalizeSegmentValue_eq_iff {s : List Char} {u : Uuid} :
    normalizeSegmentValue (.text s) = u.text ↔ trimText s = u.text := by
  constructor
  · intro h
    rw [← normalizeSegmentValue_uuid] at h
    exact (trimText_eq_of_segment h).trans (trimText_uuid u)
  · intro h
    have hu := normalizeSegmentValue_uuid u
    simp only [normalizeSegmentValue, trimText_uuid] at hu
    simp only [normalizeSegmentValue, h, hu]

/-- What a request for categories has in its own words. -/
def ListOpts.texts (opts : ListOpts CategoryFilter) : List (List Char) :=
  [(opts.q.map String.toList).getD [],
    ((opts.filter.bind CategoryFilter.name).map String.toList).getD [], opts.after.getD []]

/-- An id is part of the segments of a request only in the request's words. -/
theorem mem_segments_iff {opts : ListOpts CategoryFilter} (h : opts.Accepted) {V : Type} (D : Deps V)
    (u : Uuid) :
    u.text ∈ (flatParts ((Listed.categories opts).segments D)).dropLast ↔
      ∃ s ∈ opts.texts, trimText s = u.text := by
  have hlabel : ∀ label ∈ ["l".toList, "s".toList, "q".toList, "fn".toList, "after".toList,
      "it".toList], u.text ≠ label := by
    intro label hlabel heq
    have hall : ∀ label ∈ ["l".toList, "s".toList, "q".toList, "fn".toList, "after".toList,
      "it".toList], label.length ≠ 36 := by decide
    exact hall label hlabel (heq ▸ length_text u)
  have hlimit : u.text ≠ Nat.toDigits 10 opts.limit := by
    intro heq
    have hdash := dash_mem_text u
    rw [heq] at hdash
    exact absurd (Nat.isDigit_of_mem_toDigits (by decide) (by decide) hdash) (by decide)
  have hsort : u.text ≠ normalizeSegmentValue (.text opts.sort) := by
    intro heq
    have htrim := normalizeSegmentValue_eq_iff.mp heq.symm
    rw [trimText_of_not_isWhiteSpace h.sort.1] at htrim
    have hlength := h.sort.2.2
    rw [htrim, length_text] at hlength
    exact absurd hlength (Nat.lt_irrefl 36)
  simp only [List.forall_mem_cons, List.not_mem_nil, false_implies, implies_true, and_true]
    at hlabel
  obtain ⟨hl, hs, hq, hfn, hafter, hit⟩ := hlabel
  have hparts : (flatParts ((Listed.categories opts).segments D)).dropLast =
      ["l".toList, Nat.toDigits 10 opts.limit, "s".toList, normalizeSegmentValue (.text opts.sort),
        "q".toList, normalizeSegmentValue (.text ((opts.q.map String.toList).getD [])), "fn".toList,
        normalizeSegmentValue
          (.text (((opts.filter.bind CategoryFilter.name).map String.toList).getD [])),
        "after".toList, normalizeSegmentValue (.text (opts.after.getD [])), "it".toList] := rfl
  rw [hparts]
  have hvalue : ∀ s, u.text = normalizeSegmentValue (.text s) ↔ trimText s = u.text :=
    fun s => eq_comm.trans normalizeSegmentValue_eq_iff
  simp only [List.mem_cons, hl, hlimit, hs, hsort, hq, hfn, hafter, hit, hvalue, false_or, or_false,
    List.not_mem_nil, ListOpts.texts, exists_eq_or_imp, exists_eq_left]

theorem ListKind.feature_injective : Function.Injective ListKind.feature := by
  intro k k' h
  cases k <;> cases k' <;> first | rfl | exact absurd h (by decide)

theorem ListKind.feature_plain (k : ListKind) : ':' ∉ k.feature ∧ Redis.Literal k.feature := by
  cases k <;> decide

namespace Listed

variable {V : Type} (D : Deps V)

theorem mem_listSegments {F : Type} {opts : ListOpts F} {filter : List (List Char × SegmentValue)}
    {P : List Char × SegmentValue → Prop} (hfilter : ∀ s ∈ filter, P s)
    (hl : P ("l".toList, .number (Nat.toDigits 10 opts.limit))) (hs : P ("s".toList, .text opts.sort))
    (hq : P ("q".toList, optionalText (opts.q.map String.toList)))
    (hafter : P ("after".toList, optionalText opts.after))
    (hit : P ("it".toList, .boolean opts.includeTotal)) : ∀ s ∈ listSegments opts filter, P s := by
  simp only [listSegments, List.forall_mem_append, List.forall_mem_cons]
  exact ⟨⟨⟨hl, hs, hq, fun _ h => absurd h List.not_mem_nil⟩, hfilter⟩, hafter, hit,
    fun _ h => absurd h List.not_mem_nil⟩

/-- What every segment of a list is. -/
theorem segments_wellFormed (l : Listed V) : ∀ s ∈ l.segments D,
    (':' ∉ s.1 ∧ s.2.Proper) ∧ s.1 ≠ "org".toList ∧ s.1.length < 36 := by
  have hdigits : ∀ n, (SegmentValue.number (Nat.toDigits 10 n)).Proper := fun n c hc =>
    (isNumber_toDigits n).2 c hc
  have hlabels : ∀ label ∈ ["l".toList, "s".toList, "q".toList, "after".toList, "it".toList,
      "fn".toList, "fc".toList, "fm".toList, "fa".toList],
      ':' ∉ label ∧ label ≠ "org".toList ∧ label.length < 36 := by decide
  simp only [List.forall_mem_cons] at hlabels
  obtain ⟨hl, hs, hq, hafter, hit, hfn, hfc, hfm, hfa, _⟩ := hlabels
  cases l with
  | metrics opts =>
    refine mem_listSegments ?_ ⟨⟨hl.1, hdigits _⟩, hl.2⟩ ⟨⟨hs.1, trivial⟩, hs.2⟩
      ⟨⟨hq.1, trivial⟩, hq.2⟩ ⟨⟨hafter.1, trivial⟩, hafter.2⟩ ⟨⟨hit.1, trivial⟩, hit.2⟩
    simp only [List.forall_mem_cons]
    exact ⟨⟨⟨hfn.1, trivial⟩, hfn.2⟩, ⟨⟨hfc.1, trivial⟩, hfc.2⟩, fun _ h => nomatch h⟩
  | metricLogs opts =>
    refine mem_listSegments ?_ ⟨⟨hl.1, hdigits _⟩, hl.2⟩ ⟨⟨hs.1, trivial⟩, hs.2⟩
      ⟨⟨hq.1, trivial⟩, hq.2⟩ ⟨⟨hafter.1, trivial⟩, hafter.2⟩ ⟨⟨hit.1, trivial⟩, hit.2⟩
    simp only [List.forall_mem_cons]
    refine ⟨⟨⟨hfm.1, trivial⟩, hfm.2⟩, ⟨⟨hfn.1, ?_⟩, hfn.2⟩, fun _ h => nomatch h⟩
    cases opts.filter.bind LogQueryFilter.logValue with
    | none => trivial
    | some v => exact (D.numbers.literal_isNumber v).2
  | metricSettings opts =>
    refine mem_listSegments ?_ ⟨⟨hl.1, hdigits _⟩, hl.2⟩ ⟨⟨hs.1, trivial⟩, hs.2⟩
      ⟨⟨hq.1, trivial⟩, hq.2⟩ ⟨⟨hafter.1, trivial⟩, hafter.2⟩ ⟨⟨hit.1, trivial⟩, hit.2⟩
    simp only [List.forall_mem_cons]
    refine ⟨⟨⟨hfm.1, trivial⟩, hfm.2⟩, ⟨⟨hfa.1, ?_⟩, hfa.2⟩, fun _ h => nomatch h⟩
    cases opts.filter.bind SettingsQueryFilter.isActive <;> trivial
  | categories opts =>
    refine mem_listSegments ?_ ⟨⟨hl.1, hdigits _⟩, hl.2⟩ ⟨⟨hs.1, trivial⟩, hs.2⟩
      ⟨⟨hq.1, trivial⟩, hq.2⟩ ⟨⟨hafter.1, trivial⟩, hafter.2⟩ ⟨⟨hit.1, trivial⟩, hit.2⟩
    simp only [List.forall_mem_cons]
    exact ⟨⟨⟨hfn.1, trivial⟩, hfn.2⟩, fun _ h => nomatch h⟩

theorem segments_ne_nil (l : Listed V) : l.segments D ≠ [] := by
  cases l <;> exact List.cons_ne_nil _ _

variable {D}

/-- **Keys are told apart**, of any two requests. -/
theorem key_injective {l l' : Listed V} (h : l.Accepted) (h' : l'.Accepted) {u u' o o' : Uuid}
    (heq : l.key D u o = l'.key D u' o') : u = u' ∧ o = o' ∧ l.asked = l'.asked := by
  rw [key_eq, key_eq] at heq
  obtain ⟨hfeature, hu, ho, hflat⟩ := parts_key l.kind.feature_plain.1 l'.kind.feature_plain.1
    (fun s hs => (l.segments_wellFormed D s hs).1) (fun s hs => (l'.segments_wellFormed D s hs).1) heq
  exact ⟨hu, ho, asked_eq h h' (ListKind.feature_injective hfeature) hflat⟩

/-- The keys that the pattern of a write takes. -/
theorem pattern_matches_iff {l : Listed V} (h : l.Accepted) {u u' o o' : Uuid} (k : ListKind) :
    globMatch (k.pattern u' o') (l.key D u o) = true ↔ l.kind = k ∧
      (u' = u ∧ o' = o ∨ ∃ opts, l = .categories opts ∧
        (u' = u ∨ u' = o ∨ ∃ s ∈ opts.texts, trimText s = u'.text)) := by
  have hwell := l.segments_wellFormed D
  have hscoped : ∀ k : ListKind, k ≠ .categories →
      (globMatch (cursorPattern u' o' k.feature) (l.key D u o) = true ↔ l.kind = k ∧
        (u' = u ∧ o' = o ∨ ∃ opts, l = .categories opts ∧
          (u' = u ∨ u' = o ∨ ∃ s ∈ opts.texts, trimText s = u'.text))) := by
    intro k hk
    rw [key_eq, cursorPattern_matches_iff l.kind.feature_plain.1 k.feature_plain.1 k.feature_plain.2
      (fun s hs => (hwell s hs).1) (fun s hs => (hwell s hs).2) (l.segments_ne_nil D),
      ListKind.feature_injective.eq_iff]
    refine and_congr_right fun hkind => (or_iff_left ?_).symm
    rintro ⟨opts, rfl, _⟩
    exact hk hkind.symm
  cases k with
  | metrics => exact hscoped .metrics (by decide)
  | metricLogs => exact hscoped .metricLogs (by decide)
  | metricSettings => exact hscoped .metricSettings (by decide)
  | categories =>
    rw [key_eq, ListKind.pattern, categoryCursorPattern_matches_iff l.kind.feature_plain.1
      (fun s hs => (hwell s hs).1) (l.segments_ne_nil D)]
    have hfeature : l.kind.feature = METRIC_CATEGORY_CURSOR_FEATURE ↔ l.kind = .categories :=
      ListKind.feature_injective.eq_iff (b := ListKind.categories)
    rw [hfeature]
    refine and_congr_right fun hkind => ?_
    cases l with
    | categories opts =>
      rw [mem_segments_iff h.1]
      constructor
      · exact fun hm => .inr ⟨opts, rfl, hm⟩
      · rintro (⟨hu, _⟩ | ⟨_, heq, hm⟩)
        · exact .inl hu
        · cases heq
          exact hm
    | _ => cases hkind

end Listed

/-! ### Requests -/

section

variable {V : Type} [LinearOrder V] [Zero V] {D : Deps V}

/-- **Keys of list pages.**  Two requests that are accepted and have one key are of one user in one
organization, and ask the repository for the same; no segment has a separator or a character of
patterns.  The pattern of a write is of the keys of the user it names in the organization it names,
but for that of the categories, which names no organization. -/
theorem list_keys_iff {request request' : AnyQuery} {l l' : Listed V}
    (h : request.parse D = some l) (h' : request'.parse D = some l')
    (userId organizationId userId' organizationId' : Uuid) (k : ListKind) :
    ((l.key D userId organizationId = l'.key D userId' organizationId' →
        userId = userId' ∧ organizationId = organizationId' ∧ l.asked = l'.asked) ∧
      (∀ v ∈ SegmentValue.text userId.text :: .text organizationId.text ::
          (l.segments D).map Prod.snd,
        ∀ c ∈ normalizeSegmentValue v, c ≠ ':' ∧ isGlobCharacter c = false) ∧
      (globMatch (k.pattern userId' organizationId') (l.key D userId organizationId) = true →
        userId' = userId ∧ organizationId' = organizationId)) ↔
    (k = .categories → ∀ opts, l = .categories opts →
      (userId' = userId ∧ organizationId' = organizationId) ∨
        (userId' ≠ userId ∧ userId' ≠ organizationId ∧
          ∀ s ∈ opts.texts, trimText s ≠ userId'.text)) := by
  have haccepted := Listed.accepted_of_parse h
  have hmatch : globMatch (k.pattern userId' organizationId') (l.key D userId organizationId) =
      true ↔ _ := Listed.pattern_matches_iff haccepted k
  have hplain : ∀ v ∈ SegmentValue.text userId.text :: .text organizationId.text ::
      (l.segments D).map Prod.snd,
      ∀ c ∈ normalizeSegmentValue v, c ≠ ':' ∧ isGlobCharacter c = false := by
    intro v hv c hc
    have hproper : v.Proper := by
      simp only [List.mem_cons, List.mem_map] at hv
      rcases hv with rfl | rfl | ⟨s, hs, rfl⟩
      · trivial
      · trivial
      · exact (l.segments_wellFormed D s hs).1.2
    have hc := isPlain_of_mem_normalizeSegmentValue hproper c hc
    simpa only [isPlain, Bool.and_eq_true, decide_eq_true_eq, Bool.not_eq_true'] using hc
  constructor
  · rintro ⟨_, _, hpattern⟩ rfl opts rfl
    by_cases hin : userId' = userId ∧ organizationId' = organizationId
    · exact .inl hin
    · have hnone := mt hpattern hin
      rw [hmatch] at hnone
      refine .inr ⟨fun hu => hnone ⟨rfl, .inr ⟨opts, rfl, .inl hu⟩⟩,
        fun hu => hnone ⟨rfl, .inr ⟨opts, rfl, .inr (.inl hu)⟩⟩,
        fun s hs hu => hnone ⟨rfl, .inr ⟨opts, rfl, .inr (.inr ⟨s, hs, hu⟩)⟩⟩⟩
  · intro hcondition
    refine ⟨Listed.key_injective haccepted (Listed.accepted_of_parse h'), hplain, fun hpattern => ?_⟩
    obtain ⟨hkind, hin | ⟨opts, rfl, hother⟩⟩ := hmatch.mp hpattern
    · exact hin
    · rcases hcondition hkind.symm opts rfl with hin | ⟨hu, ho, htexts⟩
      · exact hin
      · rcases hother with hu' | ho' | ⟨s, hs, heq⟩
        · exact absurd hu' hu
        · exact absurd ho' ho
        · exact absurd heq (htexts s hs)

end

/-- The first page of the categories. -/
def firstCategories : AnyQuery :=
  .categories ⟨20, .createdAt, .DESC, none, none, false, ⟨none⟩, none⟩

/-- Twenty categories, from the newest. -/
def newestCategories : ListOpts CategoryFilter :=
  ⟨20, "-createdAt".toList, none, none, none, false⟩

/-- A category that is created in one organization drops the user's page of another. -/
theorem categories_pattern_other :
    firstCategories.parse utcDeps = some (.categories newestCategories) ∧
      globMatch (ListKind.categories.pattern 7 1)
        ((Listed.categories newestCategories).key utcDeps 7 2) = true ∧ (1 : Uuid) ≠ 2 := by
  have hparse : firstCategories.parse utcDeps = some (.categories newestCategories) := rfl
  have haccepted := Listed.accepted_of_parse hparse
  exact ⟨hparse, (Listed.pattern_matches_iff haccepted .categories).mpr
    ⟨rfl, .inr ⟨newestCategories, rfl, .inl rfl⟩⟩, by decide⟩

/-- Another user's page is left alone. -/
theorem list_keys_iff_first :
    ¬globMatch (ListKind.categories.pattern 7 1)
      ((Listed.categories newestCategories).key utcDeps 9 2) = true := by
  have hparse : firstCategories.parse utcDeps = some (.categories newestCategories) := rfl
  have htexts : ∀ s ∈ newestCategories.texts, trimText s ≠ (7 : Uuid).text := by
    intro s hs heq
    have hnil : s = [] := by simpa [newestCategories, ListOpts.texts] using hs
    have hlength := length_text 7
    rw [← heq, hnil] at hlength
    cases hlength
  intro hmatch
  have hkeys := (list_keys_iff hparse hparse 9 2 7 1 .categories).mpr fun _ opts hopts => by
    cases hopts
    exact .inr ⟨by decide, by decide, htexts⟩
  exact absurd (hkeys.2.2 hmatch).1 (by decide)

end LakiraBackend.Metrics
