import LakiraBackend.Metrics.Lists
import LakiraBackend.Paging.Marks
import Mathlib.Data.Prod.Lex

/-!
# Paging of logs and of settings is exact

The order of a list is that of a key (`exists_positions`), and a cursor that is sent back stands
for what is kept of the row it was made of (`windowWhere_encodeCursor`).  So following the cursors
goes from page to page (`Walk.pages`), and lists what the condition holds of where these meet
(`listByCursor_exact_iff`); where a cursor is read as what it was written of, they do
(`listByCursor_exact`).
-/

namespace LakiraBackend.Metrics

open LakiraBackend.JavaScript LakiraBackend.Postgres

/-- The row comes earlier. -/
def precedes {Row : Type} (C : Column Row) (id : Row → Uuid) (dir : Dir) (r s : Row) : Prop :=
  match dir with
  | .ASC => C.of r < C.of s ∨ C.of r = C.of s ∧ id r < id s
  | .DESC => C.of s < C.of r ∨ C.of s = C.of r ∧ id s < id r

/-- **Following the cursors of a list is exact**: it ends, and has the rows once each, in
order; and the totals are right. -/
structure ExactPaging {Row D F : Type} (list : Option (List Char) → Option (ListResult D F))
    (toDomain : Row → D) (rows : List Row) (before : Row → Row → Prop) : Prop where
  ends : ∃ pages, Walk list none pages
  exact : ∀ pages, Walk list none pages → ∃ sorted : List Row, sorted.Perm rows ∧
    sorted.Pairwise before ∧ enumerated pages = sorted.map toDomain ∧
    ∀ page ∈ pages, ∀ n, page.totalCount = some n → n = (enumerated pages).length

/-! ### Cursors -/

/-- What a column is read as from the cursors it is written to. -/
structure Column.Reads {Row : Type} (C : Column Row) (mark : Row → C.K) : Prop where
  scalar : ∀ r, ∀ p ∈ C.payload r, p.2.Scalar
  names : ∀ r, ∀ p ∈ C.payload r, p.1 ≠ "sort".toList ∧ p.1 ≠ "id".toList
  read : ∀ r sort i, C.read (.obj (("sort".toList, .str sort) :: ("id".toList, .str i) ::
    C.payload r)) = some (some (mark r))

/-- A column is read from the cursors it is written to. -/
abbrev Column.RoundTrips {Row : Type} (C : Column Row) : Prop := C.Reads C.of

variable {Row D F : Type} {C : Column Row} {id : Row → Uuid} {toDomain : Row → D} {dir : Dir}
  {sort : List Char} {base : Row → Bool} {mark : Row → C.K}

/-- A name that no later field has. -/
theorem get_of_names {name : String} {fields : List (List Char × Json)}
    (h : ∀ p ∈ fields, p.1 ≠ name.toList) (first : List (List Char × Json)) :
    (Json.obj (first ++ fields)).get name = (Json.obj first).get name := by
  have hnone : fields.reverse.lookup name.toList = none := by
    refine List.lookup_eq_none_iff.mpr fun p hp => bne_iff_ne.mpr fun heq => ?_
    exact h p (List.mem_reverse.mp hp) heq.symm
  rw [Json.get, Json.get, List.reverse_append, List.lookup_append, hnone, Option.none_or]

theorem decode_encodeCursor (hC : C.Reads mark) (r : Row) :
    Json.ofBase64url (encodeCursor C id sort r) = some (.obj (("sort".toList, .str sort) ::
      ("id".toList, .str (id r).text) :: C.payload r)) := by
  refine Json.ofBase64url_toBase64url (List.cons_ne_nil _ _) ?_
  exact List.forall_mem_cons.mpr ⟨trivial, List.forall_mem_cons.mpr ⟨trivial, hC.scalar r⟩⟩

/-- **A cursor that is sent back stands for its row's mark.** -/
theorem windowWhere_encodeCursor (hC : C.Reads mark) (r : Row) :
    windowWhere C id dir sort (some (encodeCursor C id sort r)) base =
      some fun s => base s && isBeyond C id dir (mark r) (id r) s := by
  generalize hcursor : Json.obj (("sort".toList, .str sort) :: ("id".toList, .str (id r).text) ::
    C.payload r) = cursor
  have hget : cursor.get "sort" = some (.str sort) ∧ cursor.get "id" = some (.str (id r).text) := by
    rw [← hcursor]
    constructor
    · exact get_of_names (fun p hp => (hC.names r p hp).1) [("sort".toList, .str sort),
        ("id".toList, .str (id r).text)]
    · exact get_of_names (fun p hp => (hC.names r p hp).2) [("sort".toList, .str sort),
        ("id".toList, .str (id r).text)]
  have hread : C.read cursor = some (some (mark r)) := hcursor ▸ hC.read r sort _
  have hid : (asSent "id" cursor).value uuidOf = some (some (id r)) := by
    simp only [asSent, hget.2, Bound.value, uuidOf, Uuid.ofText_text, Option.map_some]
  have hsame : sameSort sort cursor = true := by
    simp only [sameSort, hget.1, decide_true]
  rw [windowWhere, Option.bind_some, decode_encodeCursor hC, hcursor]
  simp only [hsame, if_true, buildCursorPredicate, hread, hid, Option.bind_some, Option.map_some,
    Option.any_some]

/-! ### Orders -/

/-- The order of a list as that of positions, which no two ids share. -/
structure Positions (C : Column Row) (id : Row → Uuid) (dir : Dir) (K : Type) [LinearOrder K] :
    Type where
  position : C.K → Uuid → K
  buildOrder_iff : ∀ r s, buildOrder C id dir r s ↔ position (C.of r) (id r) ≤ position (C.of s) (id s)
  isBeyond_iff : ∀ k i s, isBeyond C id dir k (some i) s = true ↔
    position k i < position (C.of s) (id s)
  precedes_iff : ∀ r s, precedes C id dir r s ↔ position (C.of r) (id r) < position (C.of s) (id s)
  id_eq : ∀ {k i k' i'}, position k i = position k' i' → i = i'

theorem exists_positions (C : Column Row) (id : Row → Uuid) (dir : Dir) :
    ∃ (K : Type) (_ : LinearOrder K), Nonempty (Positions C id dir K) := by
  let position : C.K → Uuid → C.K ×ₗ Uuid := fun k i => toLex (k, i)
  have hid : ∀ {k i k' i'}, position k i = position k' i' → i = i' :=
    fun h => congrArg (fun k => (ofLex k).2) h
  have hle : ∀ r s, position (C.of r) (id r) ≤ position (C.of s) (id s) ↔
      C.of r < C.of s ∨ C.of r = C.of s ∧ id r ≤ id s := by
    intro r s
    rw [Prod.Lex.toLex_le_toLex]
  have hlt : ∀ k i k' i', position k i < position k' i' ↔ k < k' ∨ k = k' ∧ i < i' := by
    intro k i k' i'
    rw [Prod.Lex.toLex_lt_toLex]
  cases dir with
  | ASC =>
    refine ⟨_, inferInstance, ⟨⟨position, fun r s => (hle r s).symm, fun k i s => ?_,
      fun r s => (hlt _ _ _ _).symm, hid⟩⟩⟩
    rw [hlt, isBeyond, Bool.or_eq_true, Bool.and_eq_true, Option.any_some, decide_eq_true_eq,
      decide_eq_true_eq, decide_eq_true_eq, eq_comm (a := C.of s)]
  | DESC =>
    refine ⟨(C.K ×ₗ Uuid)ᵒᵈ, inferInstance, ⟨⟨fun k i => OrderDual.toDual (position k i),
      fun r s => (hle s r).symm, fun k i s => ?_, fun r s => (hlt _ _ _ _).symm, hid⟩⟩⟩
    rw [OrderDual.toDual_lt_toDual, hlt, isBeyond, Bool.or_eq_true, Bool.and_eq_true,
      Option.any_some, decide_eq_true_eq, decide_eq_true_eq, decide_eq_true_eq]

/-! ### Pages -/

section

variable {K : Type} [LinearOrder K] {rows : List Row} {opts : ListOpts F}

/-- Where a row is. -/
def Positions.key (P : Positions C id dir K) (r : Row) : K := P.position (C.of r) (id r)

/-- Where its cursor says it is. -/
def Positions.marked (P : Positions C id dir K) (mark : Row → C.K) (r : Row) : K :=
  P.position (mark r) (id r)

theorem Positions.insertionSort_eq (P : Positions C id dir K) (l : List Row) :
    l.insertionSort (buildOrder C id dir) = Paging.found P.key l none := by
  have h := List.map_insertionSort (buildOrder C id dir) (fun r s => P.key r ≤ P.key s)
    (fun r => r) l fun r _ s _ => P.buildOrder_iff r s
  rw [List.map_id', List.map_id'] at h
  rw [h, Paging.found, List.filter_eq_self.mpr (show ∀ r ∈ l, Paging.follows none (P.key r) from
    fun _ _ => rfl)]

theorem Positions.nodup_keys (P : Positions C id dir K) (base : Row → Bool)
    (hids : (rows.map id).Nodup) : ((rows.filter base).map P.key).Nodup := by
  have hnodup : ((rows.filter base).map id).Nodup := hids.sublist (List.filter_sublist.map id)
  exact List.pairwise_map.mpr ((List.pairwise_map.mp hnodup).imp fun hne heq => hne (P.id_eq heq))

theorem found_eq (P : Positions C id dir K) (hC : C.Reads mark) (sort : List Char)
    (rows : List Row) (base : Row → Bool) (pos : Option Row) :
    ∃ where', windowWhere C id dir sort (pos.map (encodeCursor C id sort)) base = some where' ∧
      (rows.filter where').insertionSort (buildOrder C id dir) =
        Paging.found P.key (rows.filter base) (pos.map (P.marked mark)) := by
  cases pos with
  | none => exact ⟨base, rfl, P.insertionSort_eq _⟩
  | some p =>
    refine ⟨_, windowWhere_encodeCursor hC p, ?_⟩
    rw [P.insertionSort_eq, Paging.found, Paging.found, List.filter_filter, List.filter_filter]
    congr 2
    funext r
    rw [Option.map_some, Paging.follows, Paging.follows, Bool.true_and, Bool.and_comm]
    congr 1
    exact Bool.eq_iff_iff.mpr ((P.isBeyond_iff _ _ r).trans decide_eq_true_iff.symm)

theorem clampLimit_pos (limit : Nat) : 0 < clampLimit limit := by
  unfold clampLimit
  omega

/-- **A page of a list.** -/
theorem listByCursor_eq (P : Positions C id dir K) (hC : C.Reads mark) (toDomain : Row → D)
    (rows : List Row) (base : Row → Bool) (pos : Option Row) :
    ∃ page : ListResult D F, listByCursor C id toDomain dir
        { opts with after := pos.map (encodeCursor C id opts.sort) } rows base = some page ∧
      let found := Paging.found P.key (rows.filter base) (pos.map (P.marked mark))
      let slice := found.take (clampLimit opts.limit)
      page.items = slice.map toDomain ∧
        page.nextCursor = (if clampLimit opts.limit < found.length then
          slice.getLast?.map (encodeCursor C id opts.sort) else none) ∧
        ∀ n, page.totalCount = some n → n = rows.countP base := by
  obtain ⟨where', hwhere, hfound⟩ := found_eq P hC opts.sort rows base pos
  unfold listByCursor
  simp only [hwhere, Option.map_some, hfound]
  generalize Paging.found P.key (rows.filter base) (pos.map (P.marked mark)) = found
  have hmore : clampLimit opts.limit < (found.take (clampLimit opts.limit + 1)).length ↔
      clampLimit opts.limit < found.length := by
    rw [List.length_take]
    omega
  have htotal : ∀ n, (if opts.includeTotal then some (rows.countP base) else none) = some n →
      n = rows.countP base := by
    intro n h
    split at h
    · exact (Option.some.inj h).symm
    · cases h
  refine ⟨_, rfl, ?_, ?_, htotal⟩
  · simp only [hmore, List.take_take, Nat.min_eq_left (Nat.le_succ _)]
    split
    · rfl
    · rename_i hlast
      rw [List.take_of_length_le (Nat.le_succ_of_le (Nat.not_lt.mp hlast)),
        List.take_of_length_le (Nat.not_lt.mp hlast)]
  · simp only [hmore, List.take_take, Nat.min_eq_left (Nat.le_succ _)]
    split
    · rfl
    · rfl

/-- Following the cursors of a list gives its pages, -/
theorem Walk.pages (P : Positions C id dir K) (hC : C.Reads mark) {after : Option (List Char)}
    {pages : List (ListResult D F)}
    (h : Walk (fun after => listByCursor C id toDomain dir { opts with after := after } rows base)
      after pages) : ∀ pos : Option Row, after = pos.map (encodeCursor C id opts.sort) →
    ∃ out, Paging.Pages P.key (P.marked mark) (rows.filter base) (clampLimit opts.limit)
        (pos.map (P.marked mark)) out ∧ enumerated pages = out.map toDomain ∧
      ∀ page ∈ pages, ∀ n, page.totalCount = some n → n = rows.countP base := by
  induction h with
  | @last after page hlist hlast =>
    rintro pos rfl
    obtain ⟨page', hpage, hitems, hcursor, htotal⟩ := listByCursor_eq P hC toDomain rows base pos
    obtain rfl : page' = page := Option.some.inj (hpage.symm.trans hlist)
    rw [hlast] at hcursor
    generalize hfound : Paging.found P.key (rows.filter base) (pos.map (P.marked mark)) = found
      at hitems hcursor
    have hle : found.length ≤ clampLimit opts.limit := by
      by_contra hmore
      rw [if_pos (Nat.lt_of_not_le hmore)] at hcursor
      obtain ⟨init, r, s, rest, htake, -⟩ := Paging.exists_boundary (clampLimit_pos _)
        (Nat.lt_of_not_le hmore)
      rw [htake, List.getLast?_concat] at hcursor
      cases hcursor
    rw [List.take_of_length_le hle] at hitems
    refine ⟨_, .last (hfound ▸ hle), ?_, List.forall_mem_singleton.mpr htotal⟩
    rw [enumerated, List.flatMap_singleton, hitems, hfound]
  | @more after page cursor pages hlist hmore _ ih =>
    rintro pos rfl
    obtain ⟨page', hpage, hitems, hcursor, htotal⟩ := listByCursor_eq P hC toDomain rows base pos
    obtain rfl : page' = page := Option.some.inj (hpage.symm.trans hlist)
    rw [hmore] at hcursor
    split at hcursor
    · rename_i hlt
      obtain ⟨last, hlast, rfl⟩ := Option.map_eq_some_iff.mp hcursor.symm
      obtain ⟨out, hpages, henum, htotals⟩ := ih (some last) rfl
      refine ⟨_, .more hlt hlast hpages, ?_, List.forall_mem_cons.mpr ⟨htotal, htotals⟩⟩
      rw [enumerated, List.flatMap_cons, ← enumerated, henum, hitems, List.map_append]
    · cases hcursor

/-- and its pages are what following the cursors gives. -/
theorem exists_walk (P : Positions C id dir K) (hC : C.Reads mark) {after : Option K}
    {out : List Row} (h : Paging.Pages P.key (P.marked mark) (rows.filter base)
      (clampLimit opts.limit) after out) :
    ∀ pos : Option Row, after = pos.map (P.marked mark) → ∃ pages : List (ListResult D F), Walk
      (fun after => listByCursor C id toDomain dir { opts with after := after } rows base)
      (pos.map (encodeCursor C id opts.sort)) pages := by
  induction h with
  | last hle =>
    rintro pos rfl
    obtain ⟨page, hpage, -, hcursor, -⟩ := listByCursor_eq P hC toDomain rows base pos
    exact ⟨_, .last hpage (hcursor.trans (if_neg (Nat.not_lt.mpr hle)))⟩
  | more hlt hlast _ ih =>
    rintro pos rfl
    obtain ⟨page, hpage, -, hcursor, -⟩ := listByCursor_eq P hC toDomain rows base pos
    obtain ⟨pages, hpages⟩ := ih (some _) rfl
    refine ⟨_, .more hpage (hcursor.trans ?_) hpages⟩
    rw [if_pos hlt, hlast]
    rfl

end

/-! ### Exactness -/

/-- Where a page ends and rows are left, what is beyond its cursor begins with the next row. -/
def PagesMeet (C : Column Row) (id : Row → Uuid) (mark : Row → C.K) (dir : Dir) (limit : Nat)
    (rows : List Row) : Prop :=
  ∀ before r s rest, rows.insertionSort (buildOrder C id dir) = before ++ r :: s :: rest →
    limit ∣ before.length + 1 →
    isBeyond C id dir (mark r) (id r) r = false ∧ isBeyond C id dir (mark r) (id r) s = true

theorem Positions.pagesMeet_iff {K : Type} [LinearOrder K] (P : Positions C id dir K)
    (limit : Nat) (rows : List Row) : PagesMeet C id mark dir limit rows ↔
      Paging.Separates P.key (P.marked mark) limit (Paging.found P.key rows none) := by
  rw [PagesMeet, Paging.Separates, P.insertionSort_eq]
  refine forall_congr' fun before => forall_congr' fun r => forall_congr' fun s =>
    forall_congr' fun rest => imp_congr_right fun _ => imp_congr_right fun _ => and_congr ?_ ?_
  · rw [Bool.eq_false_iff, Ne, P.isBeyond_iff, not_lt]
    rfl
  · exact P.isBeyond_iff _ _ s

theorem eq_of_map_eq {α β : Type} {f : α → β} {l l' : List α}
    (hinj : ∀ a ∈ l, ∀ b ∈ l', f a = f b → a = b) (h : l.map f = l'.map f) : l = l' := by
  induction l generalizing l' with
  | nil => exact (List.map_eq_nil_iff.mp h.symm).symm
  | cons a l ih =>
    cases l' with
    | nil => cases h
    | cons b l' =>
      obtain ⟨hhead, htail⟩ := List.cons.inj h
      rw [hinj a List.mem_cons_self b List.mem_cons_self hhead, ih (fun x hx y hy =>
        hinj x (List.mem_cons_of_mem _ hx) y (List.mem_cons_of_mem _ hy)) htail]

/-- **Following the cursors of a list is exact just where its pages meet.** -/
theorem listByCursor_exact_iff {rows : List Row} (opts : ListOpts F) (hC : C.Reads mark)
    (hids : (rows.map id).Nodup) (domainId : D → Uuid) (hdomain : ∀ r, domainId (toDomain r) = id r) :
    ExactPaging
        (fun after => listByCursor C id toDomain dir { opts with after := after } rows base)
        toDomain (rows.filter base) (precedes C id dir) ↔
      PagesMeet C id mark dir (clampLimit opts.limit) (rows.filter base) := by
  obtain ⟨K, _, ⟨P⟩⟩ := exists_positions C id dir
  have hkeys := P.nodup_keys base hids
  rw [P.pagesMeet_iff, ← Paging.pages_iff hkeys (clampLimit_pos _)]
  constructor
  · rintro ⟨⟨pages, hwalk⟩, hexact⟩
    obtain ⟨sorted, hperm, hordered, henum, -⟩ := hexact pages hwalk
    obtain ⟨out, hpages, henum', -⟩ := hwalk.pages P hC none rfl
    have hsorted : sorted = Paging.found P.key (rows.filter base) none :=
      Paging.eq_found (hordered.imp fun h => (P.precedes_iff _ _).mp h) hperm
    have hids' : sorted.map id = out.map id := by
      have heq := congrArg (List.map domainId) (henum.symm.trans henum')
      rw [List.map_map, List.map_map] at heq
      rwa [show domainId ∘ toDomain = id from funext hdomain] at heq
    have hout : sorted = out := by
      refine eq_of_map_eq (fun r hr s hs h => ?_) hids'
      have hr' := List.mem_of_mem_filter (hperm.mem_iff.mp hr)
      exact List.inj_on_of_nodup_map hids hr' (List.mem_of_mem_filter (hpages.mem hs)) h
    rw [← hsorted, hout]
    exact hpages
  · intro hpages
    refine ⟨exists_walk P hC hpages none rfl, fun pages hwalk => ?_⟩
    obtain ⟨out, hpages', henum, htotals⟩ := hwalk.pages P hC none rfl
    obtain rfl := hpages.unique hpages'
    have hperm : (Paging.found P.key (rows.filter base) none).Perm (rows.filter base) := by
      refine Paging.found_perm.trans (.of_eq ?_)
      exact List.filter_eq_self.mpr fun _ _ => rfl
    have hordered := Paging.pairwise_found none hkeys
    refine ⟨_, hperm, hordered.imp fun h => (P.precedes_iff _ _).mpr h, henum,
      fun page hpage n hn => ?_⟩
    rw [htotals page hpage n hn, henum, List.length_map, hperm.length_eq,
      List.countP_eq_length_filter]

/-- Where a cursor is read as what it was written of, the pages meet. -/
theorem pagesMeet_of_roundTrips {rows : List Row} (base : Row → Bool) (limit : Nat)
    (hids : (rows.map id).Nodup) : PagesMeet C id C.of dir limit (rows.filter base) := by
  obtain ⟨K, _, ⟨P⟩⟩ := exists_positions C id dir
  exact (P.pagesMeet_iff _ _).mpr (Paging.separates_key (P.nodup_keys base hids))

/-- **Following the cursors of a list is exact**, where they are read as what they are written of. -/
theorem listByCursor_exact {rows : List Row} (opts : ListOpts F) (hC : C.RoundTrips)
    (hids : (rows.map id).Nodup) (domainId : D → Uuid) (hdomain : ∀ r, domainId (toDomain r) = id r) :
    ExactPaging
      (fun after => listByCursor C id toDomain dir { opts with after := after } rows base)
      toDomain (rows.filter base) (precedes C id dir) :=
  (listByCursor_exact_iff opts hC hids domainId hdomain).mpr
    (pagesMeet_of_roundTrips base (clampLimit opts.limit) hids)

/-- **What a list has is what its condition holds of**: a list that is exact for one condition
is for another where they agree on the rows. -/
theorem ExactPaging.filter_iff {list : Option (List Char) → Option (ListResult D F)}
    {rows : List Row} {before : Row → Row → Prop} {p p' : Row → Bool}
    (h : ExactPaging list toDomain (rows.filter p) before) (hids : (rows.map id).Nodup)
    (domainId : D → Uuid) (hdomain : ∀ r, domainId (toDomain r) = id r) :
    ExactPaging list toDomain (rows.filter p') before ↔ ∀ r ∈ rows, p r = p' r := by
  constructor
  · intro h'
    obtain ⟨pages, hwalk⟩ := h.ends
    obtain ⟨sorted, hperm, -, henum, -⟩ := h.exact pages hwalk
    obtain ⟨sorted', hperm', -, henum', -⟩ := h'.exact pages hwalk
    have hsame : ∀ {l : List Row}, l.map id = (l.map toDomain).map domainId := by
      intro l
      rw [List.map_map, show domainId ∘ toDomain = id from funext hdomain]
    have hmem : ∀ r ∈ rows, ∀ {l : List Row} {q : Row → Bool}, l.Perm (rows.filter q) →
        (id r ∈ l.map id ↔ q r = true) := by
      intro r hr l q hl
      rw [List.mem_map]
      constructor
      · rintro ⟨s, hs, hid⟩
        obtain ⟨hs, hq⟩ := List.mem_filter.mp (hl.mem_iff.mp hs)
        rwa [← List.inj_on_of_nodup_map hids hs hr hid]
      · exact fun hq => ⟨r, hl.mem_iff.mpr (List.mem_filter.mpr ⟨hr, hq⟩), rfl⟩
    intro r hr
    rw [Bool.eq_iff_iff, ← hmem r hr hperm, ← hmem r hr hperm', hsame, hsame, ← henum, ← henum']
  · intro hsame
    rwa [← List.filter_congr hsame]

/-! ### Logs and settings -/

/-- The texts of the sorts: the name of a field, with a sign where it descends. -/
def sortText (dir : Dir) (field : List Char) : List Char :=
  match dir with
  | .ASC => field
  | .DESC => '-' :: field

theorem normalizeLogSort_text (field : LogSortField) (dir : Dir) :
    normalizeLogSort (sortText dir field.text) = (field, dir) := by
  cases field <;> cases dir <;> decide

theorem normalizeSettingsSort_text (field : SettingsSortField) (dir : Dir) :
    normalizeSettingsSort (sortText dir field.text) = (field, dir) := by
  cases field <;> cases dir <;> decide

/-- A column of one field. -/
theorem reads_of_field {C : Column Row} {mark : Row → C.K} {name : String} {v : Row → Json}
    (hpayload : ∀ r, C.payload r = [(name.toList, v r)])
    (hname : name.toList ≠ "sort".toList ∧ name.toList ≠ "id".toList) (hv : ∀ r, (v r).Scalar)
    (hread : ∀ r (c : Json), c.get name = some (v r) → C.read c = some (some (mark r))) :
    C.Reads mark where
  scalar r := by
    rw [hpayload]
    exact List.forall_mem_singleton.mpr (hv r)
  names r := by
    rw [hpayload]
    exact List.forall_mem_singleton.mpr hname
  read r sort i := by
    refine hread r _ ?_
    rw [hpayload, Json.get]
    exact List.lookup_cons_self

theorem dateColumn_roundTrips {last : Json → Option Bound} {E : Engine} {name : String}
    {of : Row → Date} (hlast : last = sentDate E name)
    (hname : name.toList ≠ "sort".toList ∧ name.toList ≠ "id".toList) :
    (dateColumn last name of).RoundTrips :=
  reads_of_field (fun _ => rfl) hname (fun _ => trivial) <| by
    intro r c h
    simp only [Column.read, dateColumn, hlast, sentDate, h, Json.toDate, Date.parse_toISOString,
      Option.map_some, Option.bind_some, Bound.time]

variable {V : Type} (E : Engine)

theorem logColumn_roundTrips [LinearOrder V] (N : Numbers V) (field : LogSortField) :
    (logColumn N E field).RoundTrips := by
  cases field with
  | logValue =>
    refine reads_of_field (fun _ => rfl) (by decide) (fun r => N.literal_isNumber _) ?_
    intro r c h
    simp only [Column.read, logColumn, logValueColumn, lastLog, asSent, h, Option.bind_some,
      Bound.value, N.ofLiteral_literal, Option.map_some]
  | createdAt => exact dateColumn_roundTrips (E := E) rfl (by decide)
  | updatedAt => exact dateColumn_roundTrips (E := E) rfl (by decide)
  | loggedAt => exact dateColumn_roundTrips (E := E) rfl (by decide)

theorem settingsColumn_roundTrips (field : SettingsSortField) :
    (settingsColumn (V := V) E field).RoundTrips := by
  cases field with
  | isActive =>
    refine reads_of_field (fun _ => rfl) (by decide) (fun r => trivial) ?_
    intro r c h
    simp only [Column.read, settingsColumn, isActiveColumn, lastSettings, asSent, h,
      Option.bind_some, Bound.value, Option.map_some]
  | createdAt => exact dateColumn_roundTrips (E := E) rfl (by decide)
  | updatedAt => exact dateColumn_roundTrips (E := E) rfl (by decide)

/-- **Paging of logs and of settings is exact**, whatever the sort, the page size, the filter
and the search. -/
theorem lists_exact [LinearOrder V] [Zero V] (N : Numbers V) (trim : String → String) (db : Db V)
    (userId organizationId : Uuid) (limit : Nat) (dir : Dir) (q : Option String) (includeTotal : Bool) :
    (∀ (field : LogSortField) (filter : Option (LogFilter V)),
      let opts := fun after => ⟨limit, sortText dir field.text, q, filter, after, includeTotal⟩
      ExactPaging (fun after => listLogs N E trim db userId organizationId (opts after))
        toLogDomain
        (db.logs.rows.filter (logWhere N trim db userId organizationId (opts none)))
        (precedes (logColumn N E field) MetricLog.id dir)) ∧
    ∀ (field : SettingsSortField) (filter : Option SettingsFilter),
      let opts := fun after => ⟨limit, sortText dir field.text, q, filter, after, includeTotal⟩
      ExactPaging (fun after => listSettings E db userId organizationId (opts after))
        toEntity
        (db.settings.rows.filter (settingsWhere db userId organizationId (opts none)))
        (precedes (settingsColumn E field) MetricSettings.id dir) := by
  constructor
  · intro field filter opts
    have hlist : ∀ after, listLogs N E trim db userId organizationId (opts after) =
        listByCursor (logColumn N E field) MetricLog.id toLogDomain dir (opts after)
          db.logs.rows (logWhere N trim db userId organizationId (opts none)) := by
      intro after
      rw [listLogs, normalizeLogSort_text]
      rfl
    simp only [hlist]
    exact listByCursor_exact (opts none) (logColumn_roundTrips E N field) db.logs.nodup
      MetricLogDomain.id fun _ => rfl
  · intro field filter opts
    have hlist : ∀ after, listSettings E db userId organizationId (opts after) =
        listByCursor (settingsColumn E field) MetricSettings.id toEntity dir (opts after)
          db.settings.rows (settingsWhere db userId organizationId (opts none)) := by
      intro after
      rw [listSettings, normalizeSettingsSort_text]
      rfl
    simp only [hlist]
    exact listByCursor_exact (opts none) (settingsColumn_roundTrips E field) db.settings.nodup
      MetricSettingsEntity.id fun _ => rfl

/-- Numbers of one digit. -/
def digits : Numbers (Fin 10) where
  literal v := [Nat.digitChar v]
  ofLiteral l := match l with
    | [c] => (digitValue 10 c).bind fun d => if h : d < 10 then some ⟨d, h⟩ else none
    | _ => none
  ofText _ := none
  literal_isNumber v := by
    refine ⟨?_, List.forall_mem_singleton.mpr ?_⟩
    · revert v
      decide
    · revert v
      decide
  ofLiteral_literal := by decide

/-- Three runs of one day, two of the same length. -/
def threeRuns : Db (Fin 10) :=
  let day : Date := ⟨0, Date.inRange_zero⟩
  let run (id : Uuid) (logValue : Fin 10) : MetricLog (Fin 10) :=
    ⟨id, 1, 2, logValue, .manual, day, day, day⟩
  { metrics := Table.empty.insert ⟨1, 3, 2, none, none, "Runs", none, "km", false, day, day, none⟩
    categories := Table.empty
    settings := Table.empty
    logs := ((Table.empty.insert (run 4 5)).insert (run 5 7)).insert (run 6 5) }

theorem lists_exact_threeRuns :
    let opts := fun after => ⟨1, sortText .DESC LogSortField.logValue.text, none, none, after, true⟩
    (threeRuns.logs.rows.filter (logWhere digits (fun s => s) threeRuns 3 2 (opts none))).length = 3 ∧
      ExactPaging (fun after => listLogs digits .epoch (fun s => s) threeRuns 3 2 (opts after))
        toLogDomain
        (threeRuns.logs.rows.filter (logWhere digits (fun s => s) threeRuns 3 2 (opts none)))
        (precedes (logColumn digits .epoch .logValue) MetricLog.id .DESC) :=
  ⟨by decide +kernel,
    (lists_exact .epoch digits (fun s => s) threeRuns 3 2 1 .DESC none true).1 .logValue none⟩

end LakiraBackend.Metrics
