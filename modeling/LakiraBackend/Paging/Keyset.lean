import Mathlib.Data.List.Sort
import Mathlib.Order.Basic

/-!
# Keyset paging

A page is the first rows whose keys come after a position, in order of their keys; one
row past the limit is read to learn whether another page follows, and the next position
is the key of the last row of the page.

A `Walk` reads page after page, each from the table as it is by then, whatever its
limit, and stops anywhere or at the last page.  Where no two rows of a table share a key,
the rows come in order (`Walk.pairwise`), and a key that is in every table read comes once
when the last page is reached (`Walk.count_eq`).
-/

namespace LakiraBackend.Paging

variable {Row K : Type} [LinearOrder K] (key : Row → K)

structure Page (Row K : Type) : Type where
  items : List Row
  next : Option K

/-- The key comes after the position; every key does after none. -/
def follows (after : Option K) (k : K) : Bool :=
  match after with
  | none => true
  | some a => a < k

/-- The rows after a position, in order. -/
def found (rows : List Row) (after : Option K) : List Row :=
  (rows.filter fun r => follows after (key r)).insertionSort fun r r' => key r ≤ key r'

/-- The first rows after a position. -/
def page (rows : List Row) (after : Option K) (limit : Nat) : Page Row K :=
  let read := (found key rows after).take (limit + 1)
  let items := read.take limit
  ⟨items, if limit < read.length then items.getLast?.map key else none⟩

/-- Read page after page; what each page is read from, and its limit, are given.  Last
comes where the next page would start, or none after the last one. -/
inductive Walk : Option K → List (List Row × Nat) → List Row → Option (Option K) → Prop
  | stop {after : Option K} : Walk after [] [] (some after)
  | last {after : Option K} {rows : List Row} {limit : Nat} :
      (page key rows after limit).next = none →
      Walk after [(rows, limit)] (page key rows after limit).items none
  | more {after : Option K} {rows : List Row} {limit : Nat} {k : K} {reads : List (List Row × Nat)}
      {out : List Row} {rest : Option (Option K)} : (page key rows after limit).next = some k →
      Walk (some k) reads out rest →
      Walk after ((rows, limit) :: reads) ((page key rows after limit).items ++ out) rest

variable {key} {rows : List Row} {after : Option K} {limit : Nat} {k : K}

/-! ### One page -/

theorem mem_found {r : Row} : r ∈ found key rows after ↔ r ∈ rows ∧ follows after (key r) = true := by
  rw [found, List.mem_insertionSort, List.mem_filter]

theorem found_perm : (found key rows after).Perm (rows.filter fun r => follows after (key r)) :=
  List.perm_insertionSort _ _

/-- What is found is in order, each key once. -/
theorem pairwise_found (after : Option K) (hkeys : (rows.map key).Nodup) :
    (found key rows after).Pairwise fun r r' => key r < key r' := by
  have hle : (found key rows after).Pairwise fun r r' => key r ≤ key r' :=
    List.pairwise_insertionSort _ _
  have hne : (found key rows after).Pairwise fun r r' => key r ≠ key r' := by
    have hfilter : ((rows.filter fun r => follows after (key r)).map key).Nodup :=
      hkeys.sublist (List.filter_sublist.map key)
    exact List.pairwise_map.mp ((found_perm.map key).nodup_iff.mpr hfilter)
  exact (hle.and hne).imp fun ⟨h, h'⟩ => lt_of_le_of_ne h h'

/-- Rows that are in order are what is found of them. -/
theorem eq_found {l : List Row} (hordered : l.Pairwise fun r r' => key r < key r')
    (hperm : l.Perm rows) : l = found key rows none := by
  have hfound : (found key rows none).Perm l :=
    found_perm.trans ((List.Perm.of_eq (List.filter_eq_self.mpr fun _ _ => rfl)).trans hperm.symm)
  have hkeys : (rows.map key).Nodup :=
    (hperm.map key).nodup_iff.mp (List.pairwise_map.mpr (hordered.imp ne_of_lt))
  refine List.Perm.eq_of_pairwise (fun a b _ _ h h' => absurd h' (lt_asymm h)) hordered
    (pairwise_found none hkeys) hfound.symm

theorem items_eq : (page key rows after limit).items = (found key rows after).take limit := by
  simp only [page, List.take_take, Nat.min_eq_left (Nat.le_succ limit)]

theorem items_subset {r : Row} (h : r ∈ (page key rows after limit).items) :
    r ∈ found key rows after := by
  rw [items_eq] at h
  exact List.mem_of_mem_take h

/-- The last page has all that is left. -/
theorem items_of_last (h : (page key rows after limit).next = none) (hlimit : 0 < limit) :
    (page key rows after limit).items = found key rows after := by
  rw [items_eq]
  refine List.take_of_length_le (Nat.not_lt.mp fun hlt => ?_)
  have hread : limit < ((found key rows after).take (limit + 1)).length := by
    rw [List.length_take]
    omega
  rw [page, if_pos hread, Option.map_eq_none_iff, List.getLast?_eq_none_iff, List.take_take,
    Nat.min_eq_left (Nat.le_succ limit)] at h
  have := congrArg List.length h
  rw [List.length_take, List.length_nil] at this
  omega

/-- A page with a next ends in its position. -/
theorem items_of_more (h : (page key rows after limit).next = some k) :
    ∃ init r, (page key rows after limit).items = init ++ [r] ∧ key r = k := by
  rw [page] at h
  split at h
  · obtain ⟨r, hr, rfl⟩ := Option.map_eq_some_iff.mp h
    obtain ⟨init, hinit⟩ := List.getLast?_eq_some_iff.mp hr
    exact ⟨init, r, hinit, rfl⟩
  · cases h

/-- **A page with a next has the rows up to its position.** -/
theorem mem_items_iff (hkeys : (rows.map key).Nodup)
    (h : (page key rows after limit).next = some k) {r : Row} :
    r ∈ (page key rows after limit).items ↔ r ∈ found key rows after ∧ key r ≤ k := by
  obtain ⟨init, last, hitems, rfl⟩ := items_of_more h
  have hsplit : found key rows after = init ++ [last] ++ (found key rows after).drop limit := by
    rw [← hitems, items_eq, List.take_append_drop]
  have hpair := pairwise_found after hkeys
  rw [hsplit, List.pairwise_append, List.pairwise_append] at hpair
  obtain ⟨⟨_, _, hinit⟩, _, hrest⟩ := hpair
  rw [hitems, hsplit]
  constructor
  · intro hr
    refine ⟨List.mem_append_left _ hr, ?_⟩
    rcases List.mem_append.mp hr with hr | hr
    · exact le_of_lt (hinit r hr last List.mem_cons_self)
    · rw [List.mem_singleton.mp hr]
  · rintro ⟨hr, hle⟩
    rcases List.mem_append.mp hr with hr | hr
    · exact hr
    · exact absurd hle (not_le_of_gt (hrest last (List.mem_append_right _ List.mem_cons_self) r hr))

/-- Pages of rows that were made of others are pages of those. -/
theorem page_map {Row' : Type} (f : Row' → Row) (rows : List Row') :
    page key (rows.map f) after limit =
      ⟨(page (key ∘ f) rows after limit).items.map f, (page (key ∘ f) rows after limit).next⟩ := by
  have hfound : found key (rows.map f) after = (found (key ∘ f) rows after).map f := by
    rw [found, found, List.filter_map]
    exact (List.map_insertionSort _ _ f _ fun _ _ _ _ => Iff.rfl).symm
  simp only [page, hfound, ← List.map_take, List.length_map, List.getLast?_map, Option.map_map]

theorem follows_of_le {k' : K} (h : follows after k = true) (hle : k ≤ k') :
    follows after k' = true := by
  cases after with
  | none => rfl
  | some a => exact decide_eq_true (lt_of_lt_of_le (of_decide_eq_true h) hle)

/-! ### Walks -/

variable {reads : List (List Row × Nat)} {out : List Row} {rest : Option (Option K)}

theorem Walk.sound (h : Walk key after reads out rest) {r : Row} (hr : r ∈ out) :
    (∃ p ∈ reads, r ∈ p.1) ∧ follows after (key r) = true := by
  induction h with
  | stop => cases hr
  | last _ =>
    obtain ⟨hmem, hf⟩ := mem_found.mp (items_subset hr)
    exact ⟨⟨_, List.mem_cons_self, hmem⟩, hf⟩
  | more hnext _ ih =>
    rcases List.mem_append.mp hr with hr | hr
    · obtain ⟨hmem, hf⟩ := mem_found.mp (items_subset hr)
      exact ⟨⟨_, List.mem_cons_self, hmem⟩, hf⟩
    · obtain ⟨⟨p, hp, hmem⟩, hf⟩ := ih hr
      obtain ⟨init, last, hitems, rfl⟩ := items_of_more hnext
      have hlast := items_subset (hitems ▸ List.mem_append_right init List.mem_cons_self)
      exact ⟨⟨p, List.mem_cons_of_mem _ hp, hmem⟩,
        follows_of_le (mem_found.mp hlast).2 (le_of_lt (of_decide_eq_true hf))⟩

/-- **A walk is in order**, and no key comes twice. -/
theorem Walk.pairwise (h : Walk key after reads out rest)
    (hkeys : ∀ p ∈ reads, (p.1.map key).Nodup) : (out.map key).Pairwise (· < ·) := by
  induction h with
  | stop => exact List.Pairwise.nil
  | @last after rows limit _ =>
    have hpair := pairwise_found after (hkeys _ List.mem_cons_self)
    rw [List.pairwise_map, items_eq]
    exact hpair.sublist (List.take_sublist _ _)
  | @more after rows limit k reads out rest hnext hrest ih =>
    have hpair := pairwise_found after (hkeys _ List.mem_cons_self)
    rw [List.map_append, List.pairwise_append]
    refine ⟨?_, ih fun p hp => hkeys p (List.mem_cons_of_mem _ hp), ?_⟩
    · rw [List.pairwise_map, items_eq]
      exact hpair.sublist (List.take_sublist _ _)
    · intro a ha b hb
      obtain ⟨r, hr, rfl⟩ := List.mem_map.mp ha
      obtain ⟨r', hr', rfl⟩ := List.mem_map.mp hb
      have hle := ((mem_items_iff (hkeys _ List.mem_cons_self) hnext).mp hr).2
      exact lt_of_le_of_lt hle (of_decide_eq_true (hrest.sound hr').2)

/-- A key that is in every table read is found. -/
theorem Walk.complete (h : Walk key after reads out none) (hkeys : ∀ p ∈ reads, (p.1.map key).Nodup)
    (hlimit : ∀ p ∈ reads, 0 < p.2) {k₀ : K} (hk : ∀ p ∈ reads, ∃ r ∈ p.1, key r = k₀)
    (hafter : follows after k₀ = true) : ∃ r ∈ out, key r = k₀ := by
  generalize hrest : (none : Option (Option K)) = rest at h
  induction h with
  | stop => cases hrest
  | last hnext =>
    obtain ⟨r, hr, rfl⟩ := hk _ List.mem_cons_self
    rw [items_of_last hnext (hlimit _ List.mem_cons_self)]
    exact ⟨r, mem_found.mpr ⟨hr, hafter⟩, rfl⟩
  | @more after rows limit k reads out rest hnext _ ih =>
    obtain ⟨r, hr, rfl⟩ := hk _ List.mem_cons_self
    by_cases hle : key r ≤ k
    · have hitem := (mem_items_iff (hkeys _ List.mem_cons_self) hnext).mpr
        ⟨mem_found.mpr ⟨hr, hafter⟩, hle⟩
      exact ⟨r, List.mem_append_left _ hitem, rfl⟩
    · obtain ⟨r', hr', heq⟩ := ih (fun p hp => hkeys p (List.mem_cons_of_mem _ hp))
        (fun p hp => hlimit p (List.mem_cons_of_mem _ hp))
        (fun p hp => hk p (List.mem_cons_of_mem _ hp)) (decide_eq_true (lt_of_not_ge hle)) hrest
      exact ⟨r', List.mem_append_right _ hr', heq⟩

/-- **A key that is in every table read comes once.** -/
theorem Walk.count_eq (h : Walk key none reads out none) (hkeys : ∀ p ∈ reads, (p.1.map key).Nodup)
    (hlimit : ∀ p ∈ reads, 0 < p.2) {k₀ : K} (hk : ∀ p ∈ reads, ∃ r ∈ p.1, key r = k₀) :
    (out.countP fun r => key r = k₀) = 1 := by
  obtain ⟨r, hr, rfl⟩ := h.complete hkeys hlimit hk rfl
  have hnodup : (out.map key).Nodup := (h.pairwise hkeys).imp ne_of_lt
  have hcount := List.count_eq_one_of_mem hnodup (List.mem_map_of_mem hr)
  rw [List.count, List.countP_map] at hcount
  rw [← hcount]
  exact List.countP_congr fun r _ => by simp

end LakiraBackend.Paging
