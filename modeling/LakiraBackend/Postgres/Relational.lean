import Mathlib.Data.List.Dedup
import Mathlib.Data.List.Sort
import Mathlib.Order.Defs.LinearOrder

/-!
# Joins, groups and orders

What `FROM`, `GROUP BY` and `ORDER BY` make of lists of rows.  A query over several keys at once
does for each of them what a query over the one does: an inner join with distinct keys leaves the
rows of each (`fst_innerJoin`), a left join with groups finds the one group of a row
(`leftJoin_groupBy`), and an order of all the rows orders those of each key (`filter_orderBy`).
-/

namespace LakiraBackend.Postgres

variable {α β κ : Type}

/-- `l CROSS JOIN r`. -/
def crossJoin (l : List α) (r : List β) : List (α × β) := l.flatMap fun a => r.map fun b => (a, b)

/-- `l JOIN r ON on`. -/
def innerJoin (on : α → β → Bool) (l : List α) (r : List β) : List (α × β) :=
  l.flatMap fun a => (r.filter (on a)).map fun b => (a, b)

/-- `l LEFT JOIN r ON on`: a row that meets none is kept, beside nulls. -/
def leftJoin (on : α → β → Bool) (l : List α) (r : List β) : List (α × Option β) :=
  l.flatMap fun a =>
    match r.filter (on a) with
    | [] => [(a, none)]
    | bs => bs.map fun b => (a, some b)

theorem leftJoin_cons (on : α → β → Bool) (a : α) (l : List α) (r : List β) :
    leftJoin on (a :: l) r =
      (match r.filter (on a) with
        | [] => [(a, none)]
        | bs => bs.map fun b => (a, some b)) ++ leftJoin on l r := rfl

/-- `GROUP BY key`: the keys there are, each with its rows. -/
def groupBy [DecidableEq κ] (key : α → κ) (rows : List α) : List (κ × List α) :=
  (rows.map key).dedup.map fun k => (k, rows.filter fun r => key r = k)

/-- `ORDER BY key`. -/
def orderBy [LinearOrder κ] (key : α → κ) (rows : List α) : List α :=
  rows.insertionSort fun r s => key r ≤ key s

/-! ### Joins with distinct keys -/

theorem filter_eq_of_nodup [DecidableEq α] {l : List α} (h : l.Nodup) (a : α) :
    (l.filter fun b => b = a) = if a ∈ l then [a] else [] := by
  rw [List.filter_eq, h.count]
  split <;> rfl

/-- A row meets one key at most. -/
theorem fst_innerJoin [DecidableEq κ] {keys : List κ} (h : keys.Nodup) (key : α → κ)
    (rows : List α) :
    (innerJoin (fun r k => k = key r) rows keys).map Prod.fst =
      rows.filter fun r => key r ∈ keys := by
  induction rows with
  | nil => rfl
  | cons r rows ih =>
    rw [innerJoin, List.flatMap_cons, List.map_append, ← innerJoin, ih, filter_eq_of_nodup h]
    by_cases hr : key r ∈ keys
    · rw [if_pos hr, List.filter_cons, if_pos (decide_eq_true hr)]
      rfl
    · rw [if_neg hr, List.filter_cons, if_neg (by simpa using hr)]
      rfl

theorem filter_crossJoin [DecidableEq α] {l : List α} (h : l.Nodup) {a : α} (ha : a ∈ l)
    (r : List β) :
    ((crossJoin l r).filter fun p => p.1 = a) = r.map fun b => (a, b) := by
  have hone : ∀ b, ((r.map fun c => (b, c)).filter fun p => p.1 = a) =
      if b = a then r.map fun c => (a, c) else [] := by
    intro b
    split
    · rename_i heq
      subst heq
      exact List.filter_eq_self.mpr fun p hp => by
        obtain ⟨c, -, rfl⟩ := List.mem_map.mp hp
        exact decide_eq_true rfl
    · rename_i hne
      exact List.filter_eq_nil_iff.mpr fun p hp => by
        obtain ⟨c, -, rfl⟩ := List.mem_map.mp hp
        simpa using hne
  have hfilter := filter_eq_of_nodup h a
  rw [if_pos ha] at hfilter
  rw [crossJoin, List.filter_flatMap]
  simp only [hone]
  calc (l.flatMap fun b => if b = a then r.map fun c => (a, c) else [])
      = (l.filter fun b => b = a).flatMap fun _ => r.map fun c => (a, c) := by
        clear hfilter h ha
        induction l with
        | nil => rfl
        | cons b l ih =>
          rw [List.flatMap_cons, ih, List.filter_cons]
          split <;> simp_all
    _ = r.map fun b => (a, b) := by rw [hfilter]; simp

/-! ### Groups -/

theorem filter_groupBy [DecidableEq κ] (key : α → κ) (rows : List α) (k : κ) :
    ((groupBy key rows).filter fun g => g.1 = k) =
      if (rows.filter fun r => key r = k) = [] then []
      else [(k, rows.filter fun r => key r = k)] := by
  rw [groupBy, List.filter_map]
  have hfilter : ((rows.map key).dedup.filter fun k' => k' = k) =
      if k ∈ (rows.map key).dedup then [k] else [] := filter_eq_of_nodup (List.nodup_dedup _) k
  have hmem : k ∈ (rows.map key).dedup ↔ ¬ (rows.filter fun r => key r = k) = [] := by
    rw [List.mem_dedup, List.mem_map, List.filter_eq_nil_iff]
    simp only [decide_eq_true_eq, not_forall, not_not, exists_prop]
  change List.map _ ((rows.map key).dedup.filter fun k' => k' = k) = _
  rw [hfilter]
  by_cases h : (rows.filter fun r => key r = k) = []
  · rw [if_pos h, if_neg (hmem.not.mpr (not_not.mpr h))]
    rfl
  · rw [if_neg h, if_pos (hmem.mpr h)]
    rfl

/-- The group of a key, unless there are no rows of it. -/
def groupOf [DecidableEq κ] (key : α → κ) (rows : List α) (k : κ) : Option (List α) :=
  let group := rows.filter fun r => key r = k
  if group = [] then none else some group

/-- **A left join with groups finds one group at most.** -/
theorem leftJoin_groupBy [DecidableEq κ] (f : β → κ) (l : List β) (key : α → κ) (rows : List α) :
    leftJoin (fun b g => g.1 = f b) l (groupBy key rows) =
      l.map fun b => (b, (groupOf key rows (f b)).map fun group => (f b, group)) := by
  induction l with
  | nil => rfl
  | cons b l ih =>
    rw [leftJoin_cons, ih, List.map_cons, filter_groupBy, groupOf]
    by_cases h : (rows.filter fun r => key r = f b) = []
    · simp [h]
    · simp [h]

theorem leftJoin_map {γ : Type} (on : α → γ → Bool) (f : β → γ) (l : List α) (r : List β) :
    leftJoin on l (r.map f) =
      (leftJoin (fun a b => on a (f b)) l r).map fun row => (row.1, row.2.map f) := by
  induction l with
  | nil => rfl
  | cons a l ih =>
    rw [leftJoin_cons, ih, leftJoin_cons, List.map_append, List.filter_map]
    refine congrArg (· ++ _) ?_
    have hon : (on a ∘ f) = fun b => on a (f b) := rfl
    rw [hon]
    cases r.filter fun b => on a (f b) with
    | nil => rfl
    | cons b bs => simp

/-- A left join with what is made of groups. -/
theorem leftJoin_aggregate {γ : Type} [DecidableEq κ] (f : β → κ) (l : List β) (key : α → κ)
    (rows : List α) (make : List α → γ) :
    leftJoin (fun b g => g.1 = f b) l ((groupBy key rows).map fun g => (g.1, make g.2)) =
      l.map fun b => (b, (groupOf key rows (f b)).map fun group => (f b, make group)) := by
  rw [leftJoin_map, leftJoin_groupBy, List.map_map]
  refine List.map_congr_left fun b _ => ?_
  simp only [Function.comp_apply, Option.map_map]
  rfl

/-! ### Orders -/

theorem filter_orderedInsert [LinearOrder κ] (key : α → κ) (p : α → Bool) (a : α) {l : List α}
    (h : l.Pairwise fun r s => key r ≤ key s) :
    (l.orderedInsert (fun r s => key r ≤ key s) a).filter p =
      if p a then (l.filter p).orderedInsert (fun r s => key r ≤ key s) a else l.filter p := by
  induction l with
  | nil => cases hp : p a <;> simp [hp]
  | cons b l ih =>
    obtain ⟨hb, hl⟩ := List.pairwise_cons.mp h
    rw [List.orderedInsert_cons]
    by_cases hab : key a ≤ key b
    · have hfirst : ∀ r ∈ (b :: l).filter p, key a ≤ key r := by
        intro r hr
        rcases List.mem_cons.mp (List.mem_filter.mp hr).1 with rfl | hr
        · exact hab
        · exact le_trans hab (hb r hr)
      have hinsert : ((b :: l).filter p).orderedInsert (fun r s => key r ≤ key s) a =
          a :: (b :: l).filter p := by
        cases hlist : (b :: l).filter p with
        | nil => rfl
        | cons c t =>
          rw [List.orderedInsert_cons, if_pos (hfirst c (by rw [hlist]; exact List.mem_cons_self))]
      rw [if_pos hab, hinsert, List.filter_cons]
    · rw [if_neg hab, List.filter_cons, ih hl]
      cases hp : p a with
      | false => rw [List.filter_cons]; rfl
      | true =>
        cases hpb : p b with
        | false => simp [hpb]
        | true => simp [hpb, hab]

/-- **Ordering is stable**: the rows that are kept are in the order they would be in alone. -/
theorem filter_orderBy [LinearOrder κ] (key : α → κ) (p : α → Bool) (rows : List α) :
    (orderBy key rows).filter p = orderBy key (rows.filter p) := by
  induction rows with
  | nil => rfl
  | cons a rows ih =>
    rw [orderBy, List.insertionSort_cons, filter_orderedInsert key p a
      (List.pairwise_insertionSort _ _), ← orderBy, ih, List.filter_cons]
    split <;> rfl

theorem map_orderBy {κ' : Type} [LinearOrder κ] [LinearOrder κ'] {key : α → κ} {key' : β → κ'}
    {f : α → β} {rows : List α}
    (h : ∀ r ∈ rows, ∀ s ∈ rows, key r ≤ key s ↔ key' (f r) ≤ key' (f s)) :
    (orderBy key rows).map f = orderBy key' (rows.map f) := List.map_insertionSort _ _ f rows h

theorem orderBy_of_pairwise [LinearOrder κ] {key : α → κ} {rows : List α}
    (h : rows.Pairwise fun r s => key r ≤ key s) : orderBy key rows = rows :=
  List.Pairwise.insertionSort_eq h

end LakiraBackend.Postgres
