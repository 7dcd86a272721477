import LakiraBackend.Postgres.Values
import Mathlib.Data.List.Nodup
import Mathlib.Data.List.Sort

/-!
# Tables with a primary key

A table is a list of rows no two of which have one id; what is done to it keeps that.  In
what order the rows are kept nothing tells: what a query finds depends only on which rows
there are that its condition holds of (`select_congr`).
-/

namespace LakiraBackend.Postgres

structure Table {Row : Type} (id : Row → Uuid) : Type where
  rows : List Row
  nodup : (rows.map id).Nodup

namespace Table

variable {Row : Type} {id : Row → Uuid}

def empty : Table id := ⟨[], List.nodup_nil⟩

/-- A row whose id is there is refused. -/
def insert (t : Table id) (r : Row) : Table id :=
  if h : id r ∉ t.rows.map id then ⟨r :: t.rows, List.nodup_cons.mpr ⟨h, t.nodup⟩⟩ else t

/-- Change rows, but not their ids. -/
def update (t : Table id) (f : Row → Row) (hf : ∀ r, id (f r) = id r) : Table id :=
  ⟨t.rows.map f, by rw [List.map_map, funext hf (f := id ∘ f)]; exact t.nodup⟩

/-- `UPDATE … WHERE`. -/
def updateWhere (t : Table id) (p : Row → Bool) (f : Row → Row) (hf : ∀ r, id (f r) = id r) :
    Table id :=
  t.update (fun r => if p r then f r else r) fun r => by split <;> first | exact hf r | rfl

def delete (t : Table id) (p : Row → Bool) : Table id :=
  ⟨t.rows.filter fun r => !p r, t.nodup.sublist (List.filter_sublist.map id)⟩

theorem mem_insert {t : Table id} {r s : Row} (h : s ∈ (t.insert r).rows) :
    s = r ∨ s ∈ t.rows := by
  unfold insert at h
  split at h
  · exact List.mem_cons.mp h
  · exact .inr h

theorem mem_insert_of_mem {t : Table id} {r s : Row} (h : s ∈ t.rows) :
    s ∈ (t.insert r).rows := by
  unfold insert
  split
  · exact List.mem_cons_of_mem _ h
  · exact h

/-- Two rows of one id are one row. -/
theorem eq_of_id (t : Table id) {r s : Row} (hr : r ∈ t.rows) (hs : s ∈ t.rows)
    (h : id r = id s) : r = s := List.inj_on_of_nodup_map t.nodup hr hs h

theorem mem_insert_self {t : Table id} {r : Row} (h : id r ∉ t.rows.map id) :
    r ∈ (t.insert r).rows := by
  rw [insert, dif_pos h]
  exact List.mem_cons_self

theorem mem_update {t : Table id} {f : Row → Row} {hf : ∀ r, id (f r) = id r} {s : Row} :
    s ∈ (t.update f hf).rows ↔ ∃ r ∈ t.rows, f r = s := List.mem_map

/-- A row after an UPDATE is one that was changed, or one that was not. -/
theorem mem_updateWhere {t : Table id} {p : Row → Bool} {f : Row → Row}
    {hf : ∀ r, id (f r) = id r} {s : Row} : s ∈ (t.updateWhere p f hf).rows ↔
      (∃ r ∈ t.rows, p r = true ∧ s = f r) ∨ s ∈ t.rows ∧ p s = false := by
  rw [updateWhere, mem_update]
  constructor
  · rintro ⟨r, hr, rfl⟩
    by_cases hp : p r = true
    · exact .inl ⟨r, hr, hp, if_pos hp⟩
    · rw [if_neg hp]
      exact .inr ⟨hr, Bool.not_eq_true _ ▸ hp⟩
  · rintro (⟨r, hr, hp, rfl⟩ | ⟨hs, hp⟩)
    · exact ⟨r, hr, if_pos hp⟩
    · exact ⟨s, hs, if_neg (by rw [hp]; exact Bool.false_ne_true)⟩

theorem mem_delete {t : Table id} {p : Row → Bool} {r : Row} :
    r ∈ (t.delete p).rows ↔ r ∈ t.rows ∧ p r = false := by
  rw [delete, List.mem_filter, Bool.not_eq_true']

/-! ### Queries -/

/-- Rows in the order of a key, whatever order they come in. -/
theorem insertionSort_congr {K : Type} [LinearOrder K] {key : Row → K} {l l' : List Row}
    (hl : (l.map id).Nodup) (hl' : (l'.map id).Nodup) (hkey : ∀ r s, key r = key s → id r = id s)
    (h : ∀ r, r ∈ l ↔ r ∈ l') :
    (l.insertionSort fun r s => key r ≤ key s) = l'.insertionSort fun r s => key r ≤ key s := by
  have hperm : l.Perm l' := (List.perm_ext_iff_of_nodup hl.of_map hl'.of_map).mpr h
  refine List.Perm.eq_of_pairwise (fun r s hr hs hrs hsr => ?_)
    (List.pairwise_insertionSort (fun r s => key r ≤ key s) l)
    (List.pairwise_insertionSort (fun r s => key r ≤ key s) l')
    ((List.perm_insertionSort _ l).trans (hperm.trans (List.perm_insertionSort _ l').symm))
  have hr' : r ∈ l' := (h r).mp ((List.mem_insertionSort _).mp hr)
  exact List.inj_on_of_nodup_map hl' hr' ((List.mem_insertionSort _).mp hs)
    (hkey r s (le_antisymm hrs hsr))

/-- The rows a condition holds of, in the order of their ids. -/
def select (t : Table id) (p : Row → Bool) : List Row :=
  (t.rows.filter p).insertionSort fun r s => id r ≤ id s

/-- The row a condition holds of, which is of one row at most. -/
def findOne (t : Table id) (p : Row → Bool) : Option Row := (t.select p).head?

def count (t : Table id) (p : Row → Bool) : Nat := (t.select p).length

variable {t t' : Table id} {p p' : Row → Bool}

theorem mem_select {r : Row} : r ∈ t.select p ↔ r ∈ t.rows ∧ p r = true := by
  rw [select, List.mem_insertionSort, List.mem_filter]

theorem nodup_filter (t : Table id) (p : Row → Bool) : ((t.rows.filter p).map id).Nodup :=
  t.nodup.sublist (List.filter_sublist.map id)

/-- **What is found depends on the rows there are.** -/
theorem select_congr (h : ∀ r, r ∈ t.rows ∧ p r = true ↔ r ∈ t'.rows ∧ p' r = true) :
    t.select p = t'.select p' :=
  insertionSort_congr (t.nodup_filter p) (t'.nodup_filter p') (fun _ _ h => h) fun r => by
    rw [List.mem_filter, List.mem_filter]
    exact h r

theorem findOne_congr (h : ∀ r, r ∈ t.rows ∧ p r = true ↔ r ∈ t'.rows ∧ p' r = true) :
    t.findOne p = t'.findOne p' := congrArg List.head? (select_congr h)

theorem count_congr (h : ∀ r, r ∈ t.rows ∧ p r = true ↔ r ∈ t'.rows ∧ p' r = true) :
    t.count p = t'.count p' := congrArg List.length (select_congr h)

theorem of_findOne {r : Row} (h : t.findOne p = some r) : r ∈ t.rows ∧ p r = true :=
  mem_select.mp (List.mem_of_mem_head? h)

theorem findOne_eq_none : t.findOne p = none ↔ ∀ r ∈ t.rows, p r = false := by
  rw [findOne, List.head?_eq_none_iff, List.eq_nil_iff_forall_not_mem]
  refine forall_congr' fun r => ?_
  rw [mem_select, not_and, Bool.not_eq_true]

/-- A row is found by a condition that holds of it, and of rows of its id only. -/
theorem findOne_eq_some {r : Row} (hr : r ∈ t.rows) (hp : p r = true)
    (hid : ∀ s ∈ t.rows, p s = true → id s = id r) : t.findOne p = some r := by
  cases h : t.findOne p with
  | none => rw [findOne_eq_none.mp h r hr] at hp; cases hp
  | some s =>
    obtain ⟨hs, hps⟩ := of_findOne h
    rw [t.eq_of_id hs hr (hid s hs hps)]

/-! ### The row of an id -/

variable {x : Uuid} {r : Row}

theorem findOne_id : t.findOne (fun s => decide (id s = x)) = some r ↔ r ∈ t.rows ∧ id r = x := by
  constructor
  · intro h
    obtain ⟨hr, hx⟩ := of_findOne h
    exact ⟨hr, of_decide_eq_true hx⟩
  · rintro ⟨hr, rfl⟩
    exact findOne_eq_some hr (decide_eq_true rfl) fun s _ hs => of_decide_eq_true hs

theorem findOne_id_eq_none :
    t.findOne (fun s => decide (id s = x)) = none ↔ x ∉ t.rows.map id := by
  rw [findOne_eq_none, List.mem_map]
  constructor
  · rintro h ⟨r, hr, hx⟩
    exact of_decide_eq_false (h r hr) hx
  · exact fun h r hr => decide_eq_false fun hx => h ⟨r, hr, hx⟩

theorem findOne_id_updateWhere {f : Row → Row} (hf : ∀ r, id (f r) = id r) :
    (t.updateWhere p f hf).findOne (fun s => decide (id s = x)) =
      (t.findOne fun s => decide (id s = x)).map fun r => if p r then f r else r := by
  have hid : ∀ r, id (if p r then f r else r) = id r := by
    intro r
    split
    · exact hf r
    · rfl
  cases h : t.findOne fun s => decide (id s = x) with
  | none =>
    rw [findOne_id_eq_none] at h
    rw [Option.map_none, findOne_id_eq_none, updateWhere, update, List.map_map,
      funext hid (f := id ∘ _)]
    exact h
  | some r =>
    obtain ⟨hr, hx⟩ := findOne_id.mp h
    exact findOne_id.mpr ⟨mem_update.mpr ⟨r, hr, rfl⟩, (hid r).trans hx⟩

/-- A row that is inserted is found where there was none. -/
theorem findOne_id_insert :
    (t.insert r).findOne (fun s => decide (id s = x)) =
      (t.findOne fun s => decide (id s = x)).or (if id r = x then some r else none) := by
  cases h : t.findOne fun s => decide (id s = x) with
  | some s =>
    obtain ⟨hs, hx⟩ := findOne_id.mp h
    exact findOne_id.mpr ⟨mem_insert_of_mem hs, hx⟩
  | none =>
    rw [findOne_id_eq_none] at h
    rw [Option.none_or]
    split
    · rename_i hr
      exact findOne_id.mpr ⟨mem_insert_self (hr ▸ h), hr⟩
    · rename_i hr
      refine findOne_eq_none.mpr fun s hs => decide_eq_false fun hx => ?_
      rcases mem_insert hs with rfl | hs
      · exact hr hx
      · exact h (hx ▸ List.mem_map_of_mem hs)

theorem findOne_id_delete :
    (t.delete p).findOne (fun s => decide (id s = x)) =
      (t.findOne fun s => decide (id s = x)).filter fun r => !p r := by
  cases h : t.findOne fun s => decide (id s = x) with
  | none =>
    exact findOne_eq_none.mpr fun s hs => findOne_eq_none.mp h s (List.mem_of_mem_filter hs)
  | some r =>
    obtain ⟨hr, hx⟩ := findOne_id.mp h
    cases hp : p r with
    | false =>
      rw [Option.filter_some, hp]
      exact findOne_id.mpr ⟨mem_delete.mpr ⟨hr, hp⟩, hx⟩
    | true =>
      rw [Option.filter_some, hp]
      refine findOne_eq_none.mpr fun s hs => decide_eq_false fun hs' => ?_
      obtain ⟨hs, hps⟩ := mem_delete.mp hs
      rw [t.eq_of_id hs hr (hs'.trans hx.symm), hp] at hps
      cases hps

theorem count_pos : 0 < t.count p ↔ ∃ r ∈ t.rows, p r = true := by
  rw [count, List.length_pos_iff_exists_mem]
  exact exists_congr fun r => mem_select

end Table

end LakiraBackend.Postgres
