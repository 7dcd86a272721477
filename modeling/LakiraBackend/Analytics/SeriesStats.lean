import LakiraBackend.JavaScript.Number
import Mathlib.Algebra.BigOperators.Group.Multiset.Basic
import Mathlib.Algebra.Field.Rat
import Mathlib.Algebra.Order.Ring.Unbundled.Rat
import Mathlib.Tactic.FieldSimp
import Mathlib.Tactic.Ring

/-!
# Statistics of a series

`summarizeBuckets` makes the statistics of a series from those of its buckets.  It goes from
bucket to bucket with totals, which are those of the values so far (`Sums`): a bucket adds its
values to them, however many it has (`sums_addRow`).  So it does not matter how values are
split into buckets (`summarizeBuckets_eq`).
-/

namespace LakiraBackend.Analytics

open LakiraBackend.JavaScript

/-- A figure of a bucket; `undefined` is taken as `null`. -/
inductive Numeric : Type
  | null
  | number (value : Numeral)
  | text (value : List Char)
  deriving DecidableEq

def finite : Numeric → Option ℚ
  | .null => none
  | .number value => value.toFinite
  | .text value => (Numeral.ofText value).toFinite

structure BucketAggregate : Type where
  average : Numeric
  min : Numeric
  max : Numeric
  count : Numeric
  deriving DecidableEq

structure VizStats : Type where
  average : Option ℚ
  min : Option ℚ
  max : Option ℚ
  count : ℚ
  deriving DecidableEq

/-- What is kept from bucket to bucket. -/
structure Totals : Type where
  count : ℚ
  weightedSum : ℚ
  min : Option ℚ
  max : Option ℚ
  deriving DecidableEq

/-- The one there is, or what is picked of both. -/
def pickOf (pick : ℚ → ℚ → ℚ) : Option ℚ → Option ℚ → Option ℚ
  | best, none => best
  | none, some value => some value
  | some best, some value => some (pick best value)

/-- A bucket is skipped without a positive count, or without an average. -/
def addRow (t : Totals) (row : BucketAggregate) : Totals :=
  match finite row.count, finite row.average with
  | some cnt, some avg =>
    if cnt ≤ 0 then t
    else
      { count := t.count + cnt
        weightedSum := t.weightedSum + avg * cnt
        min := pickOf min t.min (finite row.min)
        max := pickOf max t.max (finite row.max) }
  | _, _ => t

def summarizeBuckets (rows : List BucketAggregate) : VizStats :=
  let t := rows.foldl addRow ⟨0, 0, none, none⟩
  { average := if 0 < t.count then some (t.weightedSum / t.count) else none
    min := t.min
    max := t.max
    count := t.count }

/-! ### Figures of values -/

/-- The value that is before all the others, or none where there are no values. -/
def BestOf (before : ℚ → ℚ → Prop) (best : Option ℚ) (values : Multiset ℚ) : Prop :=
  match best with
  | none => values = 0
  | some m => m ∈ values ∧ ∀ v ∈ values, before m v

/-- The statistics are those of the values. -/
structure Summarizes (stats : VizStats) (values : Multiset ℚ) : Prop where
  count : stats.count = values.card
  average : stats.average = if values = 0 then none else some (values.sum / values.card)
  min : BestOf (· ≤ ·) stats.min values
  max : BestOf (· ≥ ·) stats.max values

/-- The figures of a bucket are those of its values; an empty one has no count, or none. -/
structure Reports (row : BucketAggregate) (values : Multiset ℚ) : Prop where
  empty : values = 0 → finite row.count = none ∨ finite row.count = some 0
  count : values ≠ 0 → finite row.count = some (values.card : ℚ)
  average : values ≠ 0 → finite row.average = some (values.sum / values.card)
  min : values ≠ 0 → BestOf (· ≤ ·) (finite row.min) values
  max : values ≠ 0 → BestOf (· ≥ ·) (finite row.max) values

/-- The totals are those of the values so far. -/
structure Sums (t : Totals) (values : Multiset ℚ) : Prop where
  count : t.count = values.card
  sum : t.weightedSum = values.sum
  min : BestOf (· ≤ ·) t.min values
  max : BestOf (· ≥ ·) t.max values

variable {t : Totals} {row : BucketAggregate} {values more : Multiset ℚ}

/-- The best of two groups of values is the better of the best. -/
theorem bestOf_add {before : ℚ → ℚ → Prop} {pick : ℚ → ℚ → ℚ}
    (hpick : ∀ a b, pick a b = a ∧ before a b ∨ pick a b = b ∧ before b a)
    [IsTrans ℚ before]
    {best other : Option ℚ} (hb : BestOf before best values) (ho : BestOf before other more) :
    BestOf before (pickOf pick best other) (values + more) := by
  cases other with
  | none =>
    have hnone : more = 0 := ho
    rw [hnone, add_zero]
    cases best <;> exact hb
  | some b =>
    obtain ⟨hmem, hall⟩ := ho
    cases best with
    | none =>
      have hnone : values = 0 := hb
      rw [hnone, zero_add]
      exact ⟨hmem, hall⟩
    | some a =>
      obtain ⟨hmem', hall'⟩ := hb
      change pick a b ∈ values + more ∧ ∀ v ∈ values + more, before (pick a b) v
      rcases hpick a b with ⟨heq, hab⟩ | ⟨heq, hba⟩
      · rw [heq]
        refine ⟨Multiset.mem_add.mpr (.inl hmem'), fun v hv => ?_⟩
        exact (Multiset.mem_add.mp hv).elim (hall' v) fun hv => IsTrans.trans _ _ _ hab (hall v hv)
      · rw [heq]
        refine ⟨Multiset.mem_add.mpr (.inr hmem), fun v hv => ?_⟩
        exact (Multiset.mem_add.mp hv).elim (fun hv => IsTrans.trans _ _ _ hba (hall' v hv)) (hall v)

theorem bestOf_add_min {best other : Option ℚ} (hb : BestOf (· ≤ ·) best values)
    (ho : BestOf (· ≤ ·) other more) : BestOf (· ≤ ·) (pickOf min best other) (values + more) := by
  refine bestOf_add (fun a b => ?_) hb ho
  rcases le_total a b with h | h
  · exact .inl ⟨min_eq_left h, h⟩
  · exact .inr ⟨min_eq_right h, h⟩

theorem bestOf_add_max {best other : Option ℚ} (hb : BestOf (· ≥ ·) best values)
    (ho : BestOf (· ≥ ·) other more) : BestOf (· ≥ ·) (pickOf max best other) (values + more) := by
  refine bestOf_add (fun a b => ?_) hb ho
  rcases le_total a b with h | h
  · exact .inr ⟨max_eq_right h, h⟩
  · exact .inl ⟨max_eq_left h, h⟩

/-- **A bucket adds its values.** -/
theorem sums_addRow (h : Sums t values) (hrow : Reports row more) :
    Sums (addRow t row) (values + more) := by
  by_cases hempty : more = 0
  · have hskip : addRow t row = t := by
      rw [addRow]
      rcases hrow.empty hempty with hcount | hcount
      · rw [hcount]
      · rw [hcount]
        cases finite row.average with
        | none => rfl
        | some avg => exact if_pos le_rfl
    rw [hskip, hempty, add_zero]
    exact h
  · have hpos : (0 : ℚ) < more.card := by
      exact_mod_cast Multiset.card_pos.mpr hempty
    have hadd : addRow t row =
        { count := t.count + more.card
          weightedSum := t.weightedSum + more.sum / more.card * more.card
          min := pickOf min t.min (finite row.min)
          max := pickOf max t.max (finite row.max) } := by
      rw [addRow, hrow.count hempty, hrow.average hempty]
      exact if_neg (not_le.mpr hpos)
    rw [hadd]
    refine ⟨?_, ?_, bestOf_add_min h.min (hrow.min hempty), bestOf_add_max h.max (hrow.max hempty)⟩
    · rw [Multiset.card_add, Nat.cast_add, h.count]
    · rw [Multiset.sum_add, h.sum, div_mul_cancel₀ _ hpos.ne']

theorem sums_foldl {rows : List BucketAggregate} {parts : List (Multiset ℚ)} (h : Sums t values)
    (hrows : List.Forall₂ Reports rows parts) :
    Sums (rows.foldl addRow t) (values + parts.sum) := by
  induction hrows generalizing t values with
  | nil =>
    rw [List.sum_nil, add_zero]
    exact h
  | cons hrow _ ih =>
    rw [List.sum_cons, ← add_assoc]
    exact ih (sums_addRow h hrow)

/-- **Summary statistics do not depend on the buckets**: however the values are split, they are
those of all the values. -/
theorem summarizeBuckets_eq {rows : List BucketAggregate} {parts : List (Multiset ℚ)}
    (hrows : List.Forall₂ Reports rows parts) (hparts : parts.sum = values) :
    Summarizes (summarizeBuckets rows) values := by
  have hstart : Sums ⟨0, 0, none, none⟩ 0 := ⟨Nat.cast_zero.symm, Multiset.sum_zero.symm, rfl, rfl⟩
  have hsums := sums_foldl hstart hrows
  rw [zero_add, hparts] at hsums
  refine ⟨hsums.count, ?_, hsums.min, hsums.max⟩
  change (if 0 < (rows.foldl addRow ⟨0, 0, none, none⟩).count then
    some ((rows.foldl addRow ⟨0, 0, none, none⟩).weightedSum /
      (rows.foldl addRow ⟨0, 0, none, none⟩).count) else none) = _
  rw [hsums.count, hsums.sum]
  by_cases hempty : values = 0
  · rw [if_pos hempty, if_neg (by simp [hempty])]
  · rw [if_neg hempty, if_pos (by exact_mod_cast Multiset.card_pos.mpr hempty)]

/-- One and two in a bucket, and an empty one before it. -/
theorem summarizeBuckets_oneTwo :
    Summarizes (summarizeBuckets [⟨.null, .null, .null, .null⟩,
      ⟨.text "1.5".toList, .number (.finite 1), .number (.finite 2), .text "2".toList⟩]) {1, 2} := by
  have hempty : Reports ⟨.null, .null, .null, .null⟩ 0 :=
    ⟨fun _ => .inl rfl, fun h => absurd rfl h, fun h => absurd rfl h, fun h => absurd rfl h,
      fun h => absurd rfl h⟩
  have htwo : Reports ⟨.text "1.5".toList, .number (.finite 1), .number (.finite 2),
      .text "2".toList⟩ {1, 2} := by
    refine ⟨fun h => absurd h (by decide), fun _ => ?_, fun _ => ?_, fun _ => ?_, fun _ => ?_⟩
    · decide +kernel
    · decide +kernel
    · exact ⟨by decide, by decide⟩
    · exact ⟨by decide, by decide⟩
  exact summarizeBuckets_eq (.cons hempty (.cons htwo .nil)) (by decide)

end LakiraBackend.Analytics
