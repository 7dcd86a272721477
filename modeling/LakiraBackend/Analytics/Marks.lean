import LakiraBackend.Analytics.Buckets
import LakiraBackend.Calendar.Grid

/-!
# The boundaries of buckets, counted

`mark` numbers the boundaries: the first days of the months, the Mondays.  So many buckets on, the
boundary is about as many nominal lengths on, which for months and years is so up to a few
days (`mark_growth`).  In microseconds the boundaries are a grid (`microGrid`).
-/

namespace LakiraBackend.Analytics

open LakiraBackend.Calendar LakiraBackend.JavaScript
open LakiraBackend.JavaScript.Date
open LakiraBackend.Metrics (BucketAlias resolveBucket)

def mark : BucketAlias → Int → Int
  | .hour, i => i * HOUR_MS
  | .day, i => i * DAY_MS
  | .week, i => (7 * i - 3) * DAY_MS
  | .month, i => firstOfMonth 0 i * DAY_MS
  | .year, i => dayFromYear i * DAY_MS

/-- How far the boundaries are from where buckets of one length would put them. -/
def slack : BucketAlias → Int
  | .hour | .day | .week => 0
  | .month => 6 * DAY_MS
  | .year => 3 * DAY_MS

variable {bucket : BucketAlias} {w b i : Int} {m : Nat}

theorem firstOfMonth_index (y : Int) (m : Int) : firstOfMonth 0 (12 * y + m) = firstOfMonth y m := by
  have hdiv : (12 * y + m) / 12 = y + m / 12 := by omega
  have hmod : (12 * y + m) % 12 = m % 12 := by omega
  rw [firstOfMonth, firstOfMonth, hdiv, hmod, Int.zero_add]

/-- A bucket is between two boundaries next to each other. -/
theorem exists_mark (bucket : BucketAlias) (w : Int) :
    ∃ i, dateTrunc bucket w = mark bucket i ∧ nextBoundary bucket w = mark bucket (i + 1) := by
  cases bucket with
  | hour =>
    refine ⟨w / HOUR_MS, rfl, ?_⟩
    rw [nextBoundary, mark, HOUR_MS_eq]
    omega
  | day => exact ⟨dayOf w, rfl, rfl⟩
  | week =>
    refine ⟨(dayOf w + 3) / 7, ?_, ?_⟩
    · rw [dateTrunc, mark]
      congr 1
      omega
    · rw [nextBoundary, mark]
      congr 1
      omega
  | month =>
    refine ⟨12 * getUTCFullYear w + getUTCMonth w, ?_, ?_⟩
    · rw [mark, firstOfMonth_index]
      rfl
    · rw [mark, Int.add_assoc, firstOfMonth_index]
      rfl
  | year => exact ⟨getUTCFullYear w, rfl, rfl⟩

theorem firstOfMonth_step (i : Int) : firstOfMonth 0 i < firstOfMonth 0 (i + 1) := by
  have hm : (i % 12).toNat < 12 := by omega
  have hi : i = 12 * (i / 12) + ((i % 12).toNat : Int) := by omega
  rw [hi, Int.add_assoc, firstOfMonth_index, firstOfMonth_index]
  exact firstOfMonth_lt hm

theorem mark_step (bucket : BucketAlias) (i : Int) : mark bucket i < mark bucket (i + 1) := by
  cases bucket with
  | hour =>
    rw [mark, mark, HOUR_MS_eq]
    omega
  | month =>
    have hstep := firstOfMonth_step i
    rw [mark, mark, DAY_MS_eq]
    omega
  | year =>
    have hstep := dayFromYear_lt i
    rw [mark, mark, DAY_MS_eq]
    omega
  | _ =>
    rw [mark, mark, DAY_MS_eq]
    omega

theorem mark_injective (bucket : BucketAlias) : Function.Injective (mark bucket) :=
  (strictMono_int_of_lt_succ (mark_step bucket)).injective

/-- So many boundaries on from one. -/
theorem nextBoundary_iterate (h : IsBoundary bucket b) :
    ∃ i, b = mark bucket i ∧ ∀ k : Nat, (nextBoundary bucket)^[k] b = mark bucket (i + k) := by
  obtain ⟨i, hi, hnext⟩ := exists_mark bucket b
  refine ⟨i, h.symm.trans hi, fun k => ?_⟩
  induction k with
  | zero => rw [Function.iterate_zero_apply, Int.natCast_zero, Int.add_zero, ← hi, h]
  | succ k ih =>
    have hboundary : IsBoundary bucket (mark bucket (i + k)) := by
      rw [← ih]
      cases k with
      | zero => exact h
      | succ k =>
        rw [Function.iterate_succ_apply']
        exact (bucket_spec bucket _).2.2.1
    obtain ⟨j, hj, hjnext⟩ := exists_mark bucket (mark bucket (i + k))
    have heq : i + k = j := mark_injective bucket (hboundary.symm.trans hj)
    rw [Function.iterate_succ_apply', ih, hjnext, ← heq, Int.natCast_add, Int.natCast_one,
      Int.add_assoc]

/-! ### Nominal lengths -/

/-- Where a year starts, to the day. -/
theorem dayFromYear_bounds (y : Int) : 146097 * y - 287811596 ≤ 400 * dayFromYear y ∧
    400 * dayFromYear y ≤ 146097 * y - 287810501 := by
  unfold dayFromYear
  omega

theorem monthStart_bounds (leap : Bool) (h : m < 12) :
    48699 * m ≤ 1600 * monthStart leap m + 2998 ∧ 1600 * monthStart leap m ≤ 48699 * m + 1010 := by
  have hall : ∀ leap : Bool, ∀ m < 12, 48699 * m ≤ 1600 * monthStart leap m + 2998 ∧
      1600 * monthStart leap m ≤ 48699 * m + 1010 := by decide
  exact hall leap m h

/-- Where a month starts, to a few days. -/
theorem firstOfMonth_near (i : Int) : 48699 * i - 1151249400 ≤ 1600 * firstOfMonth 0 i ∧
    1600 * firstOfMonth 0 i ≤ 48699 * i - 1151240900 := by
  have hm : (i % 12).toNat < 12 := by omega
  have hi : i = 12 * (i / 12) + ((i % 12).toNat : Int) := by omega
  have hyear := dayFromYear_bounds (i / 12)
  have hmonth := monthStart_bounds (isLeap (i / 12)) hm
  have hfirst : firstOfMonth 0 i =
      dayFromYear (i / 12) + monthStart (isLeap (i / 12)) (i % 12).toNat := by
    rw [firstOfMonth, Int.zero_add]
  rw [hfirst]
  omega

/-- **So many buckets are so many nominal lengths**, give or take the slack. -/
theorem mark_growth (bucket : BucketAlias) (i : Int) (k : Nat) :
    mark bucket i + k * (resolveBucket bucket).approxMs - slack bucket ≤ mark bucket (i + k) := by
  cases bucket with
  | hour =>
    change i * HOUR_MS + k * 3600000 - 0 ≤ (i + k) * HOUR_MS
    rw [HOUR_MS_eq]
    omega
  | day =>
    change i * DAY_MS + k * 86400000 - 0 ≤ (i + k) * DAY_MS
    rw [DAY_MS_eq]
    omega
  | week =>
    change (7 * i - 3) * DAY_MS + k * 604800000 - 0 ≤ (7 * (i + k) - 3) * DAY_MS
    rw [DAY_MS_eq]
    omega
  | month =>
    have hfrom := firstOfMonth_near i
    have hto := firstOfMonth_near (i + k)
    change firstOfMonth 0 i * DAY_MS + k * 2629746000 - 6 * DAY_MS ≤
      firstOfMonth 0 (i + k) * DAY_MS
    rw [DAY_MS_eq]
    omega
  | year =>
    have hfrom := dayFromYear_bounds i
    have hto := dayFromYear_bounds (i + k)
    change dayFromYear i * DAY_MS + k * 31556952000 - 3 * DAY_MS ≤ dayFromYear (i + k) * DAY_MS
    rw [DAY_MS_eq]
    omega

/-- A bucket is longer than the slack, by an hour. -/
theorem hour_le_approxMs (bucket : BucketAlias) :
    slack bucket + HOUR_MS ≤ (resolveBucket bucket).approxMs := by
  cases bucket <;> decide

/-! ### In microseconds -/

/-- The boundaries of a bucket, in microseconds. -/
def microGrid (bucket : BucketAlias) : Grid where
  start t := dateTrunc bucket (t / 1000) * 1000
  next t := nextBoundary bucket (t / 1000) * 1000
  start_le t := by
    have := (bucket_spec bucket (t / 1000)).1
    omega
  lt_next t := by
    have := (bucket_spec bucket (t / 1000)).2.1
    omega
  start_next t := by
    have hnext : dateTrunc bucket (nextBoundary bucket (t / 1000)) = _ :=
      (bucket_spec bucket (t / 1000)).2.2.1
    rw [Int.mul_ediv_cancel _ (by decide), hnext]
  start_eq t b hb hb' := by
    rw [(bucket_spec bucket (t / 1000)).2.2.2 (b / 1000) (by omega) (by omega)]

theorem microGrid_next (bucket : BucketAlias) (t : Int) :
    (microGrid bucket).next t = nextBoundary bucket (t / 1000) * 1000 := rfl

/-- The marks of the grid are the boundaries. -/
theorem isMark_iff {t : Int} :
    (microGrid bucket).IsMark t ↔ ∃ b, IsBoundary bucket b ∧ t = b * 1000 := by
  constructor
  · intro h
    refine ⟨dateTrunc bucket (t / 1000), ?_, h.symm⟩
    have hle := (bucket_spec bucket (t / 1000)).1
    have hlt := (bucket_spec bucket (t / 1000)).2.1
    exact (bucket_spec bucket (t / 1000)).2.2.2 _ le_rfl (hle.trans_lt hlt)
  · rintro ⟨b, hb, rfl⟩
    change dateTrunc bucket (b * 1000 / 1000) * 1000 = _
    rw [Int.mul_ediv_cancel _ (by decide), hb]

theorem next_iterate (k : Nat) :
    (microGrid bucket).next^[k] (b * 1000) = (nextBoundary bucket)^[k] b * 1000 := by
  induction k generalizing b with
  | zero => rfl
  | succ k ih =>
    rw [Function.iterate_succ_apply, Function.iterate_succ_apply, microGrid_next,
      Int.mul_ediv_cancel _ (by decide), ih]

theorem steady_microGrid (bucket : BucketAlias) :
    (microGrid bucket).Steady ((resolveBucket bucket).approxMs * 1000) (slack bucket * 1000) := by
  intro k t ht
  obtain ⟨b, hb, rfl⟩ := isMark_iff.mp ht
  obtain ⟨i, rfl, hi⟩ := nextBoundary_iterate hb
  have hgrowth := mark_growth bucket i k
  rw [next_iterate, hi k, ← Int.mul_assoc]
  omega

/-- A bucket is an hour or longer. -/
theorem spaced_microGrid (bucket : BucketAlias) : (microGrid bucket).Spaced (HOUR_MS * 1000) := by
  refine ⟨by decide, fun t ht => ?_⟩
  have hone := steady_microGrid bucket 1 t ht
  have hle := hour_le_approxMs bucket
  rw [Function.iterate_one, Int.natCast_one, Int.one_mul] at hone
  omega

end LakiraBackend.Analytics
