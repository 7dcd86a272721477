import LakiraBackend.Analytics.Marks
import LakiraBackend.Analytics.SubtractMonths
import LakiraBackend.Metrics.VisualizationSql

/-!
# The buckets of a range, as the database counts them

`timezone`, `date_trunc` and `generate_series`, in microseconds.  From the start of a bucket the
intervals that are added go from boundary to boundary (`addInterval_eq`), so a series is all the
boundaries from the first to a second before the end of the range (`mem_bucketSeries`), each once.
-/

namespace LakiraBackend.Analytics

open LakiraBackend.Calendar LakiraBackend.JavaScript LakiraBackend.Metrics
open LakiraBackend.JavaScript.Date

/-! ### Functions of the database -/

/-- `timezone(tz, t)`: the wall time of an instant, by the offset in force. -/
def timezone (zone : Offset) (t : Int) : Int := t + zone (t / 1000) * 1000

/-- `date_trunc(unit, t)`. -/
def dateTruncMicros (bucket : BucketAlias) (t : Int) : Int := dateTrunc bucket (t / 1000) * 1000

/-- `+ interval 'n months'`: the same day of the month, or its last. -/
def addMonths (w : Int) (n : Nat) : Int :=
  let month : Int := getUTCMonth w + n
  let days := firstOfMonth (getUTCFullYear w) (month + 1) - firstOfMonth (getUTCFullYear w) month
  (firstOfMonth (getUTCFullYear w) month + (min (getUTCDate w : Int) days - 1)) * DAY_MS +
    w % DAY_MS

/-- `+ interval '1 unit'`. -/
def addInterval : BucketAlias → Int → Int
  | .hour, t => t + HOUR_MS * 1000
  | .day, t => t + DAY_MS * 1000
  | .week, t => t + 7 * DAY_MS * 1000
  | .month, t => addMonths (t / 1000) 1 * 1000 + t % 1000
  | .year, t => addMonths (t / 1000) 12 * 1000 + t % 1000

/-- `generate_series(first, last, interval '1 unit')`; no interval is shorter than an hour. -/
def generateSeries (bucket : BucketAlias) (first last : Int) : List Int :=
  steps (addInterval bucket) last ((last - first) / (HOUR_MS * 1000) + 1).toNat first

/-- The buckets of a range. -/
def bucketSeries (zone : Offset) (bucket : BucketAlias) (start stop : Int) : List Int :=
  generateSeries bucket (dateTruncMicros bucket (timezone zone start))
    (timezone zone stop - 1000000)

variable {bucket : BucketAlias} {zone : Offset} {t b start stop : Int}

/-! ### From boundary to boundary -/

theorem addMonths_firstOfMonth {y : Int} {m : Nat} (hm : m < 12) (n : Nat) :
    addMonths (firstOfMonth y m * DAY_MS) n = firstOfMonth y (m + n) * DAY_MS := by
  obtain ⟨hy, hmonth, hdate⟩ := fields_of_day hm le_rfl (firstOfMonth_lt (y := y) hm)
  rw [Int.sub_self, Int.zero_add] at hdate
  have hstep := firstOfMonth_step (12 * y + (m + n))
  rw [firstOfMonth_index, Int.add_assoc, firstOfMonth_index] at hstep
  have hrem : firstOfMonth y m * DAY_MS % DAY_MS = 0 := Int.mul_emod_left _ _
  simp only [addMonths, hy, hmonth, hrem, hdate]
  rw [min_eq_left (by omega), Int.sub_self, Int.add_zero, Int.add_zero]

/-- **An interval on from a boundary** is the next. -/
theorem addInterval_eq (h : (microGrid bucket).IsMark t) :
    addInterval bucket t = (microGrid bucket).next t := by
  obtain ⟨b, hb, rfl⟩ := isMark_iff.mp h
  have htrunc : dateTrunc bucket b = b := hb
  have hdiv : b * 1000 / 1000 = b := Int.mul_ediv_cancel _ (by decide)
  have hmod : b * 1000 % 1000 = 0 := Int.mul_emod_left _ _
  rw [microGrid_next, hdiv]
  cases bucket with
  | hour =>
    rw [dateTrunc] at htrunc
    rw [addInterval, nextBoundary, htrunc]
    omega
  | day =>
    rw [dateTrunc] at htrunc
    rw [addInterval, nextBoundary, Int.add_mul, htrunc]
    omega
  | week =>
    rw [dateTrunc] at htrunc
    rw [addInterval, nextBoundary, Int.add_mul, htrunc]
    omega
  | month =>
    rw [dateTrunc] at htrunc
    have hm := (day_in_month b).2.2
    have hadd := addMonths_firstOfMonth (y := getUTCFullYear b) hm 1
    rw [htrunc] at hadd
    rw [addInterval, hdiv, hmod, hadd, Int.add_zero]
    rfl
  | year =>
    rw [dateTrunc] at htrunc
    have hadd := addMonths_firstOfMonth (y := getUTCFullYear b) (show 0 < 12 by decide) 12
    rw [Int.natCast_zero, firstOfMonth_zero, htrunc, Int.zero_add] at hadd
    rw [addInterval, hdiv, hmod, hadd, Int.add_zero, nextBoundary, ← firstOfMonth_zero,
      ← firstOfMonth_twelve]
    rfl

theorem dateTruncMicros_isMark (bucket : BucketAlias) (t : Int) :
    (microGrid bucket).IsMark (dateTruncMicros bucket t) := Grid.isMark_start t

/-- A series is one of steps from mark to mark. -/
theorem bucketSeries_eq (zone : Offset) (bucket : BucketAlias) (start stop : Int) :
    ∃ fuel : Nat, bucketSeries zone bucket start stop =
        steps (microGrid bucket).next (timezone zone stop - 1000000) fuel
          ((microGrid bucket).start (timezone zone start)) ∧
      timezone zone stop - 1000000 <
        (microGrid bucket).start (timezone zone start) + fuel * (HOUR_MS * 1000) := by
  refine ⟨_, Grid.steps_congr (fun b hb => addInterval_eq hb) _ _ (Grid.isMark_start _), ?_⟩
  change _ < dateTruncMicros bucket (timezone zone start) + _
  generalize dateTruncMicros bucket (timezone zone start) = first
  rw [HOUR_MS_eq]
  omega

/-- **The series of a range** is the boundaries from the start of its first bucket to a second
before its end. -/
theorem mem_bucketSeries : b ∈ bucketSeries zone bucket start stop ↔
    (microGrid bucket).IsMark b ∧ dateTruncMicros bucket (timezone zone start) ≤ b ∧
      b ≤ timezone zone stop - 1000000 := by
  obtain ⟨fuel, heq, hfuel⟩ := bucketSeries_eq zone bucket start stop
  rw [heq, Grid.mem_steps (spaced_microGrid bucket) (Grid.isMark_start _) hfuel]
  rfl

theorem pairwise_bucketSeries (zone : Offset) (bucket : BucketAlias) (start stop : Int) :
    (bucketSeries zone bucket start stop).Pairwise (· < ·) := by
  obtain ⟨fuel, heq, -⟩ := bucketSeries_eq zone bucket start stop
  rw [heq]
  exact (Grid.pairwise_steps _ _ _).1

/-! ### What the queries are given -/

/-- The database's functions of times, in the zones there are. -/
structure Zoned {V : Type} (D : Deps V) (zoneOf : List Char → Offset) : Prop where
  timezone : ∀ tz t, D.timezone tz t = Analytics.timezone (zoneOf tz) t
  dateTrunc : ∀ bucket t, D.dateTrunc (resolveBucket bucket).trunc t = dateTruncMicros bucket t
  generateSeries : ∀ bucket first last, D.generateSeries first last (resolveBucket bucket).trunc =
    Analytics.generateSeries bucket first last

/-- The code and the database read one instant, to the millisecond. -/
def SameInstant {V : Type} (D : Deps V) (text : List Char) : Prop :=
  ∀ d, Date.parse D.otherDate text = some d →
    d.ms * 1000 ≤ D.timestamptz text ∧ D.timestamptz text ≤ d.ms * 1000 + 1000

theorem bucketStarts_eq {V : Type} {D : Deps V} {zoneOf : List Char → Offset} (h : Zoned D zoneOf)
    (bucket : BucketAlias) (startISO endISO tz : List Char) :
    bucketStarts D (resolveBucket bucket) startISO endISO tz =
      bucketSeries (zoneOf tz) bucket (D.timestamptz startISO) (D.timestamptz endISO) := by
  rw [bucketStarts, h.generateSeries, h.dateTrunc, h.timezone, h.timezone]
  rfl

/-- The percentages of a database whose zones are given. -/
def zonedDeps (zoneOf : List Char → Offset) : Deps (Fin 100) :=
  { utcDeps with
    timezone := fun tz => timezone (zoneOf tz)
    dateTrunc := fun
      | .hour => dateTruncMicros .hour
      | .day => dateTruncMicros .day
      | .week => dateTruncMicros .week
      | .month => dateTruncMicros .month
      | .year => dateTruncMicros .year
    generateSeries := fun first last => fun
      | .hour => generateSeries .hour first last
      | .day => generateSeries .day first last
      | .week => generateSeries .week first last
      | .month => generateSeries .month first last
      | .year => generateSeries .year first last }

theorem zoned_zonedDeps (zoneOf : List Char → Offset) : Zoned (zonedDeps zoneOf) zoneOf where
  timezone _ _ := rfl
  dateTrunc bucket _ := by cases bucket <;> rfl
  generateSeries bucket _ _ := by cases bucket <;> rfl

theorem sameInstant_zonedDeps (zoneOf : List Char → Offset) (text : List Char) :
    SameInstant (zonedDeps zoneOf) text := by
  intro d hd
  have hms : parseISO text = some d.ms := by
    cases hparse : parseISO text with
    | none =>
      rw [parse, hparse] at hd
      cases hd
    | some ms =>
      rw [parse, hparse] at hd
      change ofMs ms = some d at hd
      rw [ofMs] at hd
      split at hd
      · cases hd
        rfl
      · cases hd
  change d.ms * 1000 ≤ (parseISO text).getD 0 * 1000 ∧ _
  change _ ∧ (parseISO text).getD 0 * 1000 ≤ _
  rw [hms, Option.getD_some]
  omega

end LakiraBackend.Analytics
