import LakiraBackend.JavaScript.Utc
import LakiraBackend.Metrics.Visualizations
import Mathlib.Data.String.Basic

/-!
# Percentages in UTC

What the metric features are given, where the numbers are whole and below a hundred, the texts
are ASCII and every zone is UTC: the model runs there.  Digests are stood for by texts of what is
digested.
-/

namespace LakiraBackend.Metrics

open LakiraBackend.JavaScript LakiraBackend.JavaScript.Date LakiraBackend.Postgres

/-- The number that digits stand for. -/
def percentage (s : List Char) : Option (Fin 100) :=
  if s ≠ [] ∧ s.all Char.isDigit = true then
    let n := Nat.ofDigitChars 10 s 0
    if h : n < 100 then some ⟨n, h⟩ else none
  else none

instance neZero_hundred : NeZero 100 := ⟨by decide⟩

def percentages : Numbers (Fin 100) where
  literal v := Nat.toDigits 10 v
  ofLiteral := percentage
  ofText s := (percentage s.toList).map some
  literal_isNumber v := by
    have hall : ∀ v : Fin 100, Json.isNumber (Nat.toDigits 10 v) = true ∧
        (Nat.toDigits 10 v).all Json.inNumber = true := by decide +kernel
    exact ⟨(hall v).1, List.all_eq_true.mp (hall v).2⟩
  ofLiteral_literal := by decide +kernel

namespace Utc

/-- The start of the bucket of a time. -/
def trunc (unit : Granularity) (ms : Int) : Int :=
  match unit with
  | .hour => ms - ms % 3600000
  | .day => ms - ms % Date.msPerDay
  | .week => (dayOf ms - (getUTCDay ms + 6) % 7) * Date.msPerDay
  | .month => firstOfMonth (getUTCFullYear ms) (getUTCMonth ms) * Date.msPerDay
  | .year => Date.dayFromYear (getUTCFullYear ms) * Date.msPerDay

/-- The start of the next bucket, from the start of one. -/
def next (unit : Granularity) (ms : Int) : Int :=
  match unit with
  | .hour => ms + 3600000
  | .day => ms + Date.msPerDay
  | .week => ms + 7 * Date.msPerDay
  | .month => firstOfMonth (getUTCFullYear ms) (getUTCMonth ms + 1) * Date.msPerDay
  | .year => Date.dayFromYear (getUTCFullYear ms + 1) * Date.msPerDay

def steps (unit : Granularity) (last : Int) : Nat → Int → List Int
  | 0, _ => []
  | n + 1, ms => if ms * 1000 ≤ last then ms * 1000 :: steps unit last n (next unit ms) else []

def epoch : Date := ⟨0, Date.inRange_zero⟩

def dateOf (ms : Int) : Date := (Date.ofMs ms).getD epoch

end Utc

def BucketAlias.unit (bucket : BucketAlias) : Granularity := (resolveBucket bucket).trunc

def utcDeps : Deps (Fin 100) where
  numbers := percentages
  maxLogValue := 99
  toEngine := .epoch
  toLowerCase := String.map Char.toLower
  lower := String.map Char.toLower
  collation := inferInstance
  iLike q name := (name.toList.map Char.toLower).tails.any fun s =>
    (q.toList.map Char.toLower).isPrefixOf s
  fits name := name.length ≤ 255
  avg vs := Fin.ofNat 100 ((vs.map Fin.val).sum / vs.length)
  mean vs := Fin.ofNat 100 ((vs.map fun v => v.1.val * v.2).sum / (vs.map Prod.snd).sum)
  timestamptz text := ((Date.parseISO text).getD 0) * 1000
  timezone _ t := t
  dateTrunc unit t := Utc.trunc unit (t / 1000) * 1000
  generateSeries first last unit :=
    Utc.steps unit last ((last - first) / 3600000000 + 1).toNat (first / 1000)
  label t := Utc.dateOf (t / 1000)
  startOfNextBucket d bucket _ := Utc.dateOf (Utc.next bucket.unit (Utc.trunc bucket.unit d.ms))
  dateOnly d := Utc.dateOf (d.ms - d.ms % Date.msPerDay)
  fingerprint entries := entries.flatMap fun e => e.metricId.text ++ e.metricUpdatedAt.toISOString
  etagSeed key := key.versionCursor
  vizHash key := (key.metricId.take 16).map fun c => Fin.ofNat 64 c.toNat
  vizDashHash key := (key.versionCursor.take 16).map fun c => Fin.ofNat 64 c.toNat
  maxBuckets := 400
  maxDashboardMetrics := 24
  guardBuckets := 96
  cacheEnabled := true

/-! ### A metric and its first log -/

def walking : Metric where
  id := 7
  userId := 1
  organizationId := 2
  categoryId := none
  originalMetricId := none
  name := "Walks"
  description := none
  defaultUnit := "km"
  isPublic := true
  createdAt := Utc.epoch
  updatedAt := Utc.epoch
  deletedAt := none

def walksSettings : MetricSettings (Fin 100) where
  id := 8
  metricId := 7
  organizationId := 2
  isActive := true
  goalEnabled := false
  goalType := none
  goalValue := none
  timeFrameEnabled := false
  startDate := none
  deadlineDate := none
  alertEnabled := false
  alertThresholds := none
  isAchieved := false
  displayOptions := ⟨some true, some (some 1), some "line", some "#E897A3"⟩
  createdAt := Utc.epoch
  updatedAt := Utc.epoch

/-- Five, on the second day. -/
def firstWalk : MetricLog (Fin 100) where
  id := 9
  metricId := 7
  organizationId := 2
  logValue := 5
  type := .manual
  loggedAt := Utc.dateOf 90000000
  createdAt := Utc.epoch
  updatedAt := Utc.epoch

def walksDb : Db (Fin 100) where
  metrics := ⟨[walking], List.nodup_singleton _⟩
  categories := ⟨[], List.nodup_nil⟩
  settings := ⟨[walksSettings], List.nodup_singleton _⟩
  logs := ⟨[firstWalk], List.nodup_singleton _⟩

def walksRow : DashboardMetricRow (Fin 100) := ⟨walksSettings, walking, none⟩

/-- The first days, one by one. -/
def firstDays (days : Int) : VizQuery where
  range := ⟨(Utc.dateOf 0).toISOString, (Utc.dateOf (days * msPerDay)).toISOString, .day⟩
  tz := "UTC".toList
  fill := .zero

end LakiraBackend.Metrics
