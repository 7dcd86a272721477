import LakiraBackend.Calendar.Clocks
import LakiraBackend.JavaScript.Utc
import LakiraBackend.Metrics.Queries

/-!
# Relative ranges

Where a relative range, `last=7d`, starts and ends.  A wall time is a local date and time in
the zone, held as the milliseconds the same fields would have in UTC.  A zone is how far its
clocks are ahead: what `Intl.DateTimeFormat` shows of an instant are the fields of its local time,
with the year of its era.  `Date.UTC` takes a year up to 99 for one of the twentieth century, so
`wallTimeOf` is the local time from the year 100 on.  A time beyond what a `Date` holds is `NaN`,
or throws, and none here.
-/

namespace LakiraBackend.Analytics

open LakiraBackend.Calendar LakiraBackend.JavaScript
open LakiraBackend.Metrics (BucketAlias resolveBucket)

def HOUR_MS : Int := 60 * 60 * 1000

def DAY_MS : Int := 24 * HOUR_MS

def MAX_WALL_MS : Int := 8640000000000000 - 2 * DAY_MS

/-! ### Windows -/

inductive RelativeUnit : Type
  | h
  | d
  | w
  | m
  | y
  deriving DecidableEq

def RelativeUnit.ofChar : Char → Option RelativeUnit
  | 'h' => some .h
  | 'd' => some .d
  | 'w' => some .w
  | 'm' => some .m
  | 'y' => some .y
  | _ => none

structure RelativeWindow : Type where
  amount : Nat
  unit : RelativeUnit
  deriving DecidableEq

/-- The number some digits write. -/
def numberOf (digits : List Char) : Nat :=
  digits.foldl (fun n c => 10 * n + (c.toNat - '0'.toNat)) 0

/-- The digits and the unit of a text that `LAST_WINDOW_REGEX` matches,
`/^[1-9][0-9]*(h|d|w|m|y)$/`. -/
def matchWindow (value : List Char) : Option (List Char × RelativeUnit) :=
  match value.getLast?.bind RelativeUnit.ofChar, value.dropLast with
  | some unit, c :: digits =>
    if c ≠ '0' && (c :: digits).all Char.isDigit then some (c :: digits, unit) else none
  | _, _ => none

/-- The amount has to be a safe integer. -/
def parseRelativeWindow (value : List Char) : Option RelativeWindow :=
  (matchWindow value).bind fun (digits, unit) =>
    if numberOf digits < 2 ^ 53 then some ⟨numberOf digits, unit⟩ else none

/-! ### The zone -/

/-- The year that is shown, of its era. -/
def shownYear (year : Int) : Int := if 0 < year then year else 1 - year

/-- What `Date.UTC` makes of the fields that are shown.  The clocks are ahead by whole seconds, so
the milliseconds of the instant are those of the local time. -/
def wallTimeOf (zone : Offset) (instantMs : Int) : Option Int :=
  (Date.timeClip instantMs).bind fun instant =>
    let shown := localTime zone instant
    let wholeSeconds := Date.UTCTime (shownYear (Date.getUTCFullYear shown))
      (Date.getUTCMonth shown) (Date.getUTCDate shown) (Date.getUTCHours shown)
      (Date.getUTCMinutes shown) (Date.getUTCSeconds shown)
    wholeSeconds.map fun ms => ms + shown % 1000

def offsetAt (zone : Offset) (instantMs : Int) : Option Int :=
  (wallTimeOf zone instantMs).map fun wallMs => wallMs - instantMs

/-- The wall time taken with the offset at an instant near it. -/
def candidate (zone : Offset) (wallMs near : Int) : Option Int :=
  (offsetAt zone near).bind fun offset => Date.timeClip (wallMs - offset)

/-- `NaN` is not equal to itself. -/
def sameOffset (zone : Offset) (offsetAfter : Option Int) (t : Int) : Bool :=
  offsetAfter.isSome && offsetAt zone t = offsetAfter

/-- The instant of a wall time, or none where it throws.  The offsets in force a day either side
are the two that a change near it moves between: a wall time that happens twice matches both, and
one that never happens neither. -/
def instantOf (zone : Offset) (wallMs : Int) : Option Int := do
  let first ← candidate zone wallMs (wallMs - DAY_MS)
  let second ← candidate zone wallMs (wallMs + DAY_MS)
  let shown := [first, second].filter fun c => wallTimeOf zone c = some wallMs
  let offsetAfter := offsetAt zone (max first second)
  pure (shown.min?.getD
    (bisect (sameOffset zone offsetAfter) (min first second) (max first second)))

/-! ### Calendar arithmetic -/

def startOfDay (wallMs : Int) : Option Int :=
  (Date.timeClip wallMs).bind fun wall =>
    Date.UTC (Date.getUTCFullYear wall) (Date.getUTCMonth wall) (Date.getUTCDate wall)

/-- Weeks start on Monday. -/
def startOfNextBucketWall (wallMs : Int) : BucketAlias → Option Int
  | .hour => some (wallMs / HOUR_MS * HOUR_MS + HOUR_MS)
  | .day => (startOfDay wallMs).map fun start => start + DAY_MS
  | .week => (startOfDay wallMs).map fun start =>
      start + (7 - (Date.getUTCDay wallMs + 6) % 7) * DAY_MS
  | .month => (Date.timeClip wallMs).bind fun wall =>
      Date.UTC (Date.getUTCFullYear wall) (Date.getUTCMonth wall + 1) 1
  | .year => (Date.timeClip wallMs).bind fun wall => Date.UTC (Date.getUTCFullYear wall + 1) 0 1

/-- Back from the 31st is the last day of a shorter month. -/
def subtractMonthsWall (wallMs : Int) (months : Nat) : Option Int := do
  let wall ← Date.timeClip wallMs
  let firstOfTarget ← Date.UTC (Date.getUTCFullYear wall) (Date.getUTCMonth wall - months) 1
  let lastOfTarget ←
    Date.UTC (Date.getUTCFullYear firstOfTarget) (Date.getUTCMonth firstOfTarget + 1) 0
  let day ← startOfDay wall
  let target ← Date.UTC (Date.getUTCFullYear firstOfTarget) (Date.getUTCMonth firstOfTarget)
    (min (Date.getUTCDate wall) (Date.getUTCDate lastOfTarget))
  pure (target + (wallMs - day))

def subtractWindowWall (wallMs : Int) (window : RelativeWindow) : Option Int :=
  match window.unit with
  | .h => some (wallMs - window.amount * HOUR_MS)
  | .d => some (wallMs - window.amount * DAY_MS)
  | .w => some (wallMs - window.amount * 7 * DAY_MS)
  | .m => subtractMonthsWall wallMs window.amount
  | .y => subtractMonthsWall wallMs (window.amount * 12)

/-! ### Ranges -/

/-- The instant of a wall time as a `Date`. -/
def dateOf (zone : Offset) (wallMs : Int) : Option Date := (instantOf zone wallMs).bind Date.ofMs

/-- The wall time at which the bucket that an instant is in ends. -/
def endWallOf (zone : Offset) (instant : Date) (bucket : BucketAlias) : Option Int :=
  (wallTimeOf zone instant.ms).bind fun wall => startOfNextBucketWall wall bucket

/-- `startOfNextBucket`; none where it throws. -/
def startOfNextBucket (zone : Offset) (instant : Date) (bucket : BucketAlias) : Option Date :=
  (endWallOf zone instant bucket).bind (dateOf zone)

/-- The wall time a window's length before another, where a `Date` has room for it. -/
def startWallOf (endWall : Int) (window : RelativeWindow) : Option Int :=
  (subtractWindowWall endWall window).filter fun startWall =>
    -MAX_WALL_MS ≤ startWall && startWall ≤ MAX_WALL_MS

structure ResolvedRange : Type where
  startISO : List Char
  endISO : List Char
  deriving DecidableEq

/-- A window that cannot be read, or reaches too far, gives an empty range. -/
def resolveRelativeRange (zone : Offset) (last : List Char) (bucket : BucketAlias) (now : Date) :
    Option ResolvedRange := do
  let endWall ← endWallOf zone now bucket
  let stop ← dateOf zone endWall
  match (parseRelativeWindow last).bind (startWallOf endWall) with
  | none => pure ⟨stop.toISOString, stop.toISOString⟩
  | some startWall => do
    let start ← dateOf zone startWall
    pure ⟨start.toISOString, stop.toISOString⟩

/-! ### What the query accepts -/

def LAST_UNIT_MS : RelativeUnit → Int
  | .h => 60 * 60 * 1000
  | .d => 24 * 60 * 60 * 1000
  | .w => 7 * 24 * 60 * 60 * 1000
  | .m => 30 * 24 * 60 * 60 * 1000
  | .y => 365 * 24 * 60 * 60 * 1000

def MAX_DATE_RANGE_MS : Int := 8640000000000000

/-- `validateRelativeWindow`, of a window that is sent and a query without a start and an end;
no more is asked of one that cannot be read. -/
def validateRelativeWindow (maxBuckets : Int) (bucket : BucketAlias) (last : List Char) : Bool :=
  match parseRelativeWindow last with
  | none => true
  | some window =>
    let unitMs := LAST_UNIT_MS window.unit
    window.amount ≤ MAX_DATE_RANGE_MS / unitMs &&
      -(-(window.amount * unitMs) / (resolveBucket bucket).approxMs) + 2 ≤ maxBuckets

/-- What `last` may be, where it is sent. -/
def acceptsWindow (maxBuckets : Int) (bucket : BucketAlias) (last : List Char) : Bool :=
  (matchWindow last).isSome && validateRelativeWindow maxBuckets bucket last

end LakiraBackend.Analytics
