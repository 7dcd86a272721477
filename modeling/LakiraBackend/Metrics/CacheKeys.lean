import LakiraBackend.Metrics.Reads
import LakiraBackend.Redis.Glob

/-!
# The keys of the cache, and the patterns writes delete

A key is built of the request, with its ids as they are spelled; a pattern of the ids a
write has.  A part is joined to the next by a colon, and a text is encoded so that it has
none.
-/

namespace LakiraBackend.Metrics

open LakiraBackend.JavaScript LakiraBackend.Postgres

/-- `parts.join(":")`. -/
def joinParts (parts : List (List Char)) : List Char := [':'].intercalate parts

/-! ### Segments -/

inductive SegmentValue : Type
  | text (s : List Char)
  | number (literal : List Char)
  | boolean (b : Bool)
  | missing
  deriving DecidableEq

/-- What `encodeURIComponent` leaves alone of the two is encoded too. -/
def encodeSegmentText (s : List Char) : List Char :=
  (encodeURIComponent s).flatMap fun c =>
    if c = '_' then "%5F".toList else if c = '*' then "%2A".toList else [c]

def normalizeSegmentValue : SegmentValue → List Char
  | .missing => ['_']
  | .boolean b => if b then ['1'] else ['0']
  | .number literal => literal
  | .text s => if trimText s = [] then ['_'] else encodeSegmentText (trimText s)

/-- A text that may be missing, `value ?? ""`. -/
def optionalText (s : Option (List Char)) : SegmentValue := .text (s.getD [])

def cursorCacheNamespace (feature version : List Char) : List Char :=
  "cursor:".toList ++ (feature ++ (":v".toList ++ version))

/-- The version of every list's key is 4. -/
def buildCursorCacheKey (feature : List Char) (userId organizationId : Uuid)
    (segments : List (List Char × SegmentValue)) : List Char :=
  joinParts ([cursorCacheNamespace feature ['4'], normalizeSegmentValue (.text userId.text),
    "org:".toList ++ normalizeSegmentValue (.text organizationId.text)] ++
      segments.map fun s => s.1 ++ ':' :: normalizeSegmentValue s.2)

def METRIC_CURSOR_FEATURE : List Char := "metrics".toList

def METRIC_CATEGORY_CURSOR_FEATURE : List Char := "metric-categories".toList

def METRIC_SETTINGS_CURSOR_FEATURE : List Char := "metric-settings".toList

def METRIC_LOG_CURSOR_FEATURE : List Char := "metric-logs".toList

/-! ### Keys -/

/-- The segments all lists have, with those of their filter between. -/
def listSegments {F : Type} (opts : ListOpts F) (filter : List (List Char × SegmentValue)) :
    List (List Char × SegmentValue) :=
  [("l".toList, .number (Nat.toDigits 10 opts.limit)), ("s".toList, .text opts.sort),
    ("q".toList, optionalText (opts.q.map String.toList))] ++ filter ++
    [("after".toList, optionalText opts.after), ("it".toList, .boolean opts.includeTotal)]

section

variable {V : Type} (D : Deps V) (userId organizationId : Uuid)

def metricsCursorCacheKey (opts : ListOpts MetricFilter) : List Char :=
  buildCursorCacheKey METRIC_CURSOR_FEATURE userId organizationId (listSegments opts
    [("fn".toList, optionalText ((opts.filter.bind MetricFilter.name).map String.toList)),
      ("fc".toList, optionalText ((opts.filter.bind MetricFilter.categoryId).map IdText.text))])

def categoriesCursorCacheKey (opts : ListOpts CategoryFilter) : List Char :=
  buildCursorCacheKey METRIC_CATEGORY_CURSOR_FEATURE userId organizationId (listSegments opts
    [("fn".toList, optionalText ((opts.filter.bind CategoryFilter.name).map String.toList))])

def metricSettingsCursorCacheKey (opts : ListOpts SettingsQueryFilter) : List Char :=
  buildCursorCacheKey METRIC_SETTINGS_CURSOR_FEATURE userId organizationId (listSegments opts
    [("fm".toList,
        optionalText ((opts.filter.bind SettingsQueryFilter.metricId).map IdText.text)),
      ("fa".toList, match opts.filter.bind SettingsQueryFilter.isActive with
        | some b => .boolean b
        | none => .missing)])

def metricLogsCursorCacheKey (opts : ListOpts (LogQueryFilter V)) : List Char :=
  buildCursorCacheKey METRIC_LOG_CURSOR_FEATURE userId organizationId (listSegments opts
    [("fm".toList, optionalText ((opts.filter.bind LogQueryFilter.metricId).map IdText.text)),
      ("fn".toList, match opts.filter.bind LogQueryFilter.logValue with
        | some v => .number (D.numbers.literal v)
        | none => .missing)])

def MetricDetailInclude.text : MetricDetailInclude → List Char
  | category => "category".toList
  | logs => "logs".toList
  | settings => "settings".toList

/-- `includes.length ? includes.join(",") : "flat"`. -/
def includeText (includes : List MetricDetailInclude) : List Char :=
  if includes = [] then "flat".toList
  else [','].intercalate (includes.map MetricDetailInclude.text)

def metricEntryKey (metricId : List Char) (includes : List MetricDetailInclude) (logsLimit : Nat) :
    List Char :=
  joinParts ["metric".toList, organizationId.text, userId.text, metricId, "inc".toList,
    includeText includes, "ll".toList, Nat.toDigits 10 logsLimit]

def categoryEntryKey (categoryId : List Char) : List Char :=
  joinParts ["category".toList, organizationId.text, userId.text, categoryId]

def metricSettingEntryKey (settingsId : List Char) : List Char :=
  joinParts ["metricSetting".toList, organizationId.text, userId.text, settingsId]

def metricLogCacheKey (id metricId : List Char) : List Char :=
  joinParts ["log".toList, organizationId.text, userId.text, id, "m".toList, metricId]

/-- `value ? Date.parse(value) : "_"`. -/
def boundText (bound : Option Date) : List Char :=
  match bound with
  | some d => if d.ms < 0 then '-' :: Nat.toDigits 10 d.ms.natAbs else Nat.toDigits 10 d.ms.natAbs
  | none => ['_']

def metricLogStatsCacheKey (metricId : Option (List Char)) (startDate endDate : Option Date) :
    List Char :=
  joinParts ["logStats".toList, organizationId.text, userId.text, "m".toList,
    metricId.getD "all".toList, "s".toList, boundText startDate, "e".toList, boundText endDate]

def vizKey (k : SingleVizCacheKey) : List Char :=
  joinParts ["viz".toList, k.organizationId.text, k.userId.text, k.metricId,
    (resolveBucket k.range.bucket).iso, (D.vizHash k).map fun n => Buffer.digit n.val]

def vizDashKey (k : DashboardVizCacheKey) : List Char :=
  joinParts ["vizdash".toList, k.organizationId.text, k.userId.text,
    (resolveBucket k.range.bucket).iso, (D.vizDashHash k).map fun n => Buffer.digit n.val]

/-! ### Patterns -/

/-- Every list page of a feature, of a user in an organization. -/
def cursorPattern (feature : List Char) : List Char :=
  joinParts [cursorCacheNamespace feature ['*'], userId.text, "org".toList, organizationId.text,
    ['*']]

/-- In any organization. -/
def categoryCursorPattern : List Char :=
  joinParts [cursorCacheNamespace METRIC_CATEGORY_CURSOR_FEATURE ['*'], userId.text, ['*']]

def metricEntryPattern (metricId : List Char) : List Char :=
  joinParts ["metric".toList, organizationId.text, userId.text, metricId, ['*']]

def metricLogPattern (id : List Char) : List Char :=
  joinParts ["log".toList, organizationId.text, userId.text, id, ['*']]

def metricLogStatsPattern (metricId : List Char) : List Char :=
  joinParts ["logStats".toList, organizationId.text, userId.text, "m".toList, metricId, ['*']]

def vizPattern (metricId : List Char) : List Char :=
  joinParts ["viz".toList, organizationId.text, userId.text, metricId, ['*']]

def vizDashPattern : List Char :=
  joinParts ["vizdash".toList, organizationId.text, userId.text, ['*']]

end

end LakiraBackend.Metrics
