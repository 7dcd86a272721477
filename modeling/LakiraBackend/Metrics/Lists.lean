import LakiraBackend.JavaScript.Coercion
import LakiraBackend.Metrics.Tables
import Mathlib.Data.List.Sort

/-!
# The lists of logs and of settings

The lists page in one way: the rows a condition holds of, in the order of a column and of
their ids, after the cursor when that is of the same sort, and one more row than the page
has.  A cursor is a JSON text of the sort, and of the last row's id and column.
-/

namespace LakiraBackend.Metrics

open LakiraBackend.JavaScript LakiraBackend.Postgres

/-! ### The members of a cursor -/

/-- What the engine makes of dates and numbers. -/
structure Engine : Type where
  /-- `new Date(text)`, of a text in another format than `toISOString` writes. -/
  otherDate : List Char → Option Date
  /-- `String` of a number, by its literal. -/
  numberText : List Char → List Char
  /-- `new Date()`. -/
  now : Date

/-- At the epoch; it reads no other texts, and writes a number as it was sent. -/
def Engine.epoch : Engine := ⟨fun _ => none, fun literal => literal, ⟨0, Date.inRange_zero⟩⟩

/-- A value that is bound in a predicate; an invalid date is no date. -/
inductive Bound : Type
  | undefined
  | date (d : Option Date)
  | json (v : Json)

/-- `cursor.name!`. -/
def asSent (name : String) (cursor : Json) : Bound :=
  match cursor.get name with
  | some v => .json v
  | none => .undefined

/-- `cursor.name ?? value`. -/
def orElse (name : String) (value : Json) (cursor : Json) : Bound :=
  match cursor.get name with
  | some .null => .json value
  | some v => .json v
  | none => .json value

section

variable (E : Engine)

/-- `new Date(cursor.name!)`; none where it throws. -/
def sentDate (name : String) (cursor : Json) : Option Bound :=
  match cursor.get name with
  | some v => (v.toDate E.numberText E.otherDate).map .date
  | none => some (.date none)

/-- `cursor.name ? new Date(cursor.name) : new Date()`. -/
def sentDateOrNow (name : String) (cursor : Json) : Option Bound :=
  match cursor.get name with
  | some v =>
    if v.truthy then (v.toDate E.numberText E.otherDate).map .date else some (.date (some E.now))
  | none => some (.date (some E.now))

end

/-- What a time is compared with; the query throws where that is no date. -/
def Bound.time : Bound → Option (Option Int)
  | date (some d) => some (some d.ms)
  | _ => none

/-- What a column is compared with: undefined and null are NULL, and the query throws at a value
of another type.  That the database reads some texts as numbers or as booleans is left out. -/
def Bound.value {K : Type} (of : Json → Option K) : Bound → Option (Option K)
  | undefined => some none
  | json .null => some none
  | json v => (of v).map some
  | date _ => none

/-! ### Pages by cursor -/

inductive Dir : Type
  | ASC
  | DESC
  deriving DecidableEq

/-- What a list is sorted by: an expression of the query, how it is written to a cursor, what is
bound of a cursor, and what the database compares with then. -/
structure Column (Row : Type) : Type 1 where
  K : Type
  order : LinearOrder K
  of : Row → K
  payload : Row → List (List Char × Json)
  last : Json → Option Bound
  compared : Bound → Option (Option K)

instance {Row : Type} (C : Column Row) : LinearOrder C.K := C.order

/-- What the column is compared with; none where the query throws. -/
def Column.read {Row : Type} (C : Column Row) (cursor : Json) : Option (Option C.K) :=
  (C.last cursor).bind C.compared

/-- What a list returns; `F` is its filter. -/
structure ListResult (D F : Type) : Type where
  items : List D
  nextCursor : Option (List Char)
  sort : List Char
  limit : Nat
  q : Option String
  filter : Option F
  totalCount : Option Nat

variable {Row : Type} (C : Column Row) (id : Row → Uuid)

/-- `buildOrder`. -/
def buildOrder (dir : Dir) (r s : Row) : Prop :=
  match dir with
  | .ASC => C.of r < C.of s ∨ C.of r = C.of s ∧ id r ≤ id s
  | .DESC => C.of s < C.of r ∨ C.of s = C.of r ∧ id s ≤ id r

instance (dir : Dir) (r s : Row) : Decidable (buildOrder C id dir r s) := by
  cases dir <;> exact inferInstanceAs (Decidable (_ ∨ _))

/-- The row comes after the position; of two at one place, where the id is not NULL. -/
def isBeyond (dir : Dir) (k : C.K) (i : Option Uuid) (r : Row) : Bool :=
  match dir with
  | .ASC => C.of r > k || (C.of r = k && i.any (id r > ·))
  | .DESC => C.of r < k || (C.of r = k && i.any (id r < ·))

def uuidOf : Json → Option Uuid
  | .str s => Uuid.ofText s
  | _ => none

/-- `buildCursorPredicate`.  No row is beyond NULL. -/
def buildCursorPredicate (dir : Dir) (cursor : Json) : Option (Row → Bool) :=
  (C.read cursor).bind fun k => ((asSent "id" cursor).value uuidOf).map fun i r =>
    k.any fun k => isBeyond C id dir k i r

def encodeCursor (sort : List Char) (last : Row) : List Char :=
  (Json.obj (("sort".toList, .str sort) :: ("id".toList, .str (id last).text) ::
    C.payload last)).toBase64url

/-- `cursor && cursor.sort === sort`. -/
def sameSort (sort : List Char) (cursor : Json) : Bool :=
  match cursor.get "sort" with
  | some (.str s) => s = sort
  | _ => false

/-- The condition of the rows a page is read from. -/
def windowWhere (dir : Dir) (sort : List Char) (after : Option (List Char))
    (baseWhere : Row → Bool) : Option (Row → Bool) :=
  match after.bind Json.ofBase64url with
  | some cursor =>
    if sameSort sort cursor then
      (buildCursorPredicate C id dir cursor).map fun p r => baseWhere r && p r
    else some baseWhere
  | none => some baseWhere

/-- `Math.min(Math.max(limit || 20, 1), 100)`. -/
def clampLimit (limit : Nat) : Nat := min (max (if limit = 0 then 20 else limit) 1) 100

/-- What the lists ask for. -/
structure ListOpts (F : Type) : Type where
  limit : Nat
  sort : List Char
  q : Option String
  filter : Option F
  after : Option (List Char)
  includeTotal : Bool
  deriving DecidableEq

/-- A page of the rows of a table; none where the query throws. -/
def listByCursor {D F : Type} (toDomain : Row → D) (dir : Dir) (opts : ListOpts F)
    (rows : List Row) (baseWhere : Row → Bool) : Option (ListResult D F) :=
  let pageSize := clampLimit opts.limit
  let totalCount := if opts.includeTotal then some (rows.countP baseWhere) else none
  (windowWhere C id dir opts.sort opts.after baseWhere).map fun where' =>
    let found := ((rows.filter where').insertionSort (buildOrder C id dir)).take (pageSize + 1)
    let hasMore := pageSize < found.length
    let slice := if hasMore then found.take pageSize else found
    let nextCursor := if hasMore then slice.getLast?.map (encodeCursor C id opts.sort) else none
    ⟨slice.map toDomain, nextCursor, opts.sort, pageSize, opts.q, opts.filter, totalCount⟩

/-! ### Columns -/

/-- A column of times, of which a cursor has one. -/
def dateColumn (last : Json → Option Bound) (name : String) (of : Row → Date) : Column Row where
  K := Int
  order := inferInstance
  of r := (of r).ms
  payload r := [(name.toList, .str (of r).toISOString)]
  last := last
  compared := Bound.time

/-- `sort` without its sign, and what the sign says. -/
def signOf : List Char → Dir × List Char
  | '-' :: s => (.DESC, s)
  | s => (.ASC, s)

/-- A metric of the user in the organization that is not deleted, `includeForOwnership`. -/
def owns (userId organizationId : Uuid) (m : Metric) : Bool :=
  m.userId = userId && m.organizationId = organizationId && m.deletedAt.isNone

/-- The inner join of a row's metric. -/
def joinsMetric {V : Type} (db : Db V) (p : Metric → Bool) (metricId : Uuid) : Bool :=
  db.metrics.rows.any fun m => m.id = metricId && p m

/-! ### Logs -/

inductive LogSortField : Type
  | createdAt
  | updatedAt
  | logValue
  | loggedAt
  deriving DecidableEq

structure LogFilter (V : Type) : Type where
  metricId : Option Uuid
  logValue : Option V

def LogSortField.text : LogSortField → List Char
  | createdAt => "createdAt".toList
  | updatedAt => "updatedAt".toList
  | logValue => "logValue".toList
  | loggedAt => "loggedAt".toList

def LogSortField.ofText (s : List Char) : Option LogSortField :=
  [createdAt, updatedAt, logValue, loggedAt].find? fun f => f.text = s

def normalizeLogSort (sort : List Char) : LogSortField × Dir :=
  match LogSortField.ofText (signOf sort).2 with
  | some field => (field, (signOf sort).1)
  | none => (.createdAt, .DESC)

section

variable {V : Type} [LinearOrder V] (N : Numbers V) (E : Engine)

/-- What `buildCursorPredicate` compares the column with; none where it throws. -/
def lastLog (field : LogSortField) (cursor : Json) : Option Bound :=
  match field with
  | .createdAt => sentDate E "createdAt" cursor
  | .updatedAt => sentDate E "updatedAt" cursor
  | .logValue => some (asSent "logValue" cursor)
  | .loggedAt => sentDate E "loggedAt" cursor

def logValueColumn : Column (MetricLog V) where
  K := V
  order := inferInstance
  of := MetricLog.logValue
  payload r := [("logValue".toList, .num (N.literal r.logValue))]
  last := lastLog E .logValue
  compared := Bound.value fun v => match v with
    | .num l => N.ofLiteral l
    | _ => none

def logColumn : LogSortField → Column (MetricLog V)
  | .createdAt => dateColumn (lastLog E .createdAt) "createdAt" MetricLog.createdAt
  | .updatedAt => dateColumn (lastLog E .updatedAt) "updatedAt" MetricLog.updatedAt
  | .logValue => logValueColumn N E
  | .loggedAt => dateColumn (lastLog E .loggedAt) "loggedAt" MetricLog.loggedAt

/-- `buildWhere`; a value is a condition where it is truthy. -/
def buildLogWhere [Zero V] (trim : String → String) (filter : Option (LogFilter V))
    (q : Option String) (r : MetricLog V) : Bool :=
  (match filter.bind LogFilter.metricId with
    | some metricId => r.metricId = metricId
    | none => true) &&
  (match filter.bind LogFilter.logValue with
    | some logValue => if logValue = 0 then true else r.logValue = logValue
    | none => true) &&
  match q.filter fun q => trim q ≠ "" with
    | some q => (N.ofText q).all fun numeric => some r.logValue = numeric
    | none => true

/-- The rows of the query: those of the user's metrics for which its condition holds. -/
def logWhere [Zero V] (trim : String → String) (db : Db V) (userId organizationId : Uuid)
    (opts : ListOpts (LogFilter V)) (r : MetricLog V) : Bool :=
  buildLogWhere N trim opts.filter opts.q r &&
    joinsMetric db (owns userId organizationId) r.metricId

def listLogs [Zero V] (trim : String → String) (db : Db V) (userId organizationId : Uuid)
    (opts : ListOpts (LogFilter V)) : Option (ListResult (MetricLogDomain V) (LogFilter V)) :=
  let (field, dir) := normalizeLogSort opts.sort
  listByCursor (logColumn N E field) MetricLog.id toLogDomain dir opts db.logs.rows
    (logWhere N trim db userId organizationId opts)

end

/-! ### Settings -/

inductive SettingsSortField : Type
  | createdAt
  | updatedAt
  | isActive
  deriving DecidableEq

structure SettingsFilter : Type where
  metricId : Option Uuid
  isActive : Option Bool

def SettingsSortField.text : SettingsSortField → List Char
  | createdAt => "createdAt".toList
  | updatedAt => "updatedAt".toList
  | isActive => "isActive".toList

def SettingsSortField.ofText (s : List Char) : Option SettingsSortField :=
  [createdAt, updatedAt, isActive].find? fun f => f.text = s

def normalizeSettingsSort (sort : List Char) : SettingsSortField × Dir :=
  match SettingsSortField.ofText (signOf sort).2 with
  | some field => (field, (signOf sort).1)
  | none => (.createdAt, .DESC)

section

variable {V : Type} (E : Engine)

def lastSettings (field : SettingsSortField) (cursor : Json) : Option Bound :=
  match field with
  | .createdAt => sentDate E "createdAt" cursor
  | .updatedAt => sentDate E "updatedAt" cursor
  | .isActive => some (asSent "isActive" cursor)

def isActiveColumn : Column (MetricSettings V) where
  K := Bool
  order := inferInstance
  of := MetricSettings.isActive
  payload r := [("isActive".toList, .bool r.isActive)]
  last := lastSettings E .isActive
  compared := Bound.value fun v => match v with
    | .bool b => some b
    | _ => none

def settingsColumn : SettingsSortField → Column (MetricSettings V)
  | .createdAt => dateColumn (lastSettings E .createdAt) "createdAt" MetricSettings.createdAt
  | .updatedAt => dateColumn (lastSettings E .updatedAt) "updatedAt" MetricSettings.updatedAt
  | .isActive => isActiveColumn E

def buildSettingsWhere (filter : Option SettingsFilter) (r : MetricSettings V) : Bool :=
  (match filter.bind SettingsFilter.metricId with
    | some metricId => r.metricId = metricId
    | none => true) &&
  match filter.bind SettingsFilter.isActive with
    | some isActive => r.isActive = isActive
    | none => true

def settingsWhere (db : Db V) (userId organizationId : Uuid) (opts : ListOpts SettingsFilter)
    (r : MetricSettings V) : Bool :=
  buildSettingsWhere opts.filter r && joinsMetric db (owns userId organizationId) r.metricId

def listSettings (db : Db V) (userId organizationId : Uuid) (opts : ListOpts SettingsFilter) :
    Option (ListResult (MetricSettingsEntity V) SettingsFilter) :=
  let (field, dir) := normalizeSettingsSort opts.sort
  listByCursor (settingsColumn E field) MetricSettings.id toEntity dir opts db.settings.rows
    (settingsWhere db userId organizationId opts)

end

/-! ### Following the cursors -/

/-- Page after page, until no cursor is returned. -/
inductive Walk {D F : Type} (list : Option (List Char) → Option (ListResult D F)) :
    Option (List Char) → List (ListResult D F) → Prop
  | last {after : Option (List Char)} {page : ListResult D F} : list after = some page →
      page.nextCursor = none → Walk list after [page]
  | more {after : Option (List Char)} {page : ListResult D F} {cursor : List Char}
      {pages : List (ListResult D F)} : list after = some page →
      page.nextCursor = some cursor → Walk list (some cursor) pages →
      Walk list after (page :: pages)

/-- All that some pages have. -/
def enumerated {D F : Type} (pages : List (ListResult D F)) : List D :=
  pages.flatMap ListResult.items

end LakiraBackend.Metrics
