import LakiraBackend.Metrics.KeySegments
import LakiraBackend.Metrics.LogFilters
import LakiraBackend.Metrics.MalformedCursors

/-!
# What the list schemas hand on

A list is sent a query, and its schema hands on what the list is asked for, or refuses it.  The
key of a page is made of that, and so is what the repository is asked.
-/

namespace LakiraBackend.Metrics

open LakiraBackend.JavaScript LakiraBackend.Postgres

/-- The query of a list: a filter is sent as keys of the query, or as an object. -/
structure ListQuery (Field S : Type) : Type where
  limit : Nat
  field : Field
  dir : Dir
  q : Option String
  after : Option (List Char)
  includeTotal : Bool
  keys : S
  filter : Option S

structure SentMetricFilter : Type where
  name : Option String
  categoryId : Option QueryValue

structure SentSettingsFilter : Type where
  metricId : Option QueryValue
  isActive : Option QueryValue

structure SentCategoryFilter : Type where
  name : Option String

/-- None where the value is refused. -/
def coerceBooleanString (toLowerCase : String → String) : QueryValue → Option Bool
  | .text s =>
    if toLowerCase (trim s) = "true" then some true
    else if toLowerCase (trim s) = "false" then some false
    else none
  | _ => none

/-- `listMetricQueryViaCursor` of the metrics. -/
def parseMetricsQuery (query : ListQuery MetricSortField SentMetricFilter) :
    Option (ListOpts MetricFilter) := do
  let q ← normalizedSearchParam query.q
  let keyName ← normalizedSearchParam query.keys.name
  let fieldName ← normalizedSearchParam (query.filter.bind SentMetricFilter.name)
  let keyId ← optional zUUID (query.keys.categoryId.bind dropBlank)
  let fieldId ← optional zUUID (query.filter.bind SentMetricFilter.categoryId)
  let name := keyName <|> fieldName
  let categoryId := keyId <|> fieldId
  let filter := if name.isSome || categoryId.isSome then some ⟨name, categoryId⟩ else none
  let after := query.after.bind (CursorList.metrics query.field query.dir).after
  pure ⟨query.limit, sortText query.dir query.field.text, q, filter, after, query.includeTotal⟩

/-- `listMetricSettingsViaCursorQuery`. -/
def parseSettingsQuery (toLowerCase : String → String)
    (query : ListQuery SettingsSortField SentSettingsFilter) :
    Option (ListOpts SettingsQueryFilter) := do
  let q ← normalizedSearchParam query.q
  let keyId ← optional zUUID (query.keys.metricId.bind dropBlank)
  let fieldId ← optional zUUID (query.filter.bind SentSettingsFilter.metricId)
  let keyActive ← optional (coerceBooleanString toLowerCase) (query.keys.isActive.bind dropBlank)
  let fieldActive ← optional (coerceBooleanString toLowerCase)
    (query.filter.bind SentSettingsFilter.isActive)
  let metricId := keyId <|> fieldId
  let isActive := keyActive <|> fieldActive
  let filter := if metricId.isSome || isActive.isSome then some ⟨metricId, isActive⟩ else none
  let after := query.after.bind (CursorList.metricSettings query.field query.dir).after
  pure ⟨query.limit, sortText query.dir query.field.text, q, filter, after, query.includeTotal⟩

/-- `listCategoriesQuery`, and the filter the controller makes of its name. -/
def parseCategoriesQuery (query : ListQuery CategorySortField SentCategoryFilter) :
    Option (ListOpts CategoryFilter) := do
  let q ← normalizedSearchParam query.q
  let keyName ← normalizedSearchParam query.keys.name
  let fieldName ← normalizedSearchParam (query.filter.bind SentCategoryFilter.name)
  let filter := (keyName <|> fieldName).map fun name => ⟨some name⟩
  let after := query.after.bind (CursorList.categories query.field query.dir).after
  pure ⟨query.limit, sortText query.dir query.field.text, q, filter, after, query.includeTotal⟩

/-- `listMetricQueryViaCursor` of the logs. -/
def parseLogsQuery {V : Type} [LinearOrder V] [Zero V] (N : Numbers V)
    (query : ListMetricLogsQuery) (after : Option (List Char)) :
    Option (ListOpts (LogQueryFilter V)) :=
  query.parse N (after.bind (CursorList.metricLogs query.field query.dir).after)

/-! ### The four lists -/

/-- The query of one of the lists. -/
inductive AnyQuery : Type
  | metrics (query : ListQuery MetricSortField SentMetricFilter)
  | metricLogs (query : ListMetricLogsQuery) (after : Option (List Char))
  | metricSettings (query : ListQuery SettingsSortField SentSettingsFilter)
  | categories (query : ListQuery CategorySortField SentCategoryFilter)

/-- What one of the lists is asked for. -/
inductive Listed (V : Type) : Type
  | metrics (opts : ListOpts MetricFilter)
  | metricLogs (opts : ListOpts (LogQueryFilter V))
  | metricSettings (opts : ListOpts SettingsQueryFilter)
  | categories (opts : ListOpts CategoryFilter)

def AnyQuery.parse {V : Type} [LinearOrder V] [Zero V] (D : Deps V) :
    AnyQuery → Option (Listed V)
  | metrics query => (parseMetricsQuery query).map .metrics
  | metricLogs query after => (parseLogsQuery D.numbers query after).map .metricLogs
  | metricSettings query => (parseSettingsQuery D.toLowerCase query).map .metricSettings
  | categories query => (parseCategoriesQuery query).map .categories

/-- What a repository is asked for. -/
structure RepositoryQuery (F : Type) : Type where
  pageSize : Nat
  sort : List Char
  q : Option String
  filter : Option F
  cursor : Option Json
  includeTotal : Bool

def ListOpts.repositoryQuery {F : Type} (opts : ListOpts F) : RepositoryQuery F :=
  ⟨clampLimit opts.limit, opts.sort, opts.q, opts.filter, decodeCursor opts.after,
    opts.includeTotal⟩

inductive Asked (V : Type) : Type
  | metrics (query : RepositoryQuery MetricFilter)
  | metricLogs (query : RepositoryQuery (LogQueryFilter V))
  | metricSettings (query : RepositoryQuery SettingsQueryFilter)
  | categories (query : RepositoryQuery CategoryFilter)

inductive ListKind : Type
  | metrics
  | metricLogs
  | metricSettings
  | categories
  deriving DecidableEq

def ListKind.feature : ListKind → List Char
  | metrics => METRIC_CURSOR_FEATURE
  | metricLogs => METRIC_LOG_CURSOR_FEATURE
  | metricSettings => METRIC_SETTINGS_CURSOR_FEATURE
  | categories => METRIC_CATEGORY_CURSOR_FEATURE

/-- What a write of a user in an organization deletes of the pages of a list. -/
def ListKind.pattern (userId organizationId : Uuid) : ListKind → List Char
  | metrics => cursorPattern userId organizationId METRIC_CURSOR_FEATURE
  | metricLogs => cursorPattern userId organizationId METRIC_LOG_CURSOR_FEATURE
  | metricSettings => cursorPattern userId organizationId METRIC_SETTINGS_CURSOR_FEATURE
  | categories => categoryCursorPattern userId

namespace Listed

variable {V : Type} (D : Deps V) (userId organizationId : Uuid)

def kind : Listed V → ListKind
  | metrics _ => .metrics
  | metricLogs _ => .metricLogs
  | metricSettings _ => .metricSettings
  | categories _ => .categories

def asked : Listed V → Asked V
  | metrics opts => .metrics opts.repositoryQuery
  | metricLogs opts => .metricLogs opts.repositoryQuery
  | metricSettings opts => .metricSettings opts.repositoryQuery
  | categories opts => .categories opts.repositoryQuery

/-- The key of its page. -/
def key : Listed V → List Char
  | metrics opts => metricsCursorCacheKey userId organizationId opts
  | metricLogs opts => metricLogsCursorCacheKey D userId organizationId opts
  | metricSettings opts => metricSettingsCursorCacheKey userId organizationId opts
  | categories opts => categoriesCursorCacheKey userId organizationId opts

end Listed

/-! ### Pages are of what is asked -/

/-- A page is determined by what the repository is asked for. -/
theorem listByCursor_asked {Row D F : Type} {C : Column Row} {id : Row → Uuid} {toDomain : Row → D}
    {dir : Dir} {opts opts' : ListOpts F} {rows : List Row} {baseWhere : Row → Bool}
    (h : opts.repositoryQuery = opts'.repositoryQuery) :
    listByCursor C id toDomain dir opts rows baseWhere =
      listByCursor C id toDomain dir opts' rows baseWhere := by
  simp only [ListOpts.repositoryQuery, RepositoryQuery.mk.injEq] at h
  obtain ⟨hlimit, hsort, hq, hfilter, hcursor, htotal⟩ := h
  have hnone : ∀ after : Option (List Char), after.bind Json.ofBase64url = decodeCursor after := by
    intro after
    cases after with
    | none => rfl
    | some s => cases s <;> rfl
  have hwindow : windowWhere C id dir opts'.sort opts.after baseWhere =
      windowWhere C id dir opts'.sort opts'.after baseWhere := by
    rw [windowWhere, windowWhere, hnone, hnone, hcursor]
  simp only [listByCursor, hlimit, hsort, hq, hfilter, htotal, hwindow]

end LakiraBackend.Metrics
