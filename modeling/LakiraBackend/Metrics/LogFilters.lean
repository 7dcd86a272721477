import LakiraBackend.Metrics.ListPaging
import LakiraBackend.Metrics.Percentages
import LakiraBackend.Metrics.Reads

/-!
# The filters of the list of logs

A request may ask for the logs of one metric, for those of one value, and for those that a search
finds; `listMetricQueryViaCursor` reads what is sent.  The pages of the list have the logs that
all of this holds of exactly where no filter by the value zero is lost (`filters_exact_iff`):
`buildWhere` takes a value for a condition where it is truthy.
-/

namespace LakiraBackend.Metrics

open LakiraBackend.JavaScript LakiraBackend.Postgres

/-! ### What is sent -/

/-- A value of the query string. -/
inductive QueryValue : Type
  | text (s : String)
  | list (values : List QueryValue)
  | object

/-- Both filters, in one of their two spellings. -/
structure SentFilter : Type where
  logValue : Option QueryValue
  metricId : Option QueryValue

/-- The query of the list, with the filters as they are sent. -/
structure ListMetricLogsQuery : Type where
  limit : Nat
  field : LogSortField
  dir : Dir
  q : Option String
  includeTotal : Bool
  /-- `filter[logValue]` and `filter[metricId]`, as keys of the query. -/
  keys : SentFilter
  filter : Option SentFilter

/-- Of several texts, the first. -/
def QueryValue.first : QueryValue → QueryValue
  | .list (v :: _) => v
  | v => v

section

variable {V : Type} [LinearOrder V] [Zero V] (N : Numbers V)

/-- None where the value is refused. -/
def coerceNonNegativeNumber (v : QueryValue) : Option V :=
  match v.first with
  | .text s =>
    if trim s = "" then none
    else (N.ofText (trim s)).join.filter fun n => 0 ≤ n
  | _ => none

/-- `zUUID`. -/
def zUUID : QueryValue → Option IdText
  | .text s => match h : Uuid.ofText s.toList with
    | some id => some ⟨s.toList, id, h⟩
    | none => none
  | _ => none

/-- A blank text is no filter, where it has a key of its own. -/
def dropBlank : QueryValue → Option QueryValue
  | .text s => if trim s = "" then none else some (.text s)
  | v => some v

/-- A value that may be left out. -/
def optional {α β : Type} (parse : α → Option β) : Option α → Option (Option β)
  | none => some none
  | some v => (parse v).map some

/-- A search that is sent has a text. -/
def normalizedSearchParam (q : Option String) : Option (Option String) :=
  optional (fun q => if trim q = "" then none else some (trim q)) q

namespace ListMetricLogsQuery

variable (query : ListMetricLogsQuery)

/-- `filter[logValue]`, or else `filter.logValue`; none where one of them is refused. -/
def logValue : Option (Option V) := do
  let key ← optional (coerceNonNegativeNumber N) query.keys.logValue
  let field ← optional (coerceNonNegativeNumber N) (query.filter.bind SentFilter.logValue)
  pure (key <|> field)

def metricId : Option (Option IdText) := do
  let key ← optional zUUID (query.keys.metricId.bind dropBlank)
  let field ← optional zUUID (query.filter.bind SentFilter.metricId)
  pure (key <|> field)

/-- `listMetricQueryViaCursor`: what the list is asked for; none where the query is refused. -/
def parse (after : Option (List Char)) : Option (ListOpts (LogQueryFilter V)) := do
  let q ← normalizedSearchParam query.q
  let logValue ← query.logValue N
  let metricId ← query.metricId
  let filter := if logValue.isSome || metricId.isSome then some ⟨metricId, logValue⟩ else none
  pure ⟨query.limit, sortText query.dir query.field.text, q, filter, after, query.includeTotal⟩

/-! ### What is asked for -/

def ofMetric (r : MetricLog V) : Bool := query.metricId.join.all fun id => r.metricId = id.id

def ofValue (r : MetricLog V) : Bool := (query.logValue N).join.all fun v => r.logValue = v

/-- A search for what is not a number finds all. -/
def isFound (r : MetricLog V) : Bool :=
  query.q.all fun q => (N.ofText (trim q)).all fun numeric => some r.logValue = numeric

/-- Every filter of the request holds of the log, and the search finds it. -/
def satisfied (r : MetricLog V) : Bool := query.ofMetric r && query.ofValue N r && query.isFound N r

end ListMetricLogsQuery

end

/-! ### What is listed -/

section

variable {V : Type} [LinearOrder V] [Zero V] {N : Numbers V} {query : ListMetricLogsQuery}
  {opts : ListOpts (LogQueryFilter V)} {after : Option (List Char)}

/-- A query that is let through, and what the list is asked for. -/
theorem parse_eq_some (h : query.parse N after = some opts) :
    ∃ q logValue metricId, normalizedSearchParam query.q = some q ∧
      query.logValue N = some logValue ∧ query.metricId = some metricId ∧
      opts = ⟨query.limit, sortText query.dir query.field.text, q,
        if logValue.isSome || metricId.isSome then some ⟨metricId, logValue⟩ else none, after,
        query.includeTotal⟩ := by
  unfold ListMetricLogsQuery.parse at h
  obtain ⟨q, hq, h⟩ := Option.bind_eq_some_iff.mp h
  obtain ⟨logValue, hvalue, h⟩ := Option.bind_eq_some_iff.mp h
  obtain ⟨metricId, hmetric, h⟩ := Option.bind_eq_some_iff.mp h
  exact ⟨q, logValue, metricId, hq, hvalue, hmetric, (Option.some.inj h).symm⟩

theorem normalizedSearchParam_eq_some {q q' : Option String}
    (h : normalizedSearchParam q = some q') : q' = q.map trim ∧ ∀ s ∈ q, trim s ≠ "" := by
  cases q with
  | none =>
    cases h
    exact ⟨rfl, fun s hs => absurd hs (Option.not_mem_none s)⟩
  | some s =>
    simp only [normalizedSearchParam, optional] at h
    split at h
    · cases h
    · rename_i hne
      cases h
      exact ⟨rfl, fun s' hs' => by rwa [← Option.some.inj hs']⟩

/-- The condition of the list is that of the request, but for a value that is zero. -/
theorem buildLogWhere_eq (h : query.parse N after = some opts) (r : MetricLog V) :
    buildLogWhere N trim (opts.filter.map LogQueryFilter.toFilter) opts.q r =
      (query.ofMetric r && (query.ofValue N r || query.logValue N = some (some 0)) &&
        query.isFound N r) := by
  obtain ⟨q, logValue, metricId, hq, hvalue, hmetric, rfl⟩ := parse_eq_some h
  obtain ⟨rfl, hne⟩ := normalizedSearchParam_eq_some hq
  unfold buildLogWhere
  congr 1
  · congr 1
    · rw [ListMetricLogsQuery.ofMetric, hmetric]
      cases metricId <;> cases logValue <;> rfl
    · rw [ListMetricLogsQuery.ofValue, hvalue]
      cases logValue with
      | none => cases metricId <;> rfl
      | some v =>
        change (if v = 0 then true else decide (r.logValue = v)) = _
        by_cases hv : v = 0
        · simp [hv]
        · simp [hv]
  · rw [ListMetricLogsQuery.isFound]
    cases hs : query.q with
    | none => rfl
    | some s =>
      have hkept : (some (trim s)).filter (fun q => trim q ≠ "") = some (trim s) := by
        rw [Option.filter_some, if_pos]
        rw [trim_trim]
        simpa using hne s hs
      rw [Option.map_some, hkept, Option.all_some]

/-- **The rows that are listed**, whatever is asked for. -/
theorem listLogs_exact (E : Engine) (db : Db V)
    (userId organizationId : Uuid) (h : query.parse N none = some opts) :
    ExactPaging
      (fun after => listLogs N E trim db userId organizationId
        (({ opts with after := after } : ListOpts _).mapFilter LogQueryFilter.toFilter))
      toLogDomain
      (db.logs.rows.filter
        (logWhere N trim db userId organizationId (opts.mapFilter LogQueryFilter.toFilter)))
      (precedes (logColumn N E query.field) MetricLog.id query.dir) := by
  have hsort : opts.sort = sortText query.dir query.field.text := by
    obtain ⟨_, _, _, _, _, _, rfl⟩ := parse_eq_some h
    rfl
  have hlist : ∀ after, listLogs N E trim db userId organizationId
        (({ opts with after := after } : ListOpts _).mapFilter LogQueryFilter.toFilter) =
      listByCursor (logColumn N E query.field) MetricLog.id toLogDomain query.dir
        { opts.mapFilter LogQueryFilter.toFilter with after := after } db.logs.rows
        (logWhere N trim db userId organizationId (opts.mapFilter LogQueryFilter.toFilter)) := by
    intro after
    have hnormal : normalizeLogSort
        (({ opts with after := after } : ListOpts _).mapFilter LogQueryFilter.toFilter).sort =
          (query.field, query.dir) := by
      change normalizeLogSort opts.sort = _
      rw [hsort, normalizeLogSort_text]
    rw [listLogs, hnormal]
    rfl
  simp only [hlist]
  exact listByCursor_exact _ (logColumn_roundTrips E N query.field) db.logs.nodup
    MetricLogDomain.id fun _ => rfl

/-- **The pages have what the request asks for just where no filter by zero is lost**: there is
no such filter, or all that is asked for besides has the value zero. -/
theorem filters_exact_iff (E : Engine) (db : Db V)
    (userId organizationId : Uuid) (h : query.parse N none = some opts) :
    ExactPaging
        (fun after => listLogs N E trim db userId organizationId
          (({ opts with after := after } : ListOpts _).mapFilter LogQueryFilter.toFilter))
        toLogDomain
        (db.logs.rows.filter fun r =>
          query.satisfied N r && joinsMetric db (owns userId organizationId) r.metricId)
        (precedes (logColumn N E query.field) MetricLog.id query.dir) ↔
      (query.logValue N = some (some 0) → ∀ r ∈ db.logs.rows,
        joinsMetric db (owns userId organizationId) r.metricId = true →
          query.ofMetric r = true → query.isFound N r = true → r.logValue = 0) := by
  rw [(listLogs_exact E db userId organizationId h).filter_iff db.logs.nodup
    MetricLogDomain.id fun _ => rfl]
  have hwhere : ∀ r, logWhere N trim db userId organizationId
      (opts.mapFilter LogQueryFilter.toFilter) r =
        (query.ofMetric r && (query.ofValue N r || query.logValue N = some (some 0)) &&
          query.isFound N r && joinsMetric db (owns userId organizationId) r.metricId) := by
    intro r
    rw [logWhere]
    exact congrArg (· && _) (buildLogWhere_eq h r)
  constructor
  · intro hsame hzero r hr hjoins hmetric hfound
    have hvalue := hsame r hr
    rw [hwhere, ListMetricLogsQuery.satisfied, hjoins, hmetric, hfound, hzero,
      ListMetricLogsQuery.ofValue, hzero] at hvalue
    simpa using hvalue
  · intro hzero r hr
    rw [hwhere, ListMetricLogsQuery.satisfied]
    by_cases hlost : query.logValue N = some (some 0)
    · have hz := hzero hlost r hr
      rw [ListMetricLogsQuery.ofValue, hlost]
      cases hmetric : query.ofMetric r with
      | false => simp
      | true =>
        cases hfound : query.isFound N r with
        | false => simp
        | true =>
          cases hjoins : joinsMetric db (owns userId organizationId) r.metricId with
          | false => simp
          | true => simp [hz hjoins hmetric hfound]
    · simp [hlost]

end

/-! ### Two filters by value -/

def valueQuery (text : String) : ListMetricLogsQuery :=
  ⟨20, .createdAt, .DESC, none, true, ⟨none, none⟩, some ⟨some (.text text), none⟩⟩

def valueOpts (v : Fin 100) : ListOpts (LogQueryFilter (Fin 100)) :=
  ⟨20, sortText .DESC LogSortField.createdAt.text, none, some ⟨none, some v⟩, none, true⟩

/-- What is listed is exact for a value that is not zero. -/
theorem filters_exact_five :
    (walksDb.logs.rows.filter fun r => (valueQuery "5").satisfied percentages r &&
      joinsMetric walksDb (owns 1 2) r.metricId) = [firstWalk] ∧
    ExactPaging
      (fun after => listLogs percentages .epoch trim walksDb 1 2
        (({ valueOpts 5 with after := after } : ListOpts _).mapFilter LogQueryFilter.toFilter))
      toLogDomain
      (walksDb.logs.rows.filter fun r => (valueQuery "5").satisfied percentages r &&
        joinsMetric walksDb (owns 1 2) r.metricId)
      (precedes (logColumn percentages .epoch .createdAt) MetricLog.id .DESC) := by
  have hparse : (valueQuery "5").parse percentages none = some (valueOpts 5) := by decide +kernel
  have hvalue : (valueQuery "5").logValue percentages ≠ some (some 0) := by decide +kernel
  exact ⟨by decide +kernel,
    (filters_exact_iff .epoch walksDb 1 2 hparse).mpr fun hzero => absurd hzero hvalue⟩

/-- **A filter by zero is lost**: the log of the value five is listed, and counted. -/
theorem zero_lost :
    (valueQuery "0").parse percentages none = some (valueOpts 0) ∧
    (walksDb.logs.rows.filter fun r => (valueQuery "0").satisfied percentages r &&
      joinsMetric walksDb (owns 1 2) r.metricId) = [] ∧
    ((listLogs percentages .epoch trim walksDb 1 2
        ((valueOpts 0).mapFilter LogQueryFilter.toFilter)).map fun page =>
      (page.items, page.totalCount)) = some ([toLogDomain firstWalk], some 1) ∧
    ¬ ExactPaging
      (fun after => listLogs percentages .epoch trim walksDb 1 2
        (({ valueOpts 0 with after := after } : ListOpts _).mapFilter LogQueryFilter.toFilter))
      toLogDomain
      (walksDb.logs.rows.filter fun r => (valueQuery "0").satisfied percentages r &&
        joinsMetric walksDb (owns 1 2) r.metricId)
      (precedes (logColumn percentages .epoch .createdAt) MetricLog.id .DESC) := by
  have hparse : (valueQuery "0").parse percentages none = some (valueOpts 0) := by decide +kernel
  refine ⟨hparse, by decide +kernel, by decide +kernel, fun hexact => ?_⟩
  have hsame := ((listLogs_exact .epoch walksDb 1 2 hparse).filter_iff
    walksDb.logs.nodup MetricLogDomain.id fun _ => rfl).mp hexact firstWalk (by decide +kernel)
  revert hsame
  decide +kernel

end LakiraBackend.Metrics
