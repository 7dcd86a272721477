import LakiraBackend.Metrics.Visualizations

/-!
# The GET requests

What each is answered with on a database, and nothing is cached.
-/

namespace LakiraBackend.Metrics

open LakiraBackend.Auth (Err)
open LakiraBackend.JavaScript LakiraBackend.Postgres

/-- The filter of a list of logs, as it is sent and returned. -/
structure LogQueryFilter (V : Type) : Type where
  metricId : Option IdText
  logValue : Option V
  deriving DecidableEq

structure SettingsQueryFilter : Type where
  metricId : Option IdText
  isActive : Option Bool
  deriving DecidableEq

def LogQueryFilter.toFilter {V : Type} (f : LogQueryFilter V) : LogFilter V :=
  ⟨f.metricId.map IdText.id, f.logValue⟩

def SettingsQueryFilter.toFilter (f : SettingsQueryFilter) : SettingsFilter :=
  ⟨f.metricId.map IdText.id, f.isActive⟩

/-- The options, with what their filter stands for. -/
def ListOpts.mapFilter {F G : Type} (f : F → G) (opts : ListOpts F) : ListOpts G :=
  { opts with filter := opts.filter.map f }

/-- The page, with the filter that was sent. -/
def ListResult.withFilter {D F G : Type} (filter : Option G) (page : ListResult D F) :
    ListResult D G :=
  { page with filter := filter }

inductive GetRequest (V : Type) : Type
  | listMetrics (opts : ListOpts MetricFilter)
  | getMetricDetail (id : IdText) (includes : List MetricDetailInclude) (logsLimit : Nat)
  | listCategories (opts : ListOpts CategoryFilter)
  | getCategory (id : IdText)
  | listSettings (opts : ListOpts SettingsQueryFilter)
  | getSettings (id : IdText)
  | listLogs (opts : ListOpts (LogQueryFilter V))
  | getLog (id metricId : IdText)
  | getStats (metricId : Option IdText) (startDate endDate : Option Date)
  | getVisualization (metricId : IdText) (q : VizQuery)
  | getDashboardVisualization (q : VizQuery) (limit : Nat)
  | getMetricTrend (metricId : IdText) (since : Date)

inductive Response (V : Type) : Type
  | metrics (page : ListResult MetricPreview MetricFilter)
  | metric (detail : MetricDetail V)
  | categories (page : ListResult MetricCategoryResponse CategoryFilter)
  | category (category : MetricCategoryResponse)
  | settingsPage (page : ListResult (MetricSettingsEntity V) SettingsQueryFilter)
  | settings (settings : MetricSettingsEntity V)
  | logs (page : ListResult (MetricLogDomain V) (LogQueryFilter V))
  | log (log : MetricLogDomain V)
  | stats (stats : MetricLogStats V)
  | visualization (data : VizResponse V)
  | dashboard (data : DashboardVizResponse V)
  | trend (points : List (Date × V))

variable {V : Type} [LinearOrder V] [Zero V] (D : Deps V) (db : Db V)

/-- What a GET request of a user in an organization is answered with. -/
def respond (userId organizationId : Uuid) : GetRequest V → Except Err (Response V)
  | .listMetrics opts => (listMetrics D db userId organizationId opts).map .metrics
  | .getMetricDetail id includes logsLimit =>
    (getMetricDetail db userId organizationId id.id includes logsLimit).map .metric
  | .listCategories opts => (listCategories D db userId organizationId opts).map .categories
  | .getCategory id => (getCategory db userId organizationId id.id).map .category
  | .listSettings opts => (pageOf ((listSettings D.toEngine db userId organizationId
      (opts.mapFilter SettingsQueryFilter.toFilter)).map (ListResult.withFilter opts.filter))).map
        .settingsPage
  | .getSettings id => (getMetricSettings db userId organizationId id.id).map .settings
  | .listLogs opts => (pageOf ((listLogs D.numbers D.toEngine trim db userId organizationId
      (opts.mapFilter LogQueryFilter.toFilter)).map (ListResult.withFilter opts.filter))).map .logs
  | .getLog id metricId => (getLogById db userId organizationId id.id metricId).map .log
  | .getStats metricId startDate endDate => (getMetricLogStats D db userId organizationId
      (metricId.map IdText.id) startDate endDate).map .stats
  | .getVisualization metricId q =>
    (getVisualization D db userId organizationId metricId q).map .visualization
  | .getDashboardVisualization q limit =>
    (getDashboardVisualization D db userId organizationId q limit).map .dashboard
  | .getMetricTrend metricId since =>
    (getMetricTrend db userId organizationId metricId.id since).map .trend

end LakiraBackend.Metrics
