import LakiraBackend.Metrics.Ownership
import LakiraBackend.Metrics.OwnRows
import LakiraBackend.Metrics.Percentages

/-!
# Reads are isolated

What is reached is scoped, so a read depends on the rows of its user in its organization alone:
two states that have the same of these answer it alike (`reads_isolated`).  The statistics of a
metric and its trend first look for the metric in the organization, whoever's it is, and refuse
one that is not the user's with an error that tells whether it is there (`stats_tell`).
-/

namespace LakiraBackend.Metrics

open LakiraBackend.Auth (Err notFoundError forbiddenError)
open LakiraBackend.Concurrency LakiraBackend.JavaScript LakiraBackend.Postgres

variable {V : Type} [LinearOrder V] [Zero V] {D : Deps V} {u o : Uuid}

/-- **Tenants' reads are isolated**: of two states that are reached and have the same rows of the
user in the organization, a read is answered alike, or it is refused in both. -/
theorem reads_isolated {c c' : MetricsConfig V} (h : (metricsMachine D).Reachable StartsScoped c)
    (h' : (metricsMachine D).Reachable StartsScoped c')
    (hsame : SameOwn u o c.state.world.store.db c'.state.world.store.db) (g : GetRequest V) :
    ((∀ id, g.accesses = some id →
        (findOwnedMetric c.state.world.store.db u o id).isSome = true) →
      respond D c.state.world.store.db u o g = respond D c'.state.world.store.db u o g) ∧
    ∀ id, g.accesses = some id → findOwnedMetric c.state.world.store.db u o id = none →
      respond D c.state.world.store.db u o g =
          .error (accessError c.state.world.store.db o id) ∧
        respond D c'.state.world.store.db u o g =
          .error (accessError c'.state.world.store.db o id) := by
  have hscoped := scoped_of_reachable h
  have hscoped' := scoped_of_reachable h'
  refine ⟨hsame.respond_eq hscoped hscoped' g, fun id hid hnone => ?_⟩
  have hnone' : findOwnedMetric c'.state.world.store.db u o id = none := by
    rw [← hsame.findOwnedMetric_eq]
    exact hnone
  exact ⟨respond_refused hid hnone, respond_refused hid hnone'⟩

/-! ### Another user's metric -/

omit [LinearOrder V] [Zero V] in
/-- A user who has nothing has the same in both. -/
theorem SameOwn.of_nothing {d e : Db V} (hd : ∀ m ∈ d.metrics.rows, m.userId ≠ u)
    (he : ∀ m ∈ e.metrics.rows, m.userId ≠ u) (hd' : ∀ c ∈ d.categories.rows, c.userId ≠ u)
    (he' : ∀ c ∈ e.categories.rows, c.userId ≠ u) : SameOwn u o d e where
  metrics m hu _ := iff_of_false (fun hm => hd m hm hu) fun hm => he m hm hu
  categories c hu _ := iff_of_false (fun hc => hd' c hc hu) fun hc => he' c hc hu
  settings _ := iff_of_false (fun ⟨_, m, hm, _, hu, _⟩ => hd m hm hu)
    fun ⟨_, m, hm, _, hu, _⟩ => he m hm hu
  logs _ := iff_of_false (fun ⟨_, m, hm, _, hu, _⟩ => hd m hm hu)
    fun ⟨_, m, hm, _, hu, _⟩ => he m hm hu

/-- User 1 creates a metric in organization 2. -/
def creating : List (Label Input (Request (Fin 100))) :=
  .spawn (.createMetric ⟨1, 2, none, none, "Walks", none, "km", true⟩) ::
    List.replicate 10 (.step 0 ⟨7, Utc.epoch, 0⟩)

/-- The state before. -/
def atStart : MetricsConfig (Fin 100) := Machine.boot (World.init Db.empty [])

theorem startsScoped_empty : StartsScoped (World.init Db.empty [] : World (Fin 100)) := by
  refine ⟨Db.empty, [], ⟨?_, ?_, ?_⟩, rfl⟩
  · exact fun _ hm => absurd hm List.not_mem_nil
  · exact fun _ hs => absurd hs List.not_mem_nil
  · exact fun _ hl => absurd hl List.not_mem_nil

/-- What user 3 has is the same before and after. -/
theorem exists_created :
    ∃ c ∈ (metricsMachine utcDeps).run atStart creating,
      SameOwn 3 2 atStart.state.world.store.db c.state.world.store.db ∧
      (findMetricInOrganization c.state.world.store.db 2 7).isSome = true := by
  have hrun : ((metricsMachine utcDeps).run atStart creating).map (fun c =>
      (decide (∀ m ∈ c.state.world.store.db.metrics.rows, m.userId ≠ 3),
        decide (∀ r ∈ c.state.world.store.db.categories.rows, r.userId ≠ 3),
        (findMetricInOrganization c.state.world.store.db 2 7).isSome)) = some (true, true, true) := by
    decide +kernel
  obtain ⟨c, hc, hval⟩ := Option.map_eq_some_iff.mp hrun
  obtain ⟨hmetrics, hval⟩ := Prod.mk.inj hval
  obtain ⟨hcategories, hfound⟩ := Prod.mk.inj hval
  refine ⟨c, hc, .of_nothing ?_ (of_decide_eq_true hmetrics) ?_ (of_decide_eq_true hcategories),
    hfound⟩
  · exact fun _ hm => absurd hm List.not_mem_nil
  · exact fun _ hc => absurd hc List.not_mem_nil

/-- The list of user 3 is the same before and after. -/
theorem reads_isolated_list :
    ∃ c ∈ (metricsMachine utcDeps).run atStart creating, ∀ opts,
      respond utcDeps atStart.state.world.store.db 3 2 (.listMetrics opts) =
        respond utcDeps c.state.world.store.db 3 2 (.listMetrics opts) := by
  obtain ⟨c, hc, hsame, _⟩ := exists_created
  exact ⟨c, hc, fun opts => (reads_isolated (.boot startsScoped_empty)
    (Machine.reachable_of_run startsScoped_empty hc) hsame (.listMetrics opts)).1
      fun _ hid => nomatch hid⟩

/-- **Statistics tell that there is a metric.**  User 3 has nothing in either state, and is
answered that there is no such metric, and that it is another's. -/
theorem stats_tell :
    ∃ c ∈ (metricsMachine utcDeps).run atStart creating,
      SameOwn 3 2 atStart.state.world.store.db c.state.world.store.db ∧
      respond utcDeps atStart.state.world.store.db 3 2 (.getStats (some (.ofUuid 7)) none none) =
        .error (notFoundError "Metric not found") ∧
      respond utcDeps c.state.world.store.db 3 2 (.getStats (some (.ofUuid 7)) none none) =
        .error (forbiddenError "Unauthorized access to metric") := by
  obtain ⟨c, hc, hsame, hfound⟩ := exists_created
  have hnone : findOwnedMetric atStart.state.world.store.db 3 2 7 = none := rfl
  have hnone' : findOwnedMetric c.state.world.store.db 3 2 7 = none := by
    rw [← hsame.findOwnedMetric_eq]
    exact hnone
  refine ⟨c, hc, hsame, respond_refused (D := utcDeps) (u := 3) (o := 2) rfl hnone, ?_⟩
  rw [respond_refused (D := utcDeps) (u := 3) (o := 2) rfl hnone', accessError, if_pos hfound]

end LakiraBackend.Metrics
