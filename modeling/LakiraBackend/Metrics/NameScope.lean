import LakiraBackend.Metrics.Isolation
import LakiraBackend.Metrics.NameVerdicts

/-!
# Names tell of other organizations

The checks of a use case are on the rows of its user in its organization, and so is its verdict
(`SameRows.verdict_eq`), but for the indexes: these are on the user alone.  Two states that have the
same of these rows answer a write alike, and with a conflict where its name is taken there, if and
only if neither has it held up by a name of another organization (`names_apart_iff`).
-/

namespace LakiraBackend.Metrics

open LakiraBackend.Auth (Err conflictError notFoundError validationError)
open LakiraBackend.Concurrency LakiraBackend.JavaScript LakiraBackend.Postgres

variable {V : Type}

/-- Two databases have the same metrics and categories of a user in an organization. -/
structure SameRows (u o : Uuid) (d e : Db V) : Prop where
  metrics : ∀ m : Metric, m.userId = u → m.organizationId = o →
    (m ∈ d.metrics.rows ↔ m ∈ e.metrics.rows)
  categories : ∀ c : MetricCategory, c.userId = u → c.organizationId = o →
    (c ∈ d.categories.rows ↔ c ∈ e.categories.rows)

variable {D : Deps V} {d e : Db V} {u o id : Uuid} {q : Request V}

namespace SameRows

/-- Whether there is a row depends on the rows it can be. -/
theorem any_eq {Row : Type} {l l' : List Row} {p : Row → Bool}
    (h : ∀ r, p r = true → (r ∈ l ↔ r ∈ l')) : l.any p = l'.any p := by
  rw [Bool.eq_iff_iff, List.any_eq_true, List.any_eq_true]
  exact exists_congr fun r => and_congr_left fun hp => h r hp

theorem of_ownsCategory (h : SameRows u o d e) {c : MetricCategory}
    (hp : ownsCategory u o c = true) : c ∈ d.categories.rows ↔ c ∈ e.categories.rows := by
  simp only [ownsCategory, Bool.and_eq_true, decide_eq_true_eq] at hp
  exact h.categories c hp.1.1 hp.1.2

theorem findOwnedMetric_eq (h : SameRows u o d e) :
    findOwnedMetric d u o id = findOwnedMetric e u o id := by
  refine Table.findOne_congr fun m => and_congr_left fun hp => ?_
  simp only [owns, Bool.and_eq_true, decide_eq_true_eq] at hp
  exact h.metrics m hp.2.1.1 hp.2.1.2

theorem findOwnedCategory_eq (h : SameRows u o d e) :
    findOwnedCategory d u o id = findOwnedCategory e u o id :=
  Table.findOne_congr fun _ => and_congr_left fun hp =>
    h.of_ownsCategory (Bool.and_eq_true_iff.mp hp).2

theorem categoryExistsByName_eq (h : SameRows u o d e) {name : String} :
    (Query.categoryExistsByName u o name).eval D d =
      (Query.categoryExistsByName u o name).eval D e :=
  any_eq fun _ hp => h.of_ownsCategory (Bool.and_eq_true_iff.mp hp).1

theorem requireCategory_eq (h : SameRows u o d e) {x : Option IdText} :
    requireCategory D d u o x = requireCategory D e u o x := by
  cases x with
  | none => rfl
  | some x =>
    have hexists : (Query.categoryExists u o x.id).eval D d = (Query.categoryExists u o x.id).eval D e :=
      any_eq fun _ hp => h.of_ownsCategory (Bool.and_eq_true_iff.mp hp).2
    rw [requireCategory, hexists]
    rfl

theorem heldIn_eq (h : SameRows u o d e) {n : NameGiven} :
    heldIn D d u (fun x => x = o) n = heldIn D e u (fun x => x = o) n := by
  obtain ⟨table, self, name⟩ := n
  rw [Bool.eq_iff_iff]
  cases table with
  | metrics =>
    rw [heldIn_metrics, heldIn_metrics]
    refine exists_congr fun m => and_congr_left fun ⟨_, hu, ho, _⟩ => ?_
    exact h.metrics m hu (of_decide_eq_true ho)
  | categories =>
    rw [heldIn_categories, heldIn_categories]
    refine exists_congr fun c => and_congr_left fun ⟨_, hu, ho, _⟩ => ?_
    exact h.categories c hu (of_decide_eq_true ho)
  | settings => rfl
  | logs => rfl

theorem takenHere_eq (h : SameRows u o d e) : q.takenHere D d u o = q.takenHere D e u o := by
  unfold Request.takenHere
  cases q.nameGiven with
  | none => rfl
  | some n => exact h.heldIn_eq

theorem firstChecks_eq (h : SameRows u o d e) : q.firstChecks D d u o = q.firstChecks D e u o := by
  cases q with
  | updateMetric input =>
    simp only [Request.firstChecks, h.findOwnedMetric_eq, h.requireCategory_eq]
  | updateCategory input => simp only [Request.firstChecks, h.findOwnedCategory_eq]
  | _ => rfl

theorem nameCheck_eq (h : SameRows u o d e) : q.nameCheck D d u o = q.nameCheck D e u o := by
  cases q with
  | createMetric input => simp only [Request.nameCheck, h.takenHere_eq]
  | updateMetric input => simp only [Request.nameCheck, h.takenHere_eq]
  | createCategory input => simp only [Request.nameCheck, h.categoryExistsByName_eq]
  | updateCategory input =>
    simp only [Request.nameCheck, h.categoryExistsByName_eq, h.findOwnedCategory_eq]
  | _ => rfl

theorem lastChecks_eq (h : SameRows u o d e) : q.lastChecks D d u o = q.lastChecks D e u o := by
  cases q with
  | createMetric input => simp only [Request.lastChecks, h.requireCategory_eq]
  | updateMetric input => simp only [Request.lastChecks, h.findOwnedMetric_eq]
  | updateCategory input => simp only [Request.lastChecks, h.findOwnedCategory_eq]
  | _ => rfl

end SameRows

/-! ### Conflicts -/

/-- The errors that say that a name is taken. -/
def nameConflicts : List Err :=
  [conflictError "Metric already exists", conflictError "Category already exists",
    conflictError "Metric Category name already exists",
    .uniqueConstraint "uq_metrics_user_name", .uniqueConstraint "uq_metric_categories_user_name"]

/-- The request fails with a name conflict. -/
def NameConflict {α : Type} (x : Except Err α) : Prop := ∃ e ∈ nameConflicts, x = .error e

namespace Request

variable (D : Deps V) (d : Db V) (u o : Uuid)

/-- Nothing but its name can be wrong with the request. -/
def Passes (q : Request V) : Prop :=
  q.firstChecks D d u o = .ok () ∧ q.lastChecks D d u o = .ok ()

/-- Only a name of another organization is in its way. -/
def Blocked (q : Request V) : Prop :=
  q.Passes D d u o ∧ q.takenHere D d u o = false ∧ q.takenElsewhere D d u o = true

end Request

theorem require_eq_error {condition : Bool} {a e : Err} (h : require condition a = .error e) :
    condition = false ∧ e = a := by
  cases condition with
  | true => cases h
  | false => exact ⟨rfl, (Except.error.inj h).symm⟩

/-- A part of a computation that fails has failed, or it is the rest. -/
theorem of_bind_error {α β : Type} {x : Except Err α} {f : α → Except Err β} {e : Err}
    (h : (x >>= f) = .error e) : x = .error e ∨ ∃ a, x = .ok a ∧ f a = .error e := by
  cases x with
  | error e' => exact .inl (congrArg Except.error (Except.error.inj h))
  | ok a => exact .inr ⟨a, rfl, h⟩

/-- What fails here says nothing of names. -/
def Other {α : Type} (x : Except Err α) : Prop := ∀ err, x = .error err → err ∉ nameConflicts

section

variable {α β : Type} {x : Except Err α}

theorem other_ok {a : α} : Other (.ok a) := nofun

theorem other_error {err : Err} (h : err ∉ nameConflicts) : Other (α := α) (.error err) := by
  intro e he
  rw [← Except.error.inj he]
  exact h

theorem other_require {condition : Bool} {err : Err} (h : err ∉ nameConflicts) :
    Other (require condition err) := by
  cases condition with
  | true => exact other_ok
  | false => exact other_error h

theorem other_bind {f : α → Except Err β} (hx : Other x) (hf : ∀ a, Other (f a)) :
    Other (x >>= f) := by
  intro err he
  rcases of_bind_error he with he | ⟨a, _, he⟩
  · exact hx err he
  · exact hf a err he

theorem other_map {f : α → β} (hx : Other x) : Other (x.map f) := by
  cases x with
  | ok a => exact other_ok
  | error err => exact other_error (hx err rfl)

theorem other_onSome {y : Option α} {f : β → α → Except Err β} {b : β}
    (hf : ∀ b a, Other (f b a)) : Other (onSome y f b) := by
  cases y with
  | none => exact other_ok
  | some a => exact hf b a

end

theorem other_validationError {message : String} : validationError message ∉ nameConflicts := by
  simp [nameConflicts, validationError, conflictError]

theorem other_checkText {value required tooLong : String} {most : Nat} :
    Other (MetricSnapshot.checkText value required tooLong most) := by
  unfold MetricSnapshot.checkText
  split
  · exact other_error other_validationError
  · split
    · exact other_error other_validationError
    · split
      · exact other_error other_validationError
      · exact other_ok

theorem other_describe {s : MetricSnapshot} {next : Option String} : Other (s.describe next) := by
  unfold MetricSnapshot.describe
  split
  · exact other_ok
  · split
    · exact other_error other_validationError
    · split
      · exact other_error other_validationError
      · exact other_ok

theorem other_update {data : UpdateMetricData} {s : MetricSnapshot} : Other (data.update s) :=
  other_bind (other_onSome fun _ _ => other_map other_checkText) fun _ =>
    other_bind (other_onSome fun _ _ => other_describe) fun _ =>
      other_bind (other_onSome fun _ _ => other_map other_checkText) fun _ =>
        other_bind (other_onSome fun _ _ => other_ok) fun _ =>
          other_bind (other_onSome fun _ _ => other_ok) fun _ => other_onSome fun _ _ => other_ok

theorem other_requireCategory {x : Option IdText} : Other (requireCategory D d u o x) := by
  cases x with
  | none => exact other_ok
  | some x => exact other_require (by decide)

theorem other_firstChecks : Other (q.firstChecks D d u o) := by
  cases q with
  | updateMetric input =>
    exact other_bind (other_require (by decide)) fun _ => other_requireCategory
  | updateCategory input => exact other_require (by decide)
  | _ => exact other_ok

theorem other_lastChecks : Other (q.lastChecks D d u o) := by
  cases q with
  | createMetric input =>
    exact other_bind other_requireCategory fun _ => other_require (by decide)
  | updateMetric input =>
    unfold Request.lastChecks
    dsimp only
    split
    · exact other_ok
    · exact other_bind (other_require other_validationError) fun _ =>
        other_bind other_update fun _ => other_require (by decide)
  | createCategory input => exact other_require (by decide)
  | updateCategory input =>
    unfold Request.lastChecks
    dsimp only
    split
    · exact other_ok
    · exact other_require (by decide)
  | _ => exact other_ok

/-! ### The verdict -/

theorem constraint_mem : q.constraint ∈ nameConflicts := by
  have hmetrics : Err.uniqueConstraint "uq_metrics_user_name" ∈ nameConflicts := by decide
  have hcategories : Err.uniqueConstraint "uq_metric_categories_user_name" ∈ nameConflicts := by
    decide
  cases q with
  | createMetric input => exact hmetrics
  | updateMetric input => exact hmetrics
  | _ => exact hcategories

/-- A category of the name as it is written has it but for its case. -/
theorem takenHere_of_exists {input : UpdateCategoryInput} {name : String}
    (hn : input.name = some name) (hname : ((findOwnedCategory d u o input.categoryId.id).any
      fun c => name = c.name) = false)
    (h : (Query.categoryExistsByName u o name).eval D d = true) :
    (Request.updateCategory (V := V) input).takenHere D d u o = true := by
  obtain ⟨c, hc, hp⟩ := List.any_eq_true.mp h
  simp only [ownsCategory, Bool.and_eq_true, decide_eq_true_eq] at hp
  obtain ⟨⟨⟨hu, ho⟩, hlive⟩, hcname⟩ := hp
  have hheld : some input.categoryId.id ≠ some c.id →
      heldIn D d u (fun x => x = o) ⟨.categories, some input.categoryId.id, name⟩ = true :=
    fun hne => heldIn_categories.mpr ⟨c, hc, hlive, hu, decide_eq_true ho, hne, by rw [hcname]⟩
  rw [Request.takenHere, Request.nameGiven, hn]
  refine hheld fun hid => ?_
  have hfound : findOwnedCategory d u o input.categoryId.id = some c := by
    refine Table.findOne_eq_some hc ?_ fun r _ hr => ?_
    · simp [ownsCategory, Option.some.inj hid, hu, ho, hlive]
    · exact (of_decide_eq_true (Bool.and_eq_true_iff.mp hr).1).trans (Option.some.inj hid)
  rw [hfound, Option.any_some, decide_eq_false_iff_not] at hname
  exact hname hcname.symm

/-- The check of the name fails with a conflict, where it is taken. -/
theorem nameCheck_error {err : Err} (h : q.nameCheck D d u o = .error err) :
    err ∈ nameConflicts ∧ q.takenHere D d u o = true := by
  cases q with
  | createMetric input =>
    obtain ⟨htaken, rfl⟩ := require_eq_error h
    exact ⟨by decide, by simpa using htaken⟩
  | updateMetric input =>
    obtain ⟨htaken, rfl⟩ := require_eq_error h
    exact ⟨by decide, by simpa using htaken⟩
  | createCategory input =>
    obtain ⟨hexists, rfl⟩ := require_eq_error h
    refine ⟨by decide, ?_⟩
    rw [Bool.not_eq_false'] at hexists
    obtain ⟨c, hc, hp⟩ := List.any_eq_true.mp hexists
    simp only [ownsCategory, Bool.and_eq_true, decide_eq_true_eq] at hp
    obtain ⟨⟨⟨hu, ho⟩, hlive⟩, hname⟩ := hp
    have hheld : heldIn D d u (fun x => x = o) ⟨.categories, none, input.name⟩ = true :=
      heldIn_categories.mpr ⟨c, hc, hlive, hu, decide_eq_true ho, (fun hsome => by cases hsome),
        by rw [hname]⟩
    exact hheld
  | updateCategory input =>
    obtain ⟨hall, rfl⟩ := require_eq_error h
    refine ⟨by decide, ?_⟩
    cases hn : input.name with
    | none =>
      rw [hn] at hall
      cases hall
    | some name =>
      rw [hn, Option.all_some, Bool.or_eq_false_iff, Bool.or_eq_false_iff] at hall
      exact takenHere_of_exists hn hall.1.2 (by simpa using hall.2)
  | _ => cases h

theorem nameCheck_ok (h : q.takenHere D d u o = false) : q.nameCheck D d u o = .ok () := by
  cases hcheck : q.nameCheck D d u o with
  | ok a => rfl
  | error err =>
    rw [(nameCheck_error hcheck).2] at h
    cases h

theorem indexCheck_of_taken (h : (q.takenHere D d u o || q.takenElsewhere D d u o) = true) :
    q.indexCheck D d u o = .error q.constraint := by
  rw [Request.indexCheck, h]
  rfl

theorem verdict_of_passes (h : q.Passes D d u o) :
    q.verdict D d u o = (q.nameCheck D d u o >>= fun _ => q.indexCheck D d u o) := by
  rw [Request.verdict, h.1, h.2]
  rfl

/-- A name of another organization is answered with the index's conflict. -/
theorem verdict_of_blocked (h : q.Blocked D d u o) :
    q.verdict D d u o = .error q.constraint := by
  obtain ⟨hpasses, hhere, helsewhere⟩ := h
  rw [verdict_of_passes hpasses, nameCheck_ok hhere]
  exact indexCheck_of_taken (by rw [helsewhere, Bool.or_true])

/-- A name that is taken in the organization is answered with a conflict. -/
theorem conflict_of_taken (h : q.Passes D d u o) (ht : q.takenHere D d u o = true) :
    NameConflict (q.verdict D d u o) := by
  rw [verdict_of_passes h]
  cases hcheck : q.nameCheck D d u o with
  | error err => exact ⟨err, (nameCheck_error hcheck).1, rfl⟩
  | ok a => exact ⟨_, constraint_mem, indexCheck_of_taken (by rw [ht, Bool.true_or])⟩

/-- What is accepted passes every check. -/
theorem passes_of_verdict (h : q.verdict D d u o = .ok ()) : q.Passes D d u o := by
  obtain ⟨_, hfirst, h⟩ := of_bind_ok h
  obtain ⟨_, _, h⟩ := of_bind_ok h
  obtain ⟨_, hlast, _⟩ := of_bind_ok h
  exact ⟨hfirst, hlast⟩

theorem fails_of_taken (ht : q.takenHere D d u o = true) :
    ∃ err, q.verdict D d u o = .error err := by
  cases hv : q.verdict D d u o with
  | error err => exact ⟨err, rfl⟩
  | ok a =>
    obtain ⟨err, _, herr⟩ := conflict_of_taken (passes_of_verdict hv) ht
    rw [hv] at herr
    cases herr

/-- A conflict is about a name of the organization, or of another. -/
theorem taken_of_conflict (h : NameConflict (q.verdict D d u o)) :
    q.takenHere D d u o = true ∨ q.Blocked D d u o := by
  obtain ⟨err, hmem, herr⟩ := h
  rcases of_bind_error herr with hfirst | ⟨_, hfirst, herr⟩
  · exact absurd hmem (other_firstChecks err hfirst)
  rcases of_bind_error herr with hname | ⟨_, _, herr⟩
  · exact .inl (nameCheck_error hname).2
  rcases of_bind_error herr with hlast | ⟨_, hlast, hindex⟩
  · exact absurd hmem (other_lastChecks err hlast)
  have htaken := (require_eq_error hindex).1
  rw [Bool.not_eq_false', Bool.or_eq_true] at htaken
  by_cases hhere : q.takenHere D d u o = true
  · exact .inl hhere
  · exact .inr ⟨⟨hfirst, hlast⟩, Bool.eq_false_iff.mpr hhere, htaken.resolve_left hhere⟩

theorem SameRows.passes_iff (h : SameRows u o d e) : q.Passes D d u o ↔ q.Passes D e u o := by
  rw [Request.Passes, Request.Passes, h.firstChecks_eq, h.lastChecks_eq]

/-- **A verdict depends on the rows of the organization**, where no name of another is in the way. -/
theorem SameRows.verdict_eq (h : SameRows u o d e) (hd : ¬q.Blocked D d u o)
    (he : ¬q.Blocked D e u o) : q.verdict D d u o = q.verdict D e u o := by
  have hindex : q.Passes D d u o → q.indexCheck D d u o = q.indexCheck D e u o := by
    intro hpasses
    unfold Request.indexCheck
    cases hhere : q.takenHere D d u o with
    | true => rw [← h.takenHere_eq, hhere, Bool.true_or, Bool.true_or]
    | false =>
      have hhere' : q.takenHere D e u o = false := h.takenHere_eq ▸ hhere
      have hnone : q.takenElsewhere D d u o = false :=
        Bool.eq_false_iff.mpr fun ht => hd ⟨hpasses, hhere, ht⟩
      have hnone' : q.takenElsewhere D e u o = false :=
        Bool.eq_false_iff.mpr fun ht => he ⟨h.passes_iff.mp hpasses, hhere', ht⟩
      rw [hhere', hnone, hnone']
  unfold Request.verdict
  rw [← h.firstChecks_eq, ← h.nameCheck_eq, ← h.lastChecks_eq]
  cases hfirst : q.firstChecks D d u o with
  | error err => rfl
  | ok a =>
    cases q.nameCheck D d u o with
    | error err => rfl
    | ok a =>
      cases hlast : q.lastChecks D d u o with
      | error err => rfl
      | ok a => exact hindex ⟨hfirst, hlast⟩

/-! ### Two states -/

/-- A request says of its name what is so in the organization: it fails where the name is taken, with
a conflict where nothing else is wrong, and has no conflict where it is not. -/
structure TellsHere (D : Deps V) (d : Db V) (u o : Uuid) (q : Request V) {α : Type}
    (x : Except Err α) : Prop where
  fails : q.takenHere D d u o = true → ∃ err, x = .error err
  conflict : q.Passes D d u o → q.takenHere D d u o = true → NameConflict x
  only : NameConflict x → q.takenHere D d u o = true

/-- Success in both, or one error. -/
def SameOutcome {α : Type} (x x' : Except Err α) : Prop :=
  (x.map fun _ => ()) = (x'.map fun _ => ())

theorem map_eq_error {α : Type} {x : Except Err α} {err : Err} :
    (x.map fun _ => ()) = .error err ↔ x = .error err := by
  cases x with
  | ok a => exact iff_of_false nofun nofun
  | error err' => simp [Except.map]

/-- **What a verdict tells**, where no name of another organization is in the way, and only there. -/
theorem tellsHere_iff {α : Type} {x : Except Err α}
    (hx : (x.map fun _ => ()) = q.verdict D d u o) :
    TellsHere D d u o q x ↔ ¬q.Blocked D d u o := by
  have herror : ∀ err, x = .error err ↔ q.verdict D d u o = .error err := fun err => by
    rw [← hx, map_eq_error]
  have hconflict : NameConflict x ↔ NameConflict (q.verdict D d u o) :=
    exists_congr fun err => and_congr_right fun _ => herror err
  constructor
  · intro h hblocked
    have hhere := h.only (hconflict.mpr ⟨_, constraint_mem, verdict_of_blocked hblocked⟩)
    rw [hblocked.2.1] at hhere
    cases hhere
  · intro hfree
    refine ⟨fun ht => ?_, fun hpasses ht => hconflict.mpr (conflict_of_taken hpasses ht), fun h => ?_⟩
    · obtain ⟨err, herr⟩ := fails_of_taken ht
      exact ⟨err, (herror err).mpr herr⟩
    · exact (taken_of_conflict (hconflict.mp h)).resolve_right hfree

variable [LinearOrder V] [Zero V]

/-- A request that arrives finds its session idle, and the rows in order. -/
theorem ready_of_reachable {c : MetricsConfig V}
    (h : (metricsMachine D).Reachable (StartsNamed D) c) (htrim : Trims c.state.hist) :
    Ready D c.threads.length c.state.world := by
  have hs := named_of_reachable h
  refine ⟨hs.known.pendingOf_nil fun e he => Nat.ne_of_lt (Contract.event_tid_lt h e he),
    hs.guarded.refers, hs.named.named, (hs.trimmed htrim).db⟩

/-- **A request that runs alone is answered as its verdict**, in every state that is reached. -/
theorem serve_verdict (hcase : D.toLowerCase = D.lower) {c c₁ : MetricsConfig V}
    (h : (metricsMachine D).Reachable (StartsNamed D) c) (htrim : Trims c.state.hist)
    (hq : q.NameWrite u o) (hqtrim : q.TrimsName) {inps : List Input} {x : Except Err (Reply V)}
    (hrun : (metricsMachine D).serve freshId c q inps = some (x, c₁)) :
    (x.map fun _ => ()) = q.verdict D c.state.world.store.db u o := by
  have hanswers : Ensures ((metricsMachine D).exec c.threads.length) freshId
      ((metricsMachine D).prog q)
      (fun y _ => (y.map fun _ => ()) = q.verdict D c.state.world.store.db u o) c.state.world :=
    answers_handle (ready_of_reachable h htrim) hcase hq hqtrim
  exact hanswers.of_serve hrun

/-- **Organizations do not interfere through names, but for the indexes.**  Of two states that are
reached and have the same metrics and categories of the user in the organization, a write is answered
alike, and tells what is so there, if and only if in neither a name of another organization is all
that is in its way. -/
theorem names_apart_iff (hcase : D.toLowerCase = D.lower) {c c' c₁ c₁' : MetricsConfig V}
    (h : (metricsMachine D).Reachable (StartsNamed D) c)
    (h' : (metricsMachine D).Reachable (StartsNamed D) c') (htrim : Trims c.state.hist)
    (htrim' : Trims c'.state.hist)
    (hsame : SameRows u o c.state.world.store.db c'.state.world.store.db)
    (hq : q.NameWrite u o) (hqtrim : q.TrimsName) {inps inps' : List Input}
    {x x' : Except Err (Reply V)}
    (hrun : (metricsMachine D).serve freshId c q inps = some (x, c₁))
    (hrun' : (metricsMachine D).serve freshId c' q inps' = some (x', c₁')) :
    (SameOutcome x x' ∧ TellsHere D c.state.world.store.db u o q x ∧
        TellsHere D c'.state.world.store.db u o q x') ↔
      ¬q.Blocked D c.state.world.store.db u o ∧ ¬q.Blocked D c'.state.world.store.db u o := by
  have hx := serve_verdict hcase h htrim hq hqtrim hrun
  have hx' := serve_verdict hcase h' htrim' hq hqtrim hrun'
  rw [tellsHere_iff hx, tellsHere_iff hx', and_iff_right_iff_imp]
  rintro ⟨hfree, hfree'⟩
  rw [SameOutcome, hx, hx']
  exact hsame.verdict_eq hfree hfree'

/-! ### A name of another organization -/

omit [LinearOrder V] [Zero V] in
/-- An organization that has nothing is the same in both. -/
theorem SameRows.of_nothing (hd : ∀ m ∈ d.metrics.rows, m.organizationId ≠ o)
    (he : ∀ m ∈ e.metrics.rows, m.organizationId ≠ o)
    (hd' : ∀ c ∈ d.categories.rows, c.organizationId ≠ o)
    (he' : ∀ c ∈ e.categories.rows, c.organizationId ≠ o) : SameRows u o d e where
  metrics m _ ho := iff_of_false (fun hm => hd m hm ho) fun hm => he m hm ho
  categories c _ ho := iff_of_false (fun hc => hd' c hc ho) fun hc => he' c hc ho

/-- Letter by letter. -/
def asciiLower (s : String) : String := String.ofList (s.toList.map Char.toLower)

def asciiDeps : Deps (Fin 100) := { utcDeps with toLowerCase := asciiLower, lower := asciiLower }

theorem startsNamed_empty : StartsNamed asciiDeps (World.init Db.empty [] : World (Fin 100)) := by
  obtain ⟨d, cache, hscoped, hw⟩ := startsScoped_empty
  refine ⟨Db.empty, [], ?_, ⟨unique_empty, unique_empty⟩, fun _ hm => absurd hm List.not_mem_nil, rfl⟩
  cases hw
  exact hscoped

/-- User 1 creates a metric in organization 3. -/
def namesIt (name : String) : Request (Fin 100) :=
  .createMetric ⟨1, 3, none, none, name, none, "km", true⟩

theorem nameWrite_namesIt (name : String) : (namesIt name).NameWrite 1 3 := ⟨rfl, rfl, rfl⟩

def draws : List Input := List.replicate 10 ⟨8, Utc.epoch, 0⟩

/-- The state after `creating`: user 1 has a metric in organization 2, and nothing in 3. -/
def afterWalks : MetricsConfig (Fin 100) :=
  ((metricsMachine asciiDeps).run atStart creating).getD atStart

theorem run_creating : (metricsMachine asciiDeps).run atStart creating = some afterWalks := by
  have hsome : ((metricsMachine asciiDeps).run atStart creating).isSome = true := by decide +kernel
  obtain ⟨c, hc⟩ := Option.isSome_iff_exists.mp hsome
  rw [afterWalks, hc, Option.getD_some]

theorem reachable_afterWalks : (metricsMachine asciiDeps).Reachable (StartsNamed asciiDeps) afterWalks :=
  Machine.reachable_of_run startsNamed_empty run_creating

theorem trims_afterWalks : Trims afterWalks.state.hist := by
  intro e he
  have hreq := Machine.reqs_of_run run_creating e he
  simp only [creating, List.replicate, Machine.spawned, List.mem_singleton] at hreq
  rw [hreq]
  change trim "Walks" = "Walks"
  decide +kernel

theorem sameRows_afterWalks :
    SameRows 1 3 atStart.state.world.store.db afterWalks.state.world.store.db := by
  refine .of_nothing ?_ (by decide +kernel) ?_ (by decide +kernel)
  · exact fun _ hm => absurd hm List.not_mem_nil
  · exact fun _ hc => absurd hc List.not_mem_nil

/-- How often a request is stepped says whether it has ended. -/
theorem exists_served {c : MetricsConfig (Fin 100)} {q : Request (Fin 100)}
    (h : ((metricsMachine asciiDeps).serve freshId c q draws).isSome = true) :
    ∃ x c₁, (metricsMachine asciiDeps).serve freshId c q draws = some (x, c₁) := by
  obtain ⟨⟨x, c₁⟩, hrun⟩ := Option.isSome_iff_exists.mp h
  exact ⟨x, c₁, hrun⟩

theorem trimsName_namesIt {name : String} (h : trim name = name) : (namesIt name).TrimsName := h

theorem passes_namesIt {d : Db (Fin 100)} {name : String} (h : asciiDeps.fits name = true) :
    (namesIt name).Passes asciiDeps d 1 3 := by
  refine ⟨rfl, ?_⟩
  change require (asciiDeps.fits name && asciiDeps.fits "km") Write.tooLong = .ok ()
  rw [h]
  rfl

theorem blocked_afterWalks :
    (namesIt "walks").Blocked asciiDeps afterWalks.state.world.store.db 1 3 :=
  ⟨passes_namesIt (by decide), by decide +kernel, by decide +kernel⟩

/-- The write of another name is answered alike before and after. -/
theorem names_apart_runs : ∃ x x' c₁ c₁',
    (metricsMachine asciiDeps).serve freshId atStart (namesIt "Runs") draws = some (x, c₁) ∧
    (metricsMachine asciiDeps).serve freshId afterWalks (namesIt "Runs") draws = some (x', c₁') ∧
    SameOutcome x x' ∧ TellsHere asciiDeps atStart.state.world.store.db 1 3 (namesIt "Runs") x ∧
    TellsHere asciiDeps afterWalks.state.world.store.db 1 3 (namesIt "Runs") x' := by
  obtain ⟨x, c₁, hrun⟩ := exists_served (by decide +kernel :
    ((metricsMachine asciiDeps).serve freshId atStart (namesIt "Runs") draws).isSome = true)
  obtain ⟨x', c₁', hrun'⟩ := exists_served (by decide +kernel :
    ((metricsMachine asciiDeps).serve freshId afterWalks (namesIt "Runs") draws).isSome = true)
  have hfree : (namesIt "Runs").takenElsewhere asciiDeps atStart.state.world.store.db 1 3 = false := by
    decide +kernel
  have hfree' : (namesIt "Runs").takenElsewhere asciiDeps afterWalks.state.world.store.db 1 3 =
      false := by decide +kernel
  refine ⟨x, x', c₁, c₁', hrun, hrun', (names_apart_iff rfl (.boot startsNamed_empty)
    reachable_afterWalks (fun _ he => absurd he List.not_mem_nil) trims_afterWalks
    sameRows_afterWalks (nameWrite_namesIt _) (trimsName_namesIt (by decide +kernel)) hrun
      hrun').mpr ⟨?_, ?_⟩⟩
  · rintro ⟨_, _, htaken⟩
    exact absurd (hfree.symm.trans htaken) Bool.false_ne_true
  · rintro ⟨_, _, htaken⟩
    exact absurd (hfree'.symm.trans htaken) Bool.false_ne_true

/-- **Names interfere.**  User 1 has nothing in organization 3 in either state.  The metric that is
made before `creating` is refused after it, though no metric there has its name. -/
theorem names_interfere :
    (metricsMachine asciiDeps).Reachable (StartsNamed asciiDeps) atStart ∧
    (metricsMachine asciiDeps).Reachable (StartsNamed asciiDeps) afterWalks ∧
    Trims atStart.state.hist ∧ Trims afterWalks.state.hist ∧
    SameRows 1 3 atStart.state.world.store.db afterWalks.state.world.store.db ∧
    (namesIt "walks").NameWrite 1 3 ∧ (namesIt "walks").TrimsName ∧
    (namesIt "walks").takenHere asciiDeps afterWalks.state.world.store.db 1 3 = false ∧
    (∃ a c₁, (metricsMachine asciiDeps).serve freshId atStart (namesIt "walks") draws =
      some (.ok a, c₁)) ∧
    ∃ c₁, (metricsMachine asciiDeps).serve freshId afterWalks (namesIt "walks") draws =
      some (.error (.uniqueConstraint "uq_metrics_user_name"), c₁) := by
  have htrim : (namesIt "walks").TrimsName := trimsName_namesIt (by decide +kernel)
  have hnone : Trims atStart.state.hist := fun _ he => absurd he List.not_mem_nil
  obtain ⟨x, c₁, hrun⟩ := exists_served (by decide +kernel :
    ((metricsMachine asciiDeps).serve freshId atStart (namesIt "walks") draws).isSome = true)
  obtain ⟨x', c₁', hrun'⟩ := exists_served (by decide +kernel :
    ((metricsMachine asciiDeps).serve freshId afterWalks (namesIt "walks") draws).isSome = true)
  refine ⟨.boot startsNamed_empty, reachable_afterWalks, hnone, trims_afterWalks,
    sameRows_afterWalks, nameWrite_namesIt _, htrim, blocked_afterWalks.2.1, ?_, c₁', ?_⟩
  · have hverdict : (namesIt "walks").verdict asciiDeps atStart.state.world.store.db 1 3 = .ok () := by
      rw [verdict_of_passes (passes_namesIt (by decide))]
      rfl
    have hx : (x.map fun _ => ()) = .ok () := (serve_verdict (c := atStart) rfl
      (.boot startsNamed_empty) hnone (nameWrite_namesIt _) htrim hrun).trans hverdict
    cases x with
    | ok a => exact ⟨a, c₁, hrun⟩
    | error err => cases hx
  · have hx := serve_verdict rfl reachable_afterWalks trims_afterWalks (nameWrite_namesIt _) htrim
      hrun'
    rw [verdict_of_blocked blocked_afterWalks, map_eq_error] at hx
    rw [hrun', hx]
    rfl

end LakiraBackend.Metrics
