import LakiraBackend.Concurrency.Serial
import LakiraBackend.Metrics.Names

/-!
# What a write is answered with

A request that makes or changes a metric or a category is checked in an order: what it refers to,
whether its name is taken in the organization, its texts, and last the index, which is over all
organizations of the user.  `verdict` is what it is answered with, of the rows that are there.

`Answers` says so of a program that runs alone, and `Returns` what a program that only looks
returns.
-/

namespace LakiraBackend.Metrics

open LakiraBackend.Auth (Err conflictError notFoundError validationError)
open LakiraBackend.Concurrency LakiraBackend.JavaScript LakiraBackend.Postgres

variable {V : Type}

/-! ### Names that are held -/

/-- A row with a name, which is not deleted. -/
structure Holder : Type where
  id : Uuid
  userId : Uuid
  organizationId : Uuid
  name : String

def holders (d : Db V) : TableName → List Holder
  | .metrics => (d.metrics.rows.filter fun m => m.deletedAt.isNone).map fun m =>
      ⟨m.id, m.userId, m.organizationId, m.name⟩
  | .categories => (d.categories.rows.filter fun c => c.deletedAt.isNone).map fun c =>
      ⟨c.id, c.userId, c.organizationId, c.name⟩
  | _ => []

/-- The name that a request gives, and the row that it gives it to, which may be a new one. -/
structure NameGiven : Type where
  table : TableName
  self : Option Uuid
  name : String

def Request.nameGiven : Request V → Option NameGiven
  | .createMetric input => some ⟨.metrics, none, input.name⟩
  | .updateMetric input =>
    input.data.name.map fun name => ⟨.metrics, some input.metricId.id, trim name⟩
  | .createCategory input => some ⟨.categories, none, input.name⟩
  | .updateCategory input =>
    input.name.map fun name => ⟨.categories, some input.categoryId.id, name⟩
  | _ => none

/-- Another row of the user, in an organization that `p` says, has the name but for its case. -/
def heldIn (D : Deps V) (d : Db V) (u : Uuid) (p : Uuid → Bool) (n : NameGiven) : Bool :=
  (holders d n.table).any fun h => h.userId = u && p h.organizationId && n.self ≠ some h.id &&
    D.lower h.name = D.lower n.name

namespace Request

variable (D : Deps V) (d : Db V) (u o : Uuid)

def takenHere (q : Request V) : Bool := q.nameGiven.any (heldIn D d u fun x => x = o)

def takenElsewhere (q : Request V) : Bool := q.nameGiven.any (heldIn D d u fun x => x ≠ o)

/-- A request of `u` in `o` that makes or changes a metric or a category, and clones no metric. -/
def NameWrite (u o : Uuid) : Request V → Prop
  | .createMetric input =>
    input.userId = u ∧ input.organizationId = o ∧ input.originalMetricId = none
  | .updateMetric input =>
    input.userId = u ∧ input.organizationId = o ∧ input.data.originalMetricId.join = none
  | .createCategory input => input.userId = u ∧ input.organizationId = o
  | .updateCategory input => input.userId = u ∧ input.organizationId = o
  | _ => False

end Request

/-! ### Checks -/

def require (condition : Bool) (e : Err) : Except Err Unit := if condition then .ok () else .error e

def requireCategory (D : Deps V) (d : Db V) (u o : Uuid) : Option IdText → Except Err Unit
  | none => .ok ()
  | some x => require ((Query.categoryExists u o x.id).eval D d) (notFoundError "Category not found")

namespace Request

variable (D : Deps V) (d : Db V) (u o : Uuid)

/-- What is looked at before the name. -/
def firstChecks : Request V → Except Err Unit
  | .updateMetric input => do
    require (findOwnedMetric d u o input.metricId.id).isSome (.app "Metric not found" 404)
    requireCategory D d u o input.data.categoryId.join
  | .updateCategory input => require (findOwnedCategory d u o input.categoryId.id).isSome
      (notFoundError "Metric Category not found")
  | _ => .ok ()

/-- Names of categories are compared as they are written. -/
def nameCheck : Request V → Except Err Unit
  | .createMetric input => require (!takenHere D d u o (.createMetric input))
      (conflictError "Metric already exists")
  | .updateMetric input => require (!takenHere D d u o (.updateMetric input))
      (conflictError "Metric already exists")
  | .createCategory input => require (!(Query.categoryExistsByName u o input.name).eval D d)
      (conflictError "Category already exists")
  | .updateCategory input => require (input.name.all fun name => name = "" ||
      (findOwnedCategory d u o input.categoryId.id).any (fun c => name = c.name) ||
      !(Query.categoryExistsByName u o name).eval D d)
      (conflictError "Metric Category name already exists")
  | _ => .ok ()

/-- What is looked at after it. -/
def lastChecks : Request V → Except Err Unit
  | .createMetric input => do
    requireCategory D d u o input.categoryId
    require (D.fits input.name && D.fits input.defaultUnit) Write.tooLong
  | .updateMetric input =>
    match findOwnedMetric d u o input.metricId.id with
    | none => .ok ()
    | some m => do
      require (!input.data.isEmpty) (validationError "Update payload cannot be empty")
      let s ← input.data.update (toSnapshot m)
      require (s.changes m = .empty || (D.fits s.name && D.fits s.defaultUnit)) Write.tooLong
  | .createCategory input =>
    require (D.fits input.name && D.fits input.data.color && D.fits input.data.icon) Write.tooLong
  | .updateCategory input =>
    match findOwnedCategory d u o input.categoryId.id with
    | none => .ok ()
    | some c => require (input.changes c = .empty ||
        Write.categoryFits D ((input.changes c).apply c.updatedAt c)) Write.tooLong
  | _ => .ok ()

/-- The index that has the name. -/
def constraint : Request V → Err
  | .createMetric _ => .uniqueConstraint "uq_metrics_user_name"
  | .updateMetric _ => .uniqueConstraint "uq_metrics_user_name"
  | _ => .uniqueConstraint "uq_metric_categories_user_name"

def indexCheck (q : Request V) : Except Err Unit :=
  require (!(q.takenHere D d u o || q.takenElsewhere D d u o)) q.constraint

def verdict (q : Request V) : Except Err Unit := do
  q.firstChecks D d u o
  q.nameCheck D d u o
  q.lastChecks D d u o
  q.indexCheck D d u o

end Request

/-! ### Programs that run alone -/

/-- An id that no row has. -/
def freshId (inp : Input) (w : World V) : Bool :=
  inp.id ∉ w.store.db.metrics.rows.map Metric.id &&
    inp.id ∉ w.store.db.categories.rows.map MetricCategory.id &&
    inp.id ∉ w.store.db.settings.rows.map MetricSettings.id &&
    inp.id ∉ w.store.db.logs.rows.map MetricLog.id

section

variable {D : Deps V} {i : Nat} {α β : Type} {w : World V} {p : Async V α} {f : α → Async V β}
  {x : Except Err α} {v v' : Except Err Unit} {Q : Except Err α → World V → Prop}

/-- What a program is answered with. -/
def Answers (D : Deps V) (i : Nat) (p : Async V α) (v : Except Err Unit) (w : World V) : Prop :=
  Ensures (exec D i) freshId p (fun y _ => (y.map fun _ => ()) = v) w

/-- A program that only looks. -/
def Returns (D : Deps V) (i : Nat) (p : Async V α) (x : Except Err α) (w : World V) : Prop :=
  Ensures (exec D i) freshId p (fun y w' => y = x ∧ w' = w) w

theorem returns_done {a : α} : Returns D i (.done a) (.ok a) w := ⟨rfl, rfl⟩

theorem ensures_query {tx : Bool} {qr : Query}
    {Q : Except Err (qr.Answer V) → World V → Prop}
    (h : Q (.ok (qr.eval D (w.store.base (schema D) i tx))) w) :
    Ensures (exec D i) freshId (await (.query tx qr)) Q w := by
  refine ensures_await.mpr fun inp r w' _ he => ?_
  cases he
  exact h

theorem returns_read {qr : Query} :
    Returns D i (await (.query false qr)) (.ok (qr.eval D w.store.db)) w := ensures_query ⟨rfl, rfl⟩

theorem returns_ensure {condition : Bool} {e : Err} :
    Returns D i (ensure condition e) (require condition e) w := by
  cases condition <;> exact ⟨rfl, rfl⟩

theorem returns_liftExcept : Returns D i (liftExcept x) x w := by
  cases x <;> exact ⟨rfl, rfl⟩

/-- What is there, or an error. -/
def found (x : Option α) (e : Err) : Except Err α :=
  match x with
  | some a => .ok a
  | none => .error e

theorem returns_orThrow {x : Option α} {e : Err} : Returns D i (orThrow x e) (found x e) w := by
  cases x <;> exact ⟨rfl, rfl⟩

/-- **A program that looks goes on where it is.** -/
theorem Returns.seq {Q : Except Err β → World V → Prop} (h : Returns D i p x w)
    (hok : ∀ a, x = .ok a → Ensures (exec D i) freshId (f a) Q w)
    (herror : ∀ e, x = .error e → Q (.error e) w) :
    Ensures (exec D i) freshId (p >>= f) Q w := by
  refine Ensures.seq h ?_ ?_
  · rintro a w' ⟨ha, rfl⟩
    exact hok a ha.symm
  · rintro e w' ⟨he, rfl⟩
    exact herror e he.symm

/-- What is looked up in the committed data. -/
theorem Returns.read {qr : Query} {f : qr.Answer V → Async V α}
    (h : Returns D i (f (qr.eval D w.store.db)) x w) :
    Returns D i (await (.query false qr) >>= f) x w := by
  refine returns_read.seq (fun a ha => ?_) fun e he => ?_
  · cases ha
    exact h
  · cases he

/-- **One check, and those after it.** -/
theorem Returns.check (h : Returns D i p x w) (hx : (x.map fun _ => ()) = v)
    (hf : ∀ a, x = .ok a → Answers D i (f a) v' w) :
    Answers D i (p >>= f) (v >>= fun _ => v') w := by
  refine h.seq (fun a ha => ?_) fun e he => ?_
  · rw [← hx, ha]
    exact hf a ha
  · rw [← hx, he]
    rfl

/-- A statement is refused, or it is done. -/
theorem ensures_statement {tx : Bool} {st : Statement V}
    {Q : Except Err st.Answer → World V → Prop}
    (h : ∀ inp, freshId inp w = true →
      (∀ e, (schema D).refuse (st.write inp.id inp.now) (w.store.base (schema D) i tx) = some e →
        Q (.error e) w) ∧
      ((schema D).refuse (st.write inp.id inp.now) (w.store.base (schema D) i tx) = none →
        Q (.ok (st.answer inp.id inp.now (w.store.base (schema D) i tx)))
          { w with store := w.store.written (schema D) i tx (st.write inp.id inp.now) })) :
    Ensures (exec D i) freshId (await (.statement tx st)) Q w := by
  refine ensures_await.mpr fun inp r w' hfresh he => ?_
  obtain ⟨⟨a, store⟩, hw, heq⟩ := Option.map_eq_some_iff.mp he
  obtain ⟨rfl, rfl⟩ := Prod.mk.inj heq
  rcases Store.write_cases hw with ⟨e, rfl, rfl, hrefuse⟩ | ⟨rfl, rfl, htakes⟩
  · exact (h inp hfresh).1 e hrefuse
  · exact (h inp hfresh).2 htakes.accepted

/-! ### Clearing the cache -/

/-- A program that always succeeds. -/
def Succeeds (D : Deps V) (i : Nat) (p : Async V α) : Prop := ∀ w, Answers D i p (.ok ()) w

theorem succeeds_done {a : α} : Succeeds D i (.done a) := fun _ => rfl

theorem Succeeds.bind (hp : Succeeds D i p) (hf : ∀ a, Succeeds D i (f a)) :
    Succeeds D i (p >>= f) := by
  refine fun w => Ensures.seq (hp w) (fun a w' _ => hf a w') fun e w' he => ?_
  cases he

/-- A call that does not touch the store, or ends a transaction. -/
theorem succeeds_await {op : Op V} (h : ∀ inp w, ∃ a w', exec D i inp op w = some (.ok a, w')) :
    Succeeds D i (await op) := by
  refine fun w => ensures_await.mpr fun inp r w' _ he => ?_
  obtain ⟨a, w'', hexec⟩ := h inp w
  rw [hexec] at he
  cases he
  rfl

theorem succeeds_query {tx : Bool} {qr : Query} : Succeeds (V := V) D i (await (.query tx qr)) :=
  succeeds_await fun _ _ => ⟨_, _, rfl⟩

theorem succeeds_walks (n : Nat) (patterns : List (List Char)) :
    Succeeds D i (walks (V := V) n patterns) := by
  induction n generalizing patterns with
  | zero => exact succeeds_done
  | succ n ih =>
    refine .bind (succeeds_await fun inp w => ⟨_, _, rfl⟩) fun k => ?_
    split
    · exact succeeds_done
    · exact .bind (succeeds_await fun inp w => ⟨_, _, rfl⟩) fun _ => ih _

theorem succeeds_invalidateMetrics {u o : Uuid} {id : List Char} :
    Succeeds D i (invalidateMetrics D u o id) := by
  unfold invalidateMetrics
  split
  · exact succeeds_walks _ _
  · exact succeeds_done

theorem succeeds_invalidateCategoryLists {u : Uuid} :
    Succeeds D i (invalidateCategoryLists D u) := by
  unfold invalidateCategoryLists
  split
  · exact succeeds_await fun inp w => ⟨_, _, rfl⟩
  · exact succeeds_done

theorem succeeds_invalidateCategory {u o : Uuid} {id : IdText} :
    Succeeds D i (invalidateCategory D u o id) := by
  unfold invalidateCategory
  split
  · exact succeeds_await fun inp w => ⟨_, _, rfl⟩
  · exact succeeds_done

end

/-! ### What is held -/

section

variable {D : Deps V} {d : Db V} {u o id : Uuid} {name : String} {self : Option Uuid}
  {p : Uuid → Bool} {n : NameGiven} {q : Request V}

theorem heldIn_metrics : heldIn D d u p ⟨.metrics, self, name⟩ = true ↔
    ∃ m ∈ d.metrics.rows, m.deletedAt.isNone = true ∧ m.userId = u ∧ p m.organizationId = true ∧
      self ≠ some m.id ∧ D.lower m.name = D.lower name := by
  simp only [heldIn, holders, List.any_map, List.any_filter, List.any_eq_true, Bool.and_eq_true,
    decide_eq_true_eq, Function.comp_apply, and_assoc]

theorem heldIn_categories : heldIn D d u p ⟨.categories, self, name⟩ = true ↔
    ∃ c ∈ d.categories.rows, c.deletedAt.isNone = true ∧ c.userId = u ∧ p c.organizationId = true ∧
      self ≠ some c.id ∧ D.lower c.name = D.lower name := by
  simp only [heldIn, holders, List.any_map, List.any_filter, List.any_eq_true, Bool.and_eq_true,
    decide_eq_true_eq, Function.comp_apply, and_assoc]

theorem heldIn_or : (heldIn D d u (fun x => x = o) n || heldIn D d u (fun x => x ≠ o) n) =
    heldIn D d u (fun _ => true) n := by
  rw [Bool.eq_iff_iff, Bool.or_eq_true]
  simp only [heldIn, List.any_eq_true, ← exists_or, ← and_or_left]
  refine exists_congr fun h => and_congr_right fun _ => ?_
  by_cases ho : h.organizationId = o <;> simp [ho]

theorem taken_or : (q.takenHere D d u o || q.takenElsewhere D d u o) =
    q.nameGiven.any (heldIn D d u fun _ => true) := by
  unfold Request.takenHere Request.takenElsewhere
  cases q.nameGiven with
  | none => rfl
  | some n => exact heldIn_or

/-- The index looks at the rows of other ids. -/
theorem metricNameTaken_eq (hself : ∀ m ∈ d.metrics.rows, self ≠ some m.id ↔ m.id ≠ id) :
    Write.metricNameTaken D d id u name = heldIn D d u (fun _ => true) ⟨.metrics, self, name⟩ := by
  rw [Bool.eq_iff_iff, heldIn_metrics, Write.metricNameTaken, List.any_eq_true]
  refine exists_congr fun m => and_congr_right fun hm => ?_
  simp only [Bool.and_eq_true, decide_eq_true_eq, hself m hm]
  tauto

theorem categoryNameTaken_eq (hself : ∀ c ∈ d.categories.rows, self ≠ some c.id ↔ c.id ≠ id) :
    Write.categoryNameTaken D d id u name =
      heldIn D d u (fun _ => true) ⟨.categories, self, name⟩ := by
  rw [Bool.eq_iff_iff, heldIn_categories, Write.categoryNameTaken, List.any_eq_true]
  refine exists_congr fun c => and_congr_right fun hc => ?_
  simp only [Bool.and_eq_true, decide_eq_true_eq, hself c hc]
  tauto

/-- A new row has no id that is there. -/
theorem none_ne_some_iff {ids : List Uuid} (h : id ∉ ids) :
    ∀ x ∈ ids, (none : Option Uuid) ≠ some x ↔ x ≠ id :=
  fun _ hx => iff_of_true nofun fun heq => h (heq ▸ hx)

theorem some_ne_some_iff (x : Uuid) : some id ≠ some x ↔ x ≠ id :=
  not_congr ⟨fun h => (Option.some.inj h).symm, fun h => congrArg some h.symm⟩

/-- No other row has the name of one that is there, in whatever case. -/
theorem not_heldIn_metrics (h : Named D d) {m : Metric} (hm : m ∈ d.metrics.rows)
    (hlive : m.deletedAt.isNone = true) (hname : D.lower m.name = D.lower name) :
    heldIn D d m.userId p ⟨.metrics, some m.id, name⟩ = false := by
  rw [← Bool.not_eq_true, heldIn_metrics]
  rintro ⟨n, hn, hlive', hu, _, hne, hname'⟩
  have hkey : metricKey D m = some (m.userId, D.lower name) :=
    nameKey_eq_some.mpr ⟨hlive, rfl, hname⟩
  have hkey' : metricKey D n = some (m.userId, D.lower name) :=
    nameKey_eq_some.mpr ⟨hlive', hu, hname'⟩
  exact hne (congrArg (some ∘ Metric.id) (h.metrics m hm n hn _ hkey hkey'))

theorem not_heldIn_categories (h : Named D d) {c : MetricCategory} (hc : c ∈ d.categories.rows)
    (hlive : c.deletedAt.isNone = true) (hname : D.lower c.name = D.lower name) :
    heldIn D d c.userId p ⟨.categories, some c.id, name⟩ = false := by
  rw [← Bool.not_eq_true, heldIn_categories]
  rintro ⟨n, hn, hlive', hu, _, hne, hname'⟩
  have hkey : categoryKey D c = some (c.userId, D.lower name) :=
    nameKey_eq_some.mpr ⟨hlive, rfl, hname⟩
  have hkey' : categoryKey D n = some (c.userId, D.lower name) :=
    nameKey_eq_some.mpr ⟨hlive', hu, hname'⟩
  exact hne (congrArg (some ∘ MetricCategory.id) (h.categories c hc n hn _ hkey hkey'))

end

end LakiraBackend.Metrics
