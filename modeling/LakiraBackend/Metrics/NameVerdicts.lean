import LakiraBackend.Metrics.NameChecks

/-!
# Each write is answered as its verdict

A program that only looks returns what its check says.  A write ends with what the database refuses
it with, which is what is left of the verdict; what comes after a write does not fail
(`answers_handle`).
-/

namespace LakiraBackend.Metrics

open LakiraBackend.Auth (Err conflictError notFoundError validationError)
open LakiraBackend.Concurrency LakiraBackend.JavaScript LakiraBackend.Postgres

variable {V : Type}

/-! ### The parts of the use cases -/

section

variable {D : Deps V} {i : Nat} {u o id : Uuid} {w : World V}

/-- An id that no row has is not that of a metric a settings row is of. -/
structure Fresh (d : Db V) (id : Uuid) : Prop where
  metrics : id ∉ d.metrics.rows.map Metric.id
  categories : id ∉ d.categories.rows.map MetricCategory.id
  settings : id ∉ d.settings.rows.map MetricSettings.id

theorem fresh_of_freshId {inp : Input} (h : freshId inp w = true) : Fresh w.store.db inp.id := by
  simp only [freshId, Bool.and_eq_true, decide_eq_true_eq] at h
  exact ⟨h.1.1.1, h.1.1.2, h.1.2⟩

/-- A session with nothing uncommitted sees what is committed. -/
theorem base_of_idle (h : w.store.pendingOf i = []) (tx : Bool) :
    w.store.base (schema D) i tx = w.store.db := by
  cases tx with
  | true => exact w.store.view_of_pendingOf_nil (schema D) h
  | false => rfl

theorem returns_checkCategory {x : Option IdText} :
    Returns D i (checkCategory u o x) (requireCategory D w.store.db u o x) w := by
  cases x with
  | none => exact returns_done
  | some x => exact .read returns_ensure

theorem returns_checkMetricName {name : String} : Returns D i (checkMetricName D u o name)
    (require (!(Query.metricExistsByName u o (D.toLowerCase (trim name))).eval D w.store.db)
      (conflictError "Metric already exists")) w :=
  .read returns_ensure

theorem returns_findOwnedById : Returns D i (findOwnedById u o id)
    (found (findOwnedMetric w.store.db u o id) (.app "Metric not found" 404)) w :=
  .read returns_orThrow

theorem returns_checkCategoryName {name message : String} :
    Returns D i (checkCategoryName u o name message)
      (require (!(Query.categoryExistsByName u o name).eval D w.store.db) (conflictError message)) w :=
  .read returns_ensure

theorem returns_findCategory {e : Err} : Returns D i (findCategory u o id e)
    (found ((findOwnedCategory w.store.db u o id).map (toCategoryRow w.store.db)) e) w :=
  .read returns_orThrow

end

/-! ### The writes -/

/-- What the database says of a write. -/
def refusal : Option Err → Except Err Unit
  | none => .ok ()
  | some e => .error e

theorem refusal_eq {fits taken : Bool} {a b : Err} :
    refusal (if !fits then some a else if taken then some b else none) =
      (require fits a >>= fun _ => require (!taken) b) := by
  cases fits <;> cases taken <;> rfl

theorem map_unit (x : Except Err Unit) : (x.map fun _ => ()) = x := by
  cases x <;> rfl

section

variable {D : Deps V} {i : Nat} {α β : Type} {w : World V} {v : Except Err Unit}

theorem answers_statement {tx : Bool} {st : Statement V} {f : st.Answer → Async V β}
    (hidle : w.store.pendingOf i = [])
    (h : ∀ inp, freshId inp w = true →
      refusal ((schema D).refuse (st.write inp.id inp.now) w.store.db) = v ∧
      ((schema D).refuse (st.write inp.id inp.now) w.store.db = none →
        Answers D i (f (st.answer inp.id inp.now w.store.db)) (.ok ())
          { w with store := w.store.written (schema D) i tx (st.write inp.id inp.now) })) :
    Answers D i (await (.statement tx st) >>= f) v w := by
  refine Ensures.seq (ensures_statement (Q := fun x w' => match x with
    | .ok a => Answers D i (f a) v w'
    | .error e => .error e = v) fun inp hfresh => ?_) (fun _ _ h => h) fun _ _ h => h
  rw [base_of_idle hidle]
  obtain ⟨hv, hok⟩ := h inp hfresh
  refine ⟨fun e he => ?_, fun hnone => ?_⟩
  · rw [← hv, he]
    rfl
  · rw [← hv, hnone]
    exact hok hnone

/-- **A transaction is answered as its body.** -/
theorem answers_runInTransaction {body : Async V α} (h : Answers D i body v w) :
    Answers D i (runInTransaction body) v w := by
  refine ensures_handle.mpr (Ensures.seq (Q := fun x w' => x = .ok () ∧ w' = w)
    (ensures_await.mpr fun inp r w' _ he => ?_) ?_ ?_)
  · cases he
    exact ⟨rfl, rfl⟩
  · rintro _ w' ⟨_, rfl⟩
    refine Ensures.seq h (fun a w' hv => ?_) fun e w' hv => ?_
    · refine Ensures.seq (Q := fun x _ => x = .ok ()) (ensures_await.mpr fun inp r w'' _ he => ?_)
        (fun _ _ _ => hv) fun _ _ he => nomatch he
      cases he
      rfl
    · refine Ensures.seq (Q := fun x _ => x = .ok ()) (ensures_await.mpr fun inp r w'' _ he => ?_)
        (fun _ _ _ => hv) fun _ _ he => nomatch he
      cases he
      rfl
  · rintro e w' ⟨he, _⟩
    cases he

/-- What is known of the rows when a request arrives. -/
structure Ready (D : Deps V) (i : Nat) (w : World V) : Prop where
  idle : w.store.pendingOf i = []
  refers : Scoped w.store.db
  named : Named D w.store.db
  trimmed : Trimmed w.store.db

/-! ### Categories -/

/-- A request whose first check is of its name. -/
theorem verdict_of_first {d : Db V} {u o : Uuid} {q : Request V}
    (h : q.firstChecks D d u o = .ok ()) : q.verdict D d u o =
      (q.nameCheck D d u o >>= fun _ => q.lastChecks D d u o >>= fun _ => q.indexCheck D d u o) := by
  rw [Request.verdict, h]
  rfl

theorem answers_createCategory {input : CreateCategoryInput} (hr : Ready D i w) :
    Answers D i (createCategory D input) ((Request.createCategory (V := V) input).verdict D
      w.store.db input.userId input.organizationId) w := by
  rw [verdict_of_first rfl]
  refine returns_checkCategoryName.check (map_unit _) fun _ _ => answers_statement hr.idle ?_
  intro inp hfresh
  have hnew := (fresh_of_freshId hfresh).categories
  have hrefuse : (schema D).refuse ((Statement.createCategory input.data).write inp.id inp.now)
      w.store.db = Write.refuseCategory D w.store.db ⟨inp.id, input.userId, input.organizationId,
        input.name, input.data.color, input.data.icon, inp.now, inp.now, none⟩ := if_neg hnew
  refine ⟨?_, fun _ => ?_⟩
  · rw [hrefuse, Write.refuseCategory, refusal_eq, Request.indexCheck, taken_or]
    dsimp only [Option.isNone_none, Bool.true_and]
    rw [categoryNameTaken_eq fun c hc => none_ne_some_iff hnew c.id (List.mem_map_of_mem hc)]
    rfl
  · exact (succeeds_query.bind fun _ => succeeds_invalidateCategoryLists.bind fun _ =>
      succeeds_done) _

/-- What comes after a write does not fail. -/
theorem Answers.andThen {p : Async V α} {f : α → Async V β} (h : Answers D i p v w)
    (hf : ∀ a, Succeeds D i (f a)) : Answers D i (p >>= f) v w := by
  refine Ensures.seq h (fun a w' hv => ?_) fun _ _ hv => hv
  rw [← hv]
  exact hf a w'

/-- What is read back is there. -/
theorem answers_reload {qr : Query} {g : qr.Answer V → Option α} {e : Err}
    (h : (g (qr.eval D w.store.db)).isSome = true) :
    Answers D i (await (.query false qr) >>= fun a => orThrow (g a) e) (.ok ()) w := by
  refine returns_read.seq (fun a ha => ?_) fun e he => nomatch he
  cases ha
  obtain ⟨b, hb⟩ := Option.isSome_iff_exists.mp h
  rw [hb]
  rfl

theorem isSome_findCategoryByPk {d : Db V} {c : MetricCategory} (hc : c ∈ d.categories.rows)
    (hlive : c.deletedAt.isNone = true) :
    ((Query.findCategoryByPk c.id).eval D d).isSome = true := by
  have hfound : d.categories.findOne (fun r => r.id = c.id && r.deletedAt.isNone) = some c := by
    refine Table.findOne_eq_some hc ?_ fun r _ hr => ?_
    · rw [hlive, Bool.and_true, decide_eq_true_eq]
    · exact of_decide_eq_true (Bool.and_eq_true_iff.mp hr).1
  change (Option.map _ (d.categories.findOne fun r => r.id = c.id && r.deletedAt.isNone)).isSome = true
  rw [hfound]
  rfl

theorem returns_checkNewCategoryName {u o : Uuid} {current : String} {name : Option String} :
    Returns D i (checkNewCategoryName u o current name)
      (require (name.all fun name => name = "" || name = current ||
        !(Query.categoryExistsByName u o name).eval D w.store.db)
        (conflictError "Metric Category name already exists")) w := by
  cases name with
  | none => exact returns_done
  | some name =>
    by_cases hskip : (name = "" || name = current) = true
    · have hpure : checkNewCategoryName (V := V) u o current (some name) = pure () := if_pos hskip
      rw [hpure, Option.all_some, hskip]
      exact returns_done
    · have hcheck : checkNewCategoryName (V := V) u o current (some name) =
          checkCategoryName u o name "Metric Category name already exists" := if_neg hskip
      rw [hcheck, Option.all_some, Bool.eq_false_iff.mpr hskip]
      exact returns_checkCategoryName

/-- The name that an update of a category leaves. -/
theorem getD_changes_name {input : UpdateCategoryInput} {c : MetricCategory} :
    (input.changes c).name.getD c.name = input.name.getD c.name := by
  cases hn : input.name with
  | none => simp [UpdateCategoryInput.changes, hn]
  | some name =>
    by_cases hname : name = c.name <;>
      simp [UpdateCategoryInput.changes, hn, hname, Option.filter_some]

/-- The index looks for the name that is given, or it is the row's own. -/
theorem categoryNameTaken_update {d : Db V} {input : UpdateCategoryInput} {c : MetricCategory}
    (h : Named D d) (hc : c ∈ d.categories.rows) (hlive : c.deletedAt.isNone = true)
    (hid : c.id = input.categoryId.id) (hu : c.userId = input.userId) :
    Write.categoryNameTaken D d c.id c.userId (input.name.getD c.name) =
      (Request.updateCategory (V := V) input).nameGiven.any
        (heldIn D d input.userId fun _ => true) := by
  rw [categoryNameTaken_eq fun r _ => some_ne_some_iff r.id, hu]
  cases hn : input.name with
  | none =>
    simp only [Request.nameGiven, hn, Option.map_none, Option.any_none, Option.getD_none]
    exact hu ▸ not_heldIn_categories h hc hlive rfl
  | some name =>
    simp only [Request.nameGiven, hn, Option.map_some, Option.any_some, Option.getD_some, hid]

theorem answers_saveCategory {input : UpdateCategoryInput} {c : MetricCategory} (hr : Ready D i w)
    (hfound : findOwnedCategory w.store.db input.userId input.organizationId
      input.categoryId.id = some c) :
    Answers D i (saveCategory input) ((Request.updateCategory (V := V) input).lastChecks D
      w.store.db input.userId input.organizationId >>= fun _ =>
        (Request.updateCategory (V := V) input).indexCheck D w.store.db input.userId
          input.organizationId) w := by
  obtain ⟨hc, hp⟩ := Table.of_findOne hfound
  simp only [ownsCategory, Bool.and_eq_true, decide_eq_true_eq] at hp
  obtain ⟨hid, ⟨hu, _⟩, hlive⟩ := hp
  have htaken := categoryNameTaken_update hr.named hc hlive hid hu
  simp only [Request.lastChecks, hfound, Request.indexCheck, taken_or]
  refine returns_findCategory.seq ?_ ?_
  · intro row hrow
    rw [hfound] at hrow
    cases hrow
    by_cases hempty : input.changes c = .empty
    · have hpure : updateCategoryRow (V := V) c.id (input.changes c) = pure () := if_pos hempty
      have hname : input.name.getD c.name = c.name := by
        rw [← getD_changes_name, hempty]
        rfl
      have hfree : (Request.updateCategory (V := V) input).nameGiven.any
          (heldIn D w.store.db input.userId fun _ => true) = false := by
        rw [← htaken, hname, categoryNameTaken_eq fun r _ => some_ne_some_iff r.id]
        exact not_heldIn_categories hr.named hc hlive rfl
      dsimp only [toCategoryRow]
      rw [hpure, hfree, decide_eq_true hempty]
      exact answers_reload (hid ▸ isSome_findCategoryByPk hc hlive)
    · have hupdate : updateCategoryRow (V := V) c.id (input.changes c) =
          await (.statement false (.updateCategory c.id (input.changes c))) := if_neg hempty
      dsimp only [toCategoryRow]
      rw [hupdate, decide_eq_false hempty, Bool.false_or]
      refine answers_statement hr.idle fun inp _ => ?_
      have hrow : w.store.db.categories.findOne (fun r => decide (r.id = c.id)) = some c :=
        Table.findOne_id.mpr ⟨hc, rfl⟩
      have hrefuse : (schema D).refuse ((Statement.updateCategory c.id (input.changes c)).write
          inp.id inp.now) w.store.db =
          Write.refuseCategory D w.store.db ((input.changes c).apply inp.now c) := by
        change (w.store.db.categories.findOne fun r => decide (r.id = c.id)).bind _ = _
        rw [hrow]
        rfl
      have happly : ((input.changes c).apply inp.now c).name = input.name.getD c.name :=
        getD_changes_name
      refine ⟨?_, fun _ => ?_⟩
      · rw [hrefuse, Write.refuseCategory, refusal_eq, happly]
        change (require _ _ >>= fun _ => require (!(c.deletedAt.isNone &&
          Write.categoryNameTaken D w.store.db c.id c.userId (input.name.getD c.name))) _) = _
        rw [hlive, Bool.true_and, htaken]
        rfl
      · have hmem : (input.changes c).apply inp.now c ∈ (w.store.db.categories.updateWhere
            (fun r => r.id = c.id) ((input.changes c).apply inp.now) fun _ => rfl).rows :=
          Table.mem_updateWhere.mpr (.inl ⟨c, hc, decide_eq_true rfl, rfl⟩)
        refine answers_reload ?_
        rw [← hid]
        exact isSome_findCategoryByPk (c := (input.changes c).apply inp.now c) hmem hlive
  · intro e he
    rw [hfound] at he
    cases he

theorem answers_updateCategory {input : UpdateCategoryInput} (hr : Ready D i w) :
    Answers D i (updateCategory D input) ((Request.updateCategory (V := V) input).verdict D
      w.store.db input.userId input.organizationId) w := by
  refine returns_findCategory.seq ?_ ?_
  · intro row hrow
    cases hfound : findOwnedCategory w.store.db input.userId input.organizationId
        input.categoryId.id with
    | none =>
      rw [hfound] at hrow
      cases hrow
    | some c =>
      rw [hfound] at hrow
      cases hrow
      have hfirst : (Request.updateCategory (V := V) input).firstChecks D w.store.db input.userId
          input.organizationId = .ok () := by
        rw [Request.firstChecks, hfound]
        rfl
      rw [verdict_of_first hfirst]
      have hname : (Request.updateCategory (V := V) input).nameCheck D w.store.db input.userId
          input.organizationId = require (input.name.all fun name => name = "" || name = c.name ||
            !(Query.categoryExistsByName input.userId input.organizationId name).eval D w.store.db)
            (conflictError "Metric Category name already exists") := by
        simp only [Request.nameCheck, hfound, Option.any_some]
      rw [hname]
      refine returns_checkNewCategoryName.check (map_unit _) fun _ _ => ?_
      exact (answers_saveCategory hr hfound).andThen fun _ =>
        succeeds_invalidateCategoryLists.bind fun _ =>
          succeeds_invalidateCategory.bind fun _ => succeeds_done
  · intro e he
    rw [Request.verdict, Request.firstChecks]
    cases hfound : findOwnedCategory w.store.db input.userId input.organizationId
        input.categoryId.id with
    | none =>
      rw [hfound] at he
      cases he
      rfl
    | some c =>
      rw [hfound] at he
      cases he

/-! ### Metrics -/

/-- The name is looked for in the organization; where it is not the row's own, that is as the index
would look for it. -/
theorem metricExistsByName_eq {d : Db V} {u o : Uuid} {self : Option Uuid} {name : String}
    (hself : ∀ m ∈ d.metrics.rows, D.lower m.name = D.lower name → self ≠ some m.id) :
    (Query.metricExistsByName u o (D.lower name)).eval D d =
      heldIn D d u (fun x => x = o) ⟨.metrics, self, name⟩ := by
  rw [Bool.eq_iff_iff, heldIn_metrics]
  refine List.any_eq_true.trans (exists_congr fun m => and_congr_right fun hm => ?_)
  simp only [owns, Bool.and_eq_true, decide_eq_true_eq]
  constructor
  · rintro ⟨⟨⟨hu, ho⟩, hlive⟩, hname⟩
    exact ⟨hlive, hu, ho, hself m hm hname, hname⟩
  · rintro ⟨hlive, hu, ho, _, hname⟩
    exact ⟨⟨⟨hu, ho⟩, hlive⟩, hname⟩

/-- What is known after a metric is inserted: nothing is committed yet, and no settings row is of
it. -/
theorem ensures_insertMetric {data : CreateMetricData} (hr : Ready D i w)
    (hv : refusal (if !(D.fits data.name && D.fits data.defaultUnit) then some Write.tooLong
      else if heldIn D w.store.db data.userId (fun _ => true) ⟨.metrics, none, data.name⟩
        then some (.uniqueConstraint "uq_metrics_user_name") else none) = v) :
    Ensures (exec D i) freshId (insertMetric data) (fun x w' => match x with
      | .ok m => v = .ok () ∧ w'.store.db = w.store.db ∧
          (w'.store.base (schema D) i true).settings = w.store.db.settings ∧
          m.id ∉ w.store.db.metrics.rows.map Metric.id
      | .error e => v = .error e) w := by
  refine Ensures.seq (Q := fun x w' => match x with
    | .ok a => v = .ok () ∧ w'.store.db = w.store.db ∧
        (w'.store.base (schema D) i true).settings = w.store.db.settings ∧
        a ∉ w.store.db.metrics.rows.map Metric.id ∧
        ((Query.reloadMetric a).eval D (w'.store.base (schema D) i true)).isSome = true
    | .error e => v = .error e) (ensures_statement fun inp hfresh => ?_) ?_ fun _ _ h => h
  · rw [base_of_idle hr.idle]
    have hnew := (fresh_of_freshId hfresh).metrics
    let row : Metric := ⟨inp.id, data.userId, data.organizationId, data.categoryId,
      data.originalMetricId, data.name, data.description, data.defaultUnit, data.isPublic, inp.now,
      inp.now, none⟩
    have hrefuse : (schema D).refuse ((Statement.createMetric data).write inp.id inp.now)
        w.store.db = Write.refuseMetric D w.store.db row := if_neg hnew
    have htaken : Write.metricNameTaken D w.store.db row.id row.userId row.name =
        heldIn D w.store.db data.userId (fun _ => true) ⟨.metrics, none, data.name⟩ :=
      metricNameTaken_eq fun m hm => none_ne_some_iff hnew m.id (List.mem_map_of_mem hm)
    have hv' : refusal (Write.refuseMetric D w.store.db row) = v := by
      rw [← hv, Write.refuseMetric, htaken]
      rfl
    refine ⟨fun e he => ?_, fun hnone => ?_⟩
    · rw [← hv', ← hrefuse, he]
      rfl
    · have hview : (w.store.put (schema D) i (.insertMetric row)).base (schema D) i true =
          (Write.insertMetric row).apply w.store.db := by
        change (w.store.put (schema D) i (.insertMetric row)).view (schema D) i = _
        rw [Store.view_put_self, w.store.view_of_pendingOf_nil _ hr.idle]
        rfl
      refine ⟨?_, rfl, ?_, hnew, ?_⟩
      · rw [← hv', ← hrefuse, hnone]
        rfl
      · have hsettings := congrArg Db.settings hview
        exact hsettings
      · change ((Query.reloadMetric inp.id).eval D
          ((w.store.put (schema D) i (.insertMetric row)).base (schema D) i true)).isSome = true
        rw [hview]
        have hmem : row ∈ (w.store.db.metrics.insert row).rows := Table.mem_insert_self hnew
        have hfound : (w.store.db.metrics.insert row).findOne
            (fun m => m.id = inp.id && m.deletedAt.isNone) = some row := by
          refine Table.findOne_eq_some hmem (by simp [row]) fun m _ hm => ?_
          exact of_decide_eq_true (Bool.and_eq_true_iff.mp hm).1
        exact congrArg Option.isSome hfound
  · rintro a w' ⟨hok, hdb, hsettings, hnew, hthere⟩
    have hread : Ensures (exec D i) freshId (await (.query true (.reloadMetric a)))
        (fun x w'' => x = .ok ((Query.reloadMetric a).eval D (w'.store.base (schema D) i true)) ∧
          w'' = w') w' := ensures_query ⟨rfl, rfl⟩
    refine hread.seq ?_ fun _ _ h => nomatch h.1
    rintro created w'' ⟨hcreated, rfl⟩
    cases hcreated
    obtain ⟨m, hm⟩ := Option.isSome_iff_exists.mp hthere
    rw [hm]
    obtain ⟨_, hp⟩ := Table.of_findOne hm
    rw [Bool.and_eq_true, decide_eq_true_eq] at hp
    exact ⟨hok, hdb, hsettings, hp.1 ▸ hnew⟩

/-- A metric that a user owns is one of his in the organization, and is not deleted. -/
theorem of_findOwnedMetric {d : Db V} {u o id : Uuid} {m : Metric}
    (h : findOwnedMetric d u o id = some m) : m ∈ d.metrics.rows ∧ m.id = id ∧ m.userId = u ∧
      m.organizationId = o ∧ m.deletedAt.isNone = true := by
  obtain ⟨hm, hp⟩ := Table.of_findOne h
  simp only [owns, Bool.and_eq_true, decide_eq_true_eq] at hp
  exact ⟨hm, hp.1, hp.2.1.1, hp.2.1.2, hp.2.2⟩

theorem returns_checkNewName {input : UpdateMetricInput} {m : Metric} (hr : Ready D i w)
    (hcase : D.toLowerCase = D.lower) (hfound : findOwnedMetric w.store.db input.userId
      input.organizationId input.metricId.id = some m) :
    Returns D i (checkNewName D input.userId input.organizationId m.name input.data.name)
      ((Request.updateMetric (V := V) input).nameCheck D w.store.db input.userId
        input.organizationId) w := by
  obtain ⟨hm, hid, hu, _, hlive⟩ := of_findOwnedMetric hfound
  have htrim := hr.trimmed m hm
  cases hn : input.data.name with
  | none =>
    simp only [Request.nameCheck, Request.takenHere, Request.nameGiven, hn]
    exact returns_done
  | some name =>
    have htaken : (Request.updateMetric (V := V) input).takenHere D w.store.db input.userId
        input.organizationId = heldIn D w.store.db input.userId (fun x => x = input.organizationId)
          ⟨.metrics, some input.metricId.id, trim name⟩ := by
      simp only [Request.takenHere, Request.nameGiven, hn, Option.map_some, Option.any_some]
    rw [Request.nameCheck, htaken]
    by_cases hsame : D.toLowerCase (trim name) = D.toLowerCase (trim m.name)
    · have hpure : checkNewName D input.userId input.organizationId m.name (some name) =
          pure () := if_pos hsame
      have hlower : D.lower m.name = D.lower (trim name) := by
        rw [← hcase, hsame, htrim]
      have hfree := not_heldIn_metrics (p := fun x => decide (x = input.organizationId)) hr.named hm
        hlive hlower
      rw [hu, hid] at hfree
      rw [hpure, hfree]
      exact returns_done
    · have hcheck : checkNewName D input.userId input.organizationId m.name (some name) =
          checkMetricName D input.userId input.organizationId name := if_neg hsame
      have hself : ∀ n ∈ w.store.db.metrics.rows, D.lower n.name = D.lower (trim name) →
          some input.metricId.id ≠ some n.id := by
        intro n hn hlower heq
        have hnm : n = m := w.store.db.metrics.eq_of_id hn hm (by rw [hid, Option.some.inj heq])
        rw [hcase, htrim, ← hnm] at hsame
        exact hsame hlower.symm
      rw [hcheck, ← metricExistsByName_eq hself, ← hcase]
      exact returns_checkMetricName

/-- The name and the unit that an update leaves. -/
theorem changes_apply (s : MetricSnapshot) (m : Metric) (now : Date) :
    ((s.changes m).apply now m).name = s.name ∧
      ((s.changes m).apply now m).defaultUnit = s.defaultUnit := by
  constructor
  · by_cases hname : s.name = m.name <;> simp [MetricSnapshot.changes, MetricPatch.apply, hname]
  · by_cases hunit : s.defaultUnit = m.defaultUnit <;>
      simp [MetricSnapshot.changes, MetricPatch.apply, hunit]

/-- The index looks for the name that is given, or it is the row's own. -/
theorem metricNameTaken_update {d : Db V} {input : UpdateMetricInput} {m : Metric}
    {s : MetricSnapshot} (h : Named D d) (hm : m ∈ d.metrics.rows)
    (hlive : m.deletedAt.isNone = true) (hid : m.id = input.metricId.id)
    (hu : m.userId = input.userId) (hs : input.data.update (toSnapshot m) = .ok s) :
    Write.metricNameTaken D d m.id m.userId s.name =
      (Request.updateMetric (V := V) input).nameGiven.any
        (heldIn D d input.userId fun _ => true) := by
  rw [metricNameTaken_eq fun r _ => some_ne_some_iff r.id, hu, UpdateMetricData.update_ok hs,
    UpdateMetricData.merge]
  cases hn : input.data.name with
  | none =>
    simp only [Request.nameGiven, hn, Option.map_none, Option.any_none, Option.getD_none]
    exact hu ▸ not_heldIn_metrics h hm hlive rfl
  | some name =>
    simp only [Request.nameGiven, hn, Option.map_some, Option.any_some, Option.getD_some, hid]

theorem isSome_reloadMetric {d : Db V} {m : Metric} (hm : m ∈ d.metrics.rows)
    (hlive : m.deletedAt.isNone = true) :
    ((Query.reloadMetric m.id).eval D d).isSome = true := by
  have hfound : d.metrics.findOne (fun r => r.id = m.id && r.deletedAt.isNone) = some m := by
    refine Table.findOne_eq_some hm ?_ fun r _ hr => ?_
    · rw [hlive, Bool.and_true, decide_eq_true_eq]
    · exact of_decide_eq_true (Bool.and_eq_true_iff.mp hr).1
  exact congrArg Option.isSome hfound

theorem answers_saveMetric {input : UpdateMetricInput} {m : Metric} {s : MetricSnapshot}
    (hr : Ready D i w) (hfound : findOwnedMetric w.store.db input.userId input.organizationId
      input.metricId.id = some m) (hs : input.data.update (toSnapshot m) = .ok s) :
    Answers D i (saveMetric input.userId input.organizationId m.id s)
      (require (s.changes m = .empty || (D.fits s.name && D.fits s.defaultUnit)) Write.tooLong >>=
        fun _ => (Request.updateMetric (V := V) input).indexCheck D w.store.db input.userId
          input.organizationId) w := by
  obtain ⟨hm, hid, hu, _, hlive⟩ := of_findOwnedMetric hfound
  have htaken := metricNameTaken_update hr.named hm hlive hid hu hs
  simp only [Request.indexCheck, taken_or]
  rw [hid]
  refine returns_findOwnedById.seq ?_ ?_
  · intro n hn
    rw [hfound] at hn
    cases hn
    by_cases hempty : s.changes m = .empty
    · have hpure : updateInstance (V := V) m.id (s.changes m) = pure () := if_pos hempty
      have hname : s.name = m.name := by
        rw [← (changes_apply s m m.updatedAt).1, hempty]
        rfl
      have hfree : (Request.updateMetric (V := V) input).nameGiven.any
          (heldIn D w.store.db input.userId fun _ => true) = false := by
        rw [← htaken, hname, metricNameTaken_eq fun r _ => some_ne_some_iff r.id]
        exact not_heldIn_metrics hr.named hm hlive rfl
      rw [hpure, hfree, decide_eq_true hempty]
      exact answers_reload (isSome_reloadMetric hm hlive)
    · have hupdate : updateInstance (V := V) m.id (s.changes m) =
          await (.statement false (.updateMetric m.id (s.changes m))) := if_neg hempty
      rw [hupdate, decide_eq_false hempty, Bool.false_or]
      refine answers_statement hr.idle fun inp _ => ?_
      have hrow : w.store.db.metrics.findOne (fun r => decide (r.id = m.id)) = some m :=
        Table.findOne_id.mpr ⟨hm, rfl⟩
      have hrefuse : (schema D).refuse ((Statement.updateMetric m.id (s.changes m)).write
          inp.id inp.now) w.store.db =
          Write.refuseMetric D w.store.db ((s.changes m).apply inp.now m) := by
        change (w.store.db.metrics.findOne fun r => decide (r.id = m.id)).bind _ = _
        rw [hrow]
        rfl
      obtain ⟨hname, hunit⟩ := changes_apply s m inp.now
      refine ⟨?_, fun _ => ?_⟩
      · rw [hrefuse, Write.refuseMetric, refusal_eq, hname, hunit]
        change (require _ _ >>= fun _ => require (!(m.deletedAt.isNone &&
          Write.metricNameTaken D w.store.db m.id m.userId s.name)) _) = _
        rw [hlive, Bool.true_and, htaken]
        rfl
      · have hmem : (s.changes m).apply inp.now m ∈ (w.store.db.metrics.updateWhere
            (fun r => r.id = m.id) ((s.changes m).apply inp.now) fun _ => rfl).rows :=
          Table.mem_updateWhere.mpr (.inl ⟨m, hm, decide_eq_true rfl, rfl⟩)
        exact answers_reload (isSome_reloadMetric (m := (s.changes m).apply inp.now m) hmem hlive)
  · intro e he
    rw [hfound] at he
    cases he

theorem answers_updateMetric {input : UpdateMetricInput} (hr : Ready D i w)
    (hcase : D.toLowerCase = D.lower) (horiginal : input.data.originalMetricId.join = none) :
    Answers D i (updateMetric D input) ((Request.updateMetric (V := V) input).verdict D w.store.db
      input.userId input.organizationId) w := by
  simp only [Request.verdict, Request.firstChecks, bind_assoc]
  refine returns_findOwnedById.seq ?_ ?_
  · intro m hm
    cases hfound : findOwnedMetric w.store.db input.userId input.organizationId
        input.metricId.id with
    | none =>
      rw [hfound] at hm
      cases hm
    | some n =>
      rw [hfound] at hm
      cases hm
      change Answers D i _ (requireCategory D w.store.db input.userId input.organizationId
        input.data.categoryId.join >>= fun _ => _) w
      refine returns_checkCategory.check (map_unit _) fun _ _ => ?_
      rw [horiginal]
      refine (returns_checkNewName hr hcase hfound).check (map_unit _) fun _ _ => ?_
      simp only [Request.lastChecks, hfound, bind_assoc]
      refine returns_ensure.check (map_unit _) fun _ _ => ?_
      refine returns_liftExcept.seq (fun s hs => ?_) fun e he => ?_
      · rw [hs]
        exact (answers_saveMetric hr hfound hs).andThen fun _ =>
          succeeds_invalidateMetrics.bind fun _ => succeeds_done
      · rw [he]
        rfl
  · intro e he
    cases hfound : findOwnedMetric w.store.db input.userId input.organizationId
        input.metricId.id with
    | none =>
      rw [hfound] at he
      cases he
      rfl
    | some m =>
      rw [hfound] at he
      cases he

variable [LinearOrder V] [Zero V]

/-- The settings of a metric that is new are not refused. -/
theorem answers_createSettings {d : Db V} {m : Metric} {o : Uuid} (hd : Scoped d)
    (hdb : w.store.db = d) (hsettings : (w.store.base (schema D) i true).settings = d.settings)
    (hnew : m.id ∉ d.metrics.rows.map Metric.id) :
    Answers D i (createSettings true ⟨m.id, o, defaultSettings⟩) (.ok ()) w := by
  have hcreate : createSettings true ⟨m.id, o, defaultSettings⟩ = await (.statement true
      (.createSettings ⟨m.id, o, (defaultSettings : SettingsValues V)⟩)) := rfl
  rw [hcreate]
  refine ensures_statement fun inp hfresh => ⟨fun e he => ?_, fun _ => rfl⟩
  have hid := (fresh_of_freshId hfresh).settings
  change (if inp.id ∈ (w.store.base (schema D) i true).settings.rows.map MetricSettings.id then _
    else if ((w.store.base (schema D) i true).settings.rows.any fun s => s.metricId = m.id) then _
      else none) = some e at he
  rw [hdb] at hid
  have hfree : (d.settings.rows.any fun s => s.metricId = m.id) = false := by
    rw [List.any_eq_false]
    intro s hs hmetric
    obtain ⟨_, n, hn, hnid, _⟩ := hd.settings s hs
    exact hnew (of_decide_eq_true hmetric ▸ hnid ▸ List.mem_map_of_mem hn)
  rw [hsettings, if_neg hid, hfree] at he
  cases he

theorem answers_createMetric {input : CreateMetricInput} (hr : Ready D i w)
    (hcase : D.toLowerCase = D.lower) (horiginal : input.originalMetricId = none)
    (htrim : trim input.name = input.name) :
    Answers D i (createMetric D input) ((Request.createMetric (V := V) input).verdict D w.store.db
      input.userId input.organizationId) w := by
  rw [verdict_of_first rfl]
  have hname : (Request.createMetric (V := V) input).nameCheck D w.store.db input.userId
      input.organizationId = require (!(Query.metricExistsByName input.userId input.organizationId
        (D.toLowerCase (trim input.name))).eval D w.store.db)
          (conflictError "Metric already exists") := by
    have hself : ∀ m ∈ w.store.db.metrics.rows, D.lower m.name = D.lower input.name →
        (none : Option Uuid) ≠ some m.id := fun _ _ _ => nofun
    rw [hcase, htrim, metricExistsByName_eq hself]
    rfl
  rw [hname]
  refine returns_checkMetricName.check (map_unit _) fun _ _ => ?_
  simp only [Request.lastChecks, bind_assoc]
  refine returns_checkCategory.check (map_unit _) fun _ _ => ?_
  rw [horiginal]
  refine answers_runInTransaction ?_
  have hv : refusal (if !(D.fits input.name && D.fits input.defaultUnit) then some Write.tooLong
      else if heldIn D w.store.db input.userId (fun _ => true) ⟨.metrics, none, input.name⟩
        then some (.uniqueConstraint "uq_metrics_user_name") else none) =
      (require (D.fits input.name && D.fits input.defaultUnit) Write.tooLong >>= fun _ =>
        (Request.createMetric (V := V) input).indexCheck D w.store.db input.userId
          input.organizationId) := by
    rw [refusal_eq, Request.indexCheck, taken_or]
    rfl
  refine (ensures_insertMetric hr hv).seq ?_ fun e _ he => he.symm
  rintro m w' ⟨hok, hdb, hsettings, hnew⟩
  rw [hok]
  refine (answers_createSettings hr.refers hdb hsettings hnew).andThen fun _ => ?_
  exact succeeds_invalidateMetrics.bind fun _ => succeeds_done

/-- **Each write is answered as its verdict.** -/
theorem answers_handle {q : Request V} {u o : Uuid} (hr : Ready D i w)
    (hcase : D.toLowerCase = D.lower) (hq : q.NameWrite u o) (htrim : q.TrimsName) :
    Answers D i (handle D q) (q.verdict D w.store.db u o) w := by
  cases q with
  | createMetric input =>
    obtain ⟨rfl, rfl, horiginal⟩ := hq
    exact (answers_createMetric hr hcase horiginal htrim).andThen fun _ => succeeds_done
  | updateMetric input =>
    obtain ⟨rfl, rfl, horiginal⟩ := hq
    exact (answers_updateMetric hr hcase horiginal).andThen fun _ => succeeds_done
  | createCategory input =>
    obtain ⟨rfl, rfl⟩ := hq
    exact (answers_createCategory hr).andThen fun _ => succeeds_done
  | updateCategory input =>
    obtain ⟨rfl, rfl⟩ := hq
    exact (answers_updateCategory hr).andThen fun _ => succeeds_done
  | _ => exact hq.elim

end

end LakiraBackend.Metrics
