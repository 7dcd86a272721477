import LakiraBackend.Metrics.Calls

/-!
# The use cases of metrics and of categories

Each is its class's `execute`, with the repository methods and the cache invalidation it
calls.
-/

namespace LakiraBackend.Metrics

open LakiraBackend.Auth (Err conflictError notFoundError validationError)
open LakiraBackend.Concurrency LakiraBackend.JavaScript LakiraBackend.Postgres

variable {V : Type}

def ensure (condition : Bool) (e : Err) : Async V Unit := if condition then pure () else throw e

def liftExcept {α : Type} : Except Err α → Async V α
  | .ok a => pure a
  | .error e => throw e

/-- A part of a computation that succeeds has succeeded. -/
theorem of_bind_ok {ε α β : Type} {x : Except ε α} {f : α → Except ε β} {b : β}
    (h : (x >>= f) = .ok b) : ∃ a, x = .ok a ∧ f a = .ok b := by
  cases x with
  | error e => cases h
  | ok a => exact ⟨a, rfl, h⟩

/-- What is there, or an error. -/
def orThrow {α : Type} (x : Option α) (e : Err) : Async V α :=
  match x with
  | some a => pure a
  | none => throw e

/-- `sequelize.transaction`: an error of the body rolls back and is thrown again. -/
def runInTransaction {α : Type} (body : Async V α) : Async V α :=
  tryCatch
    (do
      await .begin
      let r ← body
      await .commit
      pure r)
    fun e => do
      await .rollback
      throw e

/-- The walks over some patterns, started together: each is over at its time. -/
def walks : Nat → List (List Char) → Async V Unit
  | 0, _ => pure ()
  | n + 1, patterns => do
    let k ← await .pick
    match patterns[k % patterns.length]? with
    | none => pure ()
    | some pattern => do
      await (.delByPattern pattern)
      walks n (patterns.eraseIdx (k % patterns.length))

/-- `Promise.all(patterns.map(invalidateCacheByPattern))`. -/
def invalidateAll (patterns : List (List Char)) : Async V Unit := walks patterns.length patterns

/-! ### Metrics -/

/-- `MetricCacheRedis.invalidateMetrics`, while Redis is there. -/
def invalidateMetrics (D : Deps V) (userId organizationId : Uuid) (metricId : List Char) :
    Async V Unit :=
  if D.cacheEnabled then invalidateAll [cursorPattern userId organizationId METRIC_CURSOR_FEATURE,
    metricEntryPattern userId organizationId metricId]
  else pure ()

def checkCategory (userId organizationId : Uuid) (categoryId : Option IdText) : Async V Unit :=
  match categoryId with
  | none => pure ()
  | some categoryId => do
    let found ← await (.query false (.categoryExists userId organizationId categoryId.id))
    ensure found (notFoundError "Category not found")

def checkOriginalMetric (userId : Uuid) (originalMetricId : Option IdText) : Async V Unit :=
  match originalMetricId with
  | none => pure ()
  | some originalMetricId => do
    let found ← await (.query false (.originalMetricExists userId originalMetricId.id))
    ensure found (notFoundError "Original metric not found")

def checkMetricName (D : Deps V) (userId organizationId : Uuid) (name : String) : Async V Unit := do
  let taken ← await (.query false
    (.metricExistsByName userId organizationId (D.toLowerCase (trim name))))
  ensure (!taken) (conflictError "Metric already exists")

structure CreateMetricInput : Type where
  userId : Uuid
  organizationId : Uuid
  categoryId : Option IdText
  originalMetricId : Option IdText
  name : String
  description : Option String
  defaultUnit : String
  isPublic : Bool

def CreateMetricInput.data (input : CreateMetricInput) : CreateMetricData where
  userId := input.userId
  organizationId := input.organizationId
  categoryId := input.categoryId.map IdText.id
  originalMetricId := input.originalMetricId.map IdText.id
  name := input.name
  description := input.description
  defaultUnit := input.defaultUnit
  isPublic := input.isPublic

/-- What `MetricSettingsPortSequelize.createDefault` writes. -/
def defaultSettings : SettingsValues V where
  isActive := true
  goalEnabled := false
  goalType := none
  goalValue := none
  timeFrameEnabled := false
  startDate := none
  deadlineDate := none
  alertEnabled := false
  alertThresholds := some 80
  isAchieved := false
  displayOptions := ⟨true, some 1, some "line", some "#E897A3"⟩

section Validators

variable [LinearOrder V] [Zero V]

/-- `isAfterStart`. -/
def isAfterStart (v : SettingsValues V) : Bool :=
  match v.startDate, v.deadlineDate with
  | some start, some deadline => start.ms < deadline.ms
  | _, _ => true

/-- What the validators of the model find. -/
def settingsIssues (v : SettingsValues V) : List String :=
  [(v.goalValue.all fun value => 0 < value, "Goal value must be greater than 0."),
    (isAfterStart v, "Deadline date must be after the start date."),
    (v.alertThresholds.all fun value => 0 ≤ value && value ≤ 100,
      "alertThresholds must be between 0 and 100.")].filterMap fun (ok, message) =>
    if ok then none else some message

/-- The values of a row are validated before it is inserted or updated. -/
def validateSettings (v : SettingsValues V) : Except Err Unit :=
  match settingsIssues v with
  | [] => .ok ()
  | issues => .error (.plain (",\n".intercalate (issues.map ("Validation error: " ++ ·))))

/-- The default row passes. -/
theorem validateSettings_default : validateSettings (defaultSettings : SettingsValues V) = .ok () :=
  rfl

theorem isAfterStart_of_validateSettings {v : SettingsValues V} (h : validateSettings v = .ok ()) :
    isAfterStart v = true := by
  by_contra hno
  rw [Bool.not_eq_true] at hno
  have hmem : "Deadline date must be after the start date." ∈ settingsIssues v := by
    simp [settingsIssues, hno]
  unfold validateSettings at h
  split at h
  · rename_i hnil
    rw [hnil] at hmem
    cases hmem
  · cases h

/-- `MetricSettings.create`. -/
def createSettings (tx : Bool) (data : CreateSettingsData V) : Async V Uuid := do
  liftExcept (validateSettings data.values)
  await (.statement tx (.createSettings data))

end Validators

/-- `MetricRepoSequelize.create`. -/
def insertMetric (data : CreateMetricData) : Async V Metric := do
  let id ← await (.statement true (.createMetric data))
  let created ← await (.query true (.reloadMetric id))
  match created with
  | some m => pure m
  | none => throw (.plain "Instance could not be reloaded because it does not exist anymore")

def createMetric [LinearOrder V] [Zero V] (D : Deps V) (input : CreateMetricInput) :
    Async V Metric := do
  checkMetricName D input.userId input.organizationId input.name
  checkCategory input.userId input.organizationId input.categoryId
  checkOriginalMetric input.userId input.originalMetricId
  runInTransaction do
    let metric ← insertMetric input.data
    let _ ← createSettings true ⟨metric.id, input.organizationId, defaultSettings⟩
    invalidateMetrics D metric.userId input.organizationId metric.id.text
    pure metric

/-- The fields of the entity that can change. -/
structure MetricSnapshot : Type where
  name : String
  description : Option String
  defaultUnit : String
  categoryId : Option IdText
  originalMetricId : Option IdText
  isPublic : Bool

def toSnapshot (m : Metric) : MetricSnapshot :=
  ⟨m.name, m.description, m.defaultUnit, m.categoryId.map IdText.ofUuid,
    m.originalMetricId.map IdText.ofUuid, m.isPublic⟩

def isControlChar (allowNewlines : Bool) (c : Char) : Bool :=
  (c.toNat = 0x7f || c.toNat < 0x20) &&
    !(allowNewlines && (c.toNat = 0x09 || c.toNat = 0x0a || c.toNat = 0x0d))

def hasInvalidMetricChars (value : String) (allowNewlines : Bool) : Bool :=
  value.toList.any (isControlChar allowNewlines)

namespace MetricSnapshot

/-- The rule of a text that is trimmed, and what it throws. -/
def checkText (value required tooLong : String) (most : Nat) : Except Err Unit :=
  if value.length < 1 then .error (validationError required)
  else if most < value.length then .error (validationError tooLong)
  else if hasInvalidMetricChars value false then
    .error (validationError "Contains invalid characters")
  else .ok ()

def rename (s : MetricSnapshot) (next : String) : Except Err MetricSnapshot :=
  (checkText (trim next) "Name is required" "Name exceeds length limit" 128).map fun _ =>
    { s with name := trim next }

def describe (s : MetricSnapshot) (next : Option String) : Except Err MetricSnapshot :=
  match next with
  | none => .ok { s with description := none }
  | some text =>
    if 512 < text.length then .error (validationError "Description exceeds length limit")
    else if hasInvalidMetricChars text true then
      .error (validationError "Contains invalid characters")
    else .ok { s with description := some text }

def setDefaultUnit (s : MetricSnapshot) (unit : String) : Except Err MetricSnapshot :=
  (checkText (trim unit) "Unit is required" "Unit exceeds length limit" 32).map fun _ =>
    { s with defaultUnit := trim unit }

def moveToCategory (s : MetricSnapshot) (categoryId : Option IdText) : MetricSnapshot :=
  { s with categoryId := categoryId }

def setOriginalMetric (s : MetricSnapshot) (originalMetricId : Option IdText) : MetricSnapshot :=
  { s with originalMetricId := originalMetricId }

def togglePublic (s : MetricSnapshot) (value : Bool) : MetricSnapshot := { s with isPublic := value }

/-- The columns in which the instance differs; ids are compared as texts. -/
def changes (s : MetricSnapshot) (m : Metric) : MetricPatch where
  name := if s.name = m.name then none else some s.name
  description := if s.description = m.description then none else some s.description
  defaultUnit := if s.defaultUnit = m.defaultUnit then none else some s.defaultUnit
  categoryId := if s.categoryId.map IdText.text = m.categoryId.map Uuid.text then none
    else some (s.categoryId.map IdText.id)
  originalMetricId :=
    if s.originalMetricId.map IdText.text = m.originalMetricId.map Uuid.text then none
    else some (s.originalMetricId.map IdText.id)
  isPublic := if s.isPublic = m.isPublic then none else some s.isPublic

end MetricSnapshot

/-- A field that is missing is left alone; a null is told apart from it. -/
structure UpdateMetricData : Type where
  name : Option String
  description : Option (Option String)
  defaultUnit : Option String
  categoryId : Option (Option IdText)
  originalMetricId : Option (Option IdText)
  isPublic : Option Bool

def UpdateMetricData.isEmpty (data : UpdateMetricData) : Bool :=
  data.name.isNone && data.description.isNone && data.defaultUnit.isNone &&
    data.categoryId.isNone && data.originalMetricId.isNone && data.isPublic.isNone

/-- `f` of what is there. -/
def onSome {α β : Type} (x : Option α) (f : β → α → Except Err β) (b : β) : Except Err β :=
  match x with
  | none => .ok b
  | some a => f b a

/-- `Metric.update`. -/
def UpdateMetricData.update (data : UpdateMetricData) (s : MetricSnapshot) :
    Except Err MetricSnapshot := do
  let s ← onSome data.name MetricSnapshot.rename s
  let s ← onSome data.description MetricSnapshot.describe s
  let s ← onSome data.defaultUnit MetricSnapshot.setDefaultUnit s
  let s ← onSome data.categoryId (fun s id => .ok (s.moveToCategory id)) s
  let s ← onSome data.originalMetricId (fun s id => .ok (s.setOriginalMetric id)) s
  onSome data.isPublic (fun s value => .ok (s.togglePublic value)) s

/-- The entity with an update: its texts are trimmed. -/
def UpdateMetricData.merge (data : UpdateMetricData) (s : MetricSnapshot) : MetricSnapshot where
  name := (data.name.map trim).getD s.name
  description := data.description.getD s.description
  defaultUnit := (data.defaultUnit.map trim).getD s.defaultUnit
  categoryId := data.categoryId.getD s.categoryId
  originalMetricId := data.originalMetricId.getD s.originalMetricId
  isPublic := data.isPublic.getD s.isPublic

/-- A part of an update that succeeds sets what it carries. -/
theorem onSome_ok {α β : Type} {x : Option α} {f : β → α → Except Err β} {b b' c : β}
    (h : onSome x f b = .ok b') (hnone : x = none → c = b)
    (hsome : ∀ a, x = some a → f b a = .ok b' → b' = c) : b' = c := by
  cases x with
  | none =>
    cases h
    exact (hnone rfl).symm
  | some a => exact hsome a rfl h

theorem of_map_ok {x : Except Err Unit} {s s' : MetricSnapshot}
    (h : x.map (fun _ => s) = .ok s') : s' = s := by
  cases x with
  | error e => cases h
  | ok a => cases h; rfl

theorem MetricSnapshot.describe_ok {s s' : MetricSnapshot} {next : Option String}
    (h : s.describe next = .ok s') : s' = { s with description := next } := by
  unfold describe at h
  split at h
  · cases h
    rfl
  · split at h
    · cases h
    · split at h
      · cases h
      · cases h
        rfl

/-- **An update that is valid is merged.** -/
theorem UpdateMetricData.update_ok {data : UpdateMetricData} {s s' : MetricSnapshot}
    (h : data.update s = .ok s') : s' = data.merge s := by
  unfold update at h
  obtain ⟨s₁, h₁, h⟩ := of_bind_ok h
  obtain ⟨s₂, h₂, h⟩ := of_bind_ok h
  obtain ⟨s₃, h₃, h⟩ := of_bind_ok h
  obtain ⟨s₄, h₄, h⟩ := of_bind_ok h
  obtain ⟨s₅, h₅, h⟩ := of_bind_ok h
  have hname : s₁ = { s with name := (data.name.map trim).getD s.name } := by
    refine onSome_ok h₁ (fun hx => by rw [hx]; rfl) fun a hx hr => ?_
    rw [of_map_ok hr, hx]
    rfl
  have hdescription : s₂ = { s₁ with description := data.description.getD s₁.description } := by
    refine onSome_ok h₂ (fun hx => by rw [hx]; rfl) fun a hx hr => ?_
    rw [MetricSnapshot.describe_ok hr, hx]
    rfl
  have hunit : s₃ = { s₂ with defaultUnit := (data.defaultUnit.map trim).getD s₂.defaultUnit } := by
    refine onSome_ok h₃ (fun hx => by rw [hx]; rfl) fun a hx hr => ?_
    rw [of_map_ok hr, hx]
    rfl
  have hcategory : s₄ = { s₃ with categoryId := data.categoryId.getD s₃.categoryId } := by
    refine onSome_ok h₄ (fun hx => by rw [hx]; rfl) fun a hx hr => ?_
    rw [← Except.ok.inj hr, hx]
    rfl
  have horiginal : s₅ =
      { s₄ with originalMetricId := data.originalMetricId.getD s₄.originalMetricId } := by
    refine onSome_ok h₅ (fun hx => by rw [hx]; rfl) fun a hx hr => ?_
    rw [← Except.ok.inj hr, hx]
    rfl
  have hpublic : s' = { s₅ with isPublic := data.isPublic.getD s₅.isPublic } := by
    refine onSome_ok h (fun hx => by rw [hx]; rfl) fun a hx hr => ?_
    rw [← Except.ok.inj hr, hx]
    rfl
  rw [hpublic, horiginal, hcategory, hunit, hdescription, hname]
  rfl

def findOwnedById (userId organizationId metricId : Uuid) : Async V Metric := do
  let found ← await (.query false (.findOwnedMetric userId organizationId metricId))
  orThrow found (.app "Metric not found" 404)

/-- `instance.update`: nothing is sent where nothing differs. -/
def updateInstance (id : Uuid) (patch : MetricPatch) : Async V Unit :=
  if patch = .empty then pure () else await (.statement false (.updateMetric id patch))

/-- `MetricRepoSequelize.save`. -/
def saveMetric (userId organizationId metricId : Uuid) (s : MetricSnapshot) : Async V Metric := do
  let m ← findOwnedById userId organizationId metricId
  updateInstance m.id (s.changes m)
  let reloaded ← await (.query false (.reloadMetric m.id))
  orThrow reloaded (.app "Metric not found" 404)

structure UpdateMetricInput : Type where
  userId : Uuid
  organizationId : Uuid
  metricId : IdText
  data : UpdateMetricData

/-- The new name is looked for, unless it is the old one but for its case. -/
def checkNewName (D : Deps V) (userId organizationId : Uuid) (current : String)
    (name : Option String) : Async V Unit :=
  match name with
  | none => pure ()
  | some name =>
    if D.toLowerCase (trim name) = D.toLowerCase (trim current) then pure ()
    else checkMetricName D userId organizationId name

def updateMetric (D : Deps V) (input : UpdateMetricInput) : Async V Metric := do
  let metric ← findOwnedById input.userId input.organizationId input.metricId.id
  checkCategory input.userId input.organizationId input.data.categoryId.join
  checkOriginalMetric input.userId input.data.originalMetricId.join
  checkNewName D input.userId input.organizationId metric.name input.data.name
  ensure (!input.data.isEmpty) (validationError "Update payload cannot be empty")
  let snapshot ← liftExcept (input.data.update (toSnapshot metric))
  let saved ← saveMetric input.userId input.organizationId metric.id snapshot
  invalidateMetrics D input.userId input.organizationId metric.id.text
  pure saved

/-- `MetricRepoSequelize.delete`. -/
def destroyMetric (userId organizationId metricId : Uuid) : Async V Unit := do
  let m ← findOwnedById userId organizationId metricId
  await (.statement false (.destroyMetric m.id))

/-- The cache is cleared first. -/
def deleteMetric (D : Deps V) (userId organizationId : Uuid) (metricId : IdText) :
    Async V Metric := do
  let metric ← findOwnedById userId organizationId metricId.id
  invalidateMetrics D userId organizationId metric.id.text
  destroyMetric userId organizationId metric.id
  pure metric

/-! ### Categories -/

def checkCategoryName (userId organizationId : Uuid) (name message : String) : Async V Unit := do
  let taken ← await (.query false (.categoryExistsByName userId organizationId name))
  ensure (!taken) (conflictError message)

/-- The lists of the user in any organization, while Redis is there. -/
def invalidateCategoryLists (D : Deps V) (userId : Uuid) : Async V Unit :=
  if D.cacheEnabled then await (.delByPattern (categoryCursorPattern userId)) else pure ()

/-- The entry, under the id as the request spells it. -/
def invalidateCategory (D : Deps V) (userId organizationId : Uuid) (categoryId : IdText) :
    Async V Unit :=
  if D.cacheEnabled then await (.del (categoryEntryKey userId organizationId categoryId.text))
  else pure ()

structure CreateCategoryInput : Type where
  userId : Uuid
  organizationId : Uuid
  name : String
  color : Option String
  icon : Option String

def CreateCategoryInput.data (input : CreateCategoryInput) : CreateCategoryData where
  userId := input.userId
  organizationId := input.organizationId
  name := input.name
  color := input.color.getD "#E897A3"
  icon := input.icon.getD "📁"

/-- The category as it is read back, which counts no metrics yet. -/
def createCategory (D : Deps V) (input : CreateCategoryInput) : Async V (Option CategoryRow) := do
  checkCategoryName input.userId input.organizationId input.name "Category already exists"
  let id ← await (.statement false (.createCategory input.data))
  let fresh ← await (.query false (.findCategoryByPk id))
  invalidateCategoryLists D input.userId
  pure (fresh.map fun r => { r with metricCount := 0 })

structure UpdateCategoryInput : Type where
  userId : Uuid
  organizationId : Uuid
  categoryId : IdText
  name : Option String
  color : Option String
  icon : Option String

/-- The columns in which the row differs. -/
def UpdateCategoryInput.changes (input : UpdateCategoryInput) (c : MetricCategory) :
    CategoryPatch where
  name := input.name.filter fun name => name ≠ c.name
  color := input.color.filter fun color => color ≠ c.color
  icon := input.icon.filter fun icon => icon ≠ c.icon

def findCategory (userId organizationId categoryId : Uuid) (e : Err) : Async V CategoryRow := do
  let found ← await (.query false (.findOwnedCategory userId organizationId categoryId))
  orThrow found e

/-- A new name is looked for as it is written. -/
def checkNewCategoryName (userId organizationId : Uuid) (current : String) (name : Option String) :
    Async V Unit :=
  match name with
  | none => pure ()
  | some name =>
    if name = "" || name = current then pure ()
    else checkCategoryName userId organizationId name "Metric Category name already exists"

def updateCategoryRow (id : Uuid) (patch : CategoryPatch) : Async V Unit :=
  if patch = .empty then pure () else await (.statement false (.updateCategory id patch))

/-- `MetricCategoryRepoSequelize.update`. -/
def saveCategory (input : UpdateCategoryInput) : Async V CategoryRow := do
  let row ← findCategory input.userId input.organizationId input.categoryId.id
    (.plain "Category not found")
  updateCategoryRow row.category.id (input.changes row.category)
  let fresh ← await (.query false (.findCategoryByPk input.categoryId.id))
  orThrow fresh (.plain "Cannot read properties of null (reading 'id')")

def updateCategory (D : Deps V) (input : UpdateCategoryInput) : Async V CategoryRow := do
  let current ← findCategory input.userId input.organizationId input.categoryId.id
    (notFoundError "Metric Category not found")
  checkNewCategoryName input.userId input.organizationId current.category.name input.name
  let updated ← saveCategory input
  invalidateCategoryLists D input.userId
  invalidateCategory D input.userId input.organizationId input.categoryId
  pure updated

def deleteCategory (D : Deps V) (userId organizationId : Uuid) (categoryId : IdText) :
    Async V Unit := do
  let _ ← findCategory userId organizationId categoryId.id
    (notFoundError "Metric Category not found")
  await (.statement false (.destroyCategories userId organizationId categoryId.id))
  invalidateCategoryLists D userId
  invalidateCategory D userId organizationId categoryId

end LakiraBackend.Metrics
