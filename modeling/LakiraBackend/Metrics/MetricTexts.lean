import LakiraBackend.JavaScript.Utf16

/-!
# The texts of a metric, in its schema and in its entity

A metric's name, unit and description are checked by the rules of the request schema and again
by the entity.  What the rules accept the entity accepts, and stores as it is
(`rules_entity_agree`): the rules look at the characters first and trim then, the entity trims
first, and a text without control characters and unpaired surrogates stays one when it is
trimmed.
-/

namespace LakiraBackend.Metrics.MetricTexts

open LakiraBackend.JavaScript
open LakiraBackend.JavaScript.Text (isHigh isLow WellFormed)

/-! ### Characters -/

/-- `Array.from(value).length`. -/
def getUnicodeLength (value : Text) : Nat := value.codePoints.length

def hasInvalidControlChars (allowNewlines : Bool) : Text → Bool
  | [] => false
  | code :: value =>
    if code = 0x7f ∨ code < 0x20 then
      if allowNewlines ∧ (code = 0x09 ∨ code = 0x0a ∨ code = 0x0d) then
        hasInvalidControlChars allowNewlines value
      else true
    else hasInvalidControlChars allowNewlines value

/-- `[\uD800-\uDBFF](?![\uDC00-\uDFFF])|(?<![\uD800-\uDBFF])[\uDC00-\uDFFF]` at a code point,
with the ones beside it. -/
def isUnpaired (before : Option Nat) (c : Nat) (after : Option Nat) : Bool :=
  isHigh c && !after.any isLow || !before.any isHigh && isLow c

/-- The pattern matches somewhere in the code points. -/
def hasUnpaired (before : Option Nat) : List Nat → Bool
  | [] => false
  | c :: rest => isUnpaired before c rest.head? || hasUnpaired (some c) rest

/-- With the flag `u`, a pattern is matched over code points. -/
def hasUnpairedSurrogates (value : Text) : Bool := hasUnpaired none value.codePoints

/-! ### The rules of the schema -/

/-- `min` and `max` of a rule. -/
structure LengthRule : Type where
  min : Nat
  max : Nat

def METRIC_NAME_RULE : LengthRule := ⟨1, 128⟩

def METRIC_UNIT_RULE : LengthRule := ⟨1, 32⟩

def METRIC_DESCRIPTION_RULE : Nat := 512

def nameRequired : String := "Name is required"

def nameTooLong : String := "Name exceeds length limit"

def unitRequired : String := "Unit is required"

def unitTooLong : String := "Unit exceeds length limit"

def descriptionTooLong : String := "Description exceeds length limit"

def invalidCharacters : String := "Contains invalid characters"

def fallsBelowUnicodeLength (value : Text) (min : Nat) : Bool := getUnicodeLength value < min

def exceedsUnicodeLength (value : Text) (max : Nat) : Bool := max < getUnicodeLength value

/-- The output of a rule, where none of its checks has an issue. -/
def output (issues : List String) (value : Text) : Except (List String) Text :=
  if issues = [] then .ok value else .error issues

/-- A text that is trimmed: a text with an issue goes no further than the first check. -/
def zTrimmed (rule : LengthRule) (required tooLong : String) (value : Text) :
    Except (List String) Text :=
  if hasInvalidControlChars false value || hasUnpairedSurrogates value then
    .error [invalidCharacters]
  else
    let value := value.trim
    output
      ((if fallsBelowUnicodeLength value rule.min then [required] else []) ++
        if exceedsUnicodeLength value rule.max then [tooLong] else [])
      value

def zMetricName : Text → Except (List String) Text :=
  zTrimmed METRIC_NAME_RULE nameRequired nameTooLong

def zMetricDefaultUnit : Text → Except (List String) Text :=
  zTrimmed METRIC_UNIT_RULE unitRequired unitTooLong

def zMetricDescription (value : Text) : Except (List String) Text :=
  output
    ((if !exceedsUnicodeLength value METRIC_DESCRIPTION_RULE then [] else [descriptionTooLong]) ++
      if !hasInvalidControlChars true value && !hasUnpairedSurrogates value then []
      else [invalidCharacters])
    value

/-! ### The entity -/

/-- The properties of a `Metric` that `update` sets. -/
structure MetricProps : Type where
  name : Text
  defaultUnit : Text
  description : Option Text
  isPublic : Bool
  categoryId : Option Text
  originalMetricId : Option Text
  updatedAt : Int
  deriving DecidableEq, Repr

def hasInvalidMetricChars (value : Text) (allowNewlines : Bool) : Bool :=
  hasInvalidControlChars allowNewlines value || hasUnpairedSurrogates value

/-- The checks of a text that is trimmed, with what they throw. -/
def checkTrimmed (rule : LengthRule) (required tooLong : String) (next : Text) :
    Except String Text :=
  let value := next.trim
  let length := getUnicodeLength value
  if length < rule.min then .error required
  else if rule.max < length then .error tooLong
  else if hasInvalidMetricChars value false then .error invalidCharacters
  else .ok value

namespace MetricProps

variable (m : MetricProps) (now : Int)

def rename (next : Text) : Except String MetricProps := do
  let value ← checkTrimmed METRIC_NAME_RULE nameRequired nameTooLong next
  pure { m with name := value, updatedAt := now }

def describe (next : Option Text) : Except String MetricProps :=
  match next with
  | none => pure { m with description := none, updatedAt := now }
  | some text =>
    if METRIC_DESCRIPTION_RULE < getUnicodeLength text then .error descriptionTooLong
    else if hasInvalidMetricChars text true then .error invalidCharacters
    else pure { m with description := some text, updatedAt := now }

def setDefaultUnit (unit : Text) : Except String MetricProps := do
  let normalized ← checkTrimmed METRIC_UNIT_RULE unitRequired unitTooLong unit
  pure { m with defaultUnit := normalized, updatedAt := now }

def moveToCategory (categoryId : Option Text) : Except String MetricProps :=
  pure { m with categoryId := categoryId, updatedAt := now }

def setOriginalMetric (metricId : Option Text) : Except String MetricProps :=
  pure { m with originalMetricId := metricId, updatedAt := now }

def togglePublic (value : Bool) : Except String MetricProps :=
  pure { m with isPublic := value, updatedAt := now }

end MetricProps

/-- What `Metric.update` is given.  A field that is missing is left alone; a null is told apart
from it. -/
structure MetricUpdate : Type where
  name : Option Text
  description : Option (Option Text)
  defaultUnit : Option Text
  categoryId : Option (Option Text)
  originalMetricId : Option (Option Text)
  isPublic : Option Bool
  deriving DecidableEq, Repr

/-- `if (value !== undefined) this.set(value)`. -/
def ifGiven {α : Type} (value : Option α) (set : MetricProps → α → Except String MetricProps)
    (m : MetricProps) : Except String MetricProps :=
  match value with
  | none => pure m
  | some a => set m a

/-- `Metric.update`; `now n` is what `new Date()` gives in its part number `n`. -/
def MetricProps.update (m : MetricProps) (data : MetricUpdate) (now : Nat → Int) :
    Except String MetricProps := do
  let m ← ifGiven data.name (fun m => m.rename (now 0)) m
  let m ← ifGiven data.description (fun m => m.describe (now 1)) m
  let m ← ifGiven data.defaultUnit (fun m => m.setDefaultUnit (now 2)) m
  let m ← ifGiven data.categoryId (fun m => m.moveToCategory (now 3)) m
  let m ← ifGiven data.originalMetricId (fun m => m.setOriginalMetric (now 4)) m
  ifGiven data.isPublic (fun m => m.togglePublic (now 5)) m

/-! ### Surrogates -/

variable {s v value : Text} {rule : LengthRule} {required tooLong : String} {allowNewlines : Bool}
  {m : MetricProps} {data : MetricUpdate} {now : Nat → Int}

/-- Where no low surrogate comes after a high one, any surrogate is unpaired. -/
theorem hasUnpaired_iff {before : Option Nat} {cs : List Nat}
    (h : ∀ front c d back, before.toList ++ cs = front ++ c :: d :: back → isHigh c = true →
      isLow d = false) :
    hasUnpaired before cs = true ↔ ∃ c ∈ cs, isHigh c = true ∨ isLow c = true := by
  induction cs generalizing before with
  | nil => simp [hasUnpaired]
  | cons c rest ih =>
      have hafter : isHigh c = true → rest.head?.any isLow = false := by
        intro hc
        cases rest with
        | nil => rfl
        | cons d rest => exact h before.toList c d rest rfl hc
      have hbefore : isLow c = true → before.any isHigh = false := by
        intro hc
        cases before with
        | none => rfl
        | some b =>
            cases hb : isHigh b with
            | false => exact hb
            | true => exact absurd (hc.symm.trans (h [] b c rest rfl hb)) Bool.noConfusion
      have hrest : hasUnpaired (some c) rest = true ↔ _ := ih fun front a b back he =>
        h (before.toList ++ front) a b back (by rw [List.append_assoc, ← he]; rfl)
      have hc : isUnpaired before c rest.head? = true ↔ isHigh c = true ∨ isLow c = true := by
        unfold isUnpaired
        constructor
        · intro hu
          simp only [Bool.or_eq_true, Bool.and_eq_true] at hu
          exact hu.imp And.left And.right
        · rintro (hh | hl)
          · simp [hh, hafter hh]
          · simp [hl, hbefore hl]
      rw [hasUnpaired, Bool.or_eq_true, hrest, hc, List.exists_mem_cons_iff]

/-- **A string has an unpaired surrogate exactly when it is not well-formed UTF-16.** -/
theorem hasUnpairedSurrogates_eq_true (h : ∀ u ∈ s, u < 0x10000) :
    hasUnpairedSurrogates s = true ↔ ¬ WellFormed s := by
  unfold hasUnpairedSurrogates
  rw [hasUnpaired_iff fun front c d back he hc => Text.not_isLow_of_isHigh he hc,
    Text.wellFormed_iff h]
  simp only [not_forall, exists_prop, not_and_or, Bool.not_eq_false]

/-! ### What the rules accept -/

theorem hasInvalidControlChars_eq_any :
    hasInvalidControlChars allowNewlines s = s.any fun code =>
      (code = 0x7f ∨ code < 0x20) ∧
        ¬ (allowNewlines ∧ (code = 0x09 ∨ code = 0x0a ∨ code = 0x0d)) := by
  induction s with
  | nil => rfl
  | cons code s ih =>
      rw [hasInvalidControlChars, List.any_cons, ih]
      by_cases hc : code = 0x7f ∨ code < 0x20
      · by_cases ha : allowNewlines ∧ (code = 0x09 ∨ code = 0x0a ∨ code = 0x0d)
        · rw [if_pos hc, if_pos ha, decide_eq_false fun h => h.2 ha, Bool.false_or]
        · rw [if_pos hc, if_neg ha, decide_eq_true ⟨hc, ha⟩, Bool.true_or]
      · rw [if_neg hc, decide_eq_false fun h => hc h.1, Bool.false_or]

/-- A text without control characters stays one when it is trimmed. -/
theorem hasInvalidControlChars_trim (h : hasInvalidControlChars allowNewlines s = false) :
    hasInvalidControlChars allowNewlines s.trim = false := by
  rw [hasInvalidControlChars_eq_any, List.any_eq_false] at h ⊢
  exact fun code hcode => h code (Text.mem_of_mem_trim hcode)

theorem of_output {issues : List String} (h : output issues value = .ok v) :
    issues = [] ∧ v = value := by
  unfold output at h
  split at h
  · rename_i hissues
    cases h
    exact ⟨hissues, rfl⟩
  · cases h

/-- **A trimmed text that its rule accepts passes the checks of the entity, and is left as it
is.** -/
theorem checkTrimmed_of_zTrimmed (hs : ∀ u ∈ s, u < 0x10000)
    (h : zTrimmed rule required tooLong s = .ok v) :
    checkTrimmed rule required tooLong v = .ok v := by
  unfold zTrimmed at h
  split at h
  · cases h
  · rename_i hchars
    obtain ⟨hcontrol, hpaired⟩ := Bool.or_eq_false_iff.mp (eq_false_of_ne_true hchars)
    obtain ⟨hissues, rfl⟩ := of_output h
    have hwell : WellFormed s := by
      by_contra hwell
      exact absurd (hpaired.symm.trans ((hasUnpairedSurrogates_eq_true hs).mpr hwell))
        Bool.noConfusion
    have htrim : ∀ u ∈ s.trim, u < 0x10000 := fun u hu => hs u (Text.mem_of_mem_trim hu)
    have hpaired' : hasUnpairedSurrogates s.trim = false := by
      refine eq_false_of_ne_true fun hu => ?_
      exact (hasUnpairedSurrogates_eq_true htrim).mp hu hwell.trim
    have hlength : ¬ getUnicodeLength s.trim < rule.min ∧ ¬ rule.max < getUnicodeLength s.trim := by
      simpa [fallsBelowUnicodeLength, exceedsUnicodeLength] using hissues
    unfold checkTrimmed
    simp only [hwell.trim_trim, if_neg hlength.1, if_neg hlength.2, hasInvalidMetricChars,
      hasInvalidControlChars_trim hcontrol, hpaired', Bool.or_self, Bool.false_eq_true, if_false]

theorem rename_of_zMetricName {t : Int} (hs : ∀ u ∈ s, u < 0x10000) (h : zMetricName s = .ok v) :
    m.rename t v = .ok { m with name := v, updatedAt := t } := by
  rw [MetricProps.rename, checkTrimmed_of_zTrimmed hs h]
  rfl

theorem setDefaultUnit_of_zMetricDefaultUnit {t : Int} (hs : ∀ u ∈ s, u < 0x10000)
    (h : zMetricDefaultUnit s = .ok v) :
    m.setDefaultUnit t v = .ok { m with defaultUnit := v, updatedAt := t } := by
  rw [MetricProps.setDefaultUnit, checkTrimmed_of_zTrimmed hs h]
  rfl

theorem describe_of_zMetricDescription {t : Int} (h : zMetricDescription s = .ok v) :
    m.describe t (some v) = .ok { m with description := some v, updatedAt := t } := by
  obtain ⟨hissues, rfl⟩ := of_output h
  obtain ⟨hlong, hchars⟩ := List.append_eq_nil_iff.mp hissues
  have hlength : ¬ METRIC_DESCRIPTION_RULE < getUnicodeLength v := by
    simpa [exceedsUnicodeLength] using hlong
  have hinvalid : hasInvalidMetricChars v true = false := by
    simpa [hasInvalidMetricChars] using hchars
  simp only [MetricProps.describe, if_neg hlength, hinvalid, Bool.false_eq_true, if_false]
  rfl

/-! ### The entity takes what the schema gives -/

/-- Each text is what its rule has made of a string. -/
structure Validated (data : MetricUpdate) : Prop where
  name : ∀ v, data.name = some v → ∃ units, zMetricName (ofUnits units) = .ok v
  defaultUnit : ∀ v, data.defaultUnit = some v →
    ∃ units, zMetricDefaultUnit (ofUnits units) = .ok v
  description : ∀ v, data.description = some (some v) →
    ∃ units, zMetricDescription (ofUnits units) = .ok v

/-- The entity has exactly the texts of the update, and its others as they were. -/
structure Stores (m m' : MetricProps) (data : MetricUpdate) : Prop where
  name : m'.name = data.name.getD m.name
  defaultUnit : m'.defaultUnit = data.defaultUnit.getD m.defaultUnit
  description : m'.description = data.description.getD m.description

theorem update_of_validated (h : Validated data) :
    ∃ m', m.update data now = .ok m' ∧ Stores m m' data := by
  have hname : ∀ m : MetricProps, ∃ t, ifGiven data.name (fun m => m.rename (now 0)) m =
      .ok { m with name := data.name.getD m.name, updatedAt := t } := by
    intro m
    cases hd : data.name with
    | none => exact ⟨m.updatedAt, rfl⟩
    | some v =>
        obtain ⟨units, hz⟩ := h.name v hd
        exact ⟨now 0, rename_of_zMetricName ofUnits_lt hz⟩
  have hdescription : ∀ m : MetricProps, ∃ t,
      ifGiven data.description (fun m => m.describe (now 1)) m =
        .ok { m with description := data.description.getD m.description, updatedAt := t } := by
    intro m
    cases hd : data.description with
    | none => exact ⟨m.updatedAt, rfl⟩
    | some next =>
        cases next with
        | none => exact ⟨now 1, rfl⟩
        | some v =>
            obtain ⟨units, hz⟩ := h.description v hd
            exact ⟨now 1, describe_of_zMetricDescription hz⟩
  have hunit : ∀ m : MetricProps, ∃ t,
      ifGiven data.defaultUnit (fun m => m.setDefaultUnit (now 2)) m =
        .ok { m with defaultUnit := data.defaultUnit.getD m.defaultUnit, updatedAt := t } := by
    intro m
    cases hd : data.defaultUnit with
    | none => exact ⟨m.updatedAt, rfl⟩
    | some v =>
        obtain ⟨units, hz⟩ := h.defaultUnit v hd
        exact ⟨now 2, setDefaultUnit_of_zMetricDefaultUnit ofUnits_lt hz⟩
  -- the rest of an update has no check
  have hrest : ∀ m : MetricProps, ∃ m', (do
      let m ← ifGiven data.categoryId (fun m => m.moveToCategory (now 3)) m
      let m ← ifGiven data.originalMetricId (fun m => m.setOriginalMetric (now 4)) m
      ifGiven data.isPublic (fun m => m.togglePublic (now 5)) m) = Except.ok (ε := String) m' ∧
        m'.name = m.name ∧ m'.defaultUnit = m.defaultUnit ∧ m'.description = m.description := by
    intro m
    cases data.categoryId <;> cases data.originalMetricId <;> cases data.isPublic <;>
      exact ⟨_, rfl, rfl, rfl, rfl⟩
  obtain ⟨t, ht⟩ := hname m
  obtain ⟨t', ht'⟩ := hdescription { m with name := data.name.getD m.name, updatedAt := t }
  obtain ⟨t'', ht''⟩ := hunit
    { m with
      name := data.name.getD m.name
      description := data.description.getD m.description
      updatedAt := t' }
  obtain ⟨m', hm', hm'name, hm'unit, hm'description⟩ := hrest
    { m with
      name := data.name.getD m.name
      description := data.description.getD m.description
      defaultUnit := data.defaultUnit.getD m.defaultUnit
      updatedAt := t'' }
  refine ⟨m', ?_, hm'name, hm'unit, hm'description⟩
  unfold MetricProps.update
  rw [ht]
  change (ifGiven data.description (fun m => m.describe (now 1)) _ >>= _) = _
  rw [ht']
  change (ifGiven data.defaultUnit (fun m => m.setDefaultUnit (now 2)) _ >>= _) = _
  rw [ht'']
  exact hm'

/-- **An update whose texts the rules of the schema gave is accepted by the entity, which then
has exactly these texts; and a string has unpaired surrogates exactly when it is not well-formed
UTF-16.** -/
theorem rules_entity_agree :
    (∀ (m : MetricProps) (data : MetricUpdate) (now : Nat → Int), Validated data →
      ∃ m', m.update data now = .ok m' ∧ Stores m m' data) ∧
    ∀ units : List UInt16,
      hasUnpairedSurrogates (ofUnits units) = true ↔ ¬ WellFormed (ofUnits units) :=
  ⟨fun _ _ _ h => update_of_validated h, fun _ => hasUnpairedSurrogates_eq_true ofUnits_lt⟩

end LakiraBackend.Metrics.MetricTexts
