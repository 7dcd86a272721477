import LakiraBackend.JavaScript.Coercion
import LakiraBackend.Memberships.Listing
import LakiraBackend.Metrics.ListPaging
import LakiraBackend.Metrics.Queries

/-!
# Cursors of any text

The five lists take any text for a cursor.  Four of them parse it, and compare with what its
members are, whatever that is; the memberships' refuses what is not a position.  A list answers
without a server error exactly where the members it reads are what its columns are
(`decode_clean_iff`).
-/

namespace LakiraBackend.Metrics

open LakiraBackend.JavaScript LakiraBackend.Memberships LakiraBackend.Postgres

/-! ### What a cursor is applied as -/

/-- The rows beyond `last` in a column, or at it and beyond `id`. -/
structure KeysetPredicate : Type where
  column : List Char
  dir : Dir
  last : Bound
  id : Bound

inductive Applied : Type
  | noCursor
  | predicate (p : KeysetPredicate)
  | refused (statusCode : Nat)
  /-- A `TypeError`, of which the handler of errors knows nothing. -/
  | threw

/-! ### The five lists -/

/-- A list, with its sort where it has one. -/
inductive CursorList : Type
  | metricLogs (field : LogSortField) (dir : Dir)
  | metrics (field : MetricSortField) (dir : Dir)
  | metricSettings (field : SettingsSortField) (dir : Dir)
  | categories (field : CategorySortField) (dir : Dir)
  | memberships

/-- The sort as the schemas accept it. -/
def CursorList.sort : CursorList → List Char
  | metricLogs field dir => sortText dir field.text
  | metrics field dir => sortText dir field.text
  | metricSettings field dir => sortText dir field.text
  | categories field dir => sortText dir field.text
  | memberships => []

/-- The `after` the schema hands on, where the list has one. -/
def CursorList.after : CursorList → List Char → Option (List Char)
  | metricLogs _ _, s => if trimText s = [] then none else some s
  | metrics _ _, s => if trimText s = [] then none else some (trimText s)
  | metricSettings _ _, s => some s
  | categories _ _, s => if trimText s = [] then none else some s
  | memberships, s => some s

/-- `decodeCursor(after)`, where there is an `after`. -/
def decodeCursor (after : Option (List Char)) : Option Json :=
  (after.filter fun s => s ≠ []).bind Json.ofBase64url

/-- The part of a list that applies its cursor, `cursor && cursor.sort === sort`. -/
def applyCursor (sort : List Char) (after : Option (List Char)) (column : List Char) (dir : Dir)
    (last : Json → Option Bound) : Applied :=
  match decodeCursor after with
  | some cursor =>
    if sameSort sort cursor then
      match last cursor with
      | some b => .predicate ⟨column, dir, b, asSent "id" cursor⟩
      | none => .threw
    else .noCursor
  | none => .noCursor

/-- A list that is sent the text as its cursor. -/
def CursorList.decode (E : Engine) (L : CursorList) (s : List Char) : Applied :=
  match L with
  | metricLogs _ _ =>
    let (field, dir) := normalizeLogSort L.sort
    applyCursor L.sort (L.after s) field.text dir (lastLog E field)
  | metrics _ _ =>
    let (field, dir) := normalizeMetricSort L.sort
    applyCursor L.sort (L.after s) field.text dir (lastMetric E field)
  | metricSettings _ _ =>
    let (field, dir) := normalizeSettingsSort L.sort
    applyCursor L.sort (L.after s) field.text dir (lastSettings E field)
  | categories _ _ =>
    let (field, dir) := normalizeCategorySort L.sort
    applyCursor L.sort (L.after s) field.text dir (lastCategory E field)
  | memberships =>
    match decodeMembershipCursor E.otherDate s with
    | some p => .predicate ⟨"joinedAt".toList, .ASC, .date (some p.joinedAt), .json (.str p.id)⟩
    | none => .refused 400

/-! ### Well-formed predicates -/

/-- What a column holds. -/
inductive ColumnType : Type
  | date
  | text
  | number
  | boolean

def CursorList.columnType : CursorList → ColumnType
  | metricLogs .logValue _ => .number
  | metricLogs _ _ => .date
  | metrics .name _ => .text
  | metrics .logCount _ => .number
  | metrics _ _ => .date
  | metricSettings .isActive _ => .boolean
  | metricSettings _ _ => .date
  | categories .name _ => .text
  | categories .metricCount _ => .number
  | categories _ _ => .date
  | memberships => .date

/-- The value can be compared with what the column holds. -/
def Bound.WellFormed : ColumnType → Bound → Prop
  | .date, .date (some _) => True
  | .text, .json (.str _) => True
  | .number, .json (.num literal) => (Numeral.ofLiteral literal).toFinite.isSome
  | .boolean, .json (.bool _) => True
  | _, _ => False

/-- The value can be compared with an id. -/
def Bound.IsUuid : Bound → Prop
  | .json (.str s) => (Uuid.ofText s).isSome
  | _ => False

def Applied.Clean (type : ColumnType) : Applied → Prop
  | noCursor => True
  | predicate p => p.last.WellFormed type ∧ p.id.IsUuid
  | refused statusCode => 400 ≤ statusCode ∧ statusCode < 500
  | threw => False

/-! ### What a cursor has to have -/

/-- A member that is a text of an id. -/
def HasUuid (name : String) (cursor : Json) : Prop :=
  ∃ s, cursor.get name = some (.str s) ∧ (Uuid.ofText s).isSome

def HasText (name : String) (cursor : Json) : Prop := ∃ s, cursor.get name = some (.str s)

/-- A number that is not rounded to an infinity. -/
def HasNumber (name : String) (cursor : Json) : Prop :=
  ∃ literal, cursor.get name = some (.num literal) ∧ (Numeral.ofLiteral literal).toFinite.isSome

def HasBoolean (name : String) (cursor : Json) : Prop := ∃ b, cursor.get name = some (.bool b)

/-- The member is not there, or null. -/
def Lacks (name : String) (cursor : Json) : Prop :=
  cursor.get name = none ∨ cursor.get name = some .null

section

variable (E : Engine)

/-- A member of which `new Date` is valid. -/
def HasDate (name : String) (cursor : Json) : Prop :=
  ∃ v d, cursor.get name = some v ∧ v.toDate E.numberText E.otherDate = some (some d)

/-- The member is not there, or falsy. -/
def IsFalsy (name : String) (cursor : Json) : Prop :=
  ∀ v, cursor.get name = some v → v.truthy = false

/-- The members that the predicate of the sort is made of are there, with their types. -/
def CursorList.Has : CursorList → Json → Prop
  | metricLogs .createdAt _, c => HasDate E "createdAt" c ∧ HasUuid "id" c
  | metricLogs .updatedAt _, c => HasDate E "updatedAt" c ∧ HasUuid "id" c
  | metricLogs .loggedAt _, c => HasDate E "loggedAt" c ∧ HasUuid "id" c
  | metricLogs .logValue _, c => HasNumber "logValue" c ∧ HasUuid "id" c
  | metrics .createdAt _, c => (IsFalsy "createdAt" c ∨ HasDate E "createdAt" c) ∧ HasUuid "id" c
  | metrics .updatedAt _, c => (IsFalsy "updatedAt" c ∨ HasDate E "updatedAt" c) ∧ HasUuid "id" c
  | metrics .name _, c => (Lacks "nameLower" c ∨ HasText "nameLower" c) ∧ HasUuid "id" c
  | metrics .logCount _, c => (Lacks "logCount" c ∨ HasNumber "logCount" c) ∧ HasUuid "id" c
  | metricSettings .createdAt _, c => HasDate E "createdAt" c ∧ HasUuid "id" c
  | metricSettings .updatedAt _, c => HasDate E "updatedAt" c ∧ HasUuid "id" c
  | metricSettings .isActive _, c => HasBoolean "isActive" c ∧ HasUuid "id" c
  | categories .createdAt _, c => HasDate E "createdAt" c ∧ HasUuid "id" c
  | categories .updatedAt _, c => HasDate E "updatedAt" c ∧ HasUuid "id" c
  | categories .name _, c => HasText "nameLower" c ∧ HasUuid "id" c
  | categories .metricCount _, c => HasNumber "metricCount" c ∧ HasUuid "id" c
  | memberships, _ => True

/-! ### One member -/

variable {E : Engine} {name : String} {cursor : Json} {type : ColumnType}

theorem isUuid_asSent : (asSent name cursor).IsUuid ↔ HasUuid name cursor := by
  unfold asSent HasUuid
  cases cursor.get name with
  | none => simp [Bound.IsUuid]
  | some v => cases v <;> simp [Bound.IsUuid]

theorem wellFormed_text : (asSent name cursor).WellFormed .text ↔ HasText name cursor := by
  unfold asSent HasText
  cases cursor.get name with
  | none => simp [Bound.WellFormed]
  | some v => cases v <;> simp [Bound.WellFormed]

theorem wellFormed_number : (asSent name cursor).WellFormed .number ↔ HasNumber name cursor := by
  unfold asSent HasNumber
  cases cursor.get name with
  | none => simp [Bound.WellFormed]
  | some v => cases v <;> simp [Bound.WellFormed]

theorem wellFormed_boolean : (asSent name cursor).WellFormed .boolean ↔ HasBoolean name cursor := by
  unfold asSent HasBoolean
  cases cursor.get name with
  | none => simp [Bound.WellFormed]
  | some v => cases v <;> simp [Bound.WellFormed]

/-- A default that is of the column's type. -/
theorem wellFormed_orElse {value : Json} (hvalue : (Bound.json value).WellFormed type)
    (hnull : ¬ (Bound.json .null).WellFormed type) :
    (orElse name value cursor).WellFormed type ↔
      Lacks name cursor ∨ (asSent name cursor).WellFormed type := by
  unfold orElse asSent Lacks
  cases cursor.get name with
  | none => simp [hvalue]
  | some v => cases v <;> simp [hvalue, hnull]

/-- The bound value, where there is one, is well formed. -/
def Bound.Some (type : ColumnType) (last : Option Bound) : Prop :=
  ∃ b, last = some b ∧ b.WellFormed type

theorem some_sentDate : Bound.Some .date (sentDate E name cursor) ↔ HasDate E name cursor := by
  unfold Bound.Some sentDate HasDate
  cases cursor.get name with
  | none => simp [Bound.WellFormed]
  | some v =>
    rcases hdate : v.toDate E.numberText E.otherDate with _ | _ | d <;>
      simp [hdate, Bound.WellFormed]

theorem some_sentDateOrNow : Bound.Some .date (sentDateOrNow E name cursor) ↔
    IsFalsy name cursor ∨ HasDate E name cursor := by
  have hdate : Bound.Some .date (sentDate E name cursor) ↔ HasDate E name cursor := some_sentDate
  unfold sentDate HasDate at hdate
  unfold sentDateOrNow IsFalsy HasDate
  cases hget : cursor.get name with
  | none => simp [Bound.Some, Bound.WellFormed]
  | some v =>
    rw [hget] at hdate
    cases htruthy : v.truthy with
    | false => simp [Bound.Some, Bound.WellFormed, htruthy]
    | true => simpa [htruthy] using hdate

theorem some_some {b : Bound} : Bound.Some type (some b) ↔ b.WellFormed type := by
  simp [Bound.Some]

/-! ### A cursor of any text -/

variable {sort : List Char} {after : Option (List Char)} {column : List Char} {dir : Dir}
  {last : Json → Option Bound} {Q : Json → Prop}

/-- **A cursor is applied cleanly where it is one of the sort with all its predicate needs.** -/
theorem applyCursor_clean_iff (hlast : ∀ c, Bound.Some type (last c) ↔ Q c) :
    (applyCursor sort after column dir last).Clean type ↔
      ∀ c, decodeCursor after = some c → sameSort sort c = true → Q c ∧ HasUuid "id" c := by
  unfold applyCursor
  cases hdecode : decodeCursor after with
  | none => simp [Applied.Clean]
  | some c =>
    have hc := hlast c
    dsimp only
    by_cases hsort : sameSort sort c = true
    · rw [if_pos hsort]
      cases hb : last c with
      | none =>
        rw [hb] at hc
        have hno : ¬ Q c := fun hq => absurd (hc.mpr hq) fun ⟨_, h, _⟩ => by cases h
        exact ⟨False.elim, fun h => hno (h c rfl hsort).1⟩
      | some b =>
        rw [hb, some_some] at hc
        have hclean : (Applied.predicate ⟨column, dir, b, asSent "id" c⟩).Clean type ↔
            Q c ∧ HasUuid "id" c := and_congr hc isUuid_asSent
        rw [hclean]
        exact ⟨fun h _ heq _ => Option.some.inj heq ▸ h, fun h => h c rfl hsort⟩
    · rw [if_neg hsort]
      exact ⟨fun _ d hd hds => absurd (Option.some.inj hd ▸ hds) hsort, fun _ => trivial⟩

/-- What a membership's cursor is decoded to can be applied. -/
theorem memberships_clean (E : Engine) (s : List Char) :
    (CursorList.memberships.decode E s).Clean CursorList.memberships.columnType := by
  rw [CursorList.decode]
  cases decodeMembershipCursor E.otherDate s with
  | none => exact ⟨Nat.le_refl 400, by decide⟩
  | some p => exact ⟨trivial, p.isUuid⟩

/-- **A malformed cursor is no server error, but where the sort is that of the list**: then each
member its predicate reads has to be there, with its type. -/
theorem decode_clean_iff (E : Engine) (L : CursorList) (s : List Char) :
    (L.decode E s).Clean L.columnType ↔
      ∀ c, decodeCursor (L.after s) = some c → sameSort L.sort c = true → L.Has E c := by
  cases L with
  | metricLogs field dir =>
    rw [CursorList.decode, CursorList.sort, normalizeLogSort_text]
    cases field with
    | logValue => exact applyCursor_clean_iff fun c => some_some.trans wellFormed_number
    | _ => exact applyCursor_clean_iff fun c => some_sentDate
  | metrics field dir =>
    have hsort : normalizeMetricSort (sortText dir field.text) = (field, dir) := by
      cases field <;> cases dir <;> decide
    rw [CursorList.decode, CursorList.sort, hsort]
    cases field with
    | name =>
      have hdefault : (Bound.json (.str [])).WellFormed .text := trivial
      exact applyCursor_clean_iff fun c =>
        some_some.trans ((wellFormed_orElse hdefault id).trans (or_congr_right wellFormed_text))
    | logCount =>
      have hdefault : (Bound.json (.num ['0'])).WellFormed .number := by
        change (Numeral.ofLiteral ['0']).toFinite.isSome = true
        decide +kernel
      exact applyCursor_clean_iff fun c =>
        some_some.trans ((wellFormed_orElse hdefault id).trans (or_congr_right wellFormed_number))
    | _ => exact applyCursor_clean_iff fun c => some_sentDateOrNow
  | metricSettings field dir =>
    rw [CursorList.decode, CursorList.sort, normalizeSettingsSort_text]
    cases field with
    | isActive => exact applyCursor_clean_iff fun c => some_some.trans wellFormed_boolean
    | _ => exact applyCursor_clean_iff fun c => some_sentDate
  | categories field dir =>
    have hsort : normalizeCategorySort (sortText dir field.text) = (field, dir) := by
      cases field <;> cases dir <;> decide
    rw [CursorList.decode, CursorList.sort, hsort]
    cases field with
    | name => exact applyCursor_clean_iff fun c => some_some.trans wellFormed_text
    | metricCount => exact applyCursor_clean_iff fun c => some_some.trans wellFormed_number
    | _ => exact applyCursor_clean_iff fun c => some_sentDate
  | memberships => exact ⟨fun _ _ _ _ => trivial, fun _ => memberships_clean E s⟩

end

/-! ### A cursor of its sort alone -/

/-- `{"sort":"-createdAt"}`. -/
def bareCursor : List Char := (Json.obj [("sort".toList, .str "-createdAt".toList)]).toBase64url

example : bareCursor = "eyJzb3J0IjoiLWNyZWF0ZWRBdCJ9".toList := by decide +kernel

/-- The date it is compared with is invalid, and the id is undefined. -/
theorem bareCursor_bound : (CursorList.metricSettings .createdAt .DESC).decode .epoch bareCursor =
    .predicate ⟨"createdAt".toList, .DESC, .date none, .undefined⟩ := by
  have hback : Json.ofBase64url bareCursor =
      some (.obj [("sort".toList, .str "-createdAt".toList)]) :=
    Json.ofBase64url_toBase64url (List.cons_ne_nil _ _) (List.forall_mem_singleton.mpr trivial)
  have hne : bareCursor ≠ [] := by
    intro h
    rw [h] at hback
    cases hback
  have hdecode : decodeCursor (some bareCursor) =
      some (.obj [("sort".toList, .str "-createdAt".toList)]) := by
    rw [decodeCursor, Option.filter_some, if_pos (by simpa using hne), Option.bind_some, hback]
  rw [CursorList.decode, CursorList.sort, normalizeSettingsSort_text]
  simp only [applyCursor, CursorList.after, hdecode]
  rfl

/-- A list compares with an invalid date and no id. -/
theorem malformed_applied : ¬ ∀ (E : Engine) (L : CursorList) (s : List Char),
    (L.decode E s).Clean L.columnType := by
  intro h
  have hclean := h .epoch (.metricSettings .createdAt .DESC) bareCursor
  rw [bareCursor_bound] at hclean
  exact hclean.1

end LakiraBackend.Metrics
