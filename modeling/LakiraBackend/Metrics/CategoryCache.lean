import LakiraBackend.JavaScript.Coercion
import LakiraBackend.JavaScript.JsonDocument
import LakiraBackend.Metrics.Tables

/-!
# The cached page of categories

`CachedMetricCategoryRepository` keeps a page of categories as JSON, and builds the entities
again from what it reads.  A page that was written is read back as it was
(`fromCache_toCache`), and whatever else is there is a miss, or has what an entity needs
(`fromCache_safe`).
-/

namespace LakiraBackend.Metrics.CategoryCache

open LakiraBackend.JavaScript

/-- A property's name, or a text, as a string of the language. -/
def key (s : String) : List UInt16 := Document.toUnits (text s)

/-! ### Entities and pages -/

/-- A `MetricCategory`, as its getters show it. -/
structure MetricCategory (V : Type) : Type where
  id : List UInt16
  userId : List UInt16
  name : List UInt16
  color : List UInt16
  icon : List UInt16
  createdAt : Date
  updatedAt : Date
  deletedAt : Option Date
  metricCount : V

structure ListFilter : Type where
  name : Option (List UInt16)

structure ListResult (V α : Type) : Type where
  items : List α
  nextCursor : Option (List UInt16)
  sort : List UInt16
  limit : V
  q : Option (List UInt16)
  filter : Option ListFilter
  totalCount : Option V

/-! ### Writing -/

/-- The properties that are not `undefined`. -/
def present (fields : List (List UInt16 × Option Document)) : List (List UInt16 × Document) :=
  fields.filterMap fun p => p.2.map fun v => (p.1, v)

/-- `date.toISOString()`. -/
def isoString (t : Date) : List UInt16 := Document.toUnits (t.toISOString.map Char.toNat)

section Writing

variable {V : Type} (N : Numbers V)

def number (v : V) : Document := .num (N.literal v)

/-- The fields of a `CachedCategory`. -/
def categoryFields (c : MetricCategory V) : List (List UInt16 × Option Document) :=
  [(key "id", some (.str c.id)), (key "userId", some (.str c.userId)),
    (key "name", some (.str c.name)), (key "color", some (.str c.color)),
    (key "icon", some (.str c.icon)), (key "createdAt", some (.str (isoString c.createdAt))),
    (key "updatedAt", some (.str (isoString c.updatedAt))),
    (key "deletedAt", some (match c.deletedAt with
      | some t => .str (isoString t)
      | none => .null)),
    (key "metricCount", some (number N c.metricCount))]

def cachedCategory (c : MetricCategory V) : Document := .obj (present (categoryFields N c))

def filterFields (filter : ListFilter) : List (List UInt16 × Option Document) :=
  [(key "name", filter.name.map .str)]

def pageFields (page : ListResult V (MetricCategory V)) : List (List UInt16 × Option Document) :=
  [(key "items", some (.arr (page.items.map (cachedCategory N)))),
    (key "nextCursor", page.nextCursor.map .str), (key "sort", some (.str page.sort)),
    (key "limit", some (number N page.limit)), (key "q", page.q.map .str),
    (key "filter", page.filter.map fun filter => .obj (present (filterFields filter))),
    (key "totalCount", page.totalCount.map (number N))]

/-- What `JSON.stringify` is given. -/
def toCache (page : ListResult V (MetricCategory V)) : Document :=
  .obj (present (pageFields N page))

end Writing

/-! ### Reading -/

/-- What the code may throw. -/
inductive JsError : Type
  /-- A property of `null` was read. -/
  | type
  deriving DecidableEq, Repr

/-- The last property of the name; `none` is `undefined`. -/
def lookup (fields : List (List UInt16 × Document)) (name : List UInt16) : Option Document :=
  fields.reverse.lookup name

/-- `value.name`, for a name that no array, text, number or boolean has. -/
def property (value : Document) (name : List UInt16) : Except JsError (Option Document) :=
  match value with
  | .null => .error .type
  | .obj fields => .ok (lookup fields name)
  | _ => .ok none

/-- `{ ...value }`, as far as `property` sees it. -/
def spread : Document → List (List UInt16 × Document)
  | .obj fields => fields
  | _ => []

def truthy : Document → Bool
  | .null => false
  | .bool b => b
  | .num literal => Numeral.ofLiteral literal ≠ .finite 0
  | .str s => s ≠ []
  | .arr _ => true
  | .obj _ => true

section Reading

-- The formats of dates that the language leaves to the implementation, and what `new Date`
-- makes of an array or an object.
variable (other : List UInt16 → Option Date) (ofObject : Document → Except JsError (Option Date))

/-- `Date.parse(s)`; none where it is `NaN`. -/
def parseDate (s : List UInt16) : Option Date :=
  if s.all fun u => u.toNat < 128 then
    Date.parse (fun _ => other s) (s.map fun u => Char.ofNat u.toNat)
  else other s

/-- `new Date(value)`; none where it is invalid. -/
def newDate : Option Document → Except JsError (Option Date)
  | none => .ok none
  | some .null => .ok (Date.ofMs 0)
  | some (.bool b) => .ok (Date.ofMs b.toNat)
  | some (.num literal) => .ok ((Numeral.ofLiteral literal).toFinite.bind Json.timeClip)
  | some (.str s) => .ok (parseDate other s)
  | some v => ofObject v

/-- `value ? new Date(value) : null`. -/
def newDateOrNull (value : Option Document) : Except JsError (Option (Option Date)) :=
  if value.any truthy then (newDate other ofObject value).map some else .ok none

def isString : Option Document → Bool
  | some (.str _) => true
  | _ => false

def isNumber : Option Document → Bool
  | some (.num _) => true
  | _ => false

def isDateString : Option Document → Bool
  | some (.str s) => (parseDate other s).isSome
  | _ => false

def isNullOrDateString : Option Document → Bool
  | some .null => true
  | v => isDateString other v

/-- The checks of `isCachedCategory`, in their order. -/
def checks : List (List UInt16 × (Option Document → Bool)) :=
  [(key "id", isString), (key "userId", isString), (key "name", isString), (key "color", isString),
    (key "icon", isString), (key "createdAt", isDateString other),
    (key "updatedAt", isDateString other), (key "deletedAt", isNullOrDateString other),
    (key "metricCount", isNumber)]

def isCachedCategory (value : Document) : Except JsError Bool :=
  if !truthy value then .ok false
  else (checks other).allM fun check => (property value check.1).map check.2

/-- An entity that was rebuilt: the properties it was given, and the dates put over them. -/
structure Rebuilt : Type where
  fields : List (List UInt16 × Document)
  createdAt : Option Date
  updatedAt : Option Date
  deletedAt : Option (Option Date)

def Rebuilt.get (e : Rebuilt) (name : List UInt16) : Option Document := lookup e.fields name

/-- `MetricCategory.fromProps({ ...c, … })`. -/
def rebuild (c : Document) : Except JsError Rebuilt := do
  let createdAt ← newDate other ofObject (← property c (key "createdAt"))
  let updatedAt ← newDate other ofObject (← property c (key "updatedAt"))
  let deletedAt ← newDateOrNull other ofObject (← property c (key "deletedAt"))
  pure ⟨spread c, createdAt, updatedAt, deletedAt⟩

/-- A page that was read: the properties of what was stored, and the entities. -/
structure RebuiltPage : Type where
  fields : List (List UInt16 × Document)
  items : List Rebuilt

def RebuiltPage.get (page : RebuiltPage) (name : List UInt16) : Option Document :=
  lookup page.fields name

/-- `fromCache`: none is a miss. -/
def fromCache (value : Document) : Except JsError (Option RebuiltPage) :=
  if !truthy value then .ok none
  else do
    match ← property value (key "items") with
    | some (.arr items) =>
      if !(← items.allM (isCachedCategory other)) then pure none
      else
        let rebuilt ← items.mapM (rebuild other ofObject)
        pure (some ⟨spread value, rebuilt⟩)
    | _ => pure none

end Reading

/-! ### What is read back -/

section Promises

variable {V : Type} (N : Numbers V)

def numberOf : Document → Option V
  | .num literal => N.ofLiteral literal
  | _ => none

/-- The entity shows what the one that was written showed. -/
structure Same (c : MetricCategory V) (e : Rebuilt) : Prop where
  id : e.get (key "id") = some (.str c.id)
  userId : e.get (key "userId") = some (.str c.userId)
  name : e.get (key "name") = some (.str c.name)
  color : e.get (key "color") = some (.str c.color)
  icon : e.get (key "icon") = some (.str c.icon)
  createdAt : e.createdAt = some c.createdAt
  updatedAt : e.updatedAt = some c.updatedAt
  deletedAt : e.deletedAt = c.deletedAt.map some
  metricCount : (e.get (key "metricCount")).map (numberOf N) = some (some c.metricCount)

structure SamePage (page : ListResult V (MetricCategory V)) (r : RebuiltPage) : Prop where
  items : List.Forall₂ (Same N) page.items r.items
  nextCursor : r.get (key "nextCursor") = page.nextCursor.map .str
  sort : r.get (key "sort") = some (.str page.sort)
  limit : (r.get (key "limit")).map (numberOf N) = some (some page.limit)
  q : r.get (key "q") = page.q.map .str
  filter : (r.get (key "filter")).map (fun filter => lookup (spread filter) (key "name")) =
    page.filter.map fun filter => filter.name.map .str
  totalCount : (r.get (key "totalCount")).map (numberOf N) = page.totalCount.map some

end Promises

/-- The entity has valid dates, and fields of the right types. -/
structure Sound (e : Rebuilt) : Prop where
  id : isString (e.get (key "id")) = true
  userId : isString (e.get (key "userId")) = true
  name : isString (e.get (key "name")) = true
  color : isString (e.get (key "color")) = true
  icon : isString (e.get (key "icon")) = true
  metricCount : isNumber (e.get (key "metricCount")) = true
  createdAt : e.createdAt.isSome = true
  updatedAt : e.updatedAt.isSome = true
  deletedAt : ∀ date, e.deletedAt = some date → date.isSome = true

/-! ### Properties -/

section Properties

variable {fields : List (List UInt16 × Option Document)} {k : List UInt16}

theorem lookup_of_mem {l : List (List UInt16 × Document)} (h : (l.map Prod.fst).Nodup)
    {d : Document} (hmem : (k, d) ∈ l) : lookup l k = some d := by
  unfold lookup
  obtain ⟨front, back, hsplit⟩ := List.append_of_mem (List.mem_reverse.mpr hmem)
  refine List.lookup_eq_some_iff.mpr ⟨front, back, hsplit, fun p hp => ?_⟩
  have hnodup : ((l.reverse).map Prod.fst).Nodup := by
    rw [List.map_reverse]
    exact List.nodup_reverse.mpr h
  rw [hsplit, List.map_append, List.nodup_append] at hnodup
  have hne := hnodup.2.2 p.1 (List.mem_map_of_mem hp) k (List.mem_map_of_mem List.mem_cons_self)
  exact bne_iff_ne.mpr fun he => hne he.symm

theorem mem_present {d : Document} : (k, d) ∈ present fields ↔ (k, some d) ∈ fields := by
  unfold present
  rw [List.mem_filterMap]
  constructor
  · rintro ⟨⟨k', v⟩, hmem, hv⟩
    obtain ⟨d', rfl, hd⟩ := Option.map_eq_some_iff.mp hv
    obtain ⟨rfl, rfl⟩ := Prod.mk.inj hd
    exact hmem
  · intro hmem
    exact ⟨(k, some d), hmem, rfl⟩

theorem nodup_present (h : (fields.map Prod.fst).Nodup) :
    ((present fields).map Prod.fst).Nodup := by
  refine List.Nodup.sublist ?_ h
  unfold present
  induction fields with
  | nil => exact .slnil
  | cons p fields ih =>
      obtain ⟨k, v⟩ := p
      have hrest := ih (List.nodup_cons.mp h).2
      cases v with
      | none => exact hrest.cons _
      | some d => exact hrest.cons_cons _

/-- **A property of an object is what was put there.** -/
theorem lookup_present (h : (fields.map Prod.fst).Nodup) {v : Option Document}
    (hmem : (k, v) ∈ fields) : lookup (present fields) k = v := by
  cases v with
  | some d => exact lookup_of_mem (nodup_present h) (mem_present.mpr hmem)
  | none =>
      cases hl : lookup (present fields) k with
      | none => rfl
      | some d =>
          obtain ⟨front, back, hsplit, _⟩ := List.lookup_eq_some_iff.mp hl
          have hd : (k, d) ∈ present fields := by
            rw [← List.mem_reverse, hsplit]
            exact List.mem_append_right _ List.mem_cons_self
          have heq := List.inj_on_of_nodup_map h (mem_present.mp hd) hmem rfl
          cases (Prod.mk.inj heq).2

theorem property_of_truthy {value : Document} (h : truthy value = true) (name : List UInt16) :
    property value name = .ok (lookup (spread value) name) := by
  cases value with
  | null => cases h
  | _ => rfl

end Properties

/-! ### Dates -/

variable {other : List UInt16 → Option Date} {ofObject : Document → Except JsError (Option Date)}

theorem lt_of_mem_pad {k n : Nat} {c : Char} (h : c ∈ pad 10 k n) : c.toNat < 128 := by
  obtain ⟨d, hd, rfl⟩ := mem_pad (by decide) h
  have hall : ∀ d < 10, (Nat.digitChar d).toNat < 128 := by decide
  exact hall d hd

theorem lt_of_mem_yearText {y : Int} {c : Char} (h : c ∈ Date.yearText y) : c.toNat < 128 := by
  unfold Date.yearText at h
  split at h
  · exact lt_of_mem_pad h
  · rcases List.mem_cons.mp h with rfl | h
    · split <;> decide
    · exact lt_of_mem_pad h

/-- What `toISOString` writes is ASCII. -/
theorem lt_of_mem_toISOString {t : Date} {c : Char} (h : c ∈ t.toISOString) : c.toNat < 128 := by
  unfold Date.toISOString at h
  simp only [List.mem_append, List.mem_cons, List.not_mem_nil, or_false] at h
  rcases h with h | rfl | h | rfl | h | rfl | h | rfl | h | rfl | h | rfl | h | rfl
  · exact lt_of_mem_yearText h
  · decide
  · exact lt_of_mem_pad h
  · decide
  · exact lt_of_mem_pad h
  · decide
  · exact lt_of_mem_pad h
  · decide
  · exact lt_of_mem_pad h
  · decide
  · exact lt_of_mem_pad h
  · decide
  · exact lt_of_mem_pad h
  · decide

theorem toNat_isoString (t : Date) :
    (isoString t).map (fun u => Char.ofNat u.toNat) = t.toISOString := by
  unfold isoString Document.toUnits
  rw [List.map_map, List.map_map]
  conv_rhs => rw [← List.map_id t.toISOString]
  refine List.map_congr_left fun c hc => ?_
  have hlt := lt_of_mem_toISOString hc
  have hmod : (UInt16.ofNat c.toNat).toNat = c.toNat := UInt16.toNat_ofNat_of_lt' (by
    change c.toNat < 65536
    omega)
  change Char.ofNat (UInt16.ofNat c.toNat).toNat = c
  rw [hmod, Char.ofNat_toNat]

/-- **A date that was written is read back.** -/
theorem parseDate_isoString (t : Date) : parseDate other (isoString t) = some t := by
  have hascii : ((isoString t).all fun u => u.toNat < 128) = true := by
    refine List.all_eq_true.mpr fun u hu => ?_
    obtain ⟨n, hn, rfl⟩ := List.mem_map.mp hu
    obtain ⟨c, hc, rfl⟩ := List.mem_map.mp hn
    have hlt := lt_of_mem_toISOString hc
    have hmod : (UInt16.ofNat c.toNat).toNat = c.toNat := UInt16.toNat_ofNat_of_lt' (by
      change c.toNat < 65536
      omega)
    rw [hmod]
    exact decide_eq_true hlt
  rw [parseDate, if_pos hascii, toNat_isoString]
  exact Date.parse_toISOString _ t

theorem isoString_ne_nil (t : Date) : isoString t ≠ [] := by
  intro h
  have hnil : t.toISOString = [] := by rw [← toNat_isoString, h, List.map_nil]
  unfold Date.toISOString at hnil
  exact List.cons_ne_nil _ _ (List.append_eq_nil_iff.mp hnil).2

/-! ### The checks -/

theorem allM_ok {α : Type} (g : α → Bool) (l : List α) :
    l.allM (fun a => (.ok (g a) : Except JsError Bool)) = .ok (l.all g) := by
  induction l with
  | nil => rfl
  | cons a l ih =>
      rw [List.allM, List.all_cons]
      cases hg : g a with
      | false => rfl
      | true => simpa [hg, bind, Except.bind, pure, Except.pure] using ih

/-- What the checks of an entry come to, none of which throws. -/
def isCached (other : List UInt16 → Option Date) (value : Document) : Bool :=
  truthy value && (checks other).all fun check => check.2 (lookup (spread value) check.1)

theorem isCachedCategory_eq (value : Document) :
    isCachedCategory other value = .ok (isCached other value) := by
  unfold isCachedCategory isCached
  cases ht : truthy value with
  | false => rfl
  | true =>
      rw [Bool.true_and, ← allM_ok]
      simp only [property_of_truthy ht]
      rfl

theorem isDateString_eq_true {v : Option Document} (h : isDateString other v = true) :
    ∃ s t, v = some (.str s) ∧ parseDate other s = some t := by
  unfold isDateString at h
  split at h
  · rename_i s
    obtain ⟨t, ht⟩ := Option.isSome_iff_exists.mp h
    exact ⟨s, t, rfl, ht⟩
  · cases h

/-- What the entry must have, by the names. -/
theorem isCached_iff {value : Document} : isCached other value = true ↔ truthy value = true ∧
    ∀ name ok, (name, ok) ∈ checks other → ok (lookup (spread value) name) = true := by
  unfold isCached
  rw [Bool.and_eq_true, List.all_eq_true]
  exact and_congr_right fun _ => ⟨fun h name ok hmem => h (name, ok) hmem, fun h check hmem =>
    h check.1 check.2 hmem⟩

theorem newDate_of_parseDate {s : List UInt16} {t : Date} (h : parseDate other s = some t) :
    newDate other ofObject (some (.str s)) = .ok (some t) := by
  rw [newDate, h]

/-- A `deletedAt` that passes the checks becomes no date, or a valid one. -/
theorem newDateOrNull_of_checked (ofObject : Document → Except JsError (Option Date))
    {v : Option Document} (h : isNullOrDateString other v = true) :
    ∃ deletedAt, newDateOrNull other ofObject v = .ok deletedAt ∧
      ∀ date, deletedAt = some date → date.isSome = true := by
  have hnone : ∀ date, (none : Option (Option Date)) = some date → date.isSome = true := by
    intro date hdate
    cases hdate
  unfold isNullOrDateString at h
  split at h
  · exact ⟨none, rfl, hnone⟩
  · obtain ⟨s, t, rfl, hst⟩ := isDateString_eq_true h
    unfold newDateOrNull
    split
    · refine ⟨some (some t), ?_, fun date hdate => ?_⟩
      · rw [newDate_of_parseDate hst]
        rfl
      · cases hdate
        rfl
    · exact ⟨none, rfl, hnone⟩

theorem rebuild_eq {value : Document} {created updated : Date} {deletedAt : Option (Option Date)}
    (ht : truthy value = true)
    (hc : newDate other ofObject (lookup (spread value) (key "createdAt")) = .ok (some created))
    (hu : newDate other ofObject (lookup (spread value) (key "updatedAt")) = .ok (some updated))
    (hd : newDateOrNull other ofObject (lookup (spread value) (key "deletedAt")) = .ok deletedAt) :
    rebuild other ofObject value = .ok ⟨spread value, some created, some updated, deletedAt⟩ := by
  unfold rebuild
  simp only [property_of_truthy ht, hc, hu, hd, bind, Except.bind]
  rfl

/-- **An entry that passes the checks becomes an entity with valid dates.** -/
theorem rebuild_of_isCached {value : Document} (h : isCached other value = true) :
    ∃ e, rebuild other ofObject value = .ok e ∧ Sound e := by
  obtain ⟨ht, hall⟩ := isCached_iff.mp h
  have hdate : ∀ name, (name, isDateString other) ∈ checks other →
      ∃ t, newDate other ofObject (lookup (spread value) name) = .ok (some t) := by
    intro name hmem
    obtain ⟨s, t, hs, hst⟩ := isDateString_eq_true (hall name _ hmem)
    exact ⟨t, by rw [hs, newDate_of_parseDate hst]⟩
  obtain ⟨created, hc⟩ := hdate (key "createdAt") (by simp [checks])
  obtain ⟨updated, hu⟩ := hdate (key "updatedAt") (by simp [checks])
  obtain ⟨deletedAt, hd, hvalid⟩ := newDateOrNull_of_checked ofObject
    (hall (key "deletedAt") (isNullOrDateString other) (by simp [checks]))
  refine ⟨_, rebuild_eq ht hc hu hd, ?_⟩
  exact
    { id := hall (key "id") isString (by simp [checks])
      userId := hall (key "userId") isString (by simp [checks])
      name := hall (key "name") isString (by simp [checks])
      color := hall (key "color") isString (by simp [checks])
      icon := hall (key "icon") isString (by simp [checks])
      metricCount := hall (key "metricCount") isNumber (by simp [checks])
      createdAt := rfl
      updatedAt := rfl
      deletedAt := hvalid }

/-- Some entries that each become something become a list of it. -/
theorem mapM_ok {α β γ : Type} {R : γ → β → Prop} {f : α → Except JsError β} {g : γ → α}
    {l : List γ} (h : ∀ c ∈ l, ∃ e, f (g c) = .ok e ∧ R c e) :
    ∃ es, (l.map g).mapM f = .ok es ∧ List.Forall₂ R l es := by
  induction l with
  | nil => exact ⟨[], rfl, .nil⟩
  | cons c l ih =>
      obtain ⟨e, he, hR⟩ := h c List.mem_cons_self
      obtain ⟨es, hes, hRs⟩ := ih fun d hd => h d (List.mem_cons_of_mem _ hd)
      refine ⟨e :: es, ?_, .cons hR hRs⟩
      rw [List.map_cons, List.mapM_cons, he]
      change (do
        let rest ← (l.map g).mapM f
        pure (e :: rest)) = _
      rw [hes]
      rfl

/-- **Whatever is stored is a miss, or becomes a page whose entities have valid dates and
fields of the right types; nothing is thrown.** -/
theorem fromCache_safe (value : Document) : ∃ r, fromCache other ofObject value = .ok r ∧
    ∀ page, r = some page → ∀ e ∈ page.items, Sound e := by
  have miss : ∀ page, (none : Option RebuiltPage) = some page → ∀ e ∈ page.items, Sound e := by
    intro page hpage
    cases hpage
  unfold fromCache
  cases ht : truthy value with
  | false => exact ⟨none, rfl, miss⟩
  | true =>
      simp only [Bool.not_true, Bool.false_eq_true, if_false, property_of_truthy ht, bind,
        Except.bind]
      split
      · rename_i items _
        have hall : items.allM (isCachedCategory other) = .ok (items.all (isCached other)) := by
          have hchecks : isCachedCategory other = fun c => .ok (isCached other c) :=
            funext isCachedCategory_eq
          rw [hchecks, allM_ok]
        rw [hall]
        cases hi : items.all (isCached other) with
        | false => exact ⟨none, rfl, miss⟩
        | true =>
            obtain ⟨es, hes, hsound⟩ := mapM_ok (f := rebuild other ofObject) (g := id)
              (R := fun _ e => Sound e) (l := items) fun c hc =>
                rebuild_of_isCached (List.all_eq_true.mp hi c hc)
            rw [List.map_id] at hes
            refine ⟨some ⟨spread value, es⟩, by simp [hes, pure, Except.pure], ?_⟩
            rintro page hpage e he
            cases hpage
            obtain ⟨i, hlt, rfl⟩ := List.mem_iff_getElem.mp he
            exact hsound.get (by rw [hsound.length_eq]; exact hlt) hlt
      · exact ⟨none, rfl, miss⟩

/-! ### The round trip -/

variable {V : Type} {N : Numbers V}

def categoryKeys : List (List UInt16) :=
  [key "id", key "userId", key "name", key "color", key "icon", key "createdAt", key "updatedAt",
    key "deletedAt", key "metricCount"]

def pageKeys : List (List UInt16) :=
  [key "items", key "nextCursor", key "sort", key "limit", key "q", key "filter", key "totalCount"]

theorem categoryKeys_nodup : categoryKeys.Nodup := by decide +kernel

theorem pageKeys_nodup : pageKeys.Nodup := by decide +kernel

theorem lookup_cachedCategory {c : MetricCategory V} {k : List UInt16} {v : Option Document}
    (hmem : (k, v) ∈ categoryFields N c) : lookup (spread (cachedCategory N c)) k = v :=
  lookup_present (show ((categoryFields N c).map Prod.fst).Nodup from categoryKeys_nodup) hmem

theorem lookup_toCache {page : ListResult V (MetricCategory V)} {k : List UInt16}
    {v : Option Document} (hmem : (k, v) ∈ pageFields N page) :
    lookup (spread (toCache N page)) k = v :=
  lookup_present (show ((pageFields N page).map Prod.fst).Nodup from pageKeys_nodup) hmem

theorem numberOf_number (v : V) : numberOf N (number N v) = some v := N.ofLiteral_literal v

theorem isDateString_isoString (t : Date) :
    isDateString other (some (.str (isoString t))) = true := by
  rw [isDateString, parseDate_isoString]
  rfl

/-- What is written of a category passes the checks. -/
theorem isCached_cachedCategory (c : MetricCategory V) :
    isCached other (cachedCategory N c) = true := by
  refine isCached_iff.mpr ⟨rfl, fun name ok hmem => ?_⟩
  simp only [checks, List.mem_cons, Prod.mk.injEq, List.not_mem_nil, or_false] at hmem
  rcases hmem with ⟨rfl, rfl⟩ | ⟨rfl, rfl⟩ | ⟨rfl, rfl⟩ | ⟨rfl, rfl⟩ | ⟨rfl, rfl⟩ | ⟨rfl, rfl⟩ |
    ⟨rfl, rfl⟩ | ⟨rfl, rfl⟩ | ⟨rfl, rfl⟩
  · rw [lookup_cachedCategory (v := some (.str c.id)) (by simp [categoryFields])]
    rfl
  · rw [lookup_cachedCategory (v := some (.str c.userId)) (by simp [categoryFields])]
    rfl
  · rw [lookup_cachedCategory (v := some (.str c.name)) (by simp [categoryFields])]
    rfl
  · rw [lookup_cachedCategory (v := some (.str c.color)) (by simp [categoryFields])]
    rfl
  · rw [lookup_cachedCategory (v := some (.str c.icon)) (by simp [categoryFields])]
    rfl
  · rw [lookup_cachedCategory (v := some (.str (isoString c.createdAt))) (by simp [categoryFields])]
    exact isDateString_isoString c.createdAt
  · rw [lookup_cachedCategory (v := some (.str (isoString c.updatedAt))) (by simp [categoryFields])]
    exact isDateString_isoString c.updatedAt
  · cases hd : c.deletedAt with
    | none =>
        rw [lookup_cachedCategory (v := some .null) (by simp [categoryFields, hd])]
        rfl
    | some t =>
        rw [lookup_cachedCategory (v := some (.str (isoString t))) (by simp [categoryFields, hd])]
        exact isDateString_isoString t
  · rw [lookup_cachedCategory (v := some (number N c.metricCount)) (by simp [categoryFields])]
    rfl

/-- **What is written of a category becomes the same entity.** -/
theorem rebuild_cachedCategory (c : MetricCategory V) :
    ∃ e, rebuild other ofObject (cachedCategory N c) = .ok e ∧ Same N c e := by
  have hcreated : newDate other ofObject
      (lookup (spread (cachedCategory N c)) (key "createdAt")) = .ok (some c.createdAt) := by
    rw [lookup_cachedCategory (v := some (.str (isoString c.createdAt))) (by simp [categoryFields])]
    exact newDate_of_parseDate (parseDate_isoString c.createdAt)
  have hupdated : newDate other ofObject
      (lookup (spread (cachedCategory N c)) (key "updatedAt")) = .ok (some c.updatedAt) := by
    rw [lookup_cachedCategory (v := some (.str (isoString c.updatedAt))) (by simp [categoryFields])]
    exact newDate_of_parseDate (parseDate_isoString c.updatedAt)
  have hdeleted : newDateOrNull other ofObject
      (lookup (spread (cachedCategory N c)) (key "deletedAt")) = .ok (c.deletedAt.map some) := by
    cases hd : c.deletedAt with
    | none =>
        rw [lookup_cachedCategory (v := some .null) (by simp [categoryFields, hd])]
        rfl
    | some t =>
        have htruthy : (some (Document.str (isoString t))).any truthy = true :=
          decide_eq_true (isoString_ne_nil t)
        rw [lookup_cachedCategory (v := some (.str (isoString t))) (by simp [categoryFields, hd]),
          newDateOrNull, if_pos htruthy, newDate_of_parseDate (parseDate_isoString t)]
        rfl
  refine ⟨_, rebuild_eq rfl hcreated hupdated hdeleted, ?_⟩
  exact
    { id := lookup_cachedCategory (by simp [categoryFields])
      userId := lookup_cachedCategory (by simp [categoryFields])
      name := lookup_cachedCategory (by simp [categoryFields])
      color := lookup_cachedCategory (by simp [categoryFields])
      icon := lookup_cachedCategory (by simp [categoryFields])
      createdAt := rfl
      updatedAt := rfl
      deletedAt := rfl
      metricCount := by
        unfold Rebuilt.get
        rw [lookup_cachedCategory (v := some (number N c.metricCount)) (by simp [categoryFields])]
        exact congrArg some (numberOf_number c.metricCount) }

/-! ### What is written is JSON -/

theorem validFields_of_mem {fields : List (List UInt16 × Document)}
    (h : ∀ k d, (k, d) ∈ fields → d.Valid) : Document.ValidFields fields := by
  induction fields with
  | nil => trivial
  | cons p fields ih =>
      obtain ⟨k, d⟩ := p
      exact ⟨h k d List.mem_cons_self, ih fun k d hmem => h k d (List.mem_cons_of_mem _ hmem)⟩

theorem validItems_of_mem {items : List Document} (h : ∀ d ∈ items, d.Valid) :
    Document.ValidItems items := by
  induction items with
  | nil => trivial
  | cons d items ih =>
      exact ⟨h d List.mem_cons_self, ih fun d hmem => h d (List.mem_cons_of_mem _ hmem)⟩

theorem valid_present {fields : List (List UInt16 × Option Document)}
    (h : ∀ k d, (k, some d) ∈ fields → d.Valid) : (Document.obj (present fields)).Valid :=
  validFields_of_mem fun k d hmem => h k d (mem_present.mp hmem)

theorem valid_number (v : V) : (number N v).Valid := N.literal_isNumber v

theorem valid_cachedCategory (c : MetricCategory V) : (cachedCategory N c).Valid := by
  refine valid_present fun k d hmem => ?_
  simp only [categoryFields, List.mem_cons, Prod.mk.injEq, Option.some.injEq, List.not_mem_nil,
    or_false] at hmem
  rcases hmem with ⟨-, rfl⟩ | ⟨-, rfl⟩ | ⟨-, rfl⟩ | ⟨-, rfl⟩ | ⟨-, rfl⟩ | ⟨-, rfl⟩ | ⟨-, rfl⟩ |
    ⟨-, rfl⟩ | ⟨-, rfl⟩
  any_goals trivial
  · split <;> trivial
  · exact valid_number c.metricCount

theorem valid_toCache (page : ListResult V (MetricCategory V)) : (toCache N page).Valid := by
  refine valid_present fun k d hmem => ?_
  simp only [pageFields, List.mem_cons, Prod.mk.injEq, Option.some.injEq, List.not_mem_nil,
    or_false] at hmem
  rcases hmem with ⟨-, rfl⟩ | ⟨-, hd⟩ | ⟨-, rfl⟩ | ⟨-, rfl⟩ | ⟨-, hd⟩ | ⟨-, hd⟩ | ⟨-, hd⟩
  · refine validItems_of_mem fun d hd => ?_
    obtain ⟨c, _, rfl⟩ := List.mem_map.mp hd
    exact valid_cachedCategory c
  · obtain ⟨s, _, rfl⟩ := Option.map_eq_some_iff.mp hd.symm
    trivial
  · trivial
  · exact valid_number page.limit
  · obtain ⟨s, _, rfl⟩ := Option.map_eq_some_iff.mp hd.symm
    trivial
  · obtain ⟨filter, _, rfl⟩ := Option.map_eq_some_iff.mp hd.symm
    refine valid_present fun k d hmem => ?_
    obtain ⟨_, hname⟩ := Prod.mk.inj (List.mem_singleton.mp hmem)
    obtain ⟨s, _, rfl⟩ := Option.map_eq_some_iff.mp hname.symm
    trivial
  · obtain ⟨v, _, rfl⟩ := Option.map_eq_some_iff.mp hd.symm
    exact valid_number v

theorem samePage_of_items {page : ListResult V (MetricCategory V)} {es : List Rebuilt}
    (h : List.Forall₂ (Same N) page.items es) :
    SamePage N page ⟨spread (toCache N page), es⟩ where
  items := h
  nextCursor := lookup_toCache (by simp [pageFields])
  sort := lookup_toCache (by simp [pageFields])
  limit := by
    unfold RebuiltPage.get
    rw [lookup_toCache (v := some (number N page.limit)) (by simp [pageFields])]
    exact congrArg some (numberOf_number page.limit)
  q := lookup_toCache (by simp [pageFields])
  filter := by
    unfold RebuiltPage.get
    rw [lookup_toCache (v := page.filter.map fun filter => .obj (present (filterFields filter)))
      (by simp [pageFields])]
    cases page.filter with
    | none => rfl
    | some filter =>
        have hname : lookup (present (filterFields filter)) (key "name") = filter.name.map .str :=
          lookup_present
            (show ((filterFields filter).map Prod.fst).Nodup from List.nodup_singleton _)
            (List.mem_singleton_self _)
        exact congrArg some hname
  totalCount := by
    unfold RebuiltPage.get
    rw [lookup_toCache (v := page.totalCount.map (number N)) (by simp [pageFields])]
    cases page.totalCount with
    | none => rfl
    | some v => exact congrArg some (numberOf_number v)

/-- **A page that is written is read back as it was.** -/
theorem fromCache_toCache (page : ListResult V (MetricCategory V)) :
    ∃ r, (Document.parse (toCache N page).stringify).map (fromCache other ofObject) =
      some (.ok (some r)) ∧ SamePage N page r := by
  obtain ⟨es, hes, hsame⟩ := mapM_ok (f := rebuild other ofObject) (g := cachedCategory N)
    (R := Same N) (l := page.items) fun c _ => rebuild_cachedCategory c
  refine ⟨⟨spread (toCache N page), es⟩, ?_, samePage_of_items hsame⟩
  rw [Document.parse_stringify (valid_toCache page), Option.map_some]
  have hchecks : isCachedCategory other = fun c => .ok (isCached other c) :=
    funext isCachedCategory_eq
  have hall : (page.items.map (cachedCategory N)).all (isCached other) = true := by
    refine List.all_eq_true.mpr fun d hd => ?_
    obtain ⟨c, _, rfl⟩ := List.mem_map.mp hd
    exact isCached_cachedCategory c
  have hitems : property (toCache N page) (key "items") =
      .ok (some (.arr (page.items.map (cachedCategory N)))) :=
    congrArg Except.ok (lookup_toCache (by simp [pageFields]))
  have htruthy : truthy (toCache N page) = true := rfl
  unfold fromCache
  simp only [htruthy, Bool.not_true, Bool.false_eq_true, if_false, hitems, bind, Except.bind,
    hchecks, allM_ok, hall]
  simp [hes, pure, Except.pure]

/-- **The codec of the cached page round-trips, and whatever it is given it does not throw, and
gives a miss or entities with valid dates and fields of the right types.** -/
theorem codec_round_trips_and_safe {V : Type} (N : Numbers V) (other : List UInt16 → Option Date)
    (ofObject : Document → Except JsError (Option Date)) :
    (∀ page : ListResult V (MetricCategory V), ∃ r,
      (Document.parse (toCache N page).stringify).map (fromCache other ofObject) =
        some (.ok (some r)) ∧ SamePage N page r) ∧
    ∀ value, ∃ r, fromCache other ofObject value = .ok r ∧
      ∀ page, r = some page → ∀ e ∈ page.items, Sound e :=
  ⟨fromCache_toCache, fromCache_safe⟩

end LakiraBackend.Metrics.CategoryCache
