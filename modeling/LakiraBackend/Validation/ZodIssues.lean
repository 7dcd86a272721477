import Mathlib.Data.List.Forall2

/-!
# The Zod issue formatter

`formatZodIssues` names the fields of a failed validation.  A union that no option matched is
reported as the issues of its closest option, under the union's own path, and a field that has
a type error as that alone.

What is kept of a tree of issues is described by `Kept`, without the walk that finds it.  Every
field of it is reported, each path is the whole path from the root, and something is reported
(`format_iff_printable`), unless a path holds a symbol: `join` throws on one, where `pathKey`
takes its text.
-/

namespace LakiraBackend.Validation

/-! ### Issues -/

/-- One step of a path. -/
inductive PropertyKey : Type
  | string (s : String)
  /-- A number, by its text. -/
  | number (text : String)
  | symbol (description : String)
  deriving DecidableEq, Repr

/-- `String(key)`. -/
def PropertyKey.text : PropertyKey → String
  | string s => s
  | number text => text
  | symbol description => "Symbol(" ++ description ++ ")"

def PropertyKey.isSymbol : PropertyKey → Bool
  | symbol _ => true
  | _ => false

inductive IssueCode : Type
  | invalid_type
  | invalid_union
  /-- Any other code. -/
  | other (code : String)
  deriving DecidableEq, Repr

/-- An issue that Zod reports; that of a union has those of its options. -/
inductive Issue : Type
  | plain (code : IssueCode) (path : List PropertyKey) (message : String)
  | union (path : List PropertyKey) (message : String) (errors : List (List Issue))

namespace Issue

def code : Issue → IssueCode
  | plain code _ _ => code
  | union _ _ _ => .invalid_union

def path : Issue → List PropertyKey
  | plain _ path _ => path
  | union path _ _ => path

def message : Issue → String
  | plain _ _ message => message
  | union _ message _ => message

/-- The options that are objects. -/
def objectOptions (errors : List (List Issue)) : List (List Issue) :=
  errors.filter fun option => option.any fun inner => 0 < inner.path.length

/-- The option with the fewest issues, the first on a tie. -/
def closest : List (List Issue) → Option (List Issue)
  | [] => none
  | option :: options =>
    some (options.foldl
      (fun best option => if option.length < best.length then option else best) option)

/-- The option whose issues stand for the issue of a union. -/
def chosen : Issue → Option (List Issue)
  | plain _ _ _ => none
  | union _ _ errors => closest (objectOptions errors)

theorem mem_of_closest {options : List (List Issue)} {option : List Issue}
    (h : closest options = some option) : option ∈ options := by
  cases options with
  | nil => cases h
  | cons first options =>
      obtain rfl := Option.some.inj h
      clear h
      induction options generalizing first with
      | nil => exact List.mem_cons_self
      | cons next options ih =>
          rw [List.foldl_cons]
          split
          · exact List.mem_cons_of_mem _ (ih next)
          · rcases List.mem_cons.mp (ih first) with he | hmem
            · rw [he]
              exact List.mem_cons_self
            · exact List.mem_cons_of_mem _ (List.mem_cons_of_mem _ hmem)

/-- The option that is chosen is one of the union's, and has an issue. -/
theorem chosen_spec {issue : Issue} {option : List Issue} (h : issue.chosen = some option) :
    ∃ path message errors, issue = union path message errors ∧ option ∈ errors ∧ option ≠ [] := by
  cases issue with
  | plain code path message => cases h
  | union path message errors =>
      obtain ⟨hmem, hany⟩ := List.mem_filter.mp (mem_of_closest h)
      refine ⟨path, message, errors, rfl, hmem, ?_⟩
      rintro rfl
      cases hany

theorem sizeOf_chosen_lt {issue : Issue} {option : List Issue} (h : issue.chosen = some option) :
    sizeOf option < sizeOf issue := by
  obtain ⟨path, message, errors, rfl, hmem, _⟩ := chosen_spec h
  have hlt := List.sizeOf_lt_of_mem hmem
  simp only [union.sizeOf_spec]
  omega

end Issue

/-! ### The formatter -/

/-- An issue with its path from the root. -/
structure Flat : Type where
  code : IssueCode
  path : List PropertyKey
  message : String
  deriving DecidableEq, Repr

/-- `{ ...issue, path }`. -/
def Issue.at (issue : Issue) (path : List PropertyKey) : Flat := ⟨issue.code, path, issue.message⟩

def pathKey (path : List PropertyKey) : String := ".".intercalate (path.map PropertyKey.text)

/-- `path.join(".")`; none where that throws. -/
def join (path : List PropertyKey) : Option String :=
  if path.any PropertyKey.isSymbol then none else some (pathKey path)

def flatten (pre : List PropertyKey) (list : List Issue) : List Flat :=
  list.attach.flatMap fun issue =>
    match _h : issue.1.chosen with
    | some closest => flatten (pre ++ issue.1.path) closest
    | none => [issue.1.at (pre ++ issue.1.path)]
termination_by sizeOf list
decreasing_by
  have hissue := List.sizeOf_lt_of_mem issue.2
  have hclosest := Issue.sizeOf_chosen_lt _h
  omega

def typeFailed (flat : List Flat) : List String :=
  (flat.filter fun issue => issue.code = .invalid_type).map fun issue => pathKey issue.path

def asZod3Issues (issues : List Issue) : List Flat :=
  let flat := flatten [] issues
  flat.filter fun issue => issue.code = .invalid_type || pathKey issue.path ∉ typeFailed flat

structure FieldIssue : Type where
  field : String
  message : String
  deriving DecidableEq, Repr

/-- `issue.path.join(".") || "body"`. -/
def fieldOf (path : List PropertyKey) : Option String :=
  (join path).map fun field => if field = "" then "body" else field

/-- `formatZodIssues`; none where it throws. -/
def formatZodIssues (issues : List Issue) : Option (List FieldIssue) :=
  (asZod3Issues issues).mapM fun issue =>
    (fieldOf issue.path).map fun field => ⟨field, issue.message⟩

/-! ### What is kept of a tree of issues -/

/-- The issue is one of the list, or of the option chosen for one of it, and so on, under the
paths of those. -/
inductive Kept : List PropertyKey → List Issue → Flat → Prop
  | here {pre : List PropertyKey} {issues : List Issue} {issue : Issue} : issue ∈ issues →
      issue.chosen = none → Kept pre issues (issue.at (pre ++ issue.path))
  | inside {pre : List PropertyKey} {issues : List Issue} {issue : Issue} {option : List Issue}
      {flat : Flat} : issue ∈ issues → issue.chosen = some option →
      Kept (pre ++ issue.path) option flat → Kept pre issues flat

/-- An issue anywhere in the tree, with its whole path. -/
inductive Reached (issues : List Issue) : List PropertyKey → Issue → Prop
  | root {issue : Issue} : issue ∈ issues → Reached issues issue.path issue
  | option {full path : List PropertyKey} {message : String} {errors : List (List Issue)}
      {option : List Issue} {issue : Issue} : Reached issues full (.union path message errors) →
      option ∈ errors → issue ∈ option → Reached issues (full ++ issue.path) issue

/-- Only an issue that gives way to a type error of its field has a symbol in its path. -/
def Printable (issues : List Issue) : Prop :=
  ∀ flat, Kept [] issues flat → flat.path.any PropertyKey.isSymbol = true →
    flat.code ≠ .invalid_type ∧
      ∃ other, Kept [] issues other ∧ other.code = .invalid_type ∧
        pathKey other.path = pathKey flat.path

/-- An entry for each issue, in order, with its field and its message. -/
def Entries (list : List Flat) (fields : List FieldIssue) : Prop :=
  List.Forall₂ (fun flat (f : FieldIssue) => fieldOf flat.path = some f.field ∧
    f.message = flat.message) list fields

structure Formats (issues : List Issue) : Prop where
  /-- Something is returned: an entry for each reported issue. -/
  returns : ∃ fields, formatZodIssues issues = some fields ∧ fields ≠ [] ∧
    Entries (asZod3Issues issues) fields
  /-- What is reported is an issue of the tree, with its whole path. -/
  full : ∀ flat ∈ asZod3Issues issues, ∃ issue, Reached issues flat.path issue ∧
    flat = issue.at flat.path
  /-- A field that has a type error is reported with its type errors only. -/
  typed : ∀ flat ∈ asZod3Issues issues, ∀ other, Kept [] issues other →
    other.code = .invalid_type → pathKey other.path = pathKey flat.path → flat.code = .invalid_type
  /-- Every field is reported. -/
  covers : ∀ flat, Kept [] issues flat →
    ∃ other ∈ asZod3Issues issues, pathKey other.path = pathKey flat.path

/-! ### The walk -/

variable {pre : List PropertyKey} {issues : List Issue} {flat : Flat}

/-- What one issue gives. -/
def Issue.flattened (pre : List PropertyKey) (issue : Issue) : List Flat :=
  match issue.chosen with
  | some closest => flatten (pre ++ issue.path) closest
  | none => [issue.at (pre ++ issue.path)]

theorem flatten_eq : flatten pre issues = issues.flatMap (Issue.flattened pre) := by
  rw [flatten]
  conv_rhs => rw [← List.attach_map_subtype_val issues, List.flatMap_map]
  refine List.flatMap_congr fun issue _ => ?_
  rw [Issue.flattened]
  split <;> simp_all

theorem flatten_nil : flatten pre [] = [] := by
  rw [flatten_eq, List.flatMap_nil]

theorem flatten_cons (issue : Issue) :
    flatten pre (issue :: issues) = issue.flattened pre ++ flatten pre issues := by
  rw [flatten_eq, flatten_eq, List.flatMap_cons]

theorem mem_flatten : flat ∈ flatten pre issues ↔ ∃ issue ∈ issues,
    (∃ option, issue.chosen = some option ∧ flat ∈ flatten (pre ++ issue.path) option) ∨
      issue.chosen = none ∧ flat = issue.at (pre ++ issue.path) := by
  rw [flatten_eq, List.mem_flatMap]
  refine exists_congr fun issue => and_congr_right fun _ => ?_
  rw [Issue.flattened]
  cases issue.chosen with
  | none => simp
  | some option => simp

/-- **The walk finds what is kept.** -/
theorem mem_flatten_iff_kept : flat ∈ flatten pre issues ↔ Kept pre issues flat := by
  constructor
  · induction issues using WellFounded.induction (measure (fun l : List Issue => sizeOf l)).wf
      generalizing pre with
    | _ issues ih =>
      intro h
      obtain ⟨issue, hmem, ⟨option, hchosen, hflat⟩ | ⟨hnone, rfl⟩⟩ := mem_flatten.mp h
      · have hlt : sizeOf option < sizeOf issues :=
          Nat.lt_trans (Issue.sizeOf_chosen_lt hchosen) (List.sizeOf_lt_of_mem hmem)
        exact .inside hmem hchosen (ih option hlt hflat)
      · exact .here hmem hnone
  · intro h
    induction h with
    | here hmem hnone => exact mem_flatten.mpr ⟨_, hmem, Or.inr ⟨hnone, rfl⟩⟩
    | inside hmem hchosen _ ih => exact mem_flatten.mpr ⟨_, hmem, Or.inl ⟨_, hchosen, ih⟩⟩

/-- Something is kept of any issue: an option that is chosen is not empty. -/
theorem exists_kept (hne : issues ≠ []) : ∃ flat, Kept pre issues flat := by
  induction issues using WellFounded.induction (measure (fun l : List Issue => sizeOf l)).wf
    generalizing pre with
  | _ issues ih =>
    obtain ⟨issue, rest, rfl⟩ := List.exists_cons_of_ne_nil hne
    have hmem : issue ∈ issue :: rest := List.mem_cons_self
    cases hchosen : issue.chosen with
    | none => exact ⟨_, .here hmem hchosen⟩
    | some option =>
        have hlt : sizeOf option < sizeOf (issue :: rest) :=
          Nat.lt_trans (Issue.sizeOf_chosen_lt hchosen) (List.sizeOf_lt_of_mem hmem)
        obtain ⟨_, _, _, _, _, hoption⟩ := Issue.chosen_spec hchosen
        obtain ⟨flat, hflat⟩ : ∃ flat, Kept (pre ++ issue.path) option flat := ih option hlt hoption
        exact ⟨flat, .inside hmem hchosen hflat⟩

/-- **The path that is kept with an issue is its whole path.** -/
theorem Kept.reached {tree : List Issue} (h : Kept pre issues flat)
    (hlist : ∀ issue ∈ issues, Reached tree (pre ++ issue.path) issue) :
    ∃ issue, Reached tree flat.path issue ∧ flat = issue.at flat.path := by
  induction h with
  | here hmem _ => exact ⟨_, hlist _ hmem, rfl⟩
  | inside hmem hchosen _ ih =>
      obtain ⟨path, message, errors, rfl, hoption, _⟩ := Issue.chosen_spec hchosen
      exact ih fun issue hissue => .option (hlist _ hmem) hoption hissue

/-! ### The type errors of a field -/

theorem mem_typeFailed {list : List Flat} {key : String} :
    key ∈ typeFailed list ↔
      ∃ issue ∈ list, issue.code = .invalid_type ∧ pathKey issue.path = key := by
  simp only [typeFailed, List.mem_map, List.mem_filter, decide_eq_true_eq, and_assoc]

theorem mem_asZod3Issues : flat ∈ asZod3Issues issues ↔ Kept [] issues flat ∧
    (flat.code = .invalid_type ∨ ∀ other, Kept [] issues other → other.code = .invalid_type →
      pathKey other.path ≠ pathKey flat.path) := by
  simp only [asZod3Issues, List.mem_filter, Bool.or_eq_true, decide_eq_true_eq, mem_typeFailed,
    mem_flatten_iff_kept, not_exists, not_and, ne_eq]

/-- An issue that is kept and not reported gives way to a type error of its field. -/
theorem reported_or_typeFailed (h : Kept [] issues flat) :
    flat ∈ asZod3Issues issues ∨ flat.code ≠ .invalid_type ∧
      ∃ other ∈ asZod3Issues issues, other.code = .invalid_type ∧
        pathKey other.path = pathKey flat.path := by
  by_cases hreported : flat ∈ asZod3Issues issues
  · exact Or.inl hreported
  · right
    rw [mem_asZod3Issues] at hreported
    push Not at hreported
    obtain ⟨hcode, other, hother, hinvalid, hkey⟩ := hreported h
    exact ⟨hcode, other, mem_asZod3Issues.mpr ⟨hother, Or.inl hinvalid⟩, hinvalid, hkey⟩

theorem covered (h : Kept [] issues flat) :
    ∃ other ∈ asZod3Issues issues, pathKey other.path = pathKey flat.path := by
  rcases reported_or_typeFailed h with hflat | ⟨_, other, hother, _, hkey⟩
  · exact ⟨flat, hflat, rfl⟩
  · exact ⟨other, hother, hkey⟩

theorem asZod3Issues_ne_nil (hne : issues ≠ []) : asZod3Issues issues ≠ [] := by
  obtain ⟨flat, hflat⟩ : ∃ flat, Kept [] issues flat := exists_kept hne
  obtain ⟨other, hother, _⟩ := covered hflat
  exact List.ne_nil_of_mem hother

theorem typeFailed_only (h : flat ∈ asZod3Issues issues) {other : Flat}
    (hother : Kept [] issues other) (hinvalid : other.code = .invalid_type)
    (hkey : pathKey other.path = pathKey flat.path) : flat.code = .invalid_type := by
  rcases (mem_asZod3Issues.mp h).2 with hcode | hnone
  · exact hcode
  · exact absurd hkey (hnone other hother hinvalid)

/-- **What is reported has no symbol in a path**, just if such an issue always gives way. -/
theorem printable_iff : Printable issues ↔
    ∀ flat ∈ asZod3Issues issues, flat.path.any PropertyKey.isSymbol = false := by
  constructor
  · intro h flat hflat
    rw [← Bool.not_eq_true]
    intro hsymbol
    obtain ⟨hcode, other, hother, hinvalid, hkey⟩ := h flat (mem_asZod3Issues.mp hflat).1 hsymbol
    exact hcode (typeFailed_only hflat hother hinvalid hkey)
  · intro h flat hkept hsymbol
    rcases reported_or_typeFailed hkept with hflat | ⟨hcode, other, hother, hinvalid, hkey⟩
    · rw [h flat hflat] at hsymbol
      cases hsymbol
    · exact ⟨hcode, other, (mem_asZod3Issues.mp hother).1, hinvalid, hkey⟩

/-! ### The fields -/

theorem fieldOf_eq_none {path : List PropertyKey} :
    fieldOf path = none ↔ path.any PropertyKey.isSymbol = true := by
  rw [fieldOf, Option.map_eq_none_iff, join]
  split
  · rename_i h
    exact iff_of_true rfl h
  · rename_i h
    exact iff_of_false (by simp) h

theorem entry_of_field {flat : Flat} {entry : FieldIssue}
    (h : (fieldOf flat.path).map (fun field => (⟨field, flat.message⟩ : FieldIssue)) = some entry) :
    fieldOf flat.path = some entry.field ∧ entry.message = flat.message := by
  obtain ⟨field, hfield, rfl⟩ := Option.map_eq_some_iff.mp h
  exact ⟨hfield, rfl⟩

theorem entries_of_mapM {list : List Flat} {fields : List FieldIssue}
    (h : (list.mapM fun issue => (fieldOf issue.path).map fun field =>
      (⟨field, issue.message⟩ : FieldIssue)) = some fields) : Entries list fields := by
  induction list generalizing fields with
  | nil =>
      obtain rfl : ([] : List FieldIssue) = fields := by simpa using h
      exact .nil
  | cons flat list ih =>
      rw [List.mapM_cons, Option.bind_eq_bind, Option.bind_eq_some_iff] at h
      obtain ⟨entry, hentry, h⟩ := h
      rw [Option.bind_eq_bind, Option.bind_eq_some_iff] at h
      obtain ⟨entries, hentries, h⟩ := h
      obtain rfl : entry :: entries = fields := Option.some.inj h
      exact .cons (entry_of_field hentry) (ih hentries)

theorem Entries.field_some {list : List Flat} {fields : List FieldIssue} (h : Entries list fields)
    {flat : Flat} (hflat : flat ∈ list) : ∃ field, fieldOf flat.path = some field := by
  induction h with
  | nil => cases hflat
  | cons hentry _ ih =>
      rcases List.mem_cons.mp hflat with rfl | hflat
      · exact ⟨_, hentry.1⟩
      · exact ih hflat

theorem mapM_of_field_some {list : List Flat}
    (h : ∀ flat ∈ list, ∃ field, fieldOf flat.path = some field) :
    ∃ fields, (list.mapM fun issue => (fieldOf issue.path).map fun field =>
      (⟨field, issue.message⟩ : FieldIssue)) = some fields := by
  induction list with
  | nil => exact ⟨[], rfl⟩
  | cons flat list ih =>
      obtain ⟨field, hfield⟩ := h flat List.mem_cons_self
      obtain ⟨fields, hfields⟩ := ih fun flat hflat => h flat (List.mem_cons_of_mem _ hflat)
      refine ⟨⟨field, flat.message⟩ :: fields, ?_⟩
      rw [List.mapM_cons, hfield, hfields]
      rfl

theorem field_some_iff {path : List PropertyKey} :
    (∃ field, fieldOf path = some field) ↔ path.any PropertyKey.isSymbol = false := by
  rw [← Option.ne_none_iff_exists', ne_eq, fieldOf_eq_none, Bool.not_eq_true]

theorem formatZodIssues_returns (hne : issues ≠ []) (h : Printable issues) :
    ∃ fields, formatZodIssues issues = some fields ∧ fields ≠ [] ∧
      Entries (asZod3Issues issues) fields := by
  obtain ⟨fields, hfields⟩ := mapM_of_field_some fun flat hflat =>
    field_some_iff.mpr (printable_iff.mp h flat hflat)
  have hentries : Entries (asZod3Issues issues) fields := entries_of_mapM hfields
  refine ⟨fields, hfields, ?_, hentries⟩
  rintro rfl
  exact asZod3Issues_ne_nil hne (List.forall₂_nil_right_iff.mp hentries)

theorem Formats.printable (h : Formats issues) : Printable issues := by
  obtain ⟨⟨fields, _, _, hentries⟩, _, _, _⟩ := h
  refine printable_iff.mpr fun flat hflat => ?_
  exact field_some_iff.mp (hentries.field_some hflat)

/-- **The formatter keeps every failing field**, just if no issue that it reports has a symbol in
its path.  The text of `pathKey` is there for one; `join` throws. -/
theorem format_iff_printable (hne : issues ≠ []) : Formats issues ↔ Printable issues := by
  refine ⟨Formats.printable, fun h => ?_⟩
  refine ⟨formatZodIssues_returns hne h, ?_, ?_, fun flat hflat => covered hflat⟩
  · intro flat hflat
    exact (mem_asZod3Issues.mp hflat).1.reached fun issue hissue => .root hissue
  · intro flat hflat other hother hinvalid hkey
    exact typeFailed_only hflat hother hinvalid hkey

/-- A field with a type error and a length check, and a union in an option of a union. -/
def nested : List Issue :=
  [.plain .invalid_type [.string "name"] "Expected string",
    .plain (.other "too_small") [.string "name"] "Too short",
    .union [.string "rules"] "Invalid input"
      [[.plain .invalid_type [] "Expected string"],
        [.union [.number "0"] "Invalid input"
          [[.plain (.other "custom") [.string "limit"] "Too large"]]]]]

theorem flatten_nested : flatten [] nested =
    [⟨.invalid_type, [.string "name"], "Expected string"⟩,
      ⟨.other "too_small", [.string "name"], "Too short"⟩,
      ⟨.other "custom", [.string "rules", .number "0", .string "limit"], "Too large"⟩] := by
  simp [flatten_cons, flatten_nil, Issue.flattened, nested, Issue.chosen, Issue.closest,
    Issue.objectOptions, Issue.path, Issue.at, Issue.code, Issue.message]

theorem nested_printable : Printable nested := by
  intro flat hflat
  rw [← mem_flatten_iff_kept, flatten_nested] at hflat
  revert flat
  simp [PropertyKey.isSymbol]

theorem nested_formats : nested ≠ [] ∧ Printable nested ∧ Formats nested := by
  have hne : nested ≠ [] := by simp [nested]
  exact ⟨hne, nested_printable, (format_iff_printable hne).mpr nested_printable⟩

/-- `PropertyKey` allows a symbol, and nothing is reported for the field. -/
theorem symbol_throws : ¬ Formats [.plain (.other "custom") [.symbol "s"] "Invalid"] := by
  intro h
  obtain ⟨_, other, hother, hinvalid, _⟩ := h.printable
    ⟨.other "custom", [.symbol "s"], "Invalid"⟩ (.here List.mem_cons_self rfl) rfl
  rw [← mem_flatten_iff_kept, flatten_cons, flatten_nil] at hother
  obtain rfl := List.mem_singleton.mp hother
  cases hinvalid

end LakiraBackend.Validation
