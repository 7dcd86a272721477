import LakiraBackend.JavaScript.Buffer

/-!
# `JSON.stringify` and `JSON.parse`

Texts are lists of characters.  A number is kept as its literal: what number it stands
for is the caller's affair.  A surrogate that is escaped stands for U+FFFD.  An object
whose values are texts, literals and booleans is read back from what is written of it
(`parse_stringify`), and from its base64url (`ofBase64url_toBase64url`).
-/

namespace LakiraBackend.JavaScript

inductive Json : Type
  | null
  | bool (b : Bool)
  | num (literal : List Char)
  | str (s : List Char)
  | arr (items : List Json)
  | obj (fields : List (List Char × Json))

namespace Json

/-! ### Writing -/

def escape (c : Char) : List Char :=
  if c = '"' then ['\\', '"']
  else if c = '\\' then ['\\', '\\']
  else if c.toNat = 8 then ['\\', 'b']
  else if c.toNat = 9 then ['\\', 't']
  else if c.toNat = 10 then ['\\', 'n']
  else if c.toNat = 12 then ['\\', 'f']
  else if c.toNat = 13 then ['\\', 'r']
  else if c.toNat < 32 then '\\' :: 'u' :: pad 16 4 c.toNat
  else [c]

def quote (s : List Char) : List Char := '"' :: (s.flatMap escape ++ ['"'])

mutual

/-- `JSON.stringify`. -/
def stringify : Json → List Char
  | null => "null".toList
  | bool true => "true".toList
  | bool false => "false".toList
  | num literal => literal
  | str s => quote s
  | arr items => '[' :: (stringifyItems items ++ [']'])
  | obj fields => '\x7b' :: (stringifyFields fields ++ ['\x7d'])

def stringifyItems : List Json → List Char
  | [] => []
  | [v] => v.stringify
  | v :: vs => v.stringify ++ ',' :: stringifyItems vs

def stringifyFields : List (List Char × Json) → List Char
  | [] => []
  | [(k, v)] => quote k ++ ':' :: v.stringify
  | (k, v) :: fields => quote k ++ ':' :: (v.stringify ++ ',' :: stringifyFields fields)

end

/-! ### Reading -/

def isSpace (c : Char) : Bool := c = ' ' || c = '\t' || c = '\n' || c = '\r'

def skip (s : List Char) : List Char := s.dropWhile isSpace

/-- The character an escape of two characters stands for. -/
def unescape (c : Char) : Option Char :=
  if c = '"' ∨ c = '\\' ∨ c = '/' then some c
  else if c = 'b' then some '\x08'
  else if c = 't' then some '\t'
  else if c = 'n' then some '\n'
  else if c = 'f' then some '\x0c'
  else if c = 'r' then some '\r'
  else none

/-- A text after its opening quote. -/
def body : List Char → Option (List Char × List Char)
  | [] => none
  | '"' :: s => some ([], s)
  | '\\' :: 'u' :: a :: b :: c :: d :: s =>
    (takeDigits 16 4 0 [a, b, c, d]).bind fun p => (body s).map fun q =>
      ((if p.1.isValidChar then Char.ofNat p.1 else '\uFFFD') :: q.1, q.2)
  | '\\' :: c :: s =>
    (unescape c).bind fun (c : Char) => (body s).map fun q => (c :: q.1, q.2)
  | c :: s => if c.toNat < 32 ∨ c = '\\' then none else (body s).map fun q => (c :: q.1, q.2)

def isExponent : List Char → Bool
  | [] => true
  | e :: s =>
    let digits := if s.head? = some '+' ∨ s.head? = some '-' then s.tail else s
    (e = 'e' || e = 'E') && digits ≠ [] && digits.all Char.isDigit

def isFraction : List Char → Bool
  | '.' :: s => s.takeWhile Char.isDigit ≠ [] && isExponent (s.dropWhile Char.isDigit)
  | s => isExponent s

/-- The text is a number's literal. -/
def isNumber (s : List Char) : Bool :=
  let unsigned := if s.head? = some '-' then s.tail else s
  let whole := unsigned.takeWhile Char.isDigit
  whole ≠ [] && (whole.head? ≠ some '0' || whole.length = 1) &&
    isFraction (unsigned.dropWhile Char.isDigit)

def inNumber (c : Char) : Bool :=
  c.isDigit || c = '+' || c = '-' || c = '.' || c = 'e' || c = 'E'

mutual

/-- A value, with what follows it; `n` bounds how deep and how long it is. -/
def value : Nat → List Char → Option (Json × List Char)
  | 0, _ => none
  | n + 1, s =>
    match skip s with
    | '"' :: s => (body s).map fun p => (str p.1, p.2)
    | '\x7b' :: s =>
      match skip s with
      | '\x7d' :: s => some (obj [], s)
      | s => (members n s).map fun p => (obj p.1, p.2)
    | '[' :: s =>
      match skip s with
      | ']' :: s => some (arr [], s)
      | s => (elements n s).map fun p => (arr p.1, p.2)
    | 'n' :: 'u' :: 'l' :: 'l' :: s => some (null, s)
    | 't' :: 'r' :: 'u' :: 'e' :: s => some (bool true, s)
    | 'f' :: 'a' :: 'l' :: 's' :: 'e' :: s => some (bool false, s)
    | s =>
      if isNumber (s.takeWhile inNumber) then
        some (num (s.takeWhile inNumber), s.dropWhile inNumber)
      else none

def members : Nat → List Char → Option (List (List Char × Json) × List Char)
  | 0, _ => none
  | n + 1, s =>
    match s with
    | '"' :: s => (body s).bind fun p =>
      match skip p.2 with
      | ':' :: s => (value n s).bind fun q =>
        match skip q.2 with
        | ',' :: s => (members n (skip s)).map fun r => ((p.1, q.1) :: r.1, r.2)
        | '\x7d' :: s => some ([(p.1, q.1)], s)
        | _ => none
      | _ => none
    | _ => none

def elements : Nat → List Char → Option (List Json × List Char)
  | 0, _ => none
  | n + 1, s => (value n s).bind fun p =>
    match skip p.2 with
    | ',' :: s => (elements n s).map fun q => (p.1 :: q.1, q.2)
    | ']' :: s => some ([p.1], s)
    | _ => none

end

/-- `JSON.parse`. -/
def parse (s : List Char) : Option Json :=
  (value (s.length + 1) s).bind fun p => if skip p.2 = [] then some p.1 else none

/-- A property of what was parsed: the last of its name. -/
def get (v : Json) (name : String) : Option Json :=
  match v with
  | obj fields => fields.reverse.lookup name.toList
  | _ => none

/-! ### Texts are read back -/

/-- A character that is written as it is. -/
theorem body_cons {c : Char} {s : List Char} (hquote : c ≠ '"') (hslash : c ≠ '\\')
    (hctl : ¬ c.toNat < 32) : body (c :: s) = (body s).map fun q => (c :: q.1, q.2) := by
  rw [body.eq_def]
  split
  · rename_i heq
    cases heq
  · rename_i heq
    exact absurd (List.cons.inj heq).1 hquote
  · rename_i heq
    exact absurd (List.cons.inj heq).1 hslash
  · rename_i heq
    exact absurd (List.cons.inj heq).1 hslash
  · rename_i heq
    obtain ⟨rfl, rfl⟩ := List.cons.inj heq
    exact if_neg fun h => h.elim hctl hslash

theorem body_escape (c : Char) (s : List Char) :
    body (escape c ++ s) = (body s).map fun q => (c :: q.1, q.2) := by
  unfold escape
  split
  · subst_vars
    simp [body, unescape]
  split
  · subst_vars
    simp [body, unescape]
  split
  · rename_i h
    obtain rfl : c = '\x08' := Char.toNat_inj.mp h
    simp [body, unescape]
  split
  · rename_i h
    obtain rfl : c = '\t' := Char.toNat_inj.mp h
    simp [body, unescape]
  split
  · rename_i h
    obtain rfl : c = '\n' := Char.toNat_inj.mp h
    simp [body, unescape]
  split
  · rename_i h
    obtain rfl : c = '\x0c' := Char.toNat_inj.mp h
    simp [body, unescape]
  split
  · rename_i h
    obtain rfl : c = '\r' := Char.toNat_inj.mp h
    simp [body, unescape]
  split
  · rename_i h
    have hread : takeDigits 16 4 0 (pad 16 4 c.toNat) = some (c.toNat, []) := by
      have hpad : takeDigits 16 4 0 (pad 16 4 c.toNat ++ []) = some (c.toNat, []) :=
        takeDigits_pad_of_lt (by decide) (by decide) (by omega)
      rwa [List.append_nil] at hpad
    have hvalid : c.toNat.isValidChar := c.valid
    simp only [pad, List.nil_append, List.cons_append] at hread ⊢
    rw [body, hread, Option.bind_some, if_pos hvalid, Char.ofNat_toNat]
  · rename_i hquote hslash _ _ _ _ _ hctl
    exact body_cons hquote hslash hctl

theorem body_quoted (s t : List Char) : body (s.flatMap escape ++ '"' :: t) = some (s, t) := by
  induction s with
  | nil => rfl
  | cons c s ih =>
    rw [List.flatMap_cons, List.append_assoc, body_escape, ih]
    rfl

/-! ### Objects are read back -/

/-- A text, a boolean or a number with its literal. -/
def Scalar : Json → Prop
  | bool _ => True
  | num literal => isNumber literal = true ∧ ∀ c ∈ literal, inNumber c = true
  | str _ => True
  | _ => False

/-- What ends a value in an object. -/
def Ends (t : List Char) : Prop := ∃ s, t = ',' :: s ∨ t = '\x7d' :: s

theorem skip_cons {c : Char} {s : List Char} (h : isSpace c = false) : skip (c :: s) = c :: s :=
  List.dropWhile_cons_of_neg (by simp [h])

theorem not_isSpace_of_inNumber {c : Char} (h : inNumber c = true) : isSpace c = false := by
  by_contra hspace
  simp only [isSpace, Bool.or_eq_true, decide_eq_true_eq, Bool.not_eq_false] at hspace
  rcases hspace with ((rfl | rfl) | rfl) | rfl <;> cases h

/-- A literal is read up to what ends it. -/
theorem takeWhile_inNumber {literal t : List Char} (h : ∀ c ∈ literal, inNumber c = true)
    (ht : Ends t) : (literal ++ t).takeWhile inNumber = literal ∧
      (literal ++ t).dropWhile inNumber = t := by
  have hstop : t.takeWhile inNumber = [] ∧ t.dropWhile inNumber = t := by
    obtain ⟨s, rfl | rfl⟩ := ht <;> exact ⟨rfl, rfl⟩
  rw [List.takeWhile_append_of_pos h, List.dropWhile_append_of_pos h, hstop.1, hstop.2]
  exact ⟨List.append_nil literal, rfl⟩

theorem value_num {literal t : List Char} (hnum : isNumber literal = true)
    (hin : ∀ c ∈ literal, inNumber c = true) (ht : Ends t) (n : Nat) :
    value (n + 1) (literal ++ t) = some (num literal, t) := by
  obtain ⟨htake, hdrop⟩ := takeWhile_inNumber hin ht
  cases literal with
  | nil => cases hnum
  | cons c cs =>
    have hc := hin c List.mem_cons_self
    rw [value, List.cons_append, skip_cons (not_isSpace_of_inNumber hc)]
    split
    all_goals rename_i heq
    -- no other value starts like a number
    any_goals
      obtain ⟨rfl, _⟩ := List.cons.inj heq
      cases hc
    rw [← List.cons_append, htake, hdrop, if_pos hnum]

theorem value_scalar {v : Json} (hv : v.Scalar) {t : List Char} (ht : Ends t) (n : Nat) :
    value (n + 1) (v.stringify ++ t) = some (v, t) := by
  cases v with
  | bool b => cases b <;> rfl
  | str s =>
    rw [stringify, quote, List.cons_append, List.append_assoc, value, skip_cons (by decide)]
    simp [body_quoted]
  | num literal => exact value_num hv.1 hv.2 ht n
  | _ => exact hv.elim

theorem members_stringify {fields : List (List Char × Json)} (hne : fields ≠ [])
    (hflat : ∀ p ∈ fields, p.2.Scalar) {t : List Char} {n : Nat} (hn : fields.length < n) :
    members n (stringifyFields fields ++ '\x7d' :: t) = some (fields, t) := by
  induction fields generalizing n with
  | nil => exact absurd rfl hne
  | cons p fields ih =>
    obtain ⟨k, v⟩ := p
    have hv : v.Scalar := hflat (k, v) List.mem_cons_self
    obtain ⟨m, rfl⟩ : ∃ m, n = m + 2 := ⟨n - 2, by simp only [List.length_cons] at hn; omega⟩
    have hspace : ∀ {c : Char} {s : List Char}, c = ':' ∨ c = ',' ∨ c = '\x7d' ∨ c = '"' →
        skip (c :: s) = c :: s := by
      rintro c s (rfl | rfl | rfl | rfl) <;> exact skip_cons (by decide)
    cases fields with
    | nil =>
      have heq : stringifyFields [(k, v)] ++ '\x7d' :: t =
          '"' :: (k.flatMap escape ++ '"' :: ':' :: (v.stringify ++ '\x7d' :: t)) := by
        simp [stringifyFields, quote]
      rw [heq, members]
      simp only [body_quoted, Option.bind_some, hspace, true_or, or_true,
        value_scalar hv ⟨t, .inr rfl⟩]
    | cons p' fields =>
      have hrest := ih (List.cons_ne_nil _ _) (fun q hq => hflat q (List.mem_cons_of_mem _ hq))
        (n := m + 1) (by simp only [List.length_cons] at hn ⊢; omega)
      have hquote : skip (stringifyFields (p' :: fields) ++ '\x7d' :: t) =
          stringifyFields (p' :: fields) ++ '\x7d' :: t := by
        cases fields <;> exact skip_cons (by decide)
      have heq : stringifyFields ((k, v) :: p' :: fields) ++ '\x7d' :: t =
          '"' :: (k.flatMap escape ++ '"' :: ':' ::
            (v.stringify ++ ',' :: (stringifyFields (p' :: fields) ++ '\x7d' :: t))) := by
        simp [stringifyFields, quote]
      rw [heq, members]
      simp only [body_quoted, Option.bind_some, hspace, true_or, or_true,
        value_scalar hv ⟨_, .inl rfl⟩, hquote, hrest, Option.map_some]

theorem length_stringifyFields (fields : List (List Char × Json)) :
    fields.length ≤ (stringifyFields fields).length := by
  induction fields with
  | nil => exact Nat.le_refl 0
  | cons p fields ih =>
    obtain ⟨k, v⟩ := p
    cases fields with
    | nil => simp [stringifyFields, quote]
    | cons p' fields =>
      simp only [stringifyFields, List.length_append, List.length_cons] at ih ⊢
      omega

/-- **An object that is written is read back.** -/
theorem parse_stringify {fields : List (List Char × Json)} (hne : fields ≠ [])
    (hflat : ∀ p ∈ fields, p.2.Scalar) : parse (obj fields).stringify = some (obj fields) := by
  have hlength : fields.length < (obj fields).stringify.length := by
    rw [stringify, List.length_cons, List.length_append]
    have := length_stringifyFields fields
    omega
  obtain ⟨p, fields', rfl⟩ := List.exists_cons_of_ne_nil hne
  have hquote : ∃ s, stringifyFields (p :: fields') ++ ['\x7d'] = '"' :: s := by
    obtain ⟨k, v⟩ := p
    cases fields' <;> exact ⟨_, rfl⟩
  obtain ⟨s, hs⟩ := hquote
  have hmembers := members_stringify hne hflat (t := []) hlength
  have hvalue : value ((obj (p :: fields')).stringify.length + 1) (obj (p :: fields')).stringify =
      some (obj (p :: fields'), []) := by
    rw [hs] at hmembers
    generalize (obj (p :: fields')).stringify.length = n at hmembers
    rw [stringify, hs, value, skip_cons (by decide)]
    simp only [skip_cons (show isSpace '"' = false by decide)]
    exact congrArg (Option.map fun p => (obj p.1, p.2)) hmembers
  rw [parse, hvalue]
  rfl

/-! ### In base64url -/

/-- `Buffer.from(JSON.stringify(v)).toString("base64url")`. -/
def toBase64url (v : Json) : List Char := Buffer.base64url (Buffer.utf8 v.stringify)

/-- `JSON.parse(Buffer.from(s, "base64url").toString("utf8"))`. -/
def ofBase64url (s : List Char) : Option Json := parse (Buffer.utf8Text (Buffer.fromBase64url s))

/-- **An object that is sent is read back.** -/
theorem ofBase64url_toBase64url {fields : List (List Char × Json)} (hne : fields ≠ [])
    (hflat : ∀ p ∈ fields, p.2.Scalar) :
    ofBase64url (obj fields).toBase64url = some (obj fields) := by
  rw [ofBase64url, toBase64url, Buffer.fromBase64url_base64url,
    Buffer.utf8Text_utf8, parse_stringify hne hflat]

end Json

end LakiraBackend.JavaScript
