import LakiraBackend.JavaScript.Json
import LakiraBackend.JavaScript.Utf16

/-!
# JSON, over code units

The values of JSON with the strings of the language, whatever code units they hold, and nested
to any depth: how they are written and read.  A lone surrogate is written as its escape.  What
is written is read back (`parse_stringify`).
-/

namespace LakiraBackend.JavaScript

inductive Document : Type
  | null
  | bool (b : Bool)
  /-- A number is kept as its literal. -/
  | num (literal : List Char)
  | str (s : List UInt16)
  | arr (items : List Document)
  | obj (fields : List (List UInt16 × Document))

namespace Document

open Text (isHigh isLow)

/-! ### Writing -/

/-- `\u` and four digits. -/
def unicodeEscape (u : Nat) : Text := 0x5C :: 0x75 :: (pad 16 4 u).map Char.toNat

/-- A code point in a string. -/
def escape (c : Nat) : Text :=
  if c = 0x22 then [0x5C, 0x22]
  else if c = 0x5C then [0x5C, 0x5C]
  else if c = 0x08 then [0x5C, 0x62]
  else if c = 0x09 then [0x5C, 0x74]
  else if c = 0x0A then [0x5C, 0x6E]
  else if c = 0x0C then [0x5C, 0x66]
  else if c = 0x0D then [0x5C, 0x72]
  else if c < 0x20 ∨ isHigh c ∨ isLow c then unicodeEscape c
  else utf16 c

def quote (s : List UInt16) : Text := 0x22 :: ((ofUnits s).codePoints.flatMap escape ++ [0x22])

mutual

/-- `JSON.stringify`. -/
def stringify : Document → Text
  | null => text "null"
  | bool true => text "true"
  | bool false => text "false"
  | num literal => literal.map Char.toNat
  | str s => quote s
  | arr items => 0x5B :: (stringifyItems items ++ [0x5D])
  | obj fields => 0x7B :: (stringifyFields fields ++ [0x7D])

def stringifyItems : List Document → Text
  | [] => []
  | [v] => v.stringify
  | v :: vs => v.stringify ++ 0x2C :: stringifyItems vs

def stringifyFields : List (List UInt16 × Document) → Text
  | [] => []
  | [(k, v)] => quote k ++ 0x3A :: v.stringify
  | (k, v) :: fields => quote k ++ 0x3A :: (v.stringify ++ 0x2C :: stringifyFields fields)

end

/-! ### Reading -/

def isSpace (u : Nat) : Bool := u = 0x20 || u = 0x09 || u = 0x0A || u = 0x0D

def skip (s : Text) : Text := s.dropWhile isSpace

/-- What an escape of two code units stands for. -/
def unescape (u : Nat) : Option Nat :=
  if u = 0x22 ∨ u = 0x5C ∨ u = 0x2F then some u
  else if u = 0x62 then some 0x08
  else if u = 0x74 then some 0x09
  else if u = 0x6E then some 0x0A
  else if u = 0x66 then some 0x0C
  else if u = 0x72 then some 0x0D
  else none

/-- A string after its opening quote. -/
def body : Text → Option (Text × Text)
  | [] => none
  | 0x22 :: s => some ([], s)
  | 0x5C :: 0x75 :: a :: b :: c :: d :: s =>
    (takeDigits 16 4 0 ([a, b, c, d].map Char.ofNat)).bind fun p =>
      (body s).map fun q => (p.1 :: q.1, q.2)
  | 0x5C :: e :: s => (unescape e).bind fun u => (body s).map fun q => (u :: q.1, q.2)
  | u :: s => if u < 0x20 ∨ u = 0x5C then none else (body s).map fun q => (u :: q.1, q.2)

def toUnits (s : Text) : List UInt16 := s.map UInt16.ofNat

/-- A code unit that a literal may have. -/
def inLiteral (u : Nat) : Bool := Json.inNumber (Char.ofNat u)

mutual

/-- A value, with what follows it; `n` bounds how deep and how long it is. -/
def value : Nat → Text → Option (Document × Text)
  | 0, _ => none
  | n + 1, s =>
    match skip s with
    | 0x22 :: s => (body s).map fun p => (str (toUnits p.1), p.2)
    | 0x7B :: s =>
      match skip s with
      | 0x7D :: s => some (obj [], s)
      | s => (members n s).map fun p => (obj p.1, p.2)
    | 0x5B :: s =>
      match skip s with
      | 0x5D :: s => some (arr [], s)
      | s => (elements n s).map fun p => (arr p.1, p.2)
    | 0x6E :: 0x75 :: 0x6C :: 0x6C :: s => some (null, s)
    | 0x74 :: 0x72 :: 0x75 :: 0x65 :: s => some (bool true, s)
    | 0x66 :: 0x61 :: 0x6C :: 0x73 :: 0x65 :: s => some (bool false, s)
    | s =>
      let literal := (s.takeWhile inLiteral).map Char.ofNat
      if Json.isNumber literal then some (num literal, s.dropWhile inLiteral) else none

def members : Nat → Text → Option (List (List UInt16 × Document) × Text)
  | 0, _ => none
  | n + 1, s =>
    match s with
    | 0x22 :: s => (body s).bind fun p =>
      match skip p.2 with
      | 0x3A :: s => (value n s).bind fun q =>
        match skip q.2 with
        | 0x2C :: s => (members n (skip s)).map fun r => ((toUnits p.1, q.1) :: r.1, r.2)
        | 0x7D :: s => some ([(toUnits p.1, q.1)], s)
        | _ => none
      | _ => none
    | _ => none

def elements : Nat → Text → Option (List Document × Text)
  | 0, _ => none
  | n + 1, s => (value n s).bind fun p =>
    match skip p.2 with
    | 0x2C :: s => (elements n s).map fun q => (p.1 :: q.1, q.2)
    | 0x5D :: s => some ([p.1], s)
    | _ => none

end

/-- `JSON.parse`. -/
def parse (s : Text) : Option Document :=
  (value (2 * s.length + 1) s).bind fun p => if skip p.2 = [] then some p.1 else none

/-! ### Strings are read back -/

variable {s t : Text} {c : Nat} {literal : List Char}

theorem body_unit (hquote : c ≠ 0x22) (hslash : c ≠ 0x5C) (hctl : ¬ c < 0x20) :
    body (c :: s) = (body s).map fun q => (c :: q.1, q.2) := by
  rw [body.eq_def]
  split
  · rename_i heq
    cases heq
  · rename_i heq
    exact absurd (List.cons.inj heq).1 hquote
  · rename_i heq
    exact absurd (List.cons.inj heq).1 hslash
  · rename_i heq
    exact absurd (List.cons.inj heq).1 hslash
  · rename_i heq
    obtain ⟨rfl, rfl⟩ := List.cons.inj heq
    exact if_neg fun h => h.elim hctl hslash

theorem body_unicodeEscape (hc : c < 0x10000) :
    body (unicodeEscape c ++ s) = (body s).map fun q => (c :: q.1, q.2) := by
  have hread : takeDigits 16 4 0 (pad 16 4 c) = some (c, []) := by
    have hpad : takeDigits 16 4 0 (pad 16 4 c ++ []) = some (c, []) :=
      takeDigits_pad_of_lt (by decide) (by decide) (by omega)
    rwa [List.append_nil] at hpad
  simp only [pad, List.nil_append, List.cons_append] at hread
  simp only [unicodeEscape, pad, List.nil_append, List.cons_append, List.map_cons, List.map_nil,
    body, Char.ofNat_toNat, hread, Option.bind_some]

/-- **A code point that is written is read as its code units.** -/
theorem body_escape (hc : c < 0x110000) :
    body (escape c ++ s) = (body s).map fun q => (utf16 c ++ q.1, q.2) := by
  have hshort : ∀ {u : Nat}, u < 0x10000 → utf16 u = [u] := fun h => by rw [utf16, if_pos h]
  unfold escape
  split
  · subst_vars
    simp [body, unescape, utf16]
  split
  · subst_vars
    simp [body, unescape, utf16]
  split
  · subst_vars
    simp [body, unescape, utf16]
  split
  · subst_vars
    simp [body, unescape, utf16]
  split
  · subst_vars
    simp [body, unescape, utf16]
  split
  · subst_vars
    simp [body, unescape, utf16]
  split
  · subst_vars
    simp [body, unescape, utf16]
  split
  · rename_i hspecial
    have hlt : c < 0x10000 := by
      simp only [isHigh, isLow, Bool.and_eq_true, decide_eq_true_eq] at hspecial
      omega
    rw [body_unicodeEscape hlt, hshort hlt]
    rfl
  · rename_i hquote hslash _ _ _ _ _ hplain
    simp only [isHigh, isLow, Bool.and_eq_true, decide_eq_true_eq, not_or] at hplain
    unfold utf16
    split
    · exact body_unit hquote hslash hplain.1
    · -- the two halves are read one after the other
      rw [List.cons_append, body_unit (by omega) (by omega) (by omega), List.singleton_append,
        body_unit (by omega) (by omega) (by omega), Option.map_map]
      rfl

theorem body_codePoints {cs : List Nat} (h : ∀ c ∈ cs, c < 0x110000) :
    body (cs.flatMap escape ++ 0x22 :: t) = some (Text.ofCodePoints cs, t) := by
  induction cs with
  | nil => rfl
  | cons c cs ih =>
      rw [List.flatMap_cons, List.append_assoc, body_escape (h c List.mem_cons_self),
        ih fun d hd => h d (List.mem_cons_of_mem _ hd)]
      rfl

@[simp] theorem toUnits_ofUnits (units : List UInt16) : toUnits (ofUnits units) = units := by
  rw [toUnits, ofUnits, List.map_map]
  exact List.map_id'' (fun u => UInt16.ofNat_toNat) units

theorem body_quoted (units : List UInt16) (t : Text) :
    body ((ofUnits units).codePoints.flatMap escape ++ 0x22 :: t) = some (ofUnits units, t) := by
  rw [body_codePoints fun c hc => Text.lt_of_mem_codePoints ofUnits_lt hc,
    Text.ofCodePoints_codePoints ofUnits_lt]

/-! ### Values are read back -/

mutual

/-- The literals are literals of numbers. -/
def Valid : Document → Prop
  | num literal => (Json.num literal).Scalar
  | arr items => ValidItems items
  | obj fields => ValidFields fields
  | _ => True

def ValidItems : List Document → Prop
  | [] => True
  | v :: vs => v.Valid ∧ ValidItems vs

def ValidFields : List (List UInt16 × Document) → Prop
  | [] => True
  | (_, v) :: fields => v.Valid ∧ ValidFields fields

end

/-- What may come after a value. -/
def Ends (t : Text) : Prop := t = [] ∨ ∃ s, t = 0x2C :: s ∨ t = 0x5D :: s ∨ t = 0x7D :: s

theorem skip_cons {u : Nat} (h : isSpace u = false) : skip (u :: s) = u :: s :=
  List.dropWhile_cons_of_neg (Bool.eq_false_iff.mp h)

theorem map_ofNat_toNat (cs : List Char) : (cs.map Char.toNat).map Char.ofNat = cs := by
  rw [List.map_map]
  exact List.map_id'' Char.ofNat_toNat cs

/-- A literal is read up to what ends it. -/
theorem takeWhile_literal (h : ∀ c ∈ literal, Json.inNumber c = true) (ht : Ends t) :
    (literal.map Char.toNat ++ t).takeWhile inLiteral = literal.map Char.toNat ∧
      (literal.map Char.toNat ++ t).dropWhile inLiteral = t := by
  have hstop : t.takeWhile inLiteral = [] ∧ t.dropWhile inLiteral = t := by
    obtain rfl | ⟨s, rfl | rfl | rfl⟩ := ht <;> exact ⟨rfl, rfl⟩
  have hin : ∀ u ∈ literal.map Char.toNat, inLiteral u = true := by
    intro u hu
    obtain ⟨c, hc, rfl⟩ := List.mem_map.mp hu
    rw [inLiteral, Char.ofNat_toNat]
    exact h c hc
  rw [List.takeWhile_append_of_pos hin, List.dropWhile_append_of_pos hin, hstop.1, hstop.2]
  exact ⟨List.append_nil _, rfl⟩

/-- How a value begins: with no white space, and with nothing that ends an array or an object. -/
theorem stringify_head {v : Document} (hv : v.Valid) :
    ∃ u s, v.stringify = u :: s ∧ isSpace u = false ∧ u ≠ 0x5D ∧ u ≠ 0x7D := by
  cases v with
  | null => exact ⟨_, _, rfl, by decide, by decide, by decide⟩
  | bool b => cases b <;> exact ⟨_, _, rfl, by decide, by decide, by decide⟩
  | str s => exact ⟨_, _, rfl, by decide, by decide, by decide⟩
  | arr items => exact ⟨_, _, rfl, by decide, by decide, by decide⟩
  | obj fields => exact ⟨_, _, rfl, by decide, by decide, by decide⟩
  | num literal =>
      obtain ⟨hnum, hin⟩ := hv
      cases literal with
      | nil => cases hnum
      | cons c cs =>
          have hc : Json.inNumber c = true := hin c List.mem_cons_self
          refine ⟨c.toNat, cs.map Char.toNat, rfl, ?_⟩
          have hne : ∀ {d : Char}, Json.inNumber d = false → c.toNat ≠ d.toNat := by
            intro d hd he
            rw [Char.toNat_inj.mp he, hd] at hc
            exact Bool.noConfusion hc
          have hspace : isSpace c.toNat = false := by
            have h1 := hne (d := ' ') (by decide)
            have h2 := hne (d := '\t') (by decide)
            have h3 := hne (d := '\n') (by decide)
            have h4 := hne (d := '\r') (by decide)
            simp only [isSpace, Bool.or_eq_false_iff, decide_eq_false_iff_not]
            exact ⟨⟨⟨h1, h2⟩, h3⟩, h4⟩
          exact ⟨hspace, hne (d := ']') (by decide), hne (d := '\x7d') (by decide)⟩

theorem value_num (hv : (num literal).Valid) (ht : Ends t) (n : Nat) :
    value (n + 1) ((num literal).stringify ++ t) = some (num literal, t) := by
  obtain ⟨u, s, hhead, hspace, _, _⟩ := stringify_head hv
  obtain ⟨hnum, hin⟩ := hv
  obtain ⟨htake, hdrop⟩ := takeWhile_literal hin ht
  have hu : inLiteral u = true := by
    have hmem : u ∈ literal.map Char.toNat := by
      rw [← stringify, hhead]
      exact List.mem_cons_self
    obtain ⟨c, hc, rfl⟩ := List.mem_map.mp hmem
    rw [inLiteral, Char.ofNat_toNat]
    exact hin c hc
  have htext : (num literal).stringify ++ t = u :: (s ++ t) := by rw [hhead]; rfl
  rw [value, htext, skip_cons hspace]
  split
  all_goals rename_i heq
  -- no other value starts like a number
  any_goals
    obtain ⟨rfl, _⟩ := List.cons.inj heq
    cases hu
  rw [← htext, stringify, htake, hdrop, map_ofNat_toNat]
  exact if_pos hnum

theorem text_null : text "null" = [0x6E, 0x75, 0x6C, 0x6C] := by decide

theorem text_true : text "true" = [0x74, 0x72, 0x75, 0x65] := by decide

theorem text_false : text "false" = [0x66, 0x61, 0x6C, 0x73, 0x65] := by decide

theorem value_null (t : Text) (n : Nat) : value (n + 1) (null.stringify ++ t) = some (null, t) := by
  rw [stringify, text_null]
  rfl

theorem value_bool (b : Bool) (t : Text) (n : Nat) :
    value (n + 1) ((bool b).stringify ++ t) = some (bool b, t) := by
  cases b with
  | true =>
      rw [stringify, text_true]
      rfl
  | false =>
      rw [stringify, text_false]
      rfl

theorem value_str (units : List UInt16) (t : Text) (n : Nat) :
    value (n + 1) ((str units).stringify ++ t) = some (str units, t) := by
  have htext : (str units).stringify ++ t =
      0x22 :: ((ofUnits units).codePoints.flatMap escape ++ 0x22 :: t) := by
    rw [stringify, quote, List.cons_append, List.append_assoc]
    rfl
  rw [htext, value, skip_cons (by decide)]
  simp only [body_quoted, Option.map_some, toUnits_ofUnits]

theorem stringifyItems_cons (v : Document) (vs : List Document) (t : Text) :
    stringifyItems (v :: vs) ++ 0x5D :: t = v.stringify ++
      match vs with
      | [] => 0x5D :: t
      | _ :: _ => 0x2C :: (stringifyItems vs ++ 0x5D :: t) := by
  cases vs with
  | nil => rfl
  | cons w vs =>
      rw [stringifyItems, List.append_assoc, List.cons_append]
      exact List.cons_ne_nil w vs

theorem stringifyFields_cons (k : List UInt16) (v : Document)
    (fields : List (List UInt16 × Document)) (t : Text) :
    stringifyFields ((k, v) :: fields) ++ 0x7D :: t =
      0x22 :: ((ofUnits k).codePoints.flatMap escape ++ 0x22 :: 0x3A :: (v.stringify ++
        match fields with
        | [] => 0x7D :: t
        | _ :: _ => 0x2C :: (stringifyFields fields ++ 0x7D :: t))) := by
  cases fields with
  | nil => simp [stringifyFields, quote]
  | cons p fields => simp [stringifyFields, quote]

mutual

/-- **A value that is written is read back, whatever comes after it.** -/
theorem value_stringify (v : Document) (hv : v.Valid) {t : Text} (ht : Ends t) {n : Nat}
    (hn : 2 * (v.stringify ++ t).length + 1 ≤ n) : value n (v.stringify ++ t) = some (v, t) := by
  obtain ⟨m, rfl⟩ : ∃ m, n = m + 1 := ⟨n - 1, by omega⟩
  match v with
  | null => exact value_null t m
  | bool b => exact value_bool b t m
  | num literal => exact value_num hv ht m
  | str units => exact value_str units t m
  | arr [] => rfl
  | arr (v :: vs) =>
      have htext : (arr (v :: vs)).stringify ++ t =
          0x5B :: (stringifyItems (v :: vs) ++ 0x5D :: t) := by
        rw [stringify, List.cons_append, List.append_assoc]
        rfl
      have helements := elements_stringify (v :: vs) (List.cons_ne_nil v vs) hv (t := t) (n := m)
        (by rw [htext, List.length_cons] at hn; omega)
      obtain ⟨u, s, hhead, hspace, hclose, _⟩ := stringify_head (v := v) hv.1
      rw [stringifyItems_cons, hhead, List.cons_append] at helements
      rw [htext, value, skip_cons (by decide)]
      simp only [stringifyItems_cons, hhead, List.cons_append, skip_cons hspace]
      split
      · rename_i heq
        exact absurd (List.cons.inj heq).1 hclose
      · rw [helements]
        rfl
  | obj [] => rfl
  | obj ((k, v) :: fields) =>
      have htext : (obj ((k, v) :: fields)).stringify ++ t =
          0x7B :: (stringifyFields ((k, v) :: fields) ++ 0x7D :: t) := by
        rw [stringify, List.cons_append, List.append_assoc]
        rfl
      have hmembers := members_stringify ((k, v) :: fields) (List.cons_ne_nil _ _) hv
        (t := t) (n := m) (by rw [htext, List.length_cons] at hn; omega)
      rw [stringifyFields_cons] at hmembers
      rw [htext, value, skip_cons (by decide)]
      simp only [stringifyFields_cons, skip_cons (show isSpace 0x22 = false by decide)]
      rw [hmembers]
      rfl

theorem elements_stringify (items : List Document) (hne : items ≠ []) (hv : ValidItems items)
    {t : Text} {n : Nat} (hn : 2 * (stringifyItems items ++ 0x5D :: t).length + 2 ≤ n) :
    elements n (stringifyItems items ++ 0x5D :: t) = some (items, t) := by
  obtain ⟨m, rfl⟩ : ∃ m, n = m + 1 := ⟨n - 1, by omega⟩
  match items with
  | [] => exact absurd rfl hne
  | [v] =>
      have hvalue := value_stringify v hv.1 (t := 0x5D :: t) (n := m)
        (Or.inr ⟨t, Or.inr (Or.inl rfl)⟩)
        (by rw [stringifyItems] at hn; omega)
      rw [stringifyItems, elements, hvalue, Option.bind_some, skip_cons (by decide)]
      rfl
  | v :: w :: vs =>
      have htext : stringifyItems (v :: w :: vs) ++ 0x5D :: t =
          v.stringify ++ 0x2C :: (stringifyItems (w :: vs) ++ 0x5D :: t) :=
        stringifyItems_cons v (w :: vs) t
      rw [htext] at hn ⊢
      have hvalue := value_stringify v hv.1 (t := 0x2C :: (stringifyItems (w :: vs) ++ 0x5D :: t))
        (n := m) (Or.inr ⟨_, Or.inl rfl⟩) (by omega)
      have hrest := elements_stringify (w :: vs) (List.cons_ne_nil w vs) hv.2 (t := t) (n := m) (by
        rw [List.length_append, List.length_cons] at hn
        omega)
      rw [elements, hvalue, Option.bind_some, skip_cons (by decide)]
      simp only [hrest, Option.map_some]

theorem members_stringify (fields : List (List UInt16 × Document)) (hne : fields ≠ [])
    (hv : ValidFields fields) {t : Text} {n : Nat}
    (hn : 2 * (stringifyFields fields ++ 0x7D :: t).length + 2 ≤ n) :
    members n (stringifyFields fields ++ 0x7D :: t) = some (fields, t) := by
  obtain ⟨m, rfl⟩ : ∃ m, n = m + 1 := ⟨n - 1, by omega⟩
  match fields with
  | [] => exact absurd rfl hne
  | [(k, v)] =>
      rw [stringifyFields_cons] at hn ⊢
      simp only [List.length_cons, List.length_append] at hn
      have hvalue := value_stringify v hv.1 (t := 0x7D :: t) (n := m)
        (Or.inr ⟨t, Or.inr (Or.inr rfl)⟩)
        (by rw [List.length_append, List.length_cons]; omega)
      rw [members]
      simp only [body_quoted, Option.bind_some, skip_cons (show isSpace 0x3A = false by decide),
        hvalue, skip_cons (show isSpace 0x7D = false by decide), toUnits_ofUnits]
  | (k, v) :: (k', w) :: fields =>
      rw [stringifyFields_cons] at hn ⊢
      simp only [List.length_cons, List.length_append] at hn
      have hvalue := value_stringify v hv.1
        (t := 0x2C :: (stringifyFields ((k', w) :: fields) ++ 0x7D :: t)) (n := m)
        (Or.inr ⟨_, Or.inl rfl⟩) (by
          simp only [List.length_cons, List.length_append]
          omega)
      have hrest := members_stringify ((k', w) :: fields) (List.cons_ne_nil _ _) hv.2
        (t := t) (n := m) (by simp only [List.length_cons, List.length_append]; omega)
      have hquote : skip (stringifyFields ((k', w) :: fields) ++ 0x7D :: t) =
          stringifyFields ((k', w) :: fields) ++ 0x7D :: t := by
        rw [stringifyFields_cons]
        exact skip_cons (by decide)
      rw [members]
      simp only [body_quoted, Option.bind_some, skip_cons (show isSpace 0x3A = false by decide),
        hvalue, skip_cons (show isSpace 0x2C = false by decide), hquote, hrest, Option.map_some,
        toUnits_ofUnits]

end

/-- **A value that is written is read back.** -/
theorem parse_stringify {v : Document} (hv : v.Valid) : parse v.stringify = some v := by
  have hvalue := value_stringify v hv (t := []) (n := 2 * v.stringify.length + 1) (Or.inl rfl)
    (by rw [List.append_nil])
  rw [List.append_nil] at hvalue
  rw [parse, hvalue]
  rfl

end Document

end LakiraBackend.JavaScript
