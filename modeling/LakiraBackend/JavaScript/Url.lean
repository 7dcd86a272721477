import LakiraBackend.JavaScript.Uri
import Mathlib.Data.List.TakeDrop

/-!
# `decodeURIComponent`, and `new URL`

`Url.parse` takes a URL apart as the standard for them says, where its scheme is not one of the
special ones of the web (`http` and the like, whose hosts are of another kind: none here).  The
credentials are what is before the last at sign of the authority.  What `encodeURIComponent` has
written between the slashes and the at sign is read back as it was (`parse_authority`,
`decodeURIComponent_encodeURIComponent`).
-/

namespace LakiraBackend.JavaScript

/-! ### Escapes -/

/-- The octets a text stands for; none where a percent sign starts no escape. -/
def octets : List Char → Option (List UInt8)
  | [] => some []
  | c :: s =>
    if c = '%' then
      match s with
      | a :: b :: rest => do
        let hi ← digitValue 16 a
        let lo ← digitValue 16 b
        let bs ← octets rest
        pure (UInt8.ofNat (16 * hi + lo) :: bs)
      | _ => none
    else (octets s).map (Buffer.utf8 [c] ++ ·)

/-- None where it throws. -/
def decodeURIComponent (s : List Char) : Option (List Char) :=
  (octets s).bind fun bs => bs.toByteArray.utf8Decode?.map Array.toList

/-- The octets, where a percent sign that starts no escape stands for itself. -/
def looseOctets : List Char → List UInt8
  | c :: a :: b :: rest =>
    if c = '%' then
      match digitValue 16 a, digitValue 16 b with
      | some hi, some lo => UInt8.ofNat (16 * hi + lo) :: looseOctets rest
      | _, _ => 0x25 :: looseOctets (a :: b :: rest)
    else Buffer.utf8 [c] ++ looseOctets (a :: b :: rest)
  | s => Buffer.utf8 s

/-- `querystring.unescape`. -/
def unescape (s : List Char) : List Char :=
  (decodeURIComponent s).getD (Buffer.utf8Text (looseOctets s))

/-! ### What is encoded is read back -/

theorem octets_cons {c : Char} (hc : c ≠ '%') (s : List Char) :
    octets (c :: s) = (octets s).map (Buffer.utf8 [c] ++ ·) := by
  rw [octets.eq_def]
  exact if_neg hc

theorem digitValue_hexDigit {n : Nat} (h : n < 16) : digitValue 16 (hexDigit n) = some n := by
  have hall : ∀ n < 16, digitValue 16 (hexDigit n) = some n := by decide
  exact hall n h

theorem octets_percent (b : UInt8) (s : List Char) :
    octets (percent b ++ s) = (octets s).map (b :: ·) := by
  have hb : b.toNat < 256 := b.toNat_lt
  have hback : UInt8.ofNat (16 * (b.toNat / 16) + b.toNat % 16) = b := by
    rw [show 16 * (b.toNat / 16) + b.toNat % 16 = b.toNat by omega]
    exact UInt8.ofNat_toNat
  change octets ('%' :: hexDigit _ :: hexDigit _ :: s) = _
  rw [octets, if_pos rfl, digitValue_hexDigit (by omega), digitValue_hexDigit (by omega)]
  cases octets s with
  | none => rfl
  | some bs => exact congrArg (fun b => some (b :: bs)) hback

theorem octets_percents (bs : List UInt8) (s : List Char) :
    octets (bs.flatMap percent ++ s) = (octets s).map (bs ++ ·) := by
  induction bs with
  | nil => exact Option.map_id'.symm
  | cons b bs ih =>
    rw [List.flatMap_cons, List.append_assoc, octets_percent, ih, Option.map_map]
    rfl

theorem isUnreserved_ne_percent {c : Char} (h : isUnreserved c = true) : c ≠ '%' := by
  rintro rfl
  exact absurd h (by decide)

/-- The escapes of a text are its octets, whatever comes after. -/
theorem octets_encodeURIComponent (s t : List Char) :
    octets (encodeURIComponent s ++ t) = (octets t).map (Buffer.utf8 s ++ ·) := by
  induction s with
  | nil => exact Option.map_id'.symm
  | cons c s ih =>
    have hcons : encodeURIComponent (c :: s) ++ t =
        (if isUnreserved c then [c] else (Buffer.utf8 [c]).flatMap percent) ++
          (encodeURIComponent s ++ t) := by
      rw [encodeURIComponent, List.flatMap_cons, List.append_assoc]
      rfl
    have hutf8 : Buffer.utf8 (c :: s) = Buffer.utf8 [c] ++ Buffer.utf8 s := by
      rw [Buffer.utf8, List.flatMap_cons, Buffer.utf8, List.flatMap_cons, List.flatMap_nil,
        List.append_nil]
      rfl
    rw [hcons, hutf8]
    split
    · rename_i h
      rw [List.singleton_append, octets_cons (isUnreserved_ne_percent h), ih, Option.map_map]
      exact Option.map_congr fun _ _ => (List.append_assoc _ _ _).symm
    · rw [octets_percents, ih, Option.map_map]
      exact Option.map_congr fun _ _ => (List.append_assoc _ _ _).symm

/-- **What is encoded is read back.** -/
theorem decodeURIComponent_encodeURIComponent (s : List Char) :
    decodeURIComponent (encodeURIComponent s) = some s := by
  have hoctets := octets_encodeURIComponent s []
  rw [List.append_nil] at hoctets
  rw [decodeURIComponent, hoctets]
  change (Option.map Array.toList (Buffer.utf8 s ++ []).toByteArray.utf8Decode?) = some s
  rw [List.append_nil, show (Buffer.utf8 s).toByteArray = s.utf8Encode from rfl,
    List.utf8Decode?_utf8Encode]
  rfl

/-- What is decoded stands for the octets it was decoded from. -/
theorem octets_of_decodeURIComponent {s t : List Char} (h : decodeURIComponent s = some t) :
    octets s = some (Buffer.utf8 t) := by
  obtain ⟨bs, hbs, h⟩ := Option.bind_eq_some_iff.mp h
  obtain ⟨cs, hcs, rfl⟩ := Option.map_eq_some_iff.mp h
  have hback := ByteArray.utf8Encode_get_utf8Decode? (b := bs.toByteArray)
    (h := Option.isSome_of_eq_some hcs)
  rw [Option.get_of_eq_some _ hcs] at hback
  rw [hbs]
  exact congrArg some (List.toByteArray_inj.mp hback).symm

theorem utf8_cons (c : Char) (s : List Char) : Buffer.utf8 (c :: s) = Buffer.utf8 [c] ++ Buffer.utf8 s :=
  congrArg (· ++ Buffer.utf8 s) (List.append_nil _).symm

theorem looseOctets_cons {c : Char} (hc : c ≠ '%') (s : List Char) :
    looseOctets (c :: s) = Buffer.utf8 [c] ++ looseOctets s := by
  match s with
  | [] => exact (List.append_nil _).symm
  | [a] => exact utf8_cons c [a]
  | a :: b :: s => rw [looseOctets, if_neg hc]

theorem looseOctets_percent (b : UInt8) (s : List Char) :
    looseOctets (percent b ++ s) = b :: looseOctets s := by
  have hb : b.toNat < 256 := b.toNat_lt
  have hback : UInt8.ofNat (16 * (b.toNat / 16) + b.toNat % 16) = b := by
    rw [show 16 * (b.toNat / 16) + b.toNat % 16 = b.toNat by omega]
    exact UInt8.ofNat_toNat
  change looseOctets ('%' :: hexDigit _ :: hexDigit _ :: s) = _
  rw [looseOctets, if_pos rfl, digitValue_hexDigit (by omega), digitValue_hexDigit (by omega)]
  exact congrArg (· :: looseOctets s) hback

theorem looseOctets_percents (bs : List UInt8) (s : List Char) :
    looseOctets (bs.flatMap percent ++ s) = bs ++ looseOctets s := by
  induction bs with
  | nil => rfl
  | cons b bs ih =>
    rw [List.flatMap_cons, List.append_assoc, looseOctets_percent, ih]
    rfl

theorem looseOctets_encodeURIComponent (s t : List Char) :
    looseOctets (encodeURIComponent s ++ t) = Buffer.utf8 s ++ looseOctets t := by
  induction s with
  | nil => rfl
  | cons c s ih =>
    rw [encodeURIComponent, List.flatMap_cons, List.append_assoc, utf8_cons c s, List.append_assoc]
    split
    · rename_i h
      rw [List.singleton_append, looseOctets_cons (isUnreserved_ne_percent h)]
      exact congrArg _ ih
    · rw [looseOctets_percents]
      exact congrArg _ ih

/-- An escaped ASCII character after what is encoded is in the text that is read, even where
that is no UTF-8. -/
theorem mem_unescape {c : Char} (hc : c.toNat < 0x80) (s t : List Char) :
    c ∈ unescape (encodeURIComponent s ++ (percent (UInt8.ofNat c.toNat) ++ t)) := by
  rw [unescape]
  cases hdecoded : decodeURIComponent
      (encodeURIComponent s ++ (percent (UInt8.ofNat c.toNat) ++ t)) with
  | none =>
    refine Buffer.mem_utf8Text hc ?_
    rw [looseOctets_encodeURIComponent, looseOctets_percent]
    exact List.mem_append_right _ List.mem_cons_self
  | some text =>
    have hoctets := octets_of_decodeURIComponent hdecoded
    rw [octets_encodeURIComponent, octets_percent, Option.map_map] at hoctets
    obtain ⟨rest, -, hrest⟩ := Option.map_eq_some_iff.mp hoctets
    have hmem : UInt8.ofNat c.toNat ∈ Buffer.utf8 text := by
      rw [← hrest]
      exact List.mem_append_right _ List.mem_cons_self
    exact Buffer.mem_of_mem_utf8 hc hmem

/-! ### URLs -/

structure Url : Type where
  protocol : List Char
  username : List Char
  password : List Char
  hostname : List Char
  port : List Char
  pathname : List Char
  deriving DecidableEq

namespace Url

/-- Every control, and what is not ASCII. -/
def isC0Control (c : Char) : Bool := c.toNat < 0x20 || 0x7E < c.toNat

/-- Space, `"`, `#`, `<`, `>`, `?`, `^`, the grave accent and the braces. -/
def isPathEscaped (c : Char) : Bool :=
  isC0Control c || c.toNat ∈ [0x20, 0x22, 0x23, 0x3C, 0x3E, 0x3F, 0x5E, 0x60, 0x7B, 0x7D]

/-- Also `/`, `:`, `;`, `=`, `@`, `[`, the backslash, `]` and `|`. -/
def isUserinfoEscaped (c : Char) : Bool :=
  isPathEscaped c || c.toNat ∈ [0x2F, 0x3A, 0x3B, 0x3D, 0x40, 0x5B, 0x5C, 0x5D, 0x7C]

def percentEncode (escaped : Char → Bool) (s : List Char) : List Char :=
  s.flatMap fun c => if escaped c then (Buffer.utf8 [c]).flatMap percent else [c]

def isTabOrNewline (c : Char) : Bool := c.toNat ∈ [0x09, 0x0A, 0x0D]

/-- The text that is parsed: no controls or spaces at its ends, no tabs or newlines in it. -/
def cleaned (s : List Char) : List Char :=
  let isEdge := fun c : Char => decide (c.toNat ≤ 0x20)
  ((s.dropWhile isEdge).reverse.dropWhile isEdge).reverse.filter fun c => !isTabOrNewline c

def isSchemeChar (c : Char) : Bool := c.isAlphanum || c = '+' || c = '-' || c = '.'

/-- The scheme in lower case, and what is after its colon. -/
def schemeOf (s : List Char) : Option (List Char × List Char) :=
  match s.span isSchemeChar with
  | (c :: cs, ':' :: rest) => if c.isAlpha then some ((c :: cs).map Char.toLower, rest) else none
  | _ => none

def specialSchemes : List (List Char) :=
  ["ftp".toList, "file".toList, "http".toList, "https".toList, "ws".toList, "wss".toList]

def endsAuthority (c : Char) : Bool := c = '/' || c = '?' || c = '#'

/-- What is before the last at sign, if there is one, and what is after it. -/
def splitCredentials (authority : List Char) : Option (List Char) × List Char :=
  match authority.reverse.span fun c => c ≠ '@' with
  | (host, _ :: userinfo) => (some userinfo.reverse, host.reverse)
  | (host, []) => (none, host.reverse)

/-- The first colon parts the password from the name. -/
def credentials (userinfo : Option (List Char)) : List Char × List Char :=
  match userinfo with
  | none => ([], [])
  | some userinfo => (percentEncode isUserinfoEscaped (userinfo.takeWhile fun c => c ≠ ':'),
      percentEncode isUserinfoEscaped ((userinfo.dropWhile fun c => c ≠ ':').drop 1))

/-- A host, and what is after its colon; a colon in brackets is of the host. -/
def splitPort : Bool → List Char → List Char × Option (List Char)
  | _, [] => ([], none)
  | inBrackets, c :: s =>
    if c = ':' ∧ inBrackets = false then ([], some s)
    else
      let rest := splitPort (if c = '[' then true else if c = ']' then false else inBrackets) s
      (c :: rest.1, rest.2)

def isForbiddenInHost (c : Char) : Bool :=
  c.toNat ∈ [0x00, 0x09, 0x0A, 0x0D, 0x20, 0x23, 0x2F, 0x3A, 0x3C, 0x3E, 0x3F, 0x40, 0x5B, 0x5C,
    0x5D, 0x5E, 0x7C]

/-- A host, of which `ipv6` reads what is in brackets. -/
def hostOf (ipv6 : List Char → Option (List Char)) (host : List Char) : Option (List Char) :=
  match host with
  | '[' :: s =>
    if s.getLast? = some ']' then (ipv6 s.dropLast).map fun text => '[' :: text ++ [']'] else none
  | _ => if host.any isForbiddenInHost then none else some (percentEncode isC0Control host)

/-- A port, where there is one. -/
def portOf (text : Option (List Char)) : Option (List Char) :=
  match text with
  | none => some []
  | some [] => some []
  | some digits =>
    if digits.all Char.isDigit then
      let n := Nat.ofDigitChars 10 digits 0
      if n ≤ 65535 then some (Nat.toDigits 10 n) else none
    else none

def isSingleDot (s : List Char) : Bool :=
  s.map Char.toLower ∈ [".".toList, "%2e".toList]

def isDoubleDot (s : List Char) : Bool :=
  s.map Char.toLower ∈ ["..".toList, ".%2e".toList, "%2e.".toList, "%2e%2e".toList]

/-- The segments of a path, each after a slash, where dots go up. -/
def addSegments : List (List Char) → List (List Char) → List (List Char)
  | path, [] => path
  | path, [s] =>
    if isDoubleDot s then path.dropLast ++ [[]] else if isSingleDot s then path ++ [[]]
    else path ++ [percentEncode isPathEscaped s]
  | path, s :: segments =>
    if isDoubleDot s then addSegments path.dropLast segments
    else if isSingleDot s then addSegments path segments
    else addSegments (path ++ [percentEncode isPathEscaped s]) segments

def pathOf (text : List Char) : List Char :=
  match text.takeWhile fun c => c ≠ '?' && c ≠ '#' with
  | '/' :: s => (addSegments [] (s.splitOn '/')).flatMap fun segment => '/' :: segment
  | _ => []

def parseAuthority (ipv6 : List Char → Option (List Char)) (scheme s : List Char) : Option Url := do
  let authority := s.takeWhile fun c => !endsAuthority c
  let userinfo := (splitCredentials authority).1
  let (host, port) := splitPort false (splitCredentials authority).2
  -- an empty host has neither credentials nor a port
  if host = [] && (userinfo.isSome || port.isSome) then none
  let hostname ← hostOf ipv6 host
  let port ← portOf port
  pure ⟨scheme ++ [':'], (credentials userinfo).1, (credentials userinfo).2, hostname, port,
    pathOf (s.dropWhile fun c => !endsAuthority c)⟩

/-- `new URL(text)`; none where it throws. -/
def parse (ipv6 : List Char → Option (List Char)) (text : List Char) : Option Url :=
  (schemeOf (cleaned text)).bind fun (scheme, rest) =>
    if scheme ∈ specialSchemes then none
    else match rest with
      | '/' :: '/' :: s => parseAuthority ipv6 scheme s
      | '/' :: s => some ⟨scheme ++ [':'], [], [], [], [], pathOf ('/' :: s)⟩
      | s => some ⟨scheme ++ [':'], [], [], [], [],
          percentEncode isC0Control (s.takeWhile fun c => c ≠ '?' && c ≠ '#')⟩

/-! ### The credentials of an address -/

/-- What `encodeURIComponent` writes. -/
def isEncoded (c : Char) : Bool := isUnreserved c || c = '%'

theorem isEncoded_hexDigit {n : Nat} (h : n < 16) : isEncoded (hexDigit n) = true := by
  have hall : ∀ n < 16, isEncoded (hexDigit n) = true := by decide
  exact hall n h

theorem isEncoded_of_mem {s : List Char} {c : Char} (h : c ∈ encodeURIComponent s) :
    isEncoded c = true := by
  obtain ⟨d, -, hc⟩ := List.mem_flatMap.mp h
  split at hc
  · rename_i hd
    rw [List.mem_singleton.mp hc, isEncoded, hd]
    rfl
  · obtain ⟨b, -, hc⟩ := List.mem_flatMap.mp hc
    have hb : b.toNat < 256 := b.toNat_lt
    rcases List.mem_cons.mp hc with rfl | hc
    · decide
    rcases List.mem_cons.mp hc with rfl | hc
    · exact isEncoded_hexDigit (by omega)
    · rw [List.mem_singleton.mp hc]
      exact isEncoded_hexDigit (by omega)

/-- A character that is no delimiter, no blank and not escaped. -/
structure Plain (c : Char) : Prop where
  userinfo : isUserinfoEscaped c = false
  blank : 0x20 < c.toNat
  authority : endsAuthority c = false
  at_sign : c ≠ '@'
  colon : c ≠ ':'

theorem plain_of_isEncoded {c : Char} (h : isEncoded c = true) : Plain c := by
  have hlt : c.toNat < 128 := by
    rw [isEncoded, isUnreserved, Bool.or_eq_true, Bool.or_eq_true] at h
    rcases h with (h | h) | h
    · have hle : c.val ≤ 122 := by
        rcases Bool.or_eq_true_iff.mp h with h | h
        · rcases Bool.or_eq_true_iff.mp h with h | h
          · exact UInt32.le_trans (of_decide_eq_true h).2 (by decide)
          · exact of_decide_eq_true (Bool.and_eq_true_iff.mp h).2
        · exact UInt32.le_trans (of_decide_eq_true (Bool.and_eq_true_iff.mp h).2) (by decide)
      exact Nat.lt_of_le_of_lt (UInt32.le_iff_toNat_le.mp hle) (by decide)
    · have hmem := of_decide_eq_true h
      simp only [List.mem_cons, List.not_mem_nil, or_false] at hmem
      omega
    · rw [of_decide_eq_true h]
      decide
  have hall : ∀ n < 128, isEncoded (Char.ofNat n) = true →
      isUserinfoEscaped (Char.ofNat n) = false ∧ 0x20 < (Char.ofNat n).toNat ∧
        endsAuthority (Char.ofNat n) = false ∧ Char.ofNat n ≠ '@' ∧ Char.ofNat n ≠ ':' := by
    decide +kernel
  have hc := hall c.toNat hlt
  rw [Char.ofNat_toNat] at hc
  obtain ⟨h₁, h₂, h₃, h₄, h₅⟩ := hc h
  exact ⟨h₁, h₂, h₃, h₄, h₅⟩

def isEdge (c : Char) : Bool := c.toNat ≤ 0x20

/-- What is left of the end of a text. -/
def cleanedEnd (s : List Char) : List Char :=
  (s.reverse.dropWhile isEdge).reverse.filter fun c => !isTabOrNewline c

theorem not_isEdge {c : Char} (h : 0x20 < c.toNat) : isEdge c = false :=
  decide_eq_false (Nat.not_le.mpr h)

theorem dropWhile_isEdge {s : List Char} (h : ∀ c ∈ s, 0x20 < c.toNat) :
    s.dropWhile isEdge = s := by
  cases s with
  | nil => rfl
  | cons c s =>
    exact List.dropWhile_cons_of_neg (Bool.eq_false_iff.mp (not_isEdge (h c List.mem_cons_self)))

/-- What has no blanks stays as it is. -/
theorem cleaned_append {s : List Char} (hne : s ≠ []) (h : ∀ c ∈ s, 0x20 < c.toNat)
    (rest : List Char) : cleaned (s ++ rest) = s ++ cleanedEnd rest := by
  obtain ⟨c, t, rfl⟩ := List.exists_cons_of_ne_nil hne
  have hfront : (c :: t ++ rest).dropWhile isEdge = c :: t ++ rest :=
    List.dropWhile_cons_of_neg (Bool.eq_false_iff.mp (not_isEdge (h c List.mem_cons_self)))
  have hback : (c :: t ++ rest).reverse.dropWhile isEdge =
      rest.reverse.dropWhile isEdge ++ (c :: t).reverse := by
    rw [List.reverse_append, List.dropWhile_append]
    split
    · rename_i hempty
      rw [List.isEmpty_iff.mp hempty, dropWhile_isEdge fun c hc => h c (List.mem_reverse.mp hc)]
      rfl
    · rfl
  have hkept : (c :: t).filter (fun c => !isTabOrNewline c) = c :: t := by
    refine List.filter_eq_self.mpr fun d hd => ?_
    have := h d hd
    rw [Bool.not_eq_true', isTabOrNewline, decide_eq_false_iff_not]
    simp only [List.mem_cons, List.not_mem_nil, or_false]
    omega
  change ((((c :: t ++ rest).dropWhile isEdge).reverse.dropWhile isEdge).reverse).filter _ = _
  rw [hfront, hback, List.reverse_append, List.reverse_reverse, List.filter_append, hkept]
  rfl

/-- Where the end is no blank, only tabs and newlines are left out. -/
theorem cleanedEnd_of_blank {s : List Char} {c : Char} (h : 0x20 < c.toNat) :
    cleanedEnd (s ++ [c]) = (s ++ [c]).filter fun c => !isTabOrNewline c := by
  rw [cleanedEnd, List.reverse_append, List.reverse_singleton, List.singleton_append,
    List.dropWhile_cons_of_neg (Bool.eq_false_iff.mp (not_isEdge h)), List.reverse_cons,
    List.reverse_reverse]

/-- What is left out before the authority ends is no end of it. -/
theorem mem_takeWhile_filter {p q : Char → Bool} {x : Char} (hx : p x = true)
    (hpq : ∀ c, p c = false → q c = true) (s : List Char) :
    x ∈ (s.filter p).takeWhile q ↔ x ∈ s.takeWhile q := by
  induction s with
  | nil => rfl
  | cons c s ih =>
    cases hc : p c with
    | true =>
      rw [List.filter_cons_of_pos hc]
      cases hq : q c with
      | true => rw [List.takeWhile_cons_of_pos hq, List.takeWhile_cons_of_pos hq, List.mem_cons,
          List.mem_cons, ih]
      | false => rw [List.takeWhile_cons_of_neg (by simp [hq]), List.takeWhile_cons_of_neg
          (by simp [hq])]
    | false =>
      have hne : x ≠ c := fun heq => by rw [← heq, hx] at hc; cases hc
      rw [List.filter_cons_of_neg (by simp [hc]), List.takeWhile_cons_of_pos (hpq c hc),
        List.mem_cons, ih]
      simp [hne]

theorem mem_takeWhile_append {q : Char → Bool} {x : Char} {t : List Char}
    (ht : x ∉ t.takeWhile q) (s : List Char) :
    x ∈ (s ++ t).takeWhile q ↔ x ∈ s.takeWhile q := by
  induction s with
  | nil => simpa using ht
  | cons c s ih =>
    rw [List.cons_append]
    cases hq : q c with
    | true => rw [List.takeWhile_cons_of_pos hq, List.takeWhile_cons_of_pos hq, List.mem_cons,
        List.mem_cons, ih]
    | false => rw [List.takeWhile_cons_of_neg (by simp [hq]), List.takeWhile_cons_of_neg
        (by simp [hq])]

theorem percentEncode_of_plain {s : List Char} (h : ∀ c ∈ s, Plain c) :
    percentEncode isUserinfoEscaped s = s := by
  induction s with
  | nil => rfl
  | cons c s ih =>
    obtain ⟨hc, hs⟩ := List.forall_mem_cons.mp h
    rw [percentEncode, List.flatMap_cons, hc.userinfo]
    exact congrArg (c :: ·) (ih hs)

/-- The host of an authority, after the credentials, and what user information comes before its
last at sign. -/
theorem splitCredentials_of_not_mem {s host : List Char} (h : '@' ∉ host) :
    splitCredentials (s ++ '@' :: host) = (some s, host) := by
  have hspan : (s ++ '@' :: host).reverse.span (fun c => c ≠ '@') =
      (host.reverse, '@' :: s.reverse) := by
    rw [List.reverse_append, List.reverse_cons, List.append_assoc, List.singleton_append,
      List.span_eq_takeWhile_dropWhile]
    have hall : ∀ c ∈ host.reverse, decide (c ≠ '@') = true := fun c hc =>
      decide_eq_true fun heq => h (heq ▸ List.mem_reverse.mp hc)
    rw [List.takeWhile_append_of_pos hall, List.dropWhile_append_of_pos hall]
    simp
  rw [splitCredentials, hspan]
  simp

theorem splitCredentials_of_mem {s host : List Char} (h : '@' ∈ host) :
    ∃ more last, splitCredentials (s ++ '@' :: host) = (some (s ++ '@' :: more), last) := by
  obtain ⟨as, bs, heq, hbs⟩ := List.eq_append_cons_of_mem (List.mem_reverse.mpr h)
  have hhost : host = bs.reverse ++ '@' :: as.reverse := by
    rw [← List.reverse_reverse host, heq]
    simp
  refine ⟨bs.reverse, as.reverse, ?_⟩
  rw [hhost, ← List.cons_append, ← List.append_assoc]
  exact splitCredentials_of_not_mem fun hmem => hbs (List.mem_reverse.mp hmem)

theorem credentials_of_parseAuthority {ipv6 : List Char → Option (List Char)}
    {scheme s : List Char} {url : Url} (h : parseAuthority ipv6 scheme s = some url) :
    (url.username, url.password) =
      credentials (splitCredentials (s.takeWhile fun c => !endsAuthority c)).1 := by
  simp only [parseAuthority, Option.bind_eq_bind] at h
  split at h
  · cases h
  · obtain ⟨hostname, -, h⟩ := Option.bind_eq_some_iff.mp h
    obtain ⟨port, -, h⟩ := Option.bind_eq_some_iff.mp h
    rw [← Option.some.inj h]

/-- **The credentials that are written before a host**: the ones that are read, but for at signs
of the host. -/
theorem parse_authority {ipv6 : List Char → Option (List Char)} {u p rest : List Char} {url : Url}
    (hu : ∀ c ∈ u, Plain c) (hp : ∀ c ∈ p, Plain c)
    (h : parse ipv6 ("amqp://".toList ++ (u ++ ':' :: (p ++ '@' :: rest))) = some url) :
    url.username = u ∧
      ('@' ∉ (cleanedEnd rest).takeWhile (fun c => !endsAuthority c) → url.password = p) ∧
      ('@' ∈ (cleanedEnd rest).takeWhile (fun c => !endsAuthority c) →
        ∃ more, url.password = p ++ '%' :: '4' :: '0' :: more) := by
  have hclean : cleaned ("amqp://".toList ++ (u ++ ':' :: (p ++ '@' :: rest))) =
      "amqp://".toList ++ (u ++ ':' :: (p ++ '@' :: cleanedEnd rest)) := by
    have happend := cleaned_append (s := "amqp://".toList ++ (u ++ ':' :: (p ++ ['@'])))
      (by simp) (by
        intro c hc
        simp only [List.mem_append, List.mem_cons, List.not_mem_nil, or_false] at hc
        rcases hc with hc | hc | rfl | hc | rfl
        · exact of_decide_eq_true (List.all_eq_true.mp
            (show ("amqp://".toList.all fun c => 0x20 < c.toNat) = true by decide) c hc)
        · exact (hu c hc).blank
        · decide
        · exact (hp c hc).blank
        · decide) rest
    simpa using happend
  have hscheme : schemeOf ("amqp://".toList ++ (u ++ ':' :: (p ++ '@' :: cleanedEnd rest))) =
      some ("amqp".toList, '/' :: '/' :: (u ++ ':' :: (p ++ '@' :: cleanedEnd rest))) := rfl
  rw [parse, hclean, hscheme] at h
  have hparse : parseAuthority ipv6 "amqp".toList (u ++ ':' :: (p ++ '@' :: cleanedEnd rest)) =
      some url := h
  have hauthority : (u ++ ':' :: (p ++ '@' :: cleanedEnd rest)).takeWhile
      (fun c => !endsAuthority c) =
        u ++ ':' :: (p ++ '@' :: (cleanedEnd rest).takeWhile fun c => !endsAuthority c) := by
    have hplain : ∀ {s : List Char}, (∀ c ∈ s, Plain c) → ∀ c ∈ s, (!endsAuthority c) = true :=
      fun hs c hc => by rw [(hs c hc).authority]; rfl
    rw [List.takeWhile_append_of_pos (hplain hu), List.takeWhile_cons_of_pos rfl,
      List.takeWhile_append_of_pos (hplain hp), List.takeWhile_cons_of_pos rfl]
  have hfields := credentials_of_parseAuthority hparse
  rw [hauthority] at hfields
  have hsplit : ∀ {s more : List Char}, (∀ c ∈ s, Plain c) →
      credentials (some (s ++ ':' :: more)) =
        (s, percentEncode isUserinfoEscaped more) := by
    intro s more hs
    have hname : ∀ c ∈ s, decide (c ≠ ':') = true := fun c hc => decide_eq_true (hs c hc).colon
    rw [credentials, List.takeWhile_append_of_pos hname, List.dropWhile_append_of_pos hname]
    simp [percentEncode_of_plain hs]
  have hregroup : ∀ host, u ++ ':' :: (p ++ '@' :: host) = (u ++ ':' :: p) ++ '@' :: host :=
    fun host => by rw [List.append_assoc, List.cons_append]
  rw [hregroup] at hfields
  refine ⟨?_, ?_, ?_⟩
  · by_cases hat : '@' ∈ (cleanedEnd rest).takeWhile fun c => !endsAuthority c
    · obtain ⟨more, last, hmore⟩ := splitCredentials_of_mem (s := u ++ ':' :: p) hat
      rw [hmore, ← hregroup, hsplit hu] at hfields
      exact congrArg Prod.fst hfields
    · rw [splitCredentials_of_not_mem hat, hsplit hu] at hfields
      exact congrArg Prod.fst hfields
  · intro hat
    rw [splitCredentials_of_not_mem hat, hsplit hu, percentEncode_of_plain hp] at hfields
    exact congrArg Prod.snd hfields
  · intro hat
    obtain ⟨more, last, hmore⟩ := splitCredentials_of_mem (s := u ++ ':' :: p) hat
    rw [hmore, ← hregroup, hsplit hu] at hfields
    refine ⟨percentEncode isUserinfoEscaped more, (congrArg Prod.snd hfields).trans ?_⟩
    change percentEncode isUserinfoEscaped (p ++ '@' :: more) = _
    rw [percentEncode, List.flatMap_append]
    exact congrArg₂ (· ++ ·) (percentEncode_of_plain hp) rfl

end Url

end LakiraBackend.JavaScript
