import LakiraBackend.JavaScript.RegExp

/-!
# Addresses as texts

The dotted text of an IPv4 address, and the texts of an IPv6 address: eight groups of up to four
hexadecimal digits, the last two of which may be a dotted IPv4 address, with one run of groups that
are zero left out at a `::`.  Each text stands for one address (`octets`, `groups`); a zone may
follow a `%`.
-/

namespace LakiraBackend.Net

open LakiraBackend.JavaScript

/-! ### Digits -/

/-- `0` to `9`, `a` to `f` and `A` to `F`. -/
def hexDigit (c : Nat) : Option Nat :=
  if RegExp.isDigit c then some (c - '0'.toNat)
  else if RegExp.isRange 'a' 'f' c then some (c - 'a'.toNat + 10)
  else if RegExp.isRange 'A' 'F' c then some (c - 'A'.toNat + 10)
  else none

/-- What some digits stand for, after `n`. -/
def ofDigits (base : Nat) (digit : Nat → Option Nat) : Nat → Text → Option Nat
  | n, [] => some n
  | n, c :: s => (digit c).bind fun d => ofDigits base digit (n * base + d) s

def decimalDigit (c : Nat) : Option Nat :=
  if RegExp.isDigit c then some (c - '0'.toNat) else none

/-! ### IPv4 -/

/-- A number up to 255, without leading zeros. -/
def octet (s : Text) : Option Nat :=
  if s = [] ∨ 3 < s.length ∨ 1 < s.length ∧ s.head? = some '0'.toNat then none
  else (ofDigits 10 decimalDigit 0 s).filter (· ≤ 255)

/-- The four numbers of a dotted address. -/
def octets (s : Text) : Option (List Nat) :=
  match s.splitOn '.'.toNat with
  | [a, b, c, d] => do
    let a ← octet a
    let b ← octet b
    let c ← octet c
    let d ← octet d
    pure [a, b, c, d]
  | _ => none

def isIPv4 (s : Text) : Bool := (octets s).isSome

/-! ### IPv6 -/

/-- A group: one to four hexadecimal digits. -/
def group (s : Text) : Option Nat :=
  if s = [] ∨ 4 < s.length then none else ofDigits 16 hexDigit 0 s

/-- Some groups. -/
def groupsOf : List Text → Option (List Nat)
  | [] => some []
  | s :: parts => do
    let g ← group s
    let gs ← groupsOf parts
    pure (g :: gs)

/-- Some groups, the last of which may be a dotted address for two. -/
def lastGroupsOf : List Text → Option (List Nat)
  | [] => some []
  | [s] => match octets s with
    | some [a, b, c, d] => some [a * 256 + b, c * 256 + d]
    | _ => (group s).map fun g => [g]
  | s :: parts => do
    let g ← group s
    let gs ← lastGroupsOf parts
    pure (g :: gs)

/-- What is before the first `::`, and what is after it. -/
def splitCompressed : Text → Option (Text × Text)
  | [] => none
  | c :: s =>
    if c = ':'.toNat ∧ s.head? = some ':'.toNat then some ([], s.drop 1)
    else (splitCompressed s).map fun parts => (c :: parts.1, parts.2)

/-- The parts between colons; of nothing, none. -/
def parts (s : Text) : List Text := if s = [] then [] else s.splitOn ':'.toNat

/-- The eight groups of an address. -/
def groups (s : Text) : Option (List Nat) :=
  match splitCompressed s with
  | none => (lastGroupsOf (parts s)).filter fun gs => gs.length = 8
  | some (front, back) => do
    let left ← groupsOf (parts front)
    let right ← lastGroupsOf (parts back)
    if left.length + right.length < 8 then
      pure (left ++ List.replicate (8 - left.length - right.length) 0 ++ right)
    else none

/-- The character of a zone. -/
def isZoneChar (c : Nat) : Bool :=
  RegExp.isLetter c || RegExp.isDigit c || RegExp.isOneOf "-.:" c

/-- An address, and a zone after a `%` if there is one. -/
def isIPv6 (s : Text) : Bool :=
  match s.dropWhile (· != '%'.toNat) with
  | [] => (groups s).isSome
  | _ :: zone =>
    (groups (s.takeWhile (· != '%'.toNat))).isSome && zone ≠ [] && zone.all isZoneChar

/-- The address a text stands for, whatever its zone. -/
def address6 (s : Text) : Option (List Nat) :=
  if isIPv6 s then groups (s.takeWhile (· != '%'.toNat)) else none

/-- `net.isIP`. -/
def isIP (s : Text) : Nat := if isIPv4 s then 4 else if isIPv6 s then 6 else 0

end LakiraBackend.Net
