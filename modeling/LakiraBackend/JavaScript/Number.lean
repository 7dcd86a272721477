import LakiraBackend.JavaScript.Digits
import LakiraBackend.JavaScript.Uri
import Mathlib.Data.Rat.Defs

/-!
# `Number` of a text

A text is a number where it is one literal between white space: a decimal one with a sign, or
one of the bases 16, 8 and 2 without.  The numbers are exact here.
-/

namespace LakiraBackend.JavaScript

/-- A value of `Number`. -/
inductive Numeral : Type
  | nan
  | infinity (negative : Bool)
  | finite (value : ℚ)
  deriving DecidableEq

namespace Numeral

/-- `Number.isFinite(n) ? n : null`. -/
def toFinite : Numeral → Option ℚ
  | .finite value => some value
  | _ => none

def neg : Numeral → Numeral
  | .nan => .nan
  | .infinity negative => .infinity !negative
  | .finite value => .finite (-value)

/-- The number some digits write. -/
def ofDigits (digits : List Char) : Nat := Nat.ofDigitChars 10 digits 0

def radixOf : Char → Option Nat
  | 'x' | 'X' => some 16
  | 'o' | 'O' => some 8
  | 'b' | 'B' => some 2
  | _ => none

/-- `0x1f`, `0o17`, `0b11`. -/
def nonDecimal : List Char → Option Nat
  | '0' :: c :: d :: digits => (radixOf c).bind fun base =>
      (takeDigits base (digits.length + 1) 0 (d :: digits)).map Prod.fst
  | _ => none

/-- An exponent, and whether it is all there is. -/
def exponentOf : List Char → Option Int
  | [] => some 0
  | c :: s =>
    if c = 'e' ∨ c = 'E' then
      let (negative, digits) : Bool × List Char := match s with
        | '-' :: t => (true, t)
        | '+' :: t => (false, t)
        | t => (false, t)
      if digits ≠ [] ∧ digits.all Char.isDigit then
        some (if negative then -(ofDigits digits : Int) else ofDigits digits)
      else none
    else none

/-- `10 ** n`. -/
def tenPow (n : Int) : ℚ := if 0 ≤ n then (10 : ℚ) ^ n.toNat else ((10 : ℚ) ^ (-n).toNat)⁻¹

/-- The digits before the point, those after it, and the exponent. -/
def decimal (s : List Char) : Option ℚ :=
  let whole := s.takeWhile Char.isDigit
  let rest := s.dropWhile Char.isDigit
  let (fraction, rest) : List Char × List Char := match rest with
    | '.' :: t => (t.takeWhile Char.isDigit, t.dropWhile Char.isDigit)
    | t => ([], t)
  if whole = [] ∧ fraction = [] then none
  else (exponentOf rest).map fun exponent =>
    ofDigits (whole ++ fraction) * tenPow (exponent - fraction.length)

def unsigned (s : List Char) : Numeral :=
  if s = "Infinity".toList then .infinity false
  else match decimal s with
    | some value => .finite value
    | none => .nan

/-- `Number(text)`. -/
def ofText (s : List Char) : Numeral :=
  let t := trimText s
  if t = [] then .finite 0
  else match nonDecimal t with
    | some n => .finite n
    | none => match t with
      | '-' :: u => (unsigned u).neg
      | '+' :: u => unsigned u
      | u => unsigned u

end Numeral

end LakiraBackend.JavaScript
