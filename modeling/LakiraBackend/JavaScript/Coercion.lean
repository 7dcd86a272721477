import LakiraBackend.JavaScript.Json
import LakiraBackend.JavaScript.Date
import LakiraBackend.JavaScript.Number
import Mathlib.Data.Int.Log
import Mathlib.Data.Rat.Floor

/-!
# What a parsed value is taken for

A literal stands for the double next to it, or for an infinity.  A value is truthy or falsy, has
a text, and may be a date: `new Date` takes a number for a time value, and any other value but a
text by its own number or text.  An object that has a `toString` of its own has no text.
-/

namespace LakiraBackend.JavaScript

namespace Numeral

/-- The whole number next to `q`; of two, the even one. -/
def roundEven (q : ℚ) : Int :=
  let n := (q + 1 / 2).floor
  if q + 1 / 2 = n ∧ n % 2 = 1 then n - 1 else n

/-- The distance of the doubles around `q`. -/
def ulp (q : ℚ) : ℚ := (2 : ℚ) ^ max (Int.log 2 |q| - 52) (-1074)

/-- The double next to `q`. -/
def round (q : ℚ) : Numeral :=
  let r := roundEven (q / ulp q) * ulp q
  if 2 ^ 1024 ≤ |r| then .infinity (q < 0) else .finite r

/-- What `JSON.parse` makes of a literal. -/
def ofLiteral (literal : List Char) : Numeral :=
  match ofText literal with
  | .finite q => round q
  | n => n

end Numeral

namespace Json

/-- `if (value)`. -/
def truthy : Json → Bool
  | null => false
  | bool b => b
  | num literal => Numeral.ofLiteral literal ≠ .finite 0
  | str s => s ≠ []
  | arr _ => true
  | obj _ => true

section

-- `String` of a number, by its literal.
variable (numberText : List Char → List Char)

mutual

/-- `String(value)`; none where that throws. -/
def toText : Json → Option (List Char)
  | null => some "null".toList
  | bool b => some (if b then "true".toList else "false".toList)
  | num literal => some (numberText literal)
  | str s => some s
  | arr items => (itemTexts items).map [','].intercalate
  | obj fields =>
    if fields.any fun p => p.1 = "toString".toList then none else some "[object Object]".toList

/-- The texts of an array's items, of which null has an empty one. -/
def itemTexts : List Json → Option (List (List Char))
  | [] => some []
  | null :: items => (itemTexts items).map ([] :: ·)
  | v :: items => v.toText.bind fun s => (itemTexts items).map (s :: ·)

end

/-- `new Date` of a number: its whole part, where that is a time value. -/
def timeClip (q : ℚ) : Option Date :=
  if |q| ≤ 8640000000000000 then Date.ofMs (if q < 0 then q.ceil else q.floor) else none

/-- `new Date(value)`, which may be invalid; none where it throws. -/
def toDate (other : List Char → Option Date) : Json → Option (Option Date)
  | null => some (Date.ofMs 0)
  | bool b => some (Date.ofMs b.toNat)
  | num literal => some ((Numeral.ofLiteral literal).toFinite.bind timeClip)
  | str s => some (Date.parse other s)
  | v => (v.toText numberText).map (Date.parse other)

end

end Json

end LakiraBackend.JavaScript
