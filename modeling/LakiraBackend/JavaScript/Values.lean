import LakiraBackend.JavaScript.Number
import LakiraBackend.JavaScript.Text

/-!
# Values

The values a program is handed, as far as walks over them look: what they are, and the properties
`Object.keys` gives of them, in its order.
-/

namespace LakiraBackend.JavaScript

inductive Value : Type
  | undefined
  | null
  | boolean (b : Bool)
  | number (n : Numeral)
  | string (s : Text)
  /-- A function, a symbol or a bigint, known by its name. -/
  | other (id : Nat)
  | date (time : Option Int)
  | array (items : List Value)
  | object (fields : List (String × Value))
  /-- An error, with what `name` and `message` read, its own enumerable properties, and those that
  `Object.keys` leaves out, as `stack` and `cause`. -/
  | error (name message : Text) (fields hidden : List (String × Value))

/-- A property in a list of them. -/
def field (key : String) (fields : List (String × Value)) : Value :=
  match fields with
  | [] => .undefined
  | (k, v) :: fields => if k = key then v else field key fields

/-- `record[key] = value`.  A value put under `__proto__` is no property of the record. -/
def assign (record : List (String × Value)) (key : String) (value : Value) :
    List (String × Value) :=
  if key = "__proto__" then record
  else if record.any fun f => f.1 = key then
    record.map fun f => if f.1 = key then (key, value) else f
  else record ++ [(key, value)]

namespace Value

/-- `value !== null && typeof value === "object"`. -/
def isObject : Value → Bool
  | date _ | array _ | object _ | error _ _ _ _ => true
  | _ => false

/-- `value[key]`, for a key that is no index, and no method. -/
def get (key : String) : Value → Value
  | object fields => field key fields
  | error name message fields hidden =>
    if key = "name" then .string name
    else if key = "message" then .string message
    else match field key fields with
      | .undefined => field key hidden
      | v => v
  | _ => undefined

end Value

end LakiraBackend.JavaScript
