import LakiraBackend.JavaScript.Values

/-!
# The redaction of a log record

What of a value may be written to a log: `redactObject`, with the summary of an error and the masks
of keys and of database messages it rests on.
-/

namespace LakiraBackend.Logging

open LakiraBackend.JavaScript

/-! ### Keys -/

/-- A letter without its case.  The pattern's flag folds the letters of ASCII alone. -/
def foldCase (c : Char) : Char := if 'A' ≤ c ∧ c ≤ 'Z' then Char.ofNat (c.toNat + 32) else c

/-- The words a sensitive key has anywhere. -/
def SENSITIVE_WORDS : List String := ["password", "secret", "authorization", "cookie", "bearer"]

/-- The words a sensitive key ends in. -/
def SENSITIVE_ENDINGS : List String := ["token", "key", "certificate", "url", "dsn"]

/-- `SENSITIVE_KEY_PATTERN.test(key)`. -/
def isSensitiveKey (key : String) : Bool :=
  let folded := key.toList.map foldCase
  (SENSITIVE_WORDS.any fun word => decide (word.toList <:+: folded)) ||
    SENSITIVE_ENDINGS.any fun word => decide (word.toList <:+ folded)

/-! ### Database messages -/

/-- `"`. -/
def quote : Nat := 34

def maskQuotedValues (s : Text) : Text :=
  let first := s.idxOf quote
  if first = s.length then s
  else
    let last := s.lastIndexOf quote
    if last = first then s.take first ++ text "\"[value]"
    else s.take first ++ text "\"[value]\"" ++ s.drop (last + 1)

/-- The masked forms of a database error's messages in a text. -/
def maskDbText (s message : Text) (original : Value) : Text :=
  if original.isObject then
    [.string message, original.get "message"].foldl (fun masked raw => match raw with
      | Value.string raw =>
        if raw = [] then masked else Text.replaceEach raw (maskQuotedValues raw) 0 masked
      | _ => masked) s
  else s

/-! ### Errors -/

def ERROR_FIELD_ALLOWLIST : List String :=
  ["name", "code", "errno", "syscall", "status", "statusCode", "expose", "type", "kind",
    "isOperational"]

def DB_ERROR_FIELDS : List String := ["code", "constraint", "table", "column"]

def isScalar : Value → Bool
  | .string _ | .number _ | .boolean _ => true
  | _ => false

/-- What a database says of its failure. -/
def dbFields (original : Value) : List (String × Value) :=
  DB_ERROR_FIELDS.foldl (fun db f => match original.get f with
    | .string s => assign db f (.string s)
    | _ => db) []

def describeDbError (original : Value) : Option Value :=
  if original.isObject && dbFields original ≠ [] then some (.object (dbFields original)) else none

/-- The allowlisted view of an error: its scalar identity fields, and `db`. -/
def summarizeError (name : Text) (fields : List (String × Value)) (original : Value) :
    List (String × Value) :=
  let summary := fields.foldl (fun summary f =>
    if ERROR_FIELD_ALLOWLIST.contains f.1 && isScalar f.2 then assign summary f.1 f.2
    else summary) [("name", .string name)]
  match describeDbError original with
  | some db => assign summary "db" db
  | none => summary

/-! ### The walk -/

def TRUNCATED : Text := text "[Truncated]"

def REDACTED : Text := text "***REDACTED***"

def MAX_DEPTH : Nat := 5

/-- What is written of an error. -/
def redactError (name message : Text) (fields : List (String × Value)) (original : Value) :
    List (String × Value) :=
  assign (summarizeError name fields original) "message"
    (.string (maskDbText message message original))

mutual

def redactObject : Value → Nat → Value
  | .error name message fields hidden, _ =>
    .object (redactError name message fields
      ((Value.error name message fields hidden).get "original"))
  | .array items, depth =>
    if MAX_DEPTH ≤ depth then .string TRUNCATED else .array (redactItems items (depth + 1))
  | .object fields, depth =>
    if MAX_DEPTH ≤ depth then .string TRUNCATED else .object (redactFields fields (depth + 1) [])
  | v, _ => v

def redactItems : List Value → Nat → List Value
  | [], _ => []
  | v :: items, depth => redactObject v depth :: redactItems items depth

/-- The loop over the keys, with what it has built. -/
def redactFields : List (String × Value) → Nat → List (String × Value) → List (String × Value)
  | [], _, result => result
  | (key, v) :: fields, depth, result =>
    redactFields fields depth (assign result key
      (if isSensitiveKey key then .string REDACTED else redactObject v depth))

end

end LakiraBackend.Logging
