import Mathlib.Data.List.Basic

/-!
# `String.prototype.toLowerCase`

Each character is mapped by itself, but for two: `İ` has two characters in lower case, and what
`Σ` has depends on whether a word ends with it.  A text without these is mapped character by
character (`toLowerCase_of_plain`).
-/

namespace LakiraBackend.JavaScript

/-- What Unicode says of each character. -/
structure CaseData : Type where
  /-- The simple mapping. -/
  lower : Char → Char
  cased : Char → Bool
  ignorable : Char → Bool

variable (U : CaseData)

/-- A cased letter comes first, but for what is ignored. -/
def meetsCased : List Char → Bool
  | [] => false
  | c :: s => U.cased c || (U.ignorable c && meetsCased s)

/-- A character between what comes before it, in reverse, and what comes after. -/
def lowerOne (before after : List Char) (c : Char) : List Char :=
  if c = 'İ' then ['i', '\u0307']
  else if c = 'Σ' ∧ meetsCased U before ∧ !meetsCased U after then ['ς']
  else [U.lower c]

def lowerFrom : List Char → List Char → List Char
  | _, [] => []
  | before, c :: s => lowerOne U before s c ++ lowerFrom (c :: before) s

def toLowerCase (s : String) : String := String.ofList (lowerFrom U [] s.toList)

/-- Character by character. -/
def mapLower (s : String) : String := String.ofList (s.toList.map U.lower)

variable {U}

theorem lowerFrom_of_plain {s : List Char} (h : 'İ' ∉ s ∧ 'Σ' ∉ s) (before : List Char) :
    lowerFrom U before s = s.map U.lower := by
  induction s generalizing before with
  | nil => rfl
  | cons c s ih =>
    obtain ⟨hdot, hsigma⟩ := h
    rw [List.mem_cons, not_or] at hdot hsigma
    have hone : lowerOne U before s c = [U.lower c] := by
      rw [lowerOne, if_neg (Ne.symm hdot.1), if_neg fun h => hsigma.1 h.1.symm]
    rw [lowerFrom, hone, ih ⟨hdot.2, hsigma.2⟩]
    rfl

theorem toLowerCase_of_plain {s : String} (h : 'İ' ∉ s.toList ∧ 'Σ' ∉ s.toList) :
    toLowerCase U s = mapLower U s :=
  congrArg String.ofList (lowerFrom_of_plain h [])

end LakiraBackend.JavaScript
