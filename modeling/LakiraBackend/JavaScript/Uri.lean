import LakiraBackend.JavaScript.Buffer
import LakiraBackend.JavaScript.Whole
import Mathlib.Data.List.DropRight

/-!
# `String.prototype.trim` and `encodeURIComponent`
-/

namespace LakiraBackend.JavaScript

def trimText (s : List Char) : List Char :=
  ((s.dropWhile isWhiteSpace).reverse.dropWhile isWhiteSpace).reverse

/-- `String.prototype.trim`. -/
def trim (s : String) : String := String.ofList (trimText s.toList)

/-- A letter, a digit, or one of the nine marks that are left alone. -/
def isUnreserved (c : Char) : Bool :=
  c.isAlphanum || c.toNat ∈ [0x21, 0x27, 0x28, 0x29, 0x2A, 0x2D, 0x2E, 0x5F, 0x7E]

def hexDigit (n : Nat) : Char := if n < 10 then Char.ofNat (48 + n) else Char.ofNat (55 + n)

/-- The escape of an octet. -/
def percent (b : UInt8) : List Char := ['%', hexDigit (b.toNat / 16), hexDigit (b.toNat % 16)]

def encodeURIComponent (s : List Char) : List Char :=
  s.flatMap fun c => if isUnreserved c then [c] else (Buffer.utf8 [c]).flatMap percent

/-- A text without white space at its ends is left alone. -/
theorem trimText_of_not_isWhiteSpace {s : List Char} (h : ∀ c ∈ s, isWhiteSpace c = false) :
    trimText s = s := by
  have hdrop : ∀ {t : List Char}, (∀ c ∈ t, isWhiteSpace c = false) →
      t.dropWhile isWhiteSpace = t := by
    intro t ht
    cases t with
    | nil => rfl
    | cons c t => exact List.dropWhile_cons_of_neg (Bool.eq_false_iff.mp (ht c List.mem_cons_self))
  rw [trimText, hdrop h, hdrop fun c hc => h c (List.mem_reverse.mp hc), List.reverse_reverse]

/-- **A text that is trimmed is left alone.** -/
theorem trimText_trimText (s : List Char) : trimText (trimText s) = trimText s := by
  let t := s.dropWhile isWhiteSpace
  have hprefix : trimText s <+: t := List.rdropWhile_prefix isWhiteSpace t
  have hfirst : (trimText s).dropWhile isWhiteSpace = trimText s := by
    refine List.dropWhile_eq_self_iff.mpr fun hlen => ?_
    have ht := List.dropWhile_eq_self_iff.mp (List.dropWhile_idempotent (p := isWhiteSpace) s)
      (Nat.lt_of_lt_of_le hlen hprefix.length_le)
    have hget := List.IsPrefix.getElem hprefix hlen
    rwa [hget]
  rw [trimText, hfirst]
  exact List.rdropWhile_idempotent isWhiteSpace t

theorem trim_trim (s : String) : trim (trim s) = trim s := by
  rw [trim, trim, String.toList_ofList, trimText_trimText]

end LakiraBackend.JavaScript
