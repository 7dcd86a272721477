import Mathlib.Data.List.Infix

/-!
# Texts

A text is the list of its UTF-16 code units, so that its length and its parts are what the
language says they are, whatever it holds.
-/

namespace LakiraBackend.JavaScript

/-- A string, by its UTF-16 code units. -/
abbrev Text : Type := List Nat

/-- The code units of a code point. -/
def utf16 (n : Nat) : Text :=
  if n < 0x10000 then [n]
  else [0xD800 + (n - 0x10000) / 0x400, 0xDC00 + (n - 0x10000) % 0x400]

def text (s : String) : Text := s.toList.flatMap fun c => utf16 c.toNat

namespace Text

/-- The code points of a text.  A surrogate that has no other half stands for itself. -/
def codePoints : Text → List Nat
  | [] => []
  | [u] => [u]
  | u :: v :: s =>
    if 0xD800 ≤ u ∧ u < 0xDC00 ∧ 0xDC00 ≤ v ∧ v < 0xE000 then
      (0x10000 + (u - 0xD800) * 0x400 + (v - 0xDC00)) :: codePoints s
    else u :: codePoints (v :: s)

def ofCodePoints (cs : List Nat) : Text := cs.flatMap utf16

/-- `lastIndexOf`, where the character is there. -/
def lastIndexOf (c : Nat) (s : Text) : Nat := s.length - 1 - s.reverse.idxOf c

/-- `slice(from)`, `slice(0, end)` of what is read from `from` on. -/
def slice (start stop : Nat) (s : Text) : Text := (s.take stop).drop start

/-- `s.split(raw).join(by)`: each occurrence of `raw`, from the left, replaced.  The number is how
much is still to be passed over of the last one. -/
def replaceEach (raw mask : Text) : Nat → Text → Text
  | _, [] => []
  | skip + 1, _ :: s => replaceEach raw mask skip s
  | 0, c :: s =>
    if raw.isPrefixOf (c :: s) then mask ++ replaceEach raw mask (raw.length - 1) s
    else c :: replaceEach raw mask 0 s

/-- `s.split(sep)`.  The number is how much is still to be passed over of a separator. -/
def split (sep : Text) : Nat → Text → List Text
  | _, [] => [[]]
  | skip + 1, _ :: s => split sep skip s
  | 0, c :: s =>
    if sep.isPrefixOf (c :: s) then [] :: split sep (sep.length - 1) s
    else (split sep 0 s).modifyHead (c :: ·)

/-- `n.toString(base)`. -/
def ofNumber (base n : Nat) : Text := (Nat.toDigits base n).map Char.toNat

variable {raw mask s t : Text}

theorem replaceEach_skip (h : n ≤ s.length) :
    replaceEach raw mask n s = replaceEach raw mask 0 (s.drop n) := by
  induction n generalizing s with
  | zero => rfl
  | succ n ih =>
    cases s with
    | nil => simp at h
    | cons c s => exact ih (Nat.succ_le_succ_iff.mp h)

/-- A text is replaced as a whole. -/
theorem replaceEach_self (h : raw ≠ []) : replaceEach raw mask 0 raw = mask := by
  cases raw with
  | nil => exact absurd rfl h
  | cons c s =>
    have hpre : (c :: s).isPrefixOf (c :: s) = true := List.isPrefixOf_iff_prefix.mpr
      (List.prefix_refl _)
    rw [replaceEach, if_pos hpre]
    have hrest : replaceEach (c :: s) mask ((c :: s).length - 1) s = [] := by
      rw [List.length_cons, Nat.add_sub_cancel, replaceEach_skip (Nat.le_refl _),
        List.drop_length]
      rfl
    rw [hrest, List.append_nil]

/-- What is nowhere in a text is not replaced. -/
theorem replaceEach_of_not_infix (h : ¬ raw <:+: s) : replaceEach raw mask 0 s = s := by
  induction s with
  | nil => rfl
  | cons c s ih =>
    have hpre : ¬ raw.isPrefixOf (c :: s) = true := fun hp =>
      h (List.isPrefixOf_iff_prefix.mp hp).isInfix
    rw [replaceEach, if_neg hpre, ih fun hs => h (hs.trans (List.suffix_cons c s).isInfix)]

end Text

end LakiraBackend.JavaScript
