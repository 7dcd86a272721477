import Mathlib.Algebra.Ring.Nat
import Mathlib.Data.List.TakeWhile
import Mathlib.Tactic.Common

/-!
# JavaScript's whole numbers

The values of `Number` that are whole and not negative: `Infinity`, and the natural
numbers a double can hold.  Up to 2 ^ 53 these are all natural numbers; above, a
result is rounded to 53 bits, ties to even.

`parseInt` reads a whole number from a text, and `text` writes it as `String` does.
What is written is read back, up to 10 ^ 21 (`parseInt_text`): from there on `String`
writes an exponent, at which `parseInt` stops.
-/

namespace LakiraBackend.JavaScript

inductive Whole : Type
  | nat (n : Nat)
  | infinity
  deriving DecidableEq, Repr

/-- The natural number of 53 bits next to `n`; of two, the even one. -/
def roundNat (n : Nat) : Nat :=
  if n < 2 ^ 53 then n
  else
    let unit := 2 ^ (n.log2 - 52)
    let q := n / unit
    let r := n % unit
    if unit < 2 * r ∨ (2 * r = unit ∧ q % 2 = 1) then (q + 1) * unit else q * unit

/-- Whether `String.prototype.trim` and `parseInt` skip the character. -/
def isWhiteSpace (c : Char) : Bool :=
  c.toNat ∈ [0x09, 0x0A, 0x0B, 0x0C, 0x0D, 0x20, 0xA0, 0x1680, 0x2028, 0x2029, 0x202F, 0x205F,
    0x3000, 0xFEFF] || (0x2000 ≤ c.toNat && c.toNat ≤ 0x200A)

namespace Whole

def ofNat (n : Nat) : Whole := if 2 ^ 1024 ≤ roundNat n then infinity else nat (roundNat n)

def add : Whole → Whole → Whole
  | nat m, nat n => ofNat (m + n)
  | _, _ => infinity

/-- The product; neither is `Infinity` while the other is 0. -/
def mul : Whole → Whole → Whole
  | nat m, nat n => ofNat (m * n)
  | _, _ => infinity

/-- `2 ** n`. -/
def twoPow : Whole → Whole
  | nat n => if n < 1024 then nat (2 ^ n) else infinity
  | infinity => infinity

/-- `m ≤ n`. -/
def le : Whole → Whole → Bool
  | nat m, nat n => m ≤ n
  | _, infinity => true
  | infinity, nat _ => false

/-- `Math.min`, of a number and a finite one. -/
def min : Whole → Nat → Nat
  | nat m, n => Nat.min m n
  | infinity, n => n

/-- The fewest digits that are rounded to `n`, without zeros at their end, and the exponent
of the last. -/
def shortestDigits (n : Nat) : List Char × Nat :=
  let length := (Nat.toDigits 10 n).length
  let exact := (List.range length).filterMap fun k =>
    let unit := 10 ^ (length - k - 1)
    let digits := (n + unit / 2) / unit
    if roundNat (digits * unit) = n then some (digits, length - k - 1) else none
  match exact with
  | (digits, exponent) :: _ =>
    let written := Nat.toDigits 10 digits
    let kept := (written.reverse.dropWhile (· = '0')).reverse
    (kept, exponent + (written.length - kept.length))
  | [] => (Nat.toDigits 10 n, 0)

/-- `n` with an exponent. -/
def exponentText (n : Nat) : List Char :=
  match shortestDigits n with
  | ([], _) => []
  | (d :: ds, exponent) =>
    d :: (if ds = [] then [] else '.' :: ds) ++ "e+".toList ++
      Nat.toDigits 10 (exponent + ds.length)

/-- `String(n)`. -/
def text : Whole → List Char
  | nat n => if n < 10 ^ 21 then Nat.toDigits 10 n else exponentText n
  | infinity => "Infinity".toList

end Whole

/-- `parseInt(text, 10)`, as far as callers look at it: a number with `-` before it is not
positive, and `none` is `NaN`. -/
def parseInt (text : List Char) : Option (Bool × Whole) :=
  let trimmed := text.dropWhile isWhiteSpace
  let negative := trimmed.head? = some '-'
  let unsigned := if trimmed.head? = some '-' ∨ trimmed.head? = some '+' then trimmed.tail else trimmed
  let digits := unsigned.takeWhile Char.isDigit
  if digits = [] then none else some (negative, .ofNat (Nat.ofDigitChars 10 digits 0))

/-! ### Rounding -/

theorem roundNat_of_le {n : Nat} (h : n ≤ 2 ^ 53) : roundNat n = n := by
  rcases Nat.lt_or_eq_of_le h with h | rfl
  · exact if_pos h
  · decide

/-- Rounding does not go below the numbers that are exact. -/
theorem le_roundNat {n : Nat} (h : 2 ^ 53 ≤ n) : 2 ^ 53 ≤ roundNat n := by
  have hne : n ≠ 0 := by omega
  have hlog : 53 ≤ n.log2 := (Nat.le_log2 hne).mpr h
  have hunit : 2 ^ 52 * 2 ^ (n.log2 - 52) ≤ n := by
    rw [← Nat.pow_add, show 52 + (n.log2 - 52) = n.log2 by omega]
    exact Nat.log2_self_le hne
  have hpos : 0 < 2 ^ (n.log2 - 52) := Nat.two_pow_pos _
  have hq : 2 ^ 52 ≤ n / 2 ^ (n.log2 - 52) := (Nat.le_div_iff_mul_le hpos).mpr hunit
  have htwo : 2 ≤ 2 ^ (n.log2 - 52) := by
    calc 2 = 2 ^ 1 := rfl
      _ ≤ 2 ^ (n.log2 - 52) := Nat.pow_le_pow_right (by decide) (by omega)
  have hdown : 2 ^ 53 ≤ n / 2 ^ (n.log2 - 52) * 2 ^ (n.log2 - 52) :=
    calc 2 ^ 53 = 2 ^ 52 * 2 := by decide
      _ ≤ _ := Nat.mul_le_mul hq htwo
  rw [roundNat, if_neg (by omega)]
  dsimp only
  split
  · exact Nat.le_trans hdown (Nat.mul_le_mul_right _ (Nat.le_succ _))
  · exact hdown

namespace Whole

theorem ofNat_of_le {n : Nat} (h : n ≤ 2 ^ 53) : ofNat n = nat n := by
  have hlt : ¬ 2 ^ 1024 ≤ n := by
    have hpow := Nat.pow_lt_pow_right (a := 2) (m := 53) (n := 1024) (by decide) (by decide)
    exact fun hle => absurd (Nat.le_trans hle h) (Nat.not_le_of_lt hpow)
  rw [ofNat, roundNat_of_le h, if_neg hlt]

/-- What is over a bound stays over it when it is rounded. -/
theorem min_ofNat {n bound : Nat} (hb : bound ≤ 2 ^ 53) : (ofNat n).min bound = Nat.min n bound := by
  rcases Nat.le_total n (2 ^ 53) with h | h
  · rw [ofNat_of_le h]
    rfl
  · have hmin : ∀ m, 2 ^ 53 ≤ m → Nat.min m bound = bound :=
      fun m hm => Nat.min_eq_right (Nat.le_trans hb hm)
    rw [hmin n h, ofNat]
    split
    · rfl
    · exact hmin _ (le_roundNat h)

theorem text_of_lt {n : Nat} (h : n < 10 ^ 21) : (nat n).text = Nat.toDigits 10 n := if_pos h

end Whole

/-! ### Texts -/

theorem not_isWhiteSpace_of_isDigit {c : Char} (h : c.isDigit = true) : isWhiteSpace c = false := by
  simp only [Char.isDigit, Bool.and_eq_true, decide_eq_true_eq] at h
  have hlo : 48 ≤ c.toNat := h.1
  have hhi : c.toNat ≤ 57 := h.2
  simp [isWhiteSpace]
  omega

/-- **A number that is written is read back.** -/
theorem parseInt_text {n : Nat} (h : n < 10 ^ 21) :
    parseInt (Whole.nat n).text = some (false, .ofNat n) := by
  have hdigits : ∀ c ∈ Nat.toDigits 10 n, c.isDigit = true :=
    fun c hc => Nat.isDigit_of_mem_toDigits (by decide) (by decide) hc
  obtain ⟨d, ds, hd⟩ := List.exists_cons_of_ne_nil (Nat.toDigits_ne_nil (b := 10) (n := n))
  have hhead : d.isDigit = true := hdigits d (hd ▸ List.mem_cons_self)
  have htrim : (Nat.toDigits 10 n).dropWhile isWhiteSpace = Nat.toDigits 10 n := by
    rw [hd, List.dropWhile_cons_of_neg (by simp [not_isWhiteSpace_of_isDigit hhead])]
  have hsign : d ≠ '-' ∧ d ≠ '+' := by
    constructor <;> (rintro rfl; cases hhead)
  have htake : (Nat.toDigits 10 n).takeWhile Char.isDigit = Nat.toDigits 10 n :=
    List.takeWhile_eq_self_iff.mpr hdigits
  rw [Whole.text_of_lt h, parseInt]
  simp only [htrim]
  have hno : ¬ ((Nat.toDigits 10 n).head? = some '-' ∨ (Nat.toDigits 10 n).head? = some '+') := by
    rw [hd]
    simp [hsign]
  rw [if_neg hno, htake, if_neg Nat.toDigits_ne_nil, Nat.ofDigitChars_ten_toDigits, hd]
  simp [hsign.1]

end LakiraBackend.JavaScript
