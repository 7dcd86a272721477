import Mathlib.Data.List.Basic
import Mathlib.Data.ZMod.Defs
import Mathlib.Tactic.Common

/-!
# Numbers of a fixed width

`pad base k n` writes `k` digits of `n`, as dates and identifiers do, and `takeDigits`
reads them off the front of a text.  What is written is read back (`takeDigits_pad`).
-/

namespace LakiraBackend.JavaScript

/-- The last `k` digits of a number. -/
def pad (base : Nat) : Nat → Nat → List Char
  | 0, _ => []
  | k + 1, n => pad base k (n / base) ++ [Nat.digitChar (n % base)]

/-- The value of a digit, in either case. -/
def digitValue (base : Nat) (c : Char) : Option Nat :=
  (if '0' ≤ c ∧ c ≤ '9' then some (c.toNat - '0'.toNat)
    else if 'a' ≤ c ∧ c ≤ 'f' then some (c.toNat - 'a'.toNat + 10)
    else if 'A' ≤ c ∧ c ≤ 'F' then some (c.toNat - 'A'.toNat + 10)
    else none).filter (· < base)

/-- Read `k` digits, after those that make up `acc`. -/
def takeDigits (base : Nat) : Nat → Nat → List Char → Option (Nat × List Char)
  | 0, acc, s => some (acc, s)
  | _ + 1, _, [] => none
  | k + 1, acc, c :: s => (digitValue base c).bind fun d => takeDigits base k (acc * base + d) s

variable {base k n acc : Nat} {s : List Char}

theorem digitValue_digitChar (hb : base ≤ 16) {d : Nat} (hd : d < base) :
    digitValue base (Nat.digitChar d) = some d := by
  have hall : ∀ d < 16, digitValue 16 (Nat.digitChar d) = some d := by decide
  have h16 := hall d (Nat.lt_of_lt_of_le hd hb)
  obtain ⟨h, _⟩ := Option.filter_eq_some_iff.mp h16
  exact Option.filter_eq_some_iff.mpr ⟨h, decide_eq_true hd⟩

/-- The last digit is read last. -/
theorem takeDigits_succ : takeDigits base (k + 1) acc s =
    (takeDigits base k acc s).bind fun p => takeDigits base 1 p.1 p.2 := by
  induction k generalizing acc s with
  | zero => rfl
  | succ k ih =>
    cases s with
    | nil => rfl
    | cons c s =>
      rw [takeDigits, takeDigits, Option.bind_assoc]
      exact Option.bind_congr fun d _ => ih

/-- **What is written is read back.** -/
theorem takeDigits_pad (hb : base ≤ 16) (hpos : 0 < base) :
    takeDigits base k acc (pad base k n ++ s) = some (acc * base ^ k + n % base ^ k, s) := by
  induction k generalizing n s with
  | zero => simp [pad, takeDigits, Nat.mod_one]
  | succ k ih =>
    have hd := digitValue_digitChar hb (Nat.mod_lt n hpos)
    rw [takeDigits_succ, pad, List.append_assoc, ih, Option.bind_some]
    simp only [List.cons_append, List.nil_append, takeDigits, hd, Option.bind_some]
    have hmod : n % base ^ (k + 1) = base * (n / base % base ^ k) + n % base := by
      rw [Nat.pow_succ', Nat.mod_mul, Nat.add_comm]
    rw [hmod, Nat.pow_succ]
    congr 2
    rw [Nat.add_mul, Nat.mul_assoc, Nat.mul_comm (n / base % base ^ k) base, Nat.add_assoc]

/-- A number that fits is read back whole. -/
theorem takeDigits_pad_of_lt (hb : base ≤ 16) (hpos : 0 < base) (hn : n < base ^ k) :
    takeDigits base k 0 (pad base k n ++ s) = some (n, s) := by
  rw [takeDigits_pad hb hpos, Nat.mod_eq_of_lt hn, Nat.zero_mul, Nat.zero_add]

theorem length_pad : (pad base k n).length = k := by
  induction k generalizing n with
  | zero => rfl
  | succ k ih => rw [pad, List.length_append, ih, List.length_singleton]

theorem mem_pad {c : Char} (hpos : 0 < base) (h : c ∈ pad base k n) : ∃ d < base, c = Nat.digitChar d := by
  induction k generalizing n with
  | zero => cases h
  | succ k ih =>
    rcases List.mem_append.mp h with h | h
    · exact ih h
    · exact ⟨n % base, Nat.mod_lt n hpos, List.mem_singleton.mp h⟩

end LakiraBackend.JavaScript
