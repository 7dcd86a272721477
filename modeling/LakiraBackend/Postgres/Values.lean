import LakiraBackend.JavaScript.Date

/-!
# Column values

A `uuid` is its 128 bits; its text has its digits in groups, in lower case, and is read in
either case.  A `timestamptz` has microseconds; what is kept of it in milliseconds, by
`date_trunc` and by the driver, is a `Date`.
-/

namespace LakiraBackend.Postgres

open LakiraBackend.JavaScript

abbrev Uuid : Type := Fin (2 ^ 128)

instance neZero_uuid : NeZero (2 ^ 128) := ⟨by decide⟩

instance lawfulBEq_uuid : LawfulBEq Uuid := inferInstance

namespace Uuid

def text (u : Uuid) : List Char :=
  pad 16 8 (u.val / 16 ^ 24) ++ '-' :: (pad 16 4 (u.val / 16 ^ 20) ++ '-' ::
    (pad 16 4 (u.val / 16 ^ 16) ++ '-' :: (pad 16 4 (u.val / 16 ^ 12) ++ '-' ::
      pad 16 12 u.val)))

/-- A group of digits, after those that make up `acc`, and a dash. -/
def group (k acc : Nat) (s : List Char) : Option (Nat × List Char) :=
  (takeDigits 16 k acc s).bind fun p => match p.2 with
    | '-' :: s => some (p.1, s)
    | _ => none

def ofText (s : List Char) : Option Uuid :=
  (group 8 0 s).bind fun (a, s) => (group 4 a s).bind fun (b, s) =>
    (group 4 b s).bind fun (c, s) => (group 4 c s).bind fun (d, s) =>
      (takeDigits 16 12 d s).bind fun (n, s) =>
        if h : n < 2 ^ 128 ∧ s = [] then some ⟨n, h.1⟩ else none

theorem group_pad (k acc n : Nat) (s : List Char) :
    group k acc (pad 16 k n ++ '-' :: s) = some (acc * 16 ^ k + n % 16 ^ k, s) := by
  rw [group, takeDigits_pad (by decide) (by decide)]
  rfl

/-- **A text that is written is read back.** -/
theorem ofText_text (u : Uuid) : ofText u.text = some u := by
  obtain ⟨n, hn⟩ := u
  have hlast : ∀ acc, takeDigits 16 12 acc (pad 16 12 n) =
      some (acc * 16 ^ 12 + n % 16 ^ 12, []) := by
    intro acc
    have hpad : takeDigits 16 12 acc (pad 16 12 n ++ []) = some (acc * 16 ^ 12 + n % 16 ^ 12, []) :=
      takeDigits_pad (by decide) (by decide)
    rwa [List.append_nil] at hpad
  have hsum : ((((0 * 16 ^ 8 + n / 16 ^ 24 % 16 ^ 8) * 16 ^ 4 + n / 16 ^ 20 % 16 ^ 4) * 16 ^ 4 +
      n / 16 ^ 16 % 16 ^ 4) * 16 ^ 4 + n / 16 ^ 12 % 16 ^ 4) * 16 ^ 12 + n % 16 ^ 12 = n := by
    omega
  simp only [text, ofText, group_pad, Option.bind_some, hlast, hsum]
  exact dif_pos ⟨hn, trivial⟩

theorem text_injective : Function.Injective text := by
  intro u v h
  have := congrArg ofText h
  rw [ofText_text, ofText_text] at this
  exact Option.some.inj this

end Uuid

/-- A `timestamptz` that a `Date` has. -/
structure Timestamp : Type where
  us : Int
  inRange : -8640000000000000 ≤ us / 1000 ∧ us / 1000 ≤ 8640000000000000
  deriving DecidableEq

/-- `date_trunc('milliseconds', t)`. -/
def Timestamp.trunc (t : Timestamp) : Date := ⟨t.us / 1000, t.inRange⟩

/-- What is written of a `Date`. -/
def Timestamp.ofDate (d : Date) : Timestamp := ⟨d.ms * 1000, by have := d.inRange; omega⟩

end LakiraBackend.Postgres
