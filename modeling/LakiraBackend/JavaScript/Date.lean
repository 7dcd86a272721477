import LakiraBackend.JavaScript.Digits

/-!
# `Date.prototype.toISOString`, and `Date` of what it writes

A time value is a number of milliseconds since 1970.  `toISOString` is by the calendar
of the language's specification, whose years start at `dayFromYear`; `parse` reads that
format, and leaves any other to the implementation (`other`).  What is written is read
back (`parse_toISOString`).
-/

namespace LakiraBackend.JavaScript

/-- A `Date` that is not invalid. -/
structure Date : Type where
  ms : Int
  inRange : -8640000000000000 ≤ ms ∧ ms ≤ 8640000000000000
  deriving DecidableEq

namespace Date

theorem inRange_zero : -8640000000000000 ≤ (0 : Int) ∧ (0 : Int) ≤ 8640000000000000 := by decide

def msPerDay : Int := 86400000

/-! ### The calendar -/

/-- The number of the first day of a year. -/
def dayFromYear (y : Int) : Int :=
  365 * (y - 1970) + (y - 1969) / 4 - (y - 1901) / 100 + (y - 1601) / 400

/-- The year a day is in. -/
def yearFromDay (d : Int) : Int :=
  let y := 1970 + 400 * d / 146097
  if d < dayFromYear y then y - 1 else if dayFromYear (y + 1) ≤ d then y + 1 else y

def isLeap (y : Int) : Bool := dayFromYear (y + 1) - dayFromYear y = 366

/-- The first day of a month of the year; the thirteenth is the next year's first. -/
def monthStart (leap : Bool) : Nat → Nat
  | 0 => 0
  | 1 => 31
  | 2 => 59 + leap.toNat
  | 3 => 90 + leap.toNat
  | 4 => 120 + leap.toNat
  | 5 => 151 + leap.toNat
  | 6 => 181 + leap.toNat
  | 7 => 212 + leap.toNat
  | 8 => 243 + leap.toNat
  | 9 => 273 + leap.toNat
  | 10 => 304 + leap.toNat
  | 11 => 334 + leap.toNat
  | _ => 365 + leap.toNat

/-- The month a day of the year is in. -/
def monthOf (leap : Bool) (n : Nat) : Nat :=
  ((List.range 11).filter fun m => monthStart leap (m + 1) ≤ n).length

/-! ### Texts -/

def yearText (y : Int) : List Char :=
  if 0 ≤ y ∧ y ≤ 9999 then pad 10 4 y.toNat
  else (if y < 0 then '-' else '+') :: pad 10 6 y.natAbs

def toISOString (t : Date) : List Char :=
  let day := t.ms / msPerDay
  let year := yearFromDay day
  let dayInYear := (day - dayFromYear year).toNat
  let month := monthOf (isLeap year) dayInYear
  let date := dayInYear - monthStart (isLeap year) month + 1
  let ms := (t.ms % msPerDay).toNat
  yearText year ++ '-' :: (pad 10 2 (month + 1) ++ '-' :: (pad 10 2 date ++ 'T' ::
    (pad 10 2 (ms / 3600000) ++ ':' :: (pad 10 2 (ms / 60000 % 60) ++ ':' ::
      (pad 10 2 (ms / 1000 % 60) ++ '.' :: (pad 10 3 (ms % 1000) ++ ['Z']))))))

def yearOf : List Char → Option (Int × List Char)
  | '+' :: s => (takeDigits 10 6 0 s).map fun p => (p.1, p.2)
  | '-' :: s => (takeDigits 10 6 0 s).bind fun p => if p.1 = 0 then none else some (-p.1, p.2)
  | s => (takeDigits 10 4 0 s).map fun p => (p.1, p.2)

/-- A number of `k` digits in its bounds, and the character after it. -/
def part (k least most : Nat) (after : Char) (s : List Char) : Option (Nat × List Char) :=
  (takeDigits 10 k 0 s).bind fun p => match p.2 with
    | c :: s => if c = after ∧ least ≤ p.1 ∧ p.1 ≤ most then some (p.1, s) else none
    | [] => none

/-- The time of a text in the format `toISOString` writes. -/
def parseISO (s : List Char) : Option Int :=
  (yearOf s).bind fun (year, s) => match s with
    | '-' :: s =>
      (part 2 1 12 '-' s).bind fun (month, s) => (part 2 1 31 'T' s).bind fun (date, s) =>
        (part 2 0 23 ':' s).bind fun (hour, s) => (part 2 0 59 ':' s).bind fun (minute, s) =>
          (part 2 0 59 '.' s).bind fun (second, s) => (part 3 0 999 'Z' s).bind fun (ms, s) =>
            if s = [] then
              some ((dayFromYear year + monthStart (isLeap year) (month - 1) + (date - 1)) *
                msPerDay + hour * 3600000 + minute * 60000 + second * 1000 + ms)
            else none
    | _ => none

def ofMs (ms : Int) : Option Date :=
  if h : -8640000000000000 ≤ ms ∧ ms ≤ 8640000000000000 then some ⟨ms, h⟩ else none

/-- `new Date(text)`, or none where that is invalid. -/
def parse (other : List Char → Option Date) (s : List Char) : Option Date :=
  match parseISO s with
  | some ms => ofMs ms
  | none => other s

/-! ### The calendar is right -/

/-- A day is in its year. -/
theorem yearFromDay_spec (d : Int) :
    dayFromYear (yearFromDay d) ≤ d ∧ d < dayFromYear (yearFromDay d + 1) := by
  rw [yearFromDay]
  generalize hy : 1970 + 400 * d / 146097 = y
  by_cases h : d < dayFromYear y
  · rw [if_pos h, Int.sub_add_cancel]
    refine ⟨?_, h⟩
    unfold dayFromYear at h ⊢
    omega
  · rw [if_neg h]
    by_cases h' : dayFromYear (y + 1) ≤ d
    · rw [if_pos h']
      refine ⟨h', ?_⟩
      unfold dayFromYear at h h' ⊢
      omega
    · rw [if_neg h']
      exact ⟨Int.not_lt.mp h, Int.not_le.mp h'⟩

theorem year_length (y : Int) :
    dayFromYear (y + 1) - dayFromYear y = 365 + (isLeap y).toNat := by
  by_cases h : dayFromYear (y + 1) - dayFromYear y = 366
  · rw [isLeap, decide_eq_true h, h]
    rfl
  · rw [isLeap, decide_eq_false h]
    unfold dayFromYear at h ⊢
    simp only [Bool.toNat_false]
    omega

/-- A day of the year is in its month. -/
theorem monthOf_spec (leap : Bool) {n : Nat} (h : n < 365 + leap.toNat) :
    monthOf leap n < 12 ∧ monthStart leap (monthOf leap n) ≤ n ∧
      n - monthStart leap (monthOf leap n) < 31 := by
  have hall : ∀ leap : Bool, ∀ n < 365 + leap.toNat, monthOf leap n < 12 ∧
      monthStart leap (monthOf leap n) ≤ n ∧ n - monthStart leap (monthOf leap n) < 31 := by
    decide +kernel
  exact hall leap n h

/-! ### What is written is read back -/

theorem part_pad {k least most n : Nat} {after : Char} {s : List Char} (hk : n < 10 ^ k)
    (hl : least ≤ n) (hm : n ≤ most) : part k least most after (pad 10 k n ++ after :: s) = some (n, s) := by
  rw [part, takeDigits_pad_of_lt (by decide) (by decide) hk, Option.bind_some]
  exact if_pos ⟨rfl, hl, hm⟩

theorem yearOf_yearText {y : Int} (hy : -1000000 < y ∧ y < 1000000) (s : List Char) :
    yearOf (yearText y ++ s) = some (y, s) := by
  rw [yearText]
  split
  · rename_i h
    have hlt : y.toNat < 10 ^ 4 := by omega
    have hsign : ∀ c t, pad 10 4 y.toNat ++ s = c :: t → c ≠ '+' ∧ c ≠ '-' := by
      intro c t heq
      have hc : c ∈ pad 10 4 y.toNat := by
        cases hpad : pad 10 4 y.toNat with
        | nil =>
          have hlength : (pad 10 4 y.toNat).length = 4 := length_pad
          rw [hpad] at hlength
          cases hlength
        | cons c' t' =>
          rw [hpad] at heq
          obtain ⟨rfl, -⟩ := List.cons.inj heq
          exact List.mem_cons_self
      obtain ⟨d, hd, rfl⟩ := mem_pad (by decide) hc
      exact (by decide : ∀ d < 10, Nat.digitChar d ≠ '+' ∧ Nat.digitChar d ≠ '-') d hd
    rw [yearOf, takeDigits_pad_of_lt (by decide) (by decide) hlt, Option.map_some,
      Int.toNat_of_nonneg h.1]
    · exact fun t heq => (hsign '+' t heq).1 rfl
    · exact fun t heq => (hsign '-' t heq).2 rfl
  · have hlt : y.natAbs < 10 ^ 6 := by omega
    split
    · rename_i hneg
      have hne : y.natAbs ≠ 0 := by omega
      rw [List.cons_append, yearOf, takeDigits_pad_of_lt (by decide) (by decide) hlt,
        Option.bind_some, if_neg hne]
      congr 2
      omega
    · rw [List.cons_append, yearOf, takeDigits_pad_of_lt (by decide) (by decide) hlt,
        Option.map_some]
      congr 2
      omega

/-- The year of a `Date`. -/
theorem year_inRange (t : Date) :
    -1000000 < yearFromDay (t.ms / msPerDay) ∧ yearFromDay (t.ms / msPerDay) < 1000000 := by
  have hrange := t.inRange
  obtain ⟨h₁, h₂⟩ := yearFromDay_spec (t.ms / msPerDay)
  unfold dayFromYear msPerDay at *
  omega

/-- **What `toISOString` writes is read back.** -/
theorem parse_toISOString (other : List Char → Option Date) (t : Date) :
    parse other t.toISOString = some t := by
  have hiso : parseISO t.toISOString = some t.ms := by
    obtain ⟨h₁, h₂⟩ := yearFromDay_spec (t.ms / msPerDay)
    have hlength := year_length (yearFromDay (t.ms / msPerDay))
    rw [toISOString, parseISO, yearOf_yearText (year_inRange t), Option.bind_some]
    generalize yearFromDay (t.ms / msPerDay) = y at h₁ h₂ hlength ⊢
    obtain ⟨n, hn⟩ : ∃ n : Nat, t.ms / msPerDay = dayFromYear y + n :=
      ⟨(t.ms / msPerDay - dayFromYear y).toNat, by omega⟩
    have hday : (t.ms / msPerDay - dayFromYear y).toNat = n := by omega
    obtain ⟨hmonth, hstart, hdate⟩ := monthOf_spec (isLeap y) (n := n) (by omega)
    obtain ⟨m, hm⟩ : ∃ m : Nat, t.ms % msPerDay = m ∧ m < 86400000 :=
      ⟨(t.ms % msPerDay).toNat, by unfold msPerDay; omega⟩
    have hms : (t.ms % msPerDay).toNat = m := by omega
    have hpart : ∀ {k least most n : Nat} {after : Char} {s : List Char}, n < 10 ^ k ∧ least ≤ n ∧
        n ≤ most → part k least most after (pad 10 k n ++ after :: s) = some (n, s) :=
      fun h => part_pad h.1 h.2.1 h.2.2
    rw [hday, hms]
    simp (disch := omega) only [hpart, Option.bind_some, if_true]
    have hsplit := Int.mul_ediv_add_emod t.ms msPerDay
    refine congrArg some ?_
    simp only [Nat.add_sub_cancel]
    unfold msPerDay at *
    omega
  have hms : ofMs t.ms = some t := dif_pos t.inRange
  rw [parse, hiso]
  exact hms

end Date

end LakiraBackend.JavaScript
