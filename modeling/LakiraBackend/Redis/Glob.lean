import Mathlib.Data.List.Infix

/-!
# Patterns of keys

A pattern is a text in which `*` stands for any text, and any other character for itself:
what Redis reads beyond that (`?`, `[`, `\`) is left out.
-/

namespace LakiraBackend.Redis

/-- Whether a key is of a pattern. -/
def globMatch : List Char → List Char → Bool
  | [], s => s.isEmpty
  | c :: p, s =>
    if c = '*' then s.tails.any (globMatch p)
    else match s with
      | d :: s => c = d && globMatch p s
      | [] => false

/-- No character stands for another. -/
def Literal (p : List Char) : Prop := '*' ∉ p

instance (p : List Char) : Decidable (Literal p) := inferInstanceAs (Decidable (¬_))

variable {l p s : List Char}

theorem globMatch_cons (c : Char) : globMatch (c :: p) s =
    if c = '*' then s.tails.any (globMatch p)
    else match s with
      | d :: s => c = d && globMatch p s
      | [] => false := by
  cases s <;> rfl

theorem Literal.append {l' : List Char} (h : Literal l) (h' : Literal l') : Literal (l ++ l') :=
  fun hmem => (List.mem_append.mp hmem).elim h h'

theorem Literal.cons {c : Char} (hc : c ≠ '*') (h : Literal l) : Literal (c :: l) :=
  fun hmem => (List.mem_cons.mp hmem).elim (fun heq => hc heq.symm) h

/-- What is literal stands for itself. -/
theorem globMatch_append (h : Literal l) : globMatch (l ++ p) s = true ↔
    ∃ rest, s = l ++ rest ∧ globMatch p rest = true := by
  induction l generalizing s with
  | nil => exact ⟨fun hm => ⟨s, rfl, hm⟩, fun ⟨rest, hs, hm⟩ => hs ▸ hm⟩
  | cons c l ih =>
    have hc : c ≠ '*' := fun heq => h (heq ▸ List.mem_cons_self)
    have hl : Literal l := fun hmem => h (List.mem_cons_of_mem c hmem)
    rw [List.cons_append, globMatch_cons, if_neg hc]
    cases s with
    | nil =>
      refine ⟨fun hm => absurd hm Bool.false_ne_true, fun ⟨rest, hs, _⟩ => ?_⟩
      exact absurd hs (List.cons_ne_nil _ _).symm
    | cons d s =>
      dsimp only
      rw [Bool.and_eq_true, decide_eq_true_eq, ih hl]
      constructor
      · rintro ⟨rfl, rest, rfl, hm⟩
        exact ⟨rest, rfl, hm⟩
      · rintro ⟨rest, hs, hm⟩
        obtain ⟨rfl, rfl⟩ := List.cons.inj hs
        exact ⟨rfl, rest, rfl, hm⟩

/-- A key that starts otherwise than a pattern is left alone. -/
theorem globMatch_of_head {c c' : Char} {pattern rest : List Char} (hc : Literal [c])
    (hne : c' ≠ c) : globMatch (c :: pattern) (c' :: rest) = false := by
  refine Bool.eq_false_iff.mpr fun hmatch => ?_
  obtain ⟨_, heq, _⟩ := (globMatch_append (l := [c]) (p := pattern) hc).mp hmatch
  exact hne (List.cons.inj heq).1

/-- A star stands for any text. -/
theorem globMatch_star : globMatch ('*' :: p) s = true ↔
    ∃ skipped rest, s = skipped ++ rest ∧ globMatch p rest = true := by
  rw [globMatch_cons, if_pos rfl, List.any_eq_true]
  constructor
  · rintro ⟨rest, hrest, hm⟩
    obtain ⟨skipped, rfl⟩ := (List.mem_tails _ _).mp hrest
    exact ⟨skipped, rest, rfl, hm⟩
  · rintro ⟨skipped, rest, rfl, hm⟩
    exact ⟨rest, (List.mem_tails _ _).mpr (List.suffix_append skipped rest), hm⟩

/-- **A pattern that ends with its only star** is that of the keys that start with it. -/
theorem globMatch_leading (h : Literal l) : globMatch (l ++ ['*']) s = true ↔ l <+: s := by
  rw [globMatch_append h]
  constructor
  · rintro ⟨rest, rfl, _⟩
    exact List.prefix_append l rest
  · rintro ⟨rest, rfl⟩
    exact ⟨rest, rfl, globMatch_star.mpr ⟨rest, [], (List.append_nil rest).symm, rfl⟩⟩

/-- A pattern with a star in it and one at its end. -/
theorem globMatch_inside {m : List Char} (h : Literal l) (hm : Literal m)
    (hs : ∃ skipped rest, s = l ++ (skipped ++ (m ++ rest))) :
    globMatch (l ++ '*' :: (m ++ ['*'])) s = true := by
  obtain ⟨skipped, rest, rfl⟩ := hs
  refine (globMatch_append h).mpr ⟨_, rfl, globMatch_star.mpr ⟨skipped, m ++ rest, rfl, ?_⟩⟩
  exact (globMatch_leading hm).mpr (List.prefix_append m rest)

theorem globMatch_inside_iff {m : List Char} (h : Literal l) (hm : Literal m) :
    globMatch (l ++ '*' :: (m ++ ['*'])) s = true ↔
      ∃ skipped rest, s = l ++ (skipped ++ (m ++ rest)) := by
  refine ⟨fun hs => ?_, globMatch_inside h hm⟩
  obtain ⟨_, rfl, hstar⟩ := (globMatch_append h).mp hs
  obtain ⟨skipped, _, rfl, hlast⟩ := globMatch_star.mp hstar
  obtain ⟨rest, rfl⟩ := (globMatch_leading hm).mp hlast
  exact ⟨skipped, rest, rfl⟩

end LakiraBackend.Redis
