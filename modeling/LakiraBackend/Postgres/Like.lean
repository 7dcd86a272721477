import Mathlib.Data.List.Infix
import Mathlib.Tactic.Common

/-!
# LIKE

In a pattern `%` stands for any text, `_` for any character, and `\` for the character that comes
after it; a pattern that ends in an escape is an error.  ILIKE folds the case of the pattern and of
the text first, one character at a time.

A pattern without these characters between two `%` is searched for as it is
(`isMatch_within_chars`).  For any other there is a text that it matches and that is no longer, but
does not have it in it (`isMatch_shortest`, `plain_of_isInfix`).
-/

namespace LakiraBackend.Postgres.Like

inductive Token : Type
  | any
  | one
  | char (c : Char)
  deriving DecidableEq

/-- What a pattern stands for; none where it ends in an escape. -/
def tokens : List Char → Option (List Token)
  | [] => some []
  | '%' :: p => (tokens p).map (.any :: ·)
  | '_' :: p => (tokens p).map (.one :: ·)
  | ['\\'] => none
  | '\\' :: c :: p => (tokens p).map (.char c :: ·)
  | c :: p => (tokens p).map (.char c :: ·)

def isMatch : List Token → List Char → Bool
  | [], t => t.isEmpty
  | .any :: p, t => t.tails.any (isMatch p)
  | .one :: _, [] => false
  | .one :: p, _ :: t => isMatch p t
  | .char _ :: _, [] => false
  | .char c :: p, d :: t => c = d && isMatch p t

def isSpecial (c : Char) : Bool := c = '%' || c = '_' || c = '\\'

/-- No character stands for another. -/
def Plain (s : List Char) : Prop := ∀ c ∈ s, isSpecial c = false

instance (s : List Char) : Decidable (Plain s) := inferInstanceAs (Decidable (∀ _ ∈ _, _))

variable {p q : List Token} {s t : List Char}

/-! ### What is matched -/

theorem isMatch_any : isMatch (.any :: p) t = true ↔ ∃ a b, t = a ++ b ∧ isMatch p b = true := by
  rw [isMatch, List.any_eq_true]
  constructor
  · rintro ⟨b, hb, hm⟩
    obtain ⟨a, rfl⟩ := (List.mem_tails _ _).mp hb
    exact ⟨a, b, rfl, hm⟩
  · rintro ⟨a, b, rfl, hm⟩
    exact ⟨b, (List.mem_tails _ _).mpr (List.suffix_append a b), hm⟩

/-- **Patterns one after the other** match what comes one after the other. -/
theorem isMatch_append : isMatch (p ++ q) t = true ↔
    ∃ a b, t = a ++ b ∧ isMatch p a = true ∧ isMatch q b = true := by
  induction p generalizing t with
  | nil =>
    constructor
    · exact fun hm => ⟨[], t, rfl, rfl, hm⟩
    · rintro ⟨a, b, rfl, ha, hb⟩
      rw [List.isEmpty_iff.mp ha]
      exact hb
  | cons x p ih =>
    cases x with
    | any =>
      rw [List.cons_append, isMatch_any]
      constructor
      · rintro ⟨a, b, rfl, hm⟩
        obtain ⟨b, c, rfl, hb, hc⟩ := ih.mp hm
        exact ⟨a ++ b, c, (List.append_assoc a b c).symm, isMatch_any.mpr ⟨a, b, rfl, hb⟩, hc⟩
      · rintro ⟨_, c, rfl, ha, hc⟩
        obtain ⟨a, b, rfl, hb⟩ := isMatch_any.mp ha
        exact ⟨a, b ++ c, List.append_assoc a b c, ih.mpr ⟨b, c, rfl, hb, hc⟩⟩
    | one =>
      cases t with
      | nil =>
        refine iff_of_false nofun ?_
        rintro ⟨a, b, hab, ha, _⟩
        rw [(List.append_eq_nil_iff.mp hab.symm).1] at ha
        cases ha
      | cons d t =>
        refine ih.trans ⟨?_, ?_⟩
        · rintro ⟨a, b, rfl, ha, hb⟩
          exact ⟨d :: a, b, rfl, ha, hb⟩
        · rintro ⟨_ | ⟨d', a⟩, b, hab, ha, hb⟩
          · cases ha
          · exact ⟨a, b, (List.cons.inj hab).2, ha, hb⟩
    | char c =>
      cases t with
      | nil =>
        refine iff_of_false nofun ?_
        rintro ⟨a, b, hab, ha, _⟩
        rw [(List.append_eq_nil_iff.mp hab.symm).1] at ha
        cases ha
      | cons d t =>
        rw [List.cons_append, isMatch, Bool.and_eq_true, decide_eq_true_eq, ih]
        constructor
        · rintro ⟨rfl, a, b, rfl, ha, hb⟩
          exact ⟨c :: a, b, rfl, by rw [isMatch, decide_eq_true rfl, Bool.true_and]; exact ha, hb⟩
        · rintro ⟨_ | ⟨d', a⟩, b, hab, ha, hb⟩
          · cases ha
          · obtain ⟨rfl, rfl⟩ := List.cons.inj hab
            rw [isMatch, Bool.and_eq_true, decide_eq_true_eq] at ha
            exact ⟨ha.1, a, b, rfl, ha.2, hb⟩

theorem isMatch_any_self : isMatch [.any] t = true :=
  isMatch_any.mpr ⟨t, [], (List.append_nil t).symm, rfl⟩

theorem isMatch_chars : isMatch (s.map .char) t = true ↔ t = s := by
  induction s generalizing t with
  | nil => exact List.isEmpty_iff
  | cons c s ih =>
    cases t with
    | nil => exact iff_of_false nofun nofun
    | cons d t =>
      rw [List.map_cons, isMatch, Bool.and_eq_true, decide_eq_true_eq, ih, List.cons.injEq, eq_comm]

/-- **A text is searched for where it is between two `%`**. -/
theorem isMatch_within_chars :
    isMatch (.any :: (s.map .char ++ [.any])) t = true ↔ s <:+: t := by
  rw [isMatch_any]
  constructor
  · rintro ⟨a, _, rfl, hm⟩
    obtain ⟨b, c, rfl, hb, _⟩ := isMatch_append.mp hm
    rw [isMatch_chars.mp hb]
    exact ⟨a, c, List.append_assoc a s c⟩
  · rintro ⟨a, c, rfl⟩
    exact ⟨a, s ++ c, List.append_assoc a s c,
      isMatch_append.mpr ⟨s, c, rfl, isMatch_chars.mpr rfl, isMatch_any_self⟩⟩

/-! ### Patterns without special characters -/

theorem tokens_cons {c : Char} (hc : isSpecial c = false) (s : List Char) :
    tokens (c :: s) = (tokens s).map (.char c :: ·) := by
  simp only [isSpecial, Bool.or_eq_false_iff, decide_eq_false_iff_not] at hc
  rw [tokens]
  · exact fun h => hc.1.1 h
  · exact fun h => hc.1.2 h
  · exact fun h _ => hc.2 h
  · exact fun _ _ h _ => hc.2 h

theorem tokens_append (hs : Plain s) (p : List Char) :
    tokens (s ++ p) = (tokens p).map (s.map .char ++ ·) := by
  induction s with
  | nil => simp
  | cons c s ih =>
    obtain ⟨hc, hs⟩ := List.forall_mem_cons.mp hs
    rw [List.cons_append, tokens_cons hc, ih hs, Option.map_map]
    rfl

/-! ### The shortest text -/

/-- The shortest text that a pattern matches, with a `%` after it.  Where any character will do,
it is not the one of the pattern. -/
def shortest : List Char → List Char
  | [] => []
  | '%' :: s => shortest s
  | '_' :: s => '%' :: shortest s
  | ['\\'] => ['%']
  | '\\' :: c :: s => c :: shortest s
  | c :: s => c :: shortest s

theorem isMatch_cons_self {c : Char} : isMatch (.char c :: p) (c :: t) = isMatch p t := by
  rw [isMatch, decide_eq_true rfl, Bool.true_and]

/-- The last case of the definitions above. -/
theorem isSpecial_eq_false {c : Char} (h₁ : c = '%' → False) (h₂ : c = '_' → False)
    (h₃ : c = '\\' → s = [] → False) (h₄ : ∀ d t, c = '\\' → s = d :: t → False) :
    isSpecial c = false := by
  have hescape : ¬ c = '\\' := by
    intro hc
    cases s with
    | nil => exact h₃ hc rfl
    | cons d t => exact h₄ d t hc rfl
  simp only [isSpecial, Bool.or_eq_false_iff, decide_eq_false_iff_not]
  exact ⟨⟨h₁, h₂⟩, hescape⟩

theorem shortest_cons {c : Char} (hc : isSpecial c = false) (s : List Char) :
    shortest (c :: s) = c :: shortest s := by
  simp only [isSpecial, Bool.or_eq_false_iff, decide_eq_false_iff_not] at hc
  rw [shortest]
  · exact fun h => hc.1.1 h
  · exact fun h => hc.1.2 h
  · exact fun h _ => hc.2 h
  · exact fun _ _ h _ => hc.2 h

/-- The pattern matches the text, and nothing shorter. -/
def Shortest (p : List Token) (t : List Char) : Prop :=
  isMatch p t = true ∧ ∀ t', isMatch p t' = true → t.length ≤ t'.length

theorem Shortest.any (h : Shortest p t) : Shortest (.any :: p) t := by
  refine ⟨isMatch_any.mpr ⟨[], t, rfl, h.1⟩, fun t' hm => ?_⟩
  obtain ⟨a, b, rfl, hb⟩ := isMatch_any.mp hm
  have hle := h.2 b hb
  rw [List.length_append]
  omega

theorem Shortest.one (h : Shortest p t) (c : Char) : Shortest (.one :: p) (c :: t) := by
  refine ⟨h.1, fun t' hm => ?_⟩
  cases t' with
  | nil => cases hm
  | cons d t' => exact Nat.succ_le_succ (h.2 t' hm)

theorem Shortest.char (h : Shortest p t) (c : Char) : Shortest (.char c :: p) (c :: t) := by
  refine ⟨isMatch_cons_self.trans h.1, fun t' hm => ?_⟩
  cases t' with
  | nil => cases hm
  | cons d t' =>
    rw [isMatch, Bool.and_eq_true] at hm
    exact Nat.succ_le_succ (h.2 t' hm.2)

/-- **The shortest text is one**, and the pattern is without error. -/
theorem isMatch_shortest (s : List Char) :
    ∃ p, tokens (s ++ ['%']) = some p ∧ Shortest p (shortest s) := by
  have hnil : Shortest [] [] := ⟨rfl, fun _ _ => Nat.zero_le _⟩
  induction s using shortest.induct with
  | case1 => exact ⟨[.any], rfl, hnil.any⟩
  | case2 s ih =>
    obtain ⟨p, hp, h⟩ := ih
    exact ⟨.any :: p, by rw [List.cons_append, tokens, hp]; rfl, h.any⟩
  | case3 s ih =>
    obtain ⟨p, hp, h⟩ := ih
    exact ⟨.one :: p, by rw [List.cons_append, tokens, hp]; rfl, h.one _⟩
  | case4 => exact ⟨[.char '%'], rfl, hnil.char _⟩
  | case5 c s ih =>
    obtain ⟨p, hp, h⟩ := ih
    exact ⟨.char c :: p, by rw [List.cons_append, List.cons_append, tokens, hp]; rfl, h.char _⟩
  | case6 c s h₁ h₂ h₃ h₄ ih =>
    obtain ⟨p, hp, h⟩ := ih
    have hc := isSpecial_eq_false h₁ h₂ h₃ h₄
    refine ⟨.char c :: p, by rw [List.cons_append, tokens_cons hc, hp]; rfl, ?_⟩
    rw [shortest_cons hc]
    exact h.char c

theorem length_shortest_le (s : List Char) : (shortest s).length ≤ s.length := by
  induction s using shortest.induct with
  | case1 => exact Nat.le_refl _
  | case2 s ih => exact Nat.le_succ_of_le ih
  | case3 s ih => exact Nat.succ_le_succ ih
  | case4 => exact Nat.le_refl _
  | case5 c s ih => exact Nat.succ_le_succ (Nat.le_succ_of_le ih)
  | case6 c s h₁ h₂ h₃ h₄ ih =>
    rw [shortest_cons (isSpecial_eq_false h₁ h₂ h₃ h₄)]
    exact Nat.succ_le_succ ih

theorem mem_shortest {c : Char} (h : c ∈ shortest s) : c ∈ s ∨ c = '%' := by
  induction s using shortest.induct with
  | case1 => cases h
  | case2 s ih => exact (ih h).imp_left (List.mem_cons_of_mem _)
  | case3 s ih =>
    rcases List.mem_cons.mp h with rfl | h
    · exact .inr rfl
    · exact (ih h).imp_left (List.mem_cons_of_mem _)
  | case4 => exact .inr (List.mem_singleton.mp h)
  | case5 d s ih =>
    rcases List.mem_cons.mp h with rfl | h
    · exact .inl (by simp)
    · exact (ih h).imp_left fun h => List.mem_cons_of_mem _ (List.mem_cons_of_mem _ h)
  | case6 d s h₁ h₂ h₃ h₄ ih =>
    rw [shortest_cons (isSpecial_eq_false h₁ h₂ h₃ h₄)] at h
    rcases List.mem_cons.mp h with rfl | h
    · exact .inl List.mem_cons_self
    · exact (ih h).imp_left (List.mem_cons_of_mem _)

/-- **A pattern that is its own shortest text** has no special character. -/
theorem plain_of_shortest (h : shortest s = s) : Plain s := by
  induction s using shortest.induct with
  | case1 => exact fun _ h => nomatch h
  | case2 s ih =>
    have hlen := congrArg List.length h
    have hle := length_shortest_le s
    rw [shortest, List.length_cons] at hlen
    omega
  | case3 s ih => exact absurd (List.cons.inj h).1 (by decide)
  | case4 => exact absurd h (by decide)
  | case5 c s ih =>
    have hlen := congrArg List.length h
    have hle := length_shortest_le s
    rw [shortest, List.length_cons, List.length_cons, List.length_cons] at hlen
    omega
  | case6 c s h₁ h₂ h₃ h₄ ih =>
    have hc := isSpecial_eq_false h₁ h₂ h₃ h₄
    rw [shortest_cons hc] at h
    exact List.forall_mem_cons.mpr ⟨hc, ih (List.cons.inj h).2⟩

/-- **The shortest text does not have a pattern in it** that has a special character. -/
theorem plain_of_isInfix (h : s <:+: shortest s) : Plain s :=
  plain_of_shortest (h.eq_of_length_le (length_shortest_le s)).symm

/-! ### ILIKE -/

/-- How the case of a character is folded. -/
structure CaseFold : Type where
  fold : Char → Char
  idem : ∀ c, fold (fold c) = fold c
  /-- These have none. -/
  caseless : ∀ c ∈ ['\x00', '%', '_', '\\'], ∀ d, fold d = c ↔ d = c

variable (F : CaseFold)

/-- `text ILIKE pattern`; none where that is an error. -/
def iLike (pattern text : List Char) : Option Bool :=
  (tokens (pattern.map F.fold)).map fun p => isMatch p (text.map F.fold)

variable {F}

theorem isSpecial_fold (c : Char) : isSpecial (F.fold c) = isSpecial c := by
  unfold isSpecial
  congr 1
  · congr 1
    · exact decide_eq_decide.mpr (F.caseless '%' (by decide) c)
    · exact decide_eq_decide.mpr (F.caseless '_' (by decide) c)
  · exact decide_eq_decide.mpr (F.caseless '\\' (by decide) c)

theorem plain_map_fold : Plain (s.map F.fold) ↔ Plain s := by
  simp only [Plain, List.forall_mem_map, isSpecial_fold]

theorem map_fold_idem (s : List Char) : (s.map F.fold).map F.fold = s.map F.fold := by
  rw [List.map_map]
  exact List.map_congr_left fun c _ => F.idem c

/-- Folding the case does not change what is special. -/
theorem shortest_map_fold (s : List Char) :
    shortest (s.map F.fold) = (shortest s).map F.fold := by
  have hfix : ∀ c ∈ ['\x00', '%', '_', '\\'], F.fold c = c :=
    fun c hc => (F.caseless c hc c).mpr rfl
  induction s using shortest.induct with
  | case1 => rfl
  | case2 s ih => rw [List.map_cons, hfix '%' (by decide), shortest, ih, shortest]
  | case3 s ih =>
    rw [List.map_cons, hfix '_' (by decide), shortest, ih, shortest, List.map_cons,
      hfix '%' (by decide)]
  | case4 => simp only [List.map_cons, List.map_nil, hfix '\\' (by decide), shortest, hfix '%' (by decide)]
  | case5 c s ih =>
    rw [List.map_cons, List.map_cons, hfix '\\' (by decide), shortest, ih, shortest, List.map_cons]
  | case6 c s h₁ h₂ h₃ h₄ ih =>
    have hc := isSpecial_eq_false h₁ h₂ h₃ h₄
    rw [List.map_cons, shortest_cons (by rw [isSpecial_fold, hc]), ih, shortest_cons hc,
      List.map_cons]

/-! ### The letters of ASCII -/

theorem isUpper_iff {c : Char} : c.isUpper = true ↔ c.val ≥ 65 ∧ c.val ≤ 90 :=
  decide_eq_true_iff

theorem toNat_bounds_of_isUpper {c : Char} (h : c.isUpper = true) :
    65 ≤ c.toNat ∧ c.toNat ≤ 90 := by
  simp only [isUpper_iff, ge_iff_le, UInt32.le_iff_toNat_le] at h
  exact h

theorem toNat_toLower {c : Char} (h : c.isUpper = true) : c.toLower.toNat = c.toNat + 32 := by
  have hle : c.val.toNat ≤ 90 := (toNat_bounds_of_isUpper h).2
  have hlower : c.toLower.val = c.val + 32 := congrArg Char.val (dif_pos (isUpper_iff.mp h))
  change c.toLower.val.toNat = c.val.toNat + 32
  rw [hlower]
  rw [UInt32.toNat_add]
  change (c.val.toNat + 32) % 4294967296 = c.val.toNat + 32
  omega

theorem toLower_of_not_isUpper {c : Char} (h : ¬ c.isUpper = true) : c.toLower = c := by
  exact dif_neg fun hbounds => h (isUpper_iff.mpr hbounds)

/-- The case of the letters of ASCII alone. -/
def CaseFold.ascii : CaseFold where
  fold := Char.toLower
  idem c := by
    by_cases hc : c.isUpper = true
    · refine toLower_of_not_isUpper fun hlower => ?_
      have h₁ := toNat_bounds_of_isUpper hc
      have h₂ := toNat_bounds_of_isUpper hlower
      rw [toNat_toLower hc] at h₂
      omega
    · rw [toLower_of_not_isUpper hc, toLower_of_not_isUpper hc]
  caseless c hc d := by
    have hmark : c.toNat < 97 ∧ ¬ c.isUpper = true := by
      simp only [List.mem_cons, List.not_mem_nil, or_false] at hc
      rcases hc with rfl | rfl | rfl | rfl <;> decide
    by_cases hd : d.isUpper = true
    · refine iff_of_false ?_ ?_
      · rintro rfl
        have h₁ := toNat_bounds_of_isUpper hd
        rw [toNat_toLower hd] at hmark
        omega
      · rintro rfl
        exact hmark.2 hd
    · rw [toLower_of_not_isUpper hd]

end LakiraBackend.Postgres.Like
