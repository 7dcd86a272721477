import LakiraBackend.Concurrency.History

/-!
# Redeeming a thing once

A caller redeems a thing in three calls: it checks that nobody has, it acts, and it
marks the thing redeemed.  Nothing holds the three together, so an action may rest
on a check that is out of date (`Stale`): somebody has acted since, or had acted
before and the mark had not taken effect.

While no check passes after a mark, these are the only ways to redeem a thing twice
(`actions_le_one_iff`).
-/

namespace LakiraBackend.Concurrency

structure Redemption (Op : Type) (Resp : Op → Type) (ε σ Req : Type) where
  /-- The entry checks the thing, and finds it not redeemed. -/
  checks : Event Op Resp ε σ Req → Bool
  /-- The entry acts on the thing; the caller has done what it has done. -/
  acts : Event Op Resp ε σ Req → List (Event Op Resp ε σ Req) → Bool
  /-- The entry marks the thing redeemed, and the mark takes effect. -/
  marks : Event Op Resp ε σ Req → Bool

namespace Redemption

variable {Op : Type} {Resp : Op → Type} {ε σ Req : Type} (R : Redemption Op Resp ε σ Req)

/-- How often the thing is acted on. -/
def actions : List (Event Op Resp ε σ Req) → Nat
  | [] => 0
  | e :: past => (if R.acts e past then 1 else 0) + actions past

/-- What had happened when thread `i` checked the thing, with the check. -/
def uptoCheck (i : Nat) (past : List (Event Op Resp ε σ Req)) : List (Event Op Resp ε σ Req) :=
  past.dropWhile fun r => !(r.tid = i && R.checks r)

/-- The entry acts on a check that is out of date: the thing was acted on since, or it
had been before, without a mark. -/
def Stale (e : Event Op Resp ε σ Req) (past : List (Event Op Resp ε σ Req)) : Prop :=
  R.acts e past = true ∧ (R.actions (R.uptoCheck e.tid past) < R.actions past ∨
    (0 < R.actions (R.uptoCheck e.tid past) ∧ ∀ m ∈ R.uptoCheck e.tid past, R.marks m = false))

instance (e : Event Op Resp ε σ Req) (past : List (Event Op Resp ε σ Req)) :
    Decidable (R.Stale e past) :=
  inferInstanceAs (Decidable (_ ∧ (_ ∨ _)))

variable {R} {e e' : Event Op Resp ε σ Req} {hist past past' : List (Event Op Resp ε σ Req)}
  {i : Nat}

theorem actions_cons_of_acts (h : R.acts e past = true) :
    R.actions (e :: past) = R.actions past + 1 := by
  rw [actions, if_pos h, Nat.add_comm]

theorem actions_cons_of_not (h : ¬ R.acts e past = true) :
    R.actions (e :: past) = R.actions past := by
  rw [actions, if_neg h, Nat.zero_add]

theorem actions_le_of_suffix (h : past <:+ hist) : R.actions past ≤ R.actions hist := by
  induction hist with
  | nil => rw [List.suffix_nil.mp h]
  | cons e hist ih =>
    rcases List.suffix_cons_iff.mp h with rfl | h
    · exact Nat.le_refl _
    · exact (ih h).trans (Nat.le_add_left _ _)

theorem actions_pos (hs : (e :: past) <:+ hist) (h : R.acts e past = true) :
    0 < R.actions hist := by
  have := actions_le_of_suffix (R := R) hs
  rw [actions_cons_of_acts h] at this
  omega

/-- Two threads that have acted have acted twice. -/
theorem two_le_actions (hs : (e :: past) <:+ hist) (h : R.acts e past = true)
    (hs' : (e' :: past') <:+ hist) (h' : R.acts e' past' = true) (hne : e.tid ≠ e'.tid) :
    2 ≤ R.actions hist := by
  have hone : ∀ {e₁ e₂ : Event Op Resp ε σ Req} {p₁ p₂ : List (Event Op Resp ε σ Req)},
      R.acts e₁ p₁ = true → R.acts e₂ p₂ = true → e₁.tid ≠ e₂.tid → (e₂ :: p₂) <:+ hist →
      (e₁ :: p₁) <:+ (e₂ :: p₂) → 2 ≤ R.actions hist := by
    intro e₁ e₂ p₁ p₂ h₁ h₂ hne hs₂ hle
    have hlt : (e₁ :: p₁) <:+ p₂ := by
      refine (List.suffix_cons_iff.mp hle).resolve_left fun heq => hne ?_
      rw [(List.cons.inj heq).1]
    have hpos := actions_pos hlt h₁
    have hle' := actions_le_of_suffix (R := R) hs₂
    rw [actions_cons_of_acts h₂] at hle'
    omega
  rcases List.suffix_or_suffix_of_suffix hs hs' with hle | hle
  · exact hone h h' hne hs' hle
  · exact hone h' h hne.symm hs hle

/-- A thread that has checked the thing has a check, at the head of what had happened then. -/
theorem uptoCheck_eq_cons {r : Event Op Resp ε σ Req} (hr : r ∈ past) (hi : r.tid = i)
    (hc : R.checks r = true) :
    ∃ r' rest, R.uptoCheck i past = r' :: rest ∧ R.checks r' = true := by
  induction past with
  | nil => cases hr
  | cons e past ih =>
    by_cases he : e.tid = i ∧ R.checks e = true
    · exact ⟨e, past, List.dropWhile_cons_of_neg (by simp [he]), he.2⟩
    · have hdrop : R.uptoCheck i (e :: past) = R.uptoCheck i past :=
        List.dropWhile_cons_of_pos (by simpa [imp_iff_not_or] using he)
      rw [hdrop]
      refine ih ((List.mem_cons.mp hr).resolve_left fun h => he ?_)
      rw [← h]
      exact ⟨hi, hc⟩

theorem uptoCheck_suffix : R.uptoCheck i past <:+ past := List.dropWhile_suffix _

/-- **Redeemed once, unless a check is out of date.** -/
theorem actions_le_one_iff
    (hguard : ∀ e past, (e :: past) <:+ hist → R.acts e past = true →
      ∃ r ∈ past, r.tid = e.tid ∧ R.checks r = true)
    (hmark : ∀ r past, (r :: past) <:+ hist → R.checks r = true →
      ∀ m ∈ r :: past, R.marks m = false) :
    R.actions hist ≤ 1 ↔ Throughout (fun e past => ¬ R.Stale e past) hist := by
  induction hist with
  | nil => exact iff_of_true (Nat.zero_le 1) trivial
  | cons e past ih =>
    have ih := ih (fun e' past' hs => hguard e' past' (hs.trans (List.suffix_cons e past)))
      fun r past' hs => hmark r past' (hs.trans (List.suffix_cons e past))
    rw [Throughout]
    by_cases ha : R.acts e past = true
    · rw [actions_cons_of_acts ha]
      constructor
      · intro hle
        have hupto : R.actions (R.uptoCheck e.tid past) ≤ R.actions past :=
          actions_le_of_suffix uptoCheck_suffix
        refine ⟨?_, ih.mp (by omega)⟩
        rintro ⟨_, hsince | ⟨hbefore, _⟩⟩ <;> omega
      · rintro ⟨hstale, _⟩
        obtain ⟨r, hr, hi, hc⟩ := hguard e past (List.suffix_refl _) ha
        obtain ⟨r', rest, hupto, hc'⟩ := uptoCheck_eq_cons hr hi hc
        -- no mark had taken effect at the check
        have hno : ∀ m ∈ R.uptoCheck e.tid past, R.marks m = false := by
          rw [hupto]
          exact hmark r' rest (hupto ▸ uptoCheck_suffix.trans (List.suffix_cons e past)) hc'
        by_contra hmany
        refine hstale ⟨ha, ?_⟩
        rcases Nat.eq_zero_or_pos (R.actions (R.uptoCheck e.tid past)) with hzero | hpos
        · exact .inl (by omega)
        · exact .inr ⟨hpos, hno⟩
    · rw [actions_cons_of_not ha, ih]
      exact (and_iff_right fun h => ha h.1).symm

end Redemption

end LakiraBackend.Concurrency
