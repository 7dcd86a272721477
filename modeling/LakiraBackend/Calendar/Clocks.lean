import Mathlib.Order.Bounds.Basic
import Mathlib.Algebra.Order.Group.Int

/-!
# Clocks that are set forward and back

A zone is how far its clocks are ahead at each instant.  They change at an instant where that
is not what it was just before.  Over a stretch with one change at most the offset has at most
two values, one after the other (`constant_or_changes`), and a bisection between an instant
of each finds the change (`bisect_spec`).

The first instant at which the clocks show a wall time or a later one (`IsLeast`) says what to
make of any wall time: it is the first instant that shows it, and the change where none does.
-/

namespace LakiraBackend.Calendar

/-- How far the clocks are ahead. -/
abbrev Offset : Type := Int → Int

/-- What the clocks show. -/
def localTime (offset : Offset) (t : Int) : Int := t + offset t

/-- The clocks are set at this instant. -/
def Changes (offset : Offset) (t : Int) : Prop := offset (t - 1) ≠ offset t

/-- The clocks are set once at most after `lo`, up to `hi`. -/
def OneChange (offset : Offset) (lo hi : Int) : Prop :=
  ∀ s t, lo < s → s ≤ hi → lo < t → t ≤ hi → Changes offset s → Changes offset t → s = t

variable {offset : Offset} {lo hi t w : Int}

theorem localTime_eq (offset : Offset) (t : Int) : localTime offset t = t + offset t := rfl

/-- Where nothing changes the offset is one. -/
theorem eq_of_not_changes {n : Nat} (h : ∀ s, lo < s → s ≤ lo + n → ¬Changes offset s) :
    offset (lo + n) = offset lo := by
  induction n with
  | zero => rw [Int.natCast_zero, Int.add_zero]
  | succ n ih =>
    have hlast := h (lo + (n + 1 : Nat)) (by omega) (by omega)
    rw [Changes, not_not] at hlast
    rw [← hlast, show lo + ((n + 1 : Nat) : Int) - 1 = lo + n by omega]
    exact ih fun s hs hs' => h s hs (by omega)

theorem constant_of_not_changes (ht : lo ≤ t) (h : ∀ s, lo < s → s ≤ t → ¬Changes offset s) :
    offset t = offset lo := by
  obtain ⟨n, rfl⟩ := Int.le.dest ht
  exact eq_of_not_changes h

/-- **With one change at most**, the offset is one, or what it is first and then what it is
last. -/
theorem constant_or_changes (h : OneChange offset lo hi) :
    (∀ t, lo ≤ t → t ≤ hi → offset t = offset lo) ∨
    ∃ c, lo < c ∧ c ≤ hi ∧ Changes offset c ∧ (∀ t, lo ≤ t → t < c → offset t = offset lo) ∧
      ∀ t, c ≤ t → t ≤ hi → offset t = offset hi := by
  by_cases hc : ∃ c, lo < c ∧ c ≤ hi ∧ Changes offset c
  · obtain ⟨c, hlo, hhi, hchanges⟩ := hc
    have hafter : ∀ t, c ≤ t → t ≤ hi → offset t = offset c := by
      refine fun t ht ht' => constant_of_not_changes ht fun s hs hs' hch => ?_
      have := h s c (by omega) (by omega) hlo hhi hch hchanges
      omega
    refine .inr ⟨c, hlo, hhi, hchanges, fun t ht ht' => ?_, fun t ht ht' => ?_⟩
    · refine constant_of_not_changes ht fun s hs hs' hch => ?_
      have := h s c hs (by omega) hlo hhi hch hchanges
      omega
    · rw [hafter t ht ht', hafter hi hhi le_rfl]
  · exact .inl fun t ht ht' => constant_of_not_changes ht fun s hs hs' hch =>
      hc ⟨s, hs, by omega, hch⟩

/-- Clocks that are set once. -/
def setOnce (c before after : Int) : Offset := fun t => if t < c then before else after

theorem oneChange_setOnce (c before after lo hi : Int) :
    OneChange (setOnce c before after) lo hi := by
  have hchange : ∀ s, Changes (setOnce c before after) s → s = c := by
    intro s hs
    rw [Changes, setOnce, setOnce] at hs
    split at hs <;> split at hs <;> omega
  intro s t _ _ _ _ hs ht
  rw [hchange s hs, hchange t ht]

/-! ### Bisection -/

/-- Halve the stretch from where something does not hold to where it does, until they are
next to each other. -/
def bisect (p : Int → Bool) (before after : Int) : Int :=
  if 1 < after - before then
    let middle := before + (after - before) / 2
    if p middle then bisect p before middle else bisect p middle after
  else after
termination_by (after - before).toNat
decreasing_by all_goals omega

/-- **What is found** is where it holds first: it does not hold just before. -/
theorem bisect_spec {p : Int → Bool} {before after : Int} (hlt : before < after)
    (hb : p before = false) (ha : p after = true) :
    before < bisect p before after ∧ bisect p before after ≤ after ∧
      p (bisect p before after) = true ∧ p (bisect p before after - 1) = false := by
  induction before, after using bisect.induct p with
  | case1 before after hgap middle hp ih =>
    have hstep : bisect p before after = bisect p before middle := by
      rw [bisect, if_pos hgap]
      exact if_pos hp
    obtain ⟨h₁, h₂, h₃⟩ := ih (by omega) hb hp
    rw [hstep]
    exact ⟨h₁, by omega, h₃⟩
  | case2 before after hgap middle hp ih =>
    have hstep : bisect p before after = bisect p middle after := by
      rw [bisect, if_pos hgap]
      exact if_neg hp
    obtain ⟨h₁, h₂, h₃⟩ := ih (by omega) (Bool.eq_false_iff.mpr hp) ha
    rw [hstep]
    exact ⟨by omega, h₂, h₃⟩
  | case3 before after hgap =>
    rw [bisect, if_neg hgap]
    have hnext : after - 1 = before := by omega
    exact ⟨hlt, le_rfl, ha, hnext ▸ hb⟩

/-- Where it holds from some point on, that is what is found. -/
theorem isLeast_bisect {p : Int → Bool} {before after : Int} (hlt : before < after)
    (ha : p after = true)
    (hp : ∀ s t, before < s → s ≤ t → t ≤ after → p s = true → p t = true) :
    IsLeast {t | before < t ∧ t ≤ after ∧ p t = true} (bisect p before after) := by
  induction before, after using bisect.induct p with
  | case1 before after hgap middle hmid ih =>
    have hstep : bisect p before after = bisect p before middle := by
      rw [bisect, if_pos hgap]
      exact if_pos hmid
    obtain ⟨⟨h₁, h₂, h₃⟩, hleast⟩ := ih (by omega) hmid fun s t hs hst ht =>
      hp s t hs hst (by omega)
    rw [hstep]
    refine ⟨⟨h₁, by omega, h₃⟩, fun t ht => ?_⟩
    by_cases htm : t ≤ middle
    · exact hleast ⟨ht.1, htm, ht.2.2⟩
    · omega
  | case2 before after hgap middle hmid ih =>
    have hstep : bisect p before after = bisect p middle after := by
      rw [bisect, if_pos hgap]
      exact if_neg hmid
    obtain ⟨⟨h₁, h₂, h₃⟩, hleast⟩ := ih (by omega) ha fun s t hs hst ht =>
      hp s t (by omega) hst ht
    rw [hstep]
    refine ⟨⟨by omega, h₂, h₃⟩, fun t ht => ?_⟩
    by_cases htm : t ≤ middle
    · exact absurd (hp t middle ht.1 htm (by omega) ht.2.2) hmid
    · exact hleast ⟨not_le.mp htm, ht.2⟩
  | case3 before after hgap =>
    rw [bisect, if_neg hgap]
    refine ⟨⟨hlt, le_rfl, ha⟩, fun t ht => ?_⟩
    have hbefore := ht.1
    omega

theorem bisect_self (p : Int → Bool) (t : Int) : bisect p t t = t := by
  rw [bisect, if_neg (by omega)]

/-- What is found is between. -/
theorem bisect_mem {p : Int → Bool} {before after : Int} (hle : before ≤ after) :
    before ≤ bisect p before after ∧ bisect p before after ≤ after := by
  induction before, after using bisect.induct p with
  | case1 before after hgap middle hp ih =>
    have hstep : bisect p before after = bisect p before middle := by
      rw [bisect, if_pos hgap]
      exact if_pos hp
    have := ih (by omega)
    rw [hstep]
    omega
  | case2 before after hgap middle hp ih =>
    have hstep : bisect p before after = bisect p middle after := by
      rw [bisect, if_pos hgap]
      exact if_neg hp
    have := ih (by omega)
    rw [hstep]
    omega
  | case3 before after hgap =>
    rw [bisect, if_neg hgap]
    exact ⟨hle, le_rfl⟩

/-- Only what is between is asked of. -/
theorem bisect_congr {p q : Int → Bool} {before after : Int}
    (h : ∀ t, before < t → t < after → p t = q t) : bisect p before after = bisect q before after := by
  induction before, after using bisect.induct p with
  | case1 before after hgap middle hp ih =>
    have hmid : before < middle ∧ middle < after := by omega
    have hq : q middle = true := h middle hmid.1 hmid.2 ▸ hp
    rw [bisect, if_pos hgap, bisect, if_pos hgap]
    refine (if_pos hp).trans (Eq.trans ?_ (if_pos hq).symm)
    exact ih fun t ht ht' => h t ht (by omega)
  | case2 before after hgap middle hp ih =>
    have hmid : before < middle ∧ middle < after := by omega
    have hq : ¬q middle = true := h middle hmid.1 hmid.2 ▸ hp
    rw [bisect, if_pos hgap, bisect, if_pos hgap]
    refine (if_neg hp).trans (Eq.trans ?_ (if_neg hq).symm)
    exact ih fun t ht ht' => h t (by omega) ht'
  | case3 before after hgap => rw [bisect, if_neg hgap, bisect, if_neg hgap]

/-! ### The first instant -/

/-- The instants at which the clocks show a wall time or a later one. -/
def reached (offset : Offset) (w : Int) : Set Int := {t | w ≤ localTime offset t}

/-- Where the first instant shows the wall time, none before it does. -/
theorem le_of_isLeast {r : Int} (h : IsLeast (reached offset w) r) (ht : localTime offset t = w) :
    r ≤ t := h.2 ht.ge

/-- Now is before the first instant, or the clocks have shown the wall time or a later one. -/
theorem lt_isLeast_iff {r now : Int} (h : IsLeast (reached offset w) r) :
    now < r ↔ ∀ t, t ≤ now → localTime offset t < w := by
  constructor
  · intro hnow t ht
    by_contra hw
    exact absurd (h.2 (not_lt.mp hw)) (by omega)
  · intro hall
    by_contra hnow
    exact absurd h.1 (not_le.mpr (hall r (not_lt.mp hnow)))

end LakiraBackend.Calendar
