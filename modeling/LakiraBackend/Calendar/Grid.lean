import Mathlib.Logic.Function.Iterate
import Mathlib.Order.Basic
import Mathlib.Algebra.Order.Group.Int
import Mathlib.Tactic.Ring

/-!
# Grids

A line cut up by marks: `start` is the mark at or before a place, `next` the first one after it.
Steps from mark to mark give all of them up to a last place, in order (`mem_steps`,
`pairwise_steps`), and as many as it takes to get past that (`length_steps_le_iff`).  Where
each step is about as long as any other, there are no more of them than the line has room for
(`length_steps_le`, and `length_steps_le_of_isMark` up to a mark).
-/

namespace LakiraBackend.Calendar

/-- `generate_series(first, last, step)`, as long as there is fuel. -/
def steps (step : Int → Int) (last : Int) : Nat → Int → List Int
  | 0, _ => []
  | fuel + 1, t => if t ≤ last then t :: steps step last fuel (step t) else []

structure Grid : Type where
  start : Int → Int
  next : Int → Int
  start_le : ∀ w, start w ≤ w
  lt_next : ∀ w, w < next w
  start_next : ∀ w, start (next w) = next w
  start_eq : ∀ w b, start w ≤ b → b < next w → start b = start w

namespace Grid

variable (G : Grid)

def IsMark (b : Int) : Prop := G.start b = b

variable {G} {w b t last unit : Int}

theorem isMark_next (w : Int) : G.IsMark (G.next w) := G.start_next w

theorem isMark_start (w : Int) : G.IsMark (G.start w) :=
  G.start_eq w _ le_rfl ((G.start_le w).trans_lt (G.lt_next w))

/-- A mark after a place is not before the next one. -/
theorem next_le (hb : G.IsMark b) (h : w < b) : G.next w ≤ b := by
  by_contra hlt
  have heq := G.start_eq w b ((G.start_le w).trans h.le) (not_le.mp hlt)
  rw [hb] at heq
  have := G.start_le w
  omega

/-- A mark up to a place is not after the start. -/
theorem le_start (hb : G.IsMark b) (h : b ≤ w) : b ≤ G.start w := by
  by_contra hlt
  have heq := G.start_eq w b (not_le.mp hlt).le (h.trans_lt (G.lt_next w))
  rw [hb] at heq
  omega

theorem next_start (w : Int) : G.next (G.start w) = G.next w := by
  refine le_antisymm ?_ ?_
  · exact next_le (isMark_next w) ((G.start_le w).trans_lt (G.lt_next w))
  · refine next_le (isMark_next _) ?_
    by_contra hlt
    have := le_start (isMark_next (G.start w)) (not_lt.mp hlt)
    have := G.lt_next (G.start w)
    omega

/-! ### Steps from mark to mark -/

/-- What steps agree on the marks gives the same. -/
theorem steps_congr {step : Int → Int} (h : ∀ b, G.IsMark b → step b = G.next b) (last : Int)
    (fuel : Nat) (hb : G.IsMark b) : steps step last fuel b = steps G.next last fuel b := by
  induction fuel generalizing b with
  | zero => rfl
  | succ fuel ih =>
    rw [steps, steps, h b hb, ih (isMark_next b)]

/-- Each step is as long as the unit. -/
def Spaced (G : Grid) (unit : Int) : Prop := 0 < unit ∧ ∀ b, G.IsMark b → b + unit ≤ G.next b

/-- **The marks** up to the last place. -/
theorem mem_steps (hunit : G.Spaced unit) {fuel : Nat} (hb : G.IsMark b)
    (hfuel : last < b + fuel * unit) {t : Int} :
    t ∈ steps G.next last fuel b ↔ G.IsMark t ∧ b ≤ t ∧ t ≤ last := by
  induction fuel generalizing b with
  | zero =>
    refine ⟨fun h => absurd h List.not_mem_nil, fun ⟨_, hle, hlast⟩ => ?_⟩
    rw [Int.natCast_zero, Int.zero_mul] at hfuel
    omega
  | succ fuel ih =>
    rw [steps]
    by_cases hle : b ≤ last
    · have hnext := hunit.2 b hb
      have hfuel' : last < G.next b + fuel * unit := by
        have hmul : ((fuel + 1 : Nat) : Int) * unit = fuel * unit + unit := by
          rw [Int.natCast_add, Int.add_mul, Int.natCast_one, Int.one_mul]
        omega
      rw [if_pos hle, List.mem_cons, ih (isMark_next b) hfuel']
      constructor
      · rintro (rfl | ⟨ht, hbt, hlast⟩)
        · exact ⟨hb, le_rfl, hle⟩
        · exact ⟨ht, (G.lt_next b).le.trans hbt, hlast⟩
      · rintro ⟨ht, hbt, hlast⟩
        by_cases heq : t = b
        · exact .inl heq
        · exact .inr ⟨ht, next_le ht (by omega), hlast⟩
    · rw [if_neg hle]
      refine ⟨fun h => absurd h List.not_mem_nil, fun ⟨_, hbt, hlast⟩ => ?_⟩
      omega

/-- They come in order. -/
theorem pairwise_steps (last : Int) (fuel : Nat) (b : Int) :
    (steps G.next last fuel b).Pairwise (· < ·) ∧ ∀ t ∈ steps G.next last fuel b, b ≤ t := by
  induction fuel generalizing b with
  | zero => exact ⟨.nil, fun t ht => absurd ht List.not_mem_nil⟩
  | succ fuel ih =>
    obtain ⟨hpairs, hle⟩ := ih (G.next b)
    have hlt := G.lt_next b
    rw [steps]
    split
    · refine ⟨List.pairwise_cons.mpr ⟨fun t ht => hlt.trans_le (hle t ht), hpairs⟩, ?_⟩
      intro t ht
      rcases List.mem_cons.mp ht with rfl | ht
      · exact le_rfl
      · exact hlt.le.trans (hle t ht)
    · exact ⟨.nil, fun t ht => absurd ht List.not_mem_nil⟩

/-- There are as many as it takes to get past the last place. -/
theorem length_steps_le {fuel : Nat} (k : Nat) (h : last < G.next^[k] b) :
    (steps G.next last fuel b).length ≤ k := by
  induction fuel generalizing b k with
  | zero => exact Nat.zero_le _
  | succ fuel ih =>
    rw [steps]
    split
    · cases k with
      | zero =>
        rw [Function.iterate_zero_apply] at h
        omega
      | succ k =>
        rw [Function.iterate_succ_apply] at h
        exact Nat.succ_le_succ (ih k h)
    · exact Nat.zero_le _

/-! ### Steps of about one length -/

/-- So many steps are so many lengths, give or take the slack. -/
def Steady (G : Grid) (length slack : Int) : Prop :=
  ∀ (k : Nat) (b : Int), G.IsMark b → b + k * length - slack ≤ G.next^[k] b

variable {length slack : Int}

/-- From the start of a place there is one step more than the line has room for. -/
theorem length_steps_le_succ (h : G.Steady length slack) {fuel : Nat} (k : Nat)
    (hlast : last ≤ w + k * length - slack) :
    (steps G.next last fuel (G.start w)).length ≤ k + 1 := by
  refine length_steps_le (k + 1) ?_
  rw [Function.iterate_succ_apply, next_start]
  have hk := h k _ (isMark_next (G := G) w)
  have hnext := G.lt_next w
  omega

/-- Up to a mark it is made up for by the last one, which is not taken. -/
theorem length_steps_le_of_isMark (h : G.Steady length slack) {fuel : Nat} (k : Nat) {e : Int}
    (he : G.IsMark e) (hlast : last < e) (hroom : e ≤ w + (k + 1) * length - slack) :
    (steps G.next last fuel (G.start w)).length ≤ k + 1 := by
  refine length_steps_le (k + 1) ?_
  by_contra hle
  have hnext : G.next (G.next^[k + 1] (G.start w)) ≤ e := next_le he (by omega)
  rw [← Function.iterate_succ_apply' G.next (k + 1), Function.iterate_succ_apply, next_start] at hnext
  have hk := h (k + 1) _ (isMark_next (G := G) w)
  have hlt := G.lt_next w
  rw [Int.natCast_add, Int.natCast_one] at hk
  omega

end Grid

end LakiraBackend.Calendar
