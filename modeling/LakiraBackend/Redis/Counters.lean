import Mathlib.Logic.Function.Basic
import Mathlib.Tactic.Common

/-!
# Counters with an expiry

The keys of Redis that count: what `GET`, `INCR`, `EXPIRE` and `DEL` do to them, one command at a
time, and what the clock does.  A key that is made has no expiry; one that has an expiry is gone
some time after, and one that has none stays.
-/

namespace LakiraBackend.Redis

structure Counter : Type where
  count : Nat
  /-- The seconds it was given, if it expires. -/
  expiry : Option Nat
  deriving DecidableEq

variable {κ : Type} [DecidableEq κ]

/-- What each key holds. -/
abbrev Counters (κ : Type) : Type := κ → Option Counter

inductive Command (κ : Type) : Type
  | get (key : κ)
  | incr (key : κ)
  | expire (key : κ) (seconds : Nat)
  | del (key : κ)
  deriving DecidableEq

abbrev Command.Answer : Command κ → Type
  | .get _ => Option Nat
  | .incr _ => Nat
  | .expire _ _ => Bool
  | .del _ => Nat

def Command.key : Command κ → κ
  | .get key => key
  | .incr key => key
  | .expire key _ => key
  | .del key => key

namespace Counters

/-- What is counted; none is 0. -/
def count (c : Counters κ) (key : κ) : Nat := ((c key).map Counter.count).getD 0

/-- A key that has no expiry. -/
def Lasting (c : Counters κ) (key : κ) : Prop :=
  ∃ counter, c key = some counter ∧ counter.expiry = none

instance (c : Counters κ) (key : κ) : Decidable (c.Lasting key) :=
  match h : c key with
  | none => isFalse fun ⟨_, hc, _⟩ => by rw [h] at hc; cases hc
  | some counter =>
    if he : counter.expiry = none then isTrue ⟨counter, h, he⟩
    else isFalse fun ⟨_, hc, hn⟩ => he (by rw [h] at hc; rw [Option.some.inj hc, hn])

/-- What a command answers, and what it leaves. -/
def apply (c : Counters κ) : (command : Command κ) → command.Answer × Counters κ
  | .get key => ((c key).map Counter.count, c)
  | .incr key =>
    let counter : Counter := ⟨c.count key + 1, (c key).bind Counter.expiry⟩
    (counter.count, Function.update c key (some counter))
  | .expire key seconds => ((c key).isSome, Function.update c key
      ((c key).map fun counter => { counter with expiry := some seconds }))
  | .del key => ((if (c key).isSome then 1 else 0), Function.update c key none)

/-- Time passes: a key that expires is gone. -/
def lapse (c : Counters κ) (key : κ) : Counters κ :=
  if c.Lasting key then c else Function.update c key none

variable {c : Counters κ} {key other : κ}

/-- A command changes its own key only. -/
theorem apply_of_ne {command : Command κ} (h : other ≠ command.key) :
    (c.apply command).2 other = c other := by
  cases command with
  | get key => rfl
  | incr key => exact Function.update_of_ne h _ _
  | expire key seconds => exact Function.update_of_ne h _ _
  | del key => exact Function.update_of_ne h _ _

theorem lapse_of_ne (h : other ≠ key) : c.lapse key other = c other := by
  rw [lapse]
  split
  · rfl
  · exact Function.update_of_ne h _ _

omit [DecidableEq κ] in
theorem count_congr {c' : Counters κ} (h : c' key = c key) : c'.count key = c.count key := by
  rw [count, count, h]

omit [DecidableEq κ] in
theorem lasting_congr {c' : Counters κ} (h : c' key = c key) : c'.Lasting key ↔ c.Lasting key := by
  rw [Lasting, Lasting, h]

theorem count_incr : (c.apply (.incr key)).2.count key = c.count key + 1 := by
  change ((Function.update c key _ key).map Counter.count).getD 0 = _
  rw [Function.update_self]
  rfl

theorem answer_incr : (c.apply (.incr key)).1 = c.count key + 1 := rfl

/-- A key that is made has no expiry, and one that is there keeps the one it has. -/
theorem lasting_incr : (c.apply (.incr key)).2.Lasting key ↔ c key = none ∨ c.Lasting key := by
  change (∃ counter, Function.update c key _ key = some counter ∧ _) ↔ _
  rw [Function.update_self]
  cases h : c key with
  | none => simp [count, h]
  | some counter => simp [Lasting, h]

theorem count_expire {seconds : Nat} :
    (c.apply (.expire key seconds)).2.count key = c.count key := by
  change ((Function.update c key _ key).map Counter.count).getD 0 = _
  rw [Function.update_self, Option.map_map]
  rfl

theorem not_lasting_expire {seconds : Nat} : ¬ (c.apply (.expire key seconds)).2.Lasting key := by
  rintro ⟨counter, hcounter, hnone⟩
  change Function.update c key _ key = some counter at hcounter
  rw [Function.update_self] at hcounter
  obtain ⟨old, -, rfl⟩ := Option.map_eq_some_iff.mp hcounter
  cases hnone

theorem apply_del : (c.apply (.del key)).2 key = none := Function.update_self _ _ _

omit [DecidableEq κ] in
theorem not_lasting_of_none (h : c key = none) : ¬ c.Lasting key := by
  rintro ⟨_, hc, _⟩
  rw [h] at hc
  cases hc

theorem lapse_cases : (c.Lasting key ∧ c.lapse key = c) ∨ c.lapse key key = none := by
  rw [lapse]
  by_cases h : c.Lasting key
  · exact .inl ⟨h, if_pos h⟩
  · rw [if_neg h]
    exact .inr (Function.update_self _ _ _)

end Counters

end LakiraBackend.Redis
