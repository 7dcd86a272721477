import LakiraBackend.Concurrency.Serial
import Mathlib.Data.List.Basic

/-!
# A program that is interrupted

A program makes its calls, and between them something else happens to the world: `during` follows
both.  Where the calls work on a part of the world that the rest leaves alone (`Apart`), the program
ends as it does by itself (`Ensures.of_during`).
-/

namespace LakiraBackend.Concurrency

variable {Op : Type} {Resp : Op → Type} {ε σ τ Inp X α β : Type}

/-- What comes next: a call of the program, or something else. -/
inductive Moment (Inp X : Type) : Type
  | call (inp : Inp)
  | other (x : X)

section

variable (exec : Inp → (op : Op) → σ → Option (Except ε (Resp op) × σ)) (other : X → σ → σ)

/-- What is left of the program, and of the world. -/
def during : List (Moment Inp X) → Prog Op Resp ε α → σ → Option (Prog Op Resp ε α × σ)
  | [], p, w => some (p, w)
  | .call inp :: ms, .call op k, w => (exec inp op w).bind fun (r, w') => during ms (k r) w'
  | .call _ :: _, _, _ => none
  | .other x :: ms, p, w => during ms p (other x w)

/-- The part of the world that the calls work on. -/
structure Apart (part : σ → τ)
    (core : Inp → (op : Op) → τ → Option (Except ε (Resp op) × τ)) : Prop where
  exec_core : ∀ {inp : Inp} {op : Op} {w w' : σ} {r : Except ε (Resp op)},
    exec inp op w = some (r, w') → core inp op (part w) = some (r, part w')
  other_part : ∀ x w, part (other x w) = part w

end

variable {exec : Inp → (op : Op) → σ → Option (Except ε (Resp op) × σ)} {other : X → σ → σ}
  {ms : List (Moment Inp X)} {p p' : Prog Op Resp ε α} {w w' : σ}

/-- What a first call leads to. -/
theorem of_during_call {inp : Inp} (h : during exec other (.call inp :: ms) p w = some (p', w')) :
    ∃ op k r w₁, p = .call op k ∧ exec inp op w = some (r, w₁) ∧
      during exec other ms (k r) w₁ = some (p', w') := by
  cases p with
  | call op k =>
    obtain ⟨⟨r, w₁⟩, he, hrest⟩ := Option.bind_eq_some_iff.mp h
    exact ⟨op, k, r, w₁, rfl, he, hrest⟩
  | _ => cases h

/-- What each moment keeps. -/
theorem during_induction {I : Prog Op Resp ε α → σ → Prop}
    (hcall : ∀ {inp : Inp} {op : Op} {k : Except ε (Resp op) → Prog Op Resp ε α} {w w' : σ}
      {r : Except ε (Resp op)}, I (.call op k) w → exec inp op w = some (r, w') → I (k r) w')
    (hother : ∀ x p w, I p w → I p (other x w)) (hI : I p w)
    (h : during exec other ms p w = some (p', w')) : I p' w' := by
  induction ms generalizing p w with
  | nil =>
    cases h
    exact hI
  | cons m ms ih =>
    cases m with
    | call inp =>
      obtain ⟨op, k, r, w₁, rfl, he, hrest⟩ := of_during_call h
      exact ih (hcall hI he) hrest
    | other x => exact ih (hother x p w hI) h

/-- **The program ends as it does by itself.** -/
theorem Ensures.of_during {part : σ → τ}
    {core : Inp → (op : Op) → τ → Option (Except ε (Resp op) × τ)}
    {Q : Except ε α → τ → Prop} (hpart : Apart exec other part core)
    (hp : Ensures core (fun _ _ => true) p Q (part w))
    (h : during exec other ms p w = some (p', w')) :
    Ensures core (fun _ _ => true) p' Q (part w') := by
  refine during_induction (I := fun p w => Ensures core (fun _ _ => true) p Q (part w)) ?_ ?_ hp h
  · intro inp op k w w' r hI he
    exact hI inp r (part w') rfl (hpart.exec_core he)
  · intro x p w hI
    rw [hpart.other_part]
    exact hI

/-! ### Calls that come last -/

namespace Prog

/-- Once a call in `S` is made, only calls in `T` follow. -/
def Turns (S T : Op → Prop) : Prog Op Resp ε α → Prop
  | done _ => True
  | fail _ => True
  | call op k => (S op → ∀ r, (k r).Calls T) ∧ ∀ r, (k r).Turns S T

variable {S T : Op → Prop} {q : Prog Op Resp ε β} {f : β → Prog Op Resp ε α}

theorem Turns.of_calls (h : p.Calls T) : p.Turns S T := by
  induction p with
  | done a => trivial
  | fail e => trivial
  | call op k ih => exact ⟨fun _ => h.2, fun r => ih r (h.2 r)⟩

/-- A program may come before that makes no call in `S`. -/
theorem Turns.bind (h : q.Calls fun op => ¬S op) (hf : ∀ b, (f b).Turns S T) :
    (q.bind f).Turns S T := by
  induction q with
  | done b => exact hf b
  | fail e => trivial
  | call op k ih => exact ⟨fun hop => absurd hop h.1, fun r => ih r (h.2 r)⟩

end Prog

end LakiraBackend.Concurrency
