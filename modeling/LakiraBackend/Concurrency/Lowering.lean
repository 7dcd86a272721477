import LakiraBackend.Concurrency.Program

/-!
# Programs whose calls are programs

A program over some calls becomes one over others when each call is itself a program over those:
`lower` puts it in the call's place, and what it ends with, a value or an error, is the answer.
-/

namespace LakiraBackend.Concurrency

namespace Prog

variable {Op Op' : Type} {Resp : Op → Type} {Resp' : Op' → Type} {ε α β γ : Type}

theorem bind_assoc (p : Prog Op Resp ε α) (f : α → Prog Op Resp ε β) (g : β → Prog Op Resp ε γ) :
    (p.bind f).bind g = p.bind fun a => (f a).bind g := by
  induction p with
  | done a => rfl
  | fail e => rfl
  | call op k ih => exact congrArg (call op) (funext ih)

/-- What a program ends with, as a value. -/
def attempt : Prog Op Resp ε α → Prog Op Resp ε (Except ε α)
  | done a => done (.ok a)
  | fail e => done (.error e)
  | call op k => call op fun r => (k r).attempt

/-- Each call by its program. -/
def lower (f : (op : Op) → Prog Op' Resp' ε (Resp op)) : Prog Op Resp ε α → Prog Op' Resp' ε α
  | done a => done a
  | fail e => fail e
  | call op k => (f op).attempt.bind fun r => (k r).lower f

variable (f : (op : Op) → Prog Op' Resp' ε (Resp op))

@[simp] theorem lower_done (a : α) : (done a : Prog Op Resp ε α).lower f = done a := rfl

@[simp] theorem lower_fail (e : ε) : (fail e : Prog Op Resp ε α).lower f = fail e := rfl

theorem lower_bind (p : Prog Op Resp ε α) (g : α → Prog Op Resp ε β) :
    (p.bind g).lower f = (p.lower f).bind fun a => (g a).lower f := by
  induction p with
  | done a => rfl
  | fail e => rfl
  | call op k ih =>
    change (f op).attempt.bind (fun r => ((k r).bind g).lower f) = _
    rw [lower, bind_assoc]
    exact congrArg _ (funext ih)

theorem attempt_bind_rethrow (p : Prog Op Resp ε α) :
    (p.attempt.bind fun r => match r with
      | .ok a => done a
      | .error e => fail e) = p := by
  induction p with
  | done a => rfl
  | fail e => rfl
  | call op k ih => exact congrArg (call op) (funext ih)

/-- A call that is awaited is its program. -/
@[simp] theorem lower_await (op : Op) : (await op : Prog Op Resp ε (Resp op)).lower f = f op := by
  change (f op).attempt.bind _ = f op
  refine Eq.trans (congrArg _ (funext fun r => ?_)) (attempt_bind_rethrow (f op))
  cases r <;> rfl

theorem lower_await_bind (op : Op) (g : Resp op → Prog Op Resp ε α) :
    ((await op : Prog Op Resp ε (Resp op)).bind g).lower f =
      (f op).bind fun a => (g a).lower f := by
  rw [lower_bind, lower_await]

/-! ### The calls of a program that is lowered -/

variable {f} {S : Op → Prop} {S' : Op' → Prop}

theorem Calls.attempt {p : Prog Op Resp ε α} (hp : p.Calls S) : p.attempt.Calls S := by
  induction p with
  | done a => trivial
  | fail e => trivial
  | call op k ih => exact ⟨hp.1, fun r => ih r (hp.2 r)⟩

theorem Calls.lower {p : Prog Op Resp ε α} (hp : p.Calls S) (hf : ∀ op, S op → (f op).Calls S') :
    (p.lower f).Calls S' := by
  induction p with
  | done a => trivial
  | fail e => trivial
  | call op k ih => exact (hf op hp.1).attempt.bind fun r => ih r (hp.2 r)

end Prog

end LakiraBackend.Concurrency
