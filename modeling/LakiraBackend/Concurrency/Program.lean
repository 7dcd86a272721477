import Mathlib.Tactic.Common

/-!
# Programs that await calls

An asynchronous function runs from one `await` to the next; between two awaits
nothing else runs, and at an await anything may.  `Prog` is such a function seen
from outside: it ends with a value, it ends with an error, or it awaits a call
and goes on with the answer.  The answer to a call is a value of the type the
call has, or an error, so a failed call is an answer like any other and a
`try`/`catch` is an operation on programs (`handle`).

Nothing here says what a call does; that is `Machine.lean`.
-/

namespace LakiraBackend.Concurrency

/-- A program over the calls `Op`, answered in `Resp`, with errors in `ε`. -/
inductive Prog (Op : Type) (Resp : Op → Type) (ε α : Type) : Type
  | done (a : α)
  | fail (e : ε)
  | call (op : Op) (k : Except ε (Resp op) → Prog Op Resp ε α)

variable {Op : Type} {Resp : Op → Type} {ε α β : Type}

namespace Prog

/-- Run `p`, then go on with its value. -/
def bind : Prog Op Resp ε α → (α → Prog Op Resp ε β) → Prog Op Resp ε β
  | done a, f => f a
  | fail e, _ => fail e
  | call op k, f => call op fun r => (k r).bind f

/-- Run `p`, and `h` with its error when it ends with one. -/
def handle : Prog Op Resp ε α → (ε → Prog Op Resp ε α) → Prog Op Resp ε α
  | done a, _ => done a
  | fail e, h => h e
  | call op k, h => call op fun r => (k r).handle h

/-- Await one call: its value is the program's, its error ends the program. -/
def await (op : Op) : Prog Op Resp ε (Resp op) :=
  call op fun r => match r with
    | .ok a => done a
    | .error e => fail e

instance : Monad (Prog Op Resp ε) where
  pure := done
  bind := bind

instance : MonadExcept ε (Prog Op Resp ε) where
  throw := fail
  tryCatch := handle

@[simp] theorem pure_eq (a : α) : (pure a : Prog Op Resp ε α) = done a := rfl

@[simp] theorem throw_eq (e : ε) : (throw e : Prog Op Resp ε α) = fail e := rfl

@[simp] theorem bind_eq (p : Prog Op Resp ε α) (f : α → Prog Op Resp ε β) :
    p >>= f = p.bind f := rfl

@[simp] theorem tryCatch_eq (p : Prog Op Resp ε α) (h : ε → Prog Op Resp ε α) :
    tryCatch p h = p.handle h := rfl

@[simp] theorem done_bind (a : α) (f : α → Prog Op Resp ε β) : (done a).bind f = f a := rfl

@[simp] theorem fail_bind (e : ε) (f : α → Prog Op Resp ε β) :
    (fail e : Prog Op Resp ε α).bind f = fail e := rfl

@[simp] theorem call_bind (op : Op) (k : Except ε (Resp op) → Prog Op Resp ε α)
    (f : α → Prog Op Resp ε β) : (call op k).bind f = call op fun r => (k r).bind f := rfl

@[simp] theorem done_handle (a : α) (h : ε → Prog Op Resp ε α) : (done a).handle h = done a := rfl

@[simp] theorem fail_handle (e : ε) (h : ε → Prog Op Resp ε α) : (fail e).handle h = h e := rfl

@[simp] theorem call_handle (op : Op) (k : Except ε (Resp op) → Prog Op Resp ε α)
    (h : ε → Prog Op Resp ε α) : (call op k).handle h = call op fun r => (k r).handle h := rfl

/-! ### Which calls a program makes -/

/-- Every call the program can make, whatever the answers, is in `S`. -/
def Calls (S : Op → Prop) : Prog Op Resp ε α → Prop
  | done _ => True
  | fail _ => True
  | call op k => S op ∧ ∀ r, (k r).Calls S

variable {S S' : Op → Prop}

theorem Calls.done {a : α} : (done a : Prog Op Resp ε α).Calls S := trivial

theorem Calls.fail {e : ε} : (fail e : Prog Op Resp ε α).Calls S := trivial

theorem Calls.await {op : Op} (h : S op) : (await op : Prog Op Resp ε (Resp op)).Calls S :=
  ⟨h, fun r => by cases r <;> trivial⟩

theorem Calls.bind {p : Prog Op Resp ε α} {f : α → Prog Op Resp ε β} (hp : p.Calls S)
    (hf : ∀ a, (f a).Calls S) : (p.bind f).Calls S := by
  induction p with
  | done a => exact hf a
  | fail e => trivial
  | call op k ih => exact ⟨hp.1, fun r => ih r (hp.2 r)⟩

theorem Calls.handle {p : Prog Op Resp ε α} {h : ε → Prog Op Resp ε α} (hp : p.Calls S)
    (hh : ∀ e, (h e).Calls S) : (p.handle h).Calls S := by
  induction p with
  | done a => trivial
  | fail e => exact hh e
  | call op k ih => exact ⟨hp.1, fun r => ih r (hp.2 r)⟩

theorem Calls.mono {p : Prog Op Resp ε α} (hS : ∀ op, S op → S' op) (hp : p.Calls S) :
    p.Calls S' := by
  induction p with
  | done a => trivial
  | fail e => trivial
  | call op k ih => exact ⟨hS op hp.1, fun r => ih r (hp.2 r)⟩

/-! ### What a program can end with -/

/-- Every value the program can end with, whatever the answers, is in `R`. -/
def Ends (R : α → Prop) : Prog Op Resp ε α → Prop
  | done a => R a
  | fail _ => True
  | call _ k => ∀ r, (k r).Ends R

theorem Ends.bind {R : β → Prop} {p : Prog Op Resp ε α} {f : α → Prog Op Resp ε β}
    (hf : ∀ a, (f a).Ends R) : (p.bind f).Ends R := by
  induction p with
  | done a => exact hf a
  | fail e => trivial
  | call op k ih => exact ih

/-- The calls after a program that ends with a value in `R`. -/
theorem Calls.bind_ends {R : α → Prop} {p : Prog Op Resp ε α} {f : α → Prog Op Resp ε β}
    (hp : p.Calls S) (hR : p.Ends R) (hf : ∀ a, R a → (f a).Calls S) : (p.bind f).Calls S := by
  induction p with
  | done a => exact hf a hR
  | fail e => trivial
  | call op k ih => exact ⟨hp.1, fun r => ih r (hp.2 r) (hR r)⟩

/-! ### Programs that handle no error -/

/-- Every call is in `S`, its error ends the program, and the program's own errors are
in `F`. -/
def Strict (S : Op → Prop) (F : ε → Prop) : Prog Op Resp ε α → Prop
  | done _ => True
  | fail e => F e
  | call op k => S op ∧ (∀ e, k (.error e) = fail e) ∧ ∀ a, (k (.ok a)).Strict S F

variable {F : ε → Prop}

theorem Strict.done {a : α} : (done a : Prog Op Resp ε α).Strict S F := trivial

theorem Strict.await {op : Op} (h : S op) : (await op : Prog Op Resp ε (Resp op)).Strict S F :=
  ⟨h, fun _ => rfl, fun _ => trivial⟩

theorem Strict.bind {p : Prog Op Resp ε α} {f : α → Prog Op Resp ε β} (hp : p.Strict S F)
    (hf : ∀ a, (f a).Strict S F) : (p.bind f).Strict S F := by
  induction p with
  | done a => exact hf a
  | fail e => exact hp
  | call op k ih =>
    refine ⟨hp.1, fun e => ?_, fun a => ih (.ok a) (hp.2.2 a)⟩
    simp only [hp.2.1 e, fail_bind]

theorem Strict.mono {p : Prog Op Resp ε α} (hS : ∀ op, S op → S' op) (hp : p.Strict S F) :
    p.Strict S' F := by
  induction p with
  | done a => trivial
  | fail e => exact hp
  | call op k ih => exact ⟨hS op hp.1, hp.2.1, fun a => ih (.ok a) (hp.2.2 a)⟩

theorem Strict.calls {p : Prog Op Resp ε α} (hp : p.Strict S F) : p.Calls S := by
  induction p with
  | done a => trivial
  | fail e => trivial
  | call op k ih =>
    refine ⟨hp.1, fun r => ?_⟩
    cases r with
    | ok a => exact ih (.ok a) (hp.2.2 a)
    | error e => rw [hp.2.1 e]; trivial

end Prog

end LakiraBackend.Concurrency
