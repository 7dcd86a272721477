import LakiraBackend.Concurrency.Machine

/-!
# A request that runs alone

`serve` admits a request and steps its thread to its end, while the other threads stay where they
are: each call is answered with the next input, which has to be `fresh` in the world it is made in.
What `Ensures` says of the program holds of each way the request can end (`Ensures.of_serve`); it is
computed along the program, with no invariant.
-/

namespace LakiraBackend.Concurrency

variable {Op : Type} {Resp : Op → Type} {ε σ Inp Req ρ α β : Type}

/-- What a program has ended with. -/
def Prog.result : Prog Op Resp ε α → Option (Except ε α)
  | done a => some (.ok a)
  | fail e => some (.error e)
  | call _ _ => none

section

variable (exec : Inp → (op : Op) → σ → Option (Except ε (Resp op) × σ)) (fresh : Inp → σ → Bool)

/-- However the program ends, it ends with `Q`. -/
def Ensures : Prog Op Resp ε α → (Except ε α → σ → Prop) → σ → Prop
  | .done a, Q, w => Q (.ok a) w
  | .fail e, Q, w => Q (.error e) w
  | .call op k, Q, w => ∀ inp r w', fresh inp w = true → exec inp op w = some (r, w') →
      Ensures (k r) Q w'

variable {exec fresh} {Q Q' : Except ε α → σ → Prop} {w w' : σ}

@[simp] theorem ensures_done {a : α} :
    Ensures exec fresh (.done a : Prog Op Resp ε α) Q w ↔ Q (.ok a) w := Iff.rfl

@[simp] theorem ensures_fail {e : ε} :
    Ensures exec fresh (.fail e : Prog Op Resp ε α) Q w ↔ Q (.error e) w := Iff.rfl

theorem Ensures.mono {p : Prog Op Resp ε α} (h : Ensures exec fresh p Q w)
    (hQ : ∀ x w, Q x w → Q' x w) : Ensures exec fresh p Q' w := by
  induction p generalizing w with
  | done a => exact hQ _ _ h
  | fail e => exact hQ _ _ h
  | call op k ih => exact fun inp r w' hf he => ih r (h inp r w' hf he)

/-- **Sequencing.** -/
theorem ensures_bind {p : Prog Op Resp ε α} {f : α → Prog Op Resp ε β}
    {R : Except ε β → σ → Prop} :
    Ensures exec fresh (p.bind f) R w ↔ Ensures exec fresh p (fun x w => match x with
      | .ok a => Ensures exec fresh (f a) R w
      | .error e => R (.error e) w) w := by
  induction p generalizing w with
  | done a => rfl
  | fail e => rfl
  | call op k ih =>
    exact forall_congr' fun inp => forall_congr' fun r => forall_congr' fun w' =>
      forall_congr' fun _ => forall_congr' fun _ => ih r

/-- Sequencing, where `p` ensures more than it has to. -/
theorem Ensures.seq {p : Prog Op Resp ε α} {f : α → Prog Op Resp ε β}
    {R : Except ε β → σ → Prop} (h : Ensures exec fresh p Q w)
    (hok : ∀ a w, Q (.ok a) w → Ensures exec fresh (f a) R w)
    (herror : ∀ e w, Q (.error e) w → R (.error e) w) : Ensures exec fresh (p.bind f) R w :=
  ensures_bind.mpr (h.mono fun x w hx => match x with
    | .ok a => hok a w hx
    | .error e => herror e w hx)

/-- **Handling.** -/
theorem ensures_handle {p : Prog Op Resp ε α} {h : ε → Prog Op Resp ε α} :
    Ensures exec fresh (p.handle h) Q w ↔ Ensures exec fresh p (fun x w => match x with
      | .ok a => Q (.ok a) w
      | .error e => Ensures exec fresh (h e) Q w) w := by
  induction p generalizing w with
  | done a => rfl
  | fail e => rfl
  | call op k ih =>
    exact forall_congr' fun inp => forall_congr' fun r => forall_congr' fun w' =>
      forall_congr' fun _ => forall_congr' fun _ => ih r

theorem ensures_await {op : Op} {Q : Except ε (Resp op) → σ → Prop} :
    Ensures exec fresh (Prog.await op) Q w ↔
      ∀ inp r w', fresh inp w = true → exec inp op w = some (r, w') → Q r w' := by
  refine forall_congr' fun inp => forall_congr' fun r => forall_congr' fun w' =>
    forall_congr' fun _ => forall_congr' fun _ => ?_
  cases r <;> rfl

end

/-! ### Stepping one thread -/

namespace Machine

variable (M : Machine Op Resp ε σ Inp Req ρ) (fresh : Inp → σ → Bool)

/-- What thread `i` has ended with. -/
def outcome (c : Config Op Resp ε σ Req ρ) (i : Nat) : Option (Except ε ρ) :=
  c.threads[i]?.bind fun t => t.2.result

/-- Step thread `i` to its end, and nothing else. -/
def finish (i : Nat) : List Inp → Config Op Resp ε σ Req ρ →
    Option (Except ε ρ × Config Op Resp ε σ Req ρ)
  | [], c => (outcome c i).map fun x => (x, c)
  | inp :: inps, c =>
    match outcome c i with
    | some x => some (x, c)
    | none =>
      if fresh inp c.state.world then (M.next c (.step i inp)).bind (finish i inps) else none

/-- A request that is admitted, and runs to its end while nothing else does. -/
def serve (c : Config Op Resp ε σ Req ρ) (q : Req) (inps : List Inp) :
    Option (Except ε ρ × Config Op Resp ε σ Req ρ) :=
  (M.next c (.spawn q)).bind (M.finish fresh c.threads.length inps)

variable {M fresh} {c c' : Config Op Resp ε σ Req ρ} {i : Nat} {q : Req} {p : Prog Op Resp ε ρ}
  {op : Op} {k : Except ε (Resp op) → Prog Op Resp ε ρ} {inp : Inp} {inps : List Inp}
  {x : Except ε ρ}

theorem outcome_eq (h : c.threads[i]? = some (q, p)) : outcome c i = p.result := by
  rw [outcome, h]
  rfl

theorem next_step (h : c.threads[i]? = some (q, .call op k)) :
    M.next c (.step i inp) = (M.exec i inp op c.state.world).map fun r =>
      ⟨c.state.push i q (.call op r.1) r.2, c.threads.set i (q, k r.1)⟩ := by
  simp only [next, h]
  cases M.exec i inp op c.state.world <;> rfl

/-- The thread that is stepped goes on with its program. -/
theorem thread_set {p' : Prog Op Resp ε ρ} (h : c.threads[i]? = some (q, p)) :
    (c.threads.set i (q, p'))[i]? = some (q, p') := by
  obtain ⟨hi, _⟩ := List.getElem?_eq_some_iff.mp h
  exact List.getElem?_set_self hi

theorem finish_of_result (h : c.threads[i]? = some (q, p)) (hp : p.result = some x) :
    M.finish fresh i inps c = some (x, c) := by
  cases inps <;> simp only [finish, outcome_eq h, hp, Option.map_some]

end Machine

open Machine

variable {M : Machine Op Resp ε σ Inp Req ρ} {fresh : Inp → σ → Bool}
  {c c' : Config Op Resp ε σ Req ρ} {i : Nat} {q : Req} {p : Prog Op Resp ε ρ}
  {inps : List Inp} {x : Except ε ρ} {Q : Except ε ρ → σ → Prop}

/-- **Each way a thread ends is as its program ensures.** -/
theorem Ensures.of_finish (h : Ensures (M.exec i) fresh p Q c.state.world)
    (ht : c.threads[i]? = some (q, p)) (hrun : M.finish fresh i inps c = some (x, c')) :
    Q x c'.state.world := by
  induction p generalizing c inps with
  | done a =>
    rw [finish_of_result ht rfl] at hrun
    cases hrun
    exact h
  | fail e =>
    rw [finish_of_result ht rfl] at hrun
    cases hrun
    exact h
  | call op k ih =>
    cases inps with
    | nil => simp [finish, outcome_eq ht, Prog.result] at hrun
    | cons inp inps =>
      simp only [finish, outcome_eq ht, Prog.result] at hrun
      split at hrun
      · rename_i hfresh
        rw [next_step ht] at hrun
        obtain ⟨c₁, hnext, hrest⟩ := Option.bind_eq_some_iff.mp hrun
        obtain ⟨⟨r, w⟩, hexec, rfl⟩ := Option.map_eq_some_iff.mp hnext
        exact ih r (h inp r w hfresh hexec) (thread_set ht) hrest
      · cases hrun

/-- **Each way a request ends is as its program ensures.** -/
theorem Ensures.of_serve (h : Ensures (M.exec c.threads.length) fresh (M.prog q) Q c.state.world)
    (hrun : M.serve fresh c q inps = some (x, c')) : Q x c'.state.world := by
  obtain ⟨c₁, hnext, hfinish⟩ := Option.bind_eq_some_iff.mp hrun
  simp only [next] at hnext
  split at hnext
  · cases hnext
    have hthread : (c.threads ++ [(q, M.prog q)])[c.threads.length]? = some (q, M.prog q) :=
      List.getElem?_concat_length
    refine Ensures.of_finish ?_ hthread hfinish
    exact h
  · cases hnext

end LakiraBackend.Concurrency
