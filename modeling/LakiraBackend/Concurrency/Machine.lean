import LakiraBackend.Concurrency.Program
import Mathlib.Data.List.Basic

/-!
# Interleavings of programs over one shared world

A `Machine` says what a call does to the shared world, what a crash of its
caller does, and which program answers a request.  A configuration is the
world, the history of what has happened to it, and the threads: one per request
admitted so far, each at the point its program has reached.  A schedule admits
requests, lets one thread make its next call, or crashes a thread, in any
order; `Reachable` is what some schedule reaches.

The history keeps, for every call answered and every crash, who made it and the
world before and after.  It is bookkeeping for the properties: no program and no
machine reads it.
-/

namespace LakiraBackend.Concurrency

/-- What a thread has done: a call with its answer, or a crash. -/
inductive Act (Op : Type) (Resp : Op → Type) (ε : Type) : Type
  | call (op : Op) (r : Except ε (Resp op))
  | crash

/-- One entry of the history. -/
structure Event (Op : Type) (Resp : Op → Type) (ε σ Req : Type) : Type where
  tid : Nat
  req : Req
  act : Act Op Resp ε
  before : σ
  after : σ

/-- The world with its history, newest entry first. -/
structure State (Op : Type) (Resp : Op → Type) (ε σ Req : Type) : Type where
  world : σ
  hist : List (Event Op Resp ε σ Req)

structure Machine (Op : Type) (Resp : Op → Type) (ε σ Inp Req ρ : Type) : Type where
  /-- Thread `i` makes a call; `none` while it has to wait. -/
  exec : Nat → Inp → (op : Op) → σ → Option (Except ε (Resp op) × σ)
  /-- What is left of thread `i` when it dies between two calls. -/
  crash : Nat → σ → σ
  /-- The error a crashed thread ends with. -/
  crashed : ε
  /-- The program that answers a request. -/
  prog : Req → Prog Op Resp ε ρ
  /-- Whether the request can be made at all in this world. -/
  admits : Req → σ → Bool

structure Config (Op : Type) (Resp : Op → Type) (ε σ Req ρ : Type) : Type where
  state : State Op Resp ε σ Req
  threads : List (Req × Prog Op Resp ε ρ)

/-- One decision of the scheduler. -/
inductive Label (Inp Req : Type) : Type
  | spawn (q : Req)
  | step (i : Nat) (inp : Inp)
  | crash (i : Nat)

variable {Op : Type} {Resp : Op → Type} {ε σ Inp Req ρ : Type}

/-- Append an event to the history, and move to the world it leaves. -/
def State.push (s : State Op Resp ε σ Req) (i : Nat) (q : Req) (a : Act Op Resp ε) (w : σ) :
    State Op Resp ε σ Req :=
  ⟨w, ⟨i, q, a, s.world, w⟩ :: s.hist⟩

@[simp] theorem State.push_world (s : State Op Resp ε σ Req) (i : Nat) (q : Req)
    (a : Act Op Resp ε) (w : σ) : (s.push i q a w).world = w := rfl

@[simp] theorem State.push_hist (s : State Op Resp ε σ Req) (i : Nat) (q : Req)
    (a : Act Op Resp ε) (w : σ) : (s.push i q a w).hist = ⟨i, q, a, s.world, w⟩ :: s.hist := rfl

namespace Machine

variable (M : Machine Op Resp ε σ Inp Req ρ)

/-- The configuration a scheduler's decision leads to; `none` when it is not possible. -/
def next (c : Config Op Resp ε σ Req ρ) : Label Inp Req → Option (Config Op Resp ε σ Req ρ)
  | .spawn q =>
    if M.admits q c.state.world then
      some { c with threads := c.threads ++ [(q, M.prog q)] }
    else none
  | .step i inp =>
    match c.threads[i]? with
    | some (q, .call op k) =>
      match M.exec i inp op c.state.world with
      | some (r, w) =>
        some ⟨c.state.push i q (.call op r) w, c.threads.set i (q, k r)⟩
      | none => none
    | _ => none
  | .crash i =>
    match c.threads[i]? with
    | some (q, .call _ _) =>
      some ⟨c.state.push i q .crash (M.crash i c.state.world),
        c.threads.set i (q, .fail M.crashed)⟩
    | _ => none

/-- Where a world starts: nothing has happened and nobody runs. -/
def boot (w : σ) : Config Op Resp ε σ Req ρ := ⟨⟨w, []⟩, []⟩

/-- Follow a schedule. -/
def run (c : Config Op Resp ε σ Req ρ) : List (Label Inp Req) → Option (Config Op Resp ε σ Req ρ)
  | [] => some c
  | l :: ls => (M.next c l).bind fun c' => run c' ls

/-- The configurations some schedule reaches from a world that satisfies `init`. -/
inductive Reachable (init : σ → Prop) : Config Op Resp ε σ Req ρ → Prop
  | boot {w : σ} : init w → Reachable init (boot w)
  | step {c c' : Config Op Resp ε σ Req ρ} {l : Label Inp Req} :
      Reachable init c → M.next c l = some c' → Reachable init c'

/-- The configurations reached by a run all of whose decisions are of a kind, each judged from
where it is made. -/
inductive ReachableBy (kind : Config Op Resp ε σ Req ρ → Label Inp Req → Prop) (init : σ → Prop) :
    Config Op Resp ε σ Req ρ → Prop
  | boot {w : σ} : init w → ReachableBy kind init (boot w)
  | step {c c' : Config Op Resp ε σ Req ρ} {l : Label Inp Req} :
      ReachableBy kind init c → kind c l → M.next c l = some c' → ReachableBy kind init c'

variable {M}

theorem ReachableBy.reachable {kind : Config Op Resp ε σ Req ρ → Label Inp Req → Prop}
    {init : σ → Prop} {c : Config Op Resp ε σ Req ρ} (h : M.ReachableBy kind init c) :
    M.Reachable init c := by
  induction h with
  | boot hw => exact .boot hw
  | step _ _ hn ih => exact ih.step hn

theorem Reachable.by_any {init : σ → Prop} {c : Config Op Resp ε σ Req ρ} (h : M.Reachable init c) :
    M.ReachableBy (fun _ _ => True) init c := by
  induction h with
  | boot hw => exact .boot hw
  | step _ hn ih => exact ih.step trivial hn

theorem ReachableBy.run {kind : Config Op Resp ε σ Req ρ → Label Inp Req → Prop} {init : σ → Prop}
    {c : Config Op Resp ε σ Req ρ} (h : M.ReachableBy kind init c) :
    ∀ {ls : List (Label Inp Req)} {c' : Config Op Resp ε σ Req ρ}, (∀ l ∈ ls, ∀ c, kind c l) →
      M.run c ls = some c' → M.ReachableBy kind init c' := by
  intro ls
  induction ls generalizing c with
  | nil => intro c' _ hr; cases hr; exact h
  | cons l ls ih =>
    intro c' hkind hr
    obtain ⟨c₁, h₁, h₂⟩ := Option.bind_eq_some_iff.mp hr
    exact ih (h.step (hkind l List.mem_cons_self c) h₁)
      (fun l' hl' => hkind l' (List.mem_cons_of_mem l hl')) h₂

theorem Reachable.run {init : σ → Prop} {c : Config Op Resp ε σ Req ρ} (h : M.Reachable init c) :
    ∀ {ls : List (Label Inp Req)} {c' : Config Op Resp ε σ Req ρ},
      M.run c ls = some c' → M.Reachable init c' := by
  intro ls
  induction ls generalizing c with
  | nil => intro c' hr; cases hr; exact h
  | cons l ls ih =>
    intro c' hr
    obtain ⟨c₁, h₁, h₂⟩ := Option.bind_eq_some_iff.mp hr
    exact ih (h.step h₁) h₂

/-- A schedule run from a good world reaches a reachable configuration. -/
theorem reachable_of_run {init : σ → Prop} {w : σ} (hw : init w) {ls : List (Label Inp Req)}
    {c : Config Op Resp ε σ Req ρ} (h : M.run (boot w) ls = some c) : M.Reachable init c :=
  (Reachable.boot hw).run h

/-- What each decision of the scheduler does. -/
theorem next_eq_some {c c' : Config Op Resp ε σ Req ρ} {l : Label Inp Req}
    (h : M.next c l = some c') :
    (∃ q, l = .spawn q ∧ M.admits q c.state.world = true ∧
      c' = { c with threads := c.threads ++ [(q, M.prog q)] }) ∨
    (∃ i inp q op k r w, l = .step i inp ∧ c.threads[i]? = some (q, .call op k) ∧
      M.exec i inp op c.state.world = some (r, w) ∧
      c' = ⟨c.state.push i q (.call op r) w, c.threads.set i (q, k r)⟩) ∨
    (∃ i q op k, l = .crash i ∧ c.threads[i]? = some (q, .call op k) ∧
      c' = ⟨c.state.push i q .crash (M.crash i c.state.world),
        c.threads.set i (q, .fail M.crashed)⟩) := by
  cases l with
  | spawn q =>
    simp only [next] at h
    split at h
    · rename_i hq
      exact .inl ⟨q, rfl, hq, (Option.some.inj h).symm⟩
    · cases h
  | step i inp =>
    simp only [next] at h
    split at h
    · rename_i q op k ht
      split at h
      · rename_i r w he
        exact .inr (.inl ⟨i, inp, q, op, k, r, w, rfl, ht, he, (Option.some.inj h).symm⟩)
      · cases h
    · cases h
  | crash i =>
    simp only [next] at h
    split at h
    · rename_i q op k ht
      exact .inr (.inr ⟨i, q, op, k, rfl, ht, (Option.some.inj h).symm⟩)
    · cases h

/-- What one decision of the scheduler can do. -/
theorem next_cases {c c' : Config Op Resp ε σ Req ρ} {l : Label Inp Req}
    (h : M.next c l = some c') :
    (∃ q, M.admits q c.state.world = true ∧
      c' = { c with threads := c.threads ++ [(q, M.prog q)] }) ∨
    (∃ i inp q op k r w, c.threads[i]? = some (q, .call op k) ∧
      M.exec i inp op c.state.world = some (r, w) ∧
      c' = ⟨c.state.push i q (.call op r) w, c.threads.set i (q, k r)⟩) ∨
    (∃ i q op k, c.threads[i]? = some (q, .call op k) ∧
      c' = ⟨c.state.push i q .crash (M.crash i c.state.world),
        c.threads.set i (q, .fail M.crashed)⟩) := by
  rcases next_eq_some h with ⟨q, _, hq⟩ | ⟨i, inp, q, op, k, r, w, _, hstep⟩ | ⟨i, q, op, k, _, hc⟩
  · exact .inl ⟨q, hq⟩
  · exact .inr (.inl ⟨i, inp, q, op, k, r, w, hstep⟩)
  · exact .inr (.inr ⟨i, q, op, k, hc⟩)

/-- The requests that a schedule spawns. -/
def spawned : List (Label Inp Req) → List Req
  | [] => []
  | .spawn q :: ls => q :: spawned ls
  | _ :: ls => spawned ls

/-- A thread that goes on keeps its request. -/
theorem map_fst_set {l : List (Req × Prog Op Resp ε ρ)} {i : Nat} {q : Req}
    {p p' : Prog Op Resp ε ρ} (h : l[i]? = some (q, p)) :
    (l.set i (q, p')).map Prod.fst = l.map Prod.fst := by
  obtain ⟨hi, hq⟩ := List.getElem?_eq_some_iff.mp h
  have hmap : i < (l.map Prod.fst).length := by rwa [List.length_map]
  have hfst : (l.map Prod.fst)[i] = q := by rw [List.getElem_map, hq]
  rw [List.map_set]
  change (l.map Prod.fst).set i q = _
  rw [← hfst, List.set_getElem_self]

/-- The threads are those of the requests that are spawned, in order. -/
theorem threads_of_run {c c' : Config Op Resp ε σ Req ρ} {ls : List (Label Inp Req)}
    (h : M.run c ls = some c') :
    c'.threads.map Prod.fst = c.threads.map Prod.fst ++ spawned ls := by
  induction ls generalizing c with
  | nil =>
    cases h
    exact (List.append_nil _).symm
  | cons l ls ih =>
    obtain ⟨c₁, h₁, h₂⟩ := Option.bind_eq_some_iff.mp h
    rw [ih h₂]
    rcases next_eq_some h₁ with
      ⟨q, rfl, _, rfl⟩ | ⟨i, inp, q, op, k, r, w, rfl, ht, _, rfl⟩ | ⟨i, q, op, k, rfl, ht, rfl⟩
    · simp [spawned]
    · rw [map_fst_set ht]
      rfl
    · rw [map_fst_set ht]
      rfl

/-- What has been done has been done for a request there is. -/
theorem hist_of_run {c c' : Config Op Resp ε σ Req ρ} {ls : List (Label Inp Req)}
    (hhist : ∀ e ∈ c.state.hist, e.req ∈ c.threads.map Prod.fst) (h : M.run c ls = some c') :
    ∀ e ∈ c'.state.hist, e.req ∈ c'.threads.map Prod.fst := by
  induction ls generalizing c with
  | nil =>
    cases h
    exact hhist
  | cons l ls ih =>
    obtain ⟨c₁, h₁, h₂⟩ := Option.bind_eq_some_iff.mp h
    refine ih ?_ h₂
    rcases next_cases h₁ with
      ⟨q, _, rfl⟩ | ⟨i, inp, q, op, k, r, w, ht, _, rfl⟩ | ⟨i, q, op, k, ht, rfl⟩
    · intro e he
      rw [List.map_append]
      exact List.mem_append_left _ (hhist e he)
    all_goals
      dsimp only
      rw [map_fst_set ht]
      exact List.forall_mem_cons.mpr ⟨List.mem_map_of_mem (List.mem_of_getElem? ht), hhist⟩

/-- Only requests that are spawned make calls. -/
theorem reqs_of_run {w : σ} {c : Config Op Resp ε σ Req ρ} {ls : List (Label Inp Req)}
    (h : M.run (boot w) ls = some c) : ∀ e ∈ c.state.hist, e.req ∈ spawned ls := by
  have hreqs := hist_of_run (fun _ he => absurd he List.not_mem_nil) h
  rw [threads_of_run h] at hreqs
  exact hreqs

end Machine

end LakiraBackend.Concurrency
