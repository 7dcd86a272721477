import LakiraBackend.Concurrency.Contract
import Mathlib.Data.List.Infix

/-!
# What the history of a run shows

`Legal` says of a history that every entry starts in the world the past ends in,
and is a step of the machine made with its precondition.  The contract `guarded`
has this for its invariant: of a run whose threads meet it, everything that
follows from the history alone can be proved by induction on the history.

The precondition of a call is mostly about what its thread has done before, and
that only the thread itself adds to (`own`).
-/

namespace LakiraBackend.Concurrency

variable {Op : Type} {Resp : Op → Type} {ε σ Inp Req ρ : Type}

/-- What thread `i` has done, newest first. -/
def own (i : Nat) (hist : List (Event Op Resp ε σ Req)) : List (Event Op Resp ε σ Req) :=
  hist.filter fun e => e.tid = i

/-- The world a history that started in `w₀` ends in. -/
def worldAfter (w₀ : σ) : List (Event Op Resp ε σ Req) → σ
  | [] => w₀
  | e :: _ => e.after

section Own

variable {i j : Nat} {e : Event Op Resp ε σ Req} {hist : List (Event Op Resp ε σ Req)}

theorem own_cons_self (h : e.tid = i) : own i (e :: hist) = e :: own i hist :=
  List.filter_cons_of_pos (by simpa using h)

theorem own_cons_ne (h : e.tid ≠ i) : own i (e :: hist) = own i hist :=
  List.filter_cons_of_neg (by simpa using h)

theorem own_nil_of_new (h : ∀ e ∈ hist, e.tid ≠ i) : own i hist = [] :=
  List.filter_eq_nil_iff.mpr fun e he => by simpa using h e he

theorem own_push {s : State Op Resp ε σ Req} {q : Req} {a : Act Op Resp ε} {w : σ} :
    own i (s.push i q a w).hist = ⟨i, q, a, s.world, w⟩ :: own i s.hist := own_cons_self rfl

theorem mem_of_mem_own (h : e ∈ own i hist) : e ∈ hist ∧ e.tid = i := by
  simpa [own] using h

theorem own_subset {past : List (Event Op Resp ε σ Req)} (h : past <:+ hist) :
    own i past ⊆ own i hist := (h.sublist.filter _).subset

theorem mem_own_cons {e' : Event Op Resp ε σ Req} (h : e ∈ own i hist) : e ∈ own i (e' :: hist) :=
  own_subset (List.suffix_cons e' hist) h

/-- A thread's last entry, and what the others have done since. -/
theorem exists_since {r : Event Op Resp ε σ Req} {rest : List (Event Op Resp ε σ Req)}
    (h : own i hist = r :: rest) :
    ∃ since past, hist = since ++ r :: past ∧ hist.takeWhile (fun e => e.tid ≠ i) = since ∧
      own i past = rest := by
  induction hist with
  | nil => cases h
  | cons e hist ih =>
    by_cases he : e.tid = i
    · rw [own_cons_self he] at h
      obtain ⟨rfl, rfl⟩ := List.cons.inj h
      exact ⟨[], hist, rfl, List.takeWhile_cons_of_neg (by simpa using he), rfl⟩
    · rw [own_cons_ne he] at h
      obtain ⟨since, past, rfl, htake, hrest⟩ := ih h
      exact ⟨e :: since, past, rfl,
        (List.takeWhile_cons_of_pos (by simpa using he)).trans (congrArg _ htake), hrest⟩

/-- What a thread had done before an entry of its own. -/
theorem exists_past_of_own {later rest : List (Event Op Resp ε σ Req)}
    (h : own i hist = later ++ e :: rest) : ∃ past, (e :: past) <:+ hist ∧ own i past = rest := by
  induction hist generalizing later with
  | nil => simp [own] at h
  | cons e' hist ih =>
    by_cases he : e'.tid = i
    · rw [own_cons_self he] at h
      cases later with
      | nil =>
        obtain ⟨rfl, hrest⟩ := List.cons.inj h
        exact ⟨hist, List.suffix_refl _, hrest⟩
      | cons l later =>
        obtain ⟨past, hs, hrest⟩ := ih (List.cons.inj h).2
        exact ⟨past, hs.trans (List.suffix_cons e' hist), hrest⟩
    · rw [own_cons_ne he] at h
      obtain ⟨past, hs, hrest⟩ := ih h
      exact ⟨past, hs.trans (List.suffix_cons e' hist), hrest⟩

end Own

/-- Something holds of every entry with its past. -/
def Throughout (P : Event Op Resp ε σ Req → List (Event Op Resp ε σ Req) → Prop) :
    List (Event Op Resp ε σ Req) → Prop
  | [] => True
  | e :: past => P e past ∧ Throughout P past

instance (P : Event Op Resp ε σ Req → List (Event Op Resp ε σ Req) → Prop)
    [∀ e past, Decidable (P e past)] (hist : List (Event Op Resp ε σ Req)) :
    Decidable (Throughout P hist) :=
  match hist with
  | [] => .isTrue trivial
  | _ :: past => @instDecidableAnd _ _ _ (instDecidableThroughout P past)

theorem Throughout.suffix {P : Event Op Resp ε σ Req → List (Event Op Resp ε σ Req) → Prop}
    {past hist : List (Event Op Resp ε σ Req)} (h : Throughout P hist) (hs : past <:+ hist) :
    Throughout P past := by
  induction hist with
  | nil => rw [List.suffix_nil.mp hs]; trivial
  | cons e hist ih =>
    rcases List.suffix_cons_iff.mp hs with rfl | hs
    · exact h
    · exact ih h.2 hs

theorem Throughout.at {P : Event Op Resp ε σ Req → List (Event Op Resp ε σ Req) → Prop}
    {e : Event Op Resp ε σ Req} {past hist : List (Event Op Resp ε σ Req)}
    (h : Throughout P hist) (hs : (e :: past) <:+ hist) : P e past := (h.suffix hs).1

/-- **What holds all along**: it holds of every past exactly when `P` holds throughout, where `P`
says of an entry that it keeps what has held so far. -/
theorem throughout_iff {G : List (Event Op Resp ε σ Req) → Prop}
    {P : Event Op Resp ε σ Req → List (Event Op Resp ε σ Req) → Prop}
    {hist : List (Event Op Resp ε σ Req)} (h₀ : G [])
    (hstep : ∀ e past, (e :: past) <:+ hist → (∀ before, before <:+ past → G before) →
      (G (e :: past) ↔ P e past)) :
    (∀ before, before <:+ hist → G before) ↔ Throughout P hist := by
  induction hist with
  | nil =>
    refine iff_of_true (fun before hs => ?_) trivial
    rw [List.suffix_nil.mp hs]
    exact h₀
  | cons e past ih =>
    have ih := ih fun e' past' hs => hstep e' past' (hs.trans (List.suffix_cons e past))
    have hlast := hstep e past (List.suffix_refl _)
    constructor
    · intro hall
      have hpast := fun before (hs : before <:+ past) =>
        hall before (hs.trans (List.suffix_cons e past))
      exact ⟨(hlast hpast).mp (hall _ (List.suffix_refl _)), ih.mp hpast⟩
    · intro hP before hs
      have hpast := ih.mpr hP.2
      rcases List.suffix_cons_iff.mp hs with rfl | hs
      · exact (hlast hpast).mpr hP.1
      · exact hpast before hs

section Legal

variable (M : Machine Op Resp ε σ Inp Req ρ)
  (Pre : Nat → Req → Op → State Op Resp ε σ Req → Prop)

/-- An entry is a step of the machine, made with its precondition. -/
def Obeys (e : Event Op Resp ε σ Req) (past : List (Event Op Resp ε σ Req)) : Prop :=
  match e.act with
  | .call op r => Pre e.tid e.req op ⟨e.before, past⟩ ∧
      ∃ inp, M.exec e.tid inp op e.before = some (r, e.after)
  | .crash => e.after = M.crash e.tid e.before

/-- Every entry starts where the past ends, and obeys. -/
def Legal (w₀ : σ) : List (Event Op Resp ε σ Req) → Prop
  | [] => True
  | e :: past => e.before = worldAfter w₀ past ∧ Obeys M Pre e past ∧ Legal w₀ past

variable {M Pre} {w₀ : σ} {hist past : List (Event Op Resp ε σ Req)}
  {e : Event Op Resp ε σ Req}

theorem Legal.suffix (h : Legal M Pre w₀ hist) (hs : past <:+ hist) : Legal M Pre w₀ past := by
  induction hist with
  | nil => rw [List.suffix_nil.mp hs]; trivial
  | cons e hist ih =>
    rcases List.suffix_cons_iff.mp hs with rfl | hs
    · exact h
    · exact ih h.2.2 hs

theorem Legal.before (h : Legal M Pre w₀ hist) (hs : (e :: past) <:+ hist) :
    e.before = worldAfter w₀ past := (h.suffix hs).1

theorem Legal.obeys (h : Legal M Pre w₀ hist) (hs : (e :: past) <:+ hist) :
    Obeys M Pre e past := (h.suffix hs).2.1

/-- **Invariants of histories**: what holds at the start, and each entry keeps. -/
theorem Legal.invariant {P : List (Event Op Resp ε σ Req) → σ → Prop} (h₀ : P [] w₀)
    (hstep : ∀ e past, Legal M Pre w₀ (e :: past) → P past e.before → P (e :: past) e.after)
    (h : Legal M Pre w₀ hist) : P hist (worldAfter w₀ hist) := by
  induction hist with
  | nil => exact h₀
  | cons e past ih => exact hstep e past h (h.1 ▸ ih h.2.2)

/-- What held of the world before an entry still holds, when each entry keeps it. -/
theorem Legal.still {P : σ → Prop} (h : Legal M Pre w₀ hist)
    (hstep : ∀ e past, Legal M Pre w₀ (e :: past) → P e.before → P e.after)
    (hs : past <:+ hist) (hP : P (worldAfter w₀ past)) : P (worldAfter w₀ hist) := by
  induction hist with
  | nil => rwa [List.suffix_nil.mp hs] at hP
  | cons e hist ih =>
    rcases List.suffix_cons_iff.mp hs with rfl | hs
    · exact hP
    · exact hstep e hist h (h.1 ▸ ih h.2.2 hs)

/-- What no entry changes stays. -/
theorem Legal.unchanged {α : Type} {f : σ → α} {since : List (Event Op Resp ε σ Req)}
    (h : Legal M Pre w₀ (since ++ past)) (hf : ∀ e ∈ since, f e.after = f e.before) :
    f (worldAfter w₀ (since ++ past)) = f (worldAfter w₀ past) := by
  induction since with
  | nil => rfl
  | cons e since ih =>
    calc f e.after
      _ = f e.before := hf e List.mem_cons_self
      _ = f (worldAfter w₀ (since ++ past)) := congrArg f h.1
      _ = f (worldAfter w₀ past) := ih h.2.2 fun e he => hf e (List.mem_cons_of_mem _ he)

/-- An entry has a past. -/
theorem exists_past (h : e ∈ hist) : ∃ past, (e :: past) <:+ hist := by
  obtain ⟨later, past, rfl⟩ := List.append_of_mem h
  exact ⟨past, List.suffix_append later _⟩

theorem Obeys.pre {op : Op} {r : Except ε (Resp op)} (h : Obeys M Pre e past)
    (ha : e.act = .call op r) : Pre e.tid e.req op ⟨e.before, past⟩ := by
  unfold Obeys at h
  rw [ha] at h
  exact h.1

theorem Obeys.exec {op : Op} {r : Except ε (Resp op)} (h : Obeys M Pre e past)
    (ha : e.act = .call op r) : ∃ inp, M.exec e.tid inp op e.before = some (r, e.after) := by
  unfold Obeys at h
  rw [ha] at h
  exact h.2

end Legal

namespace Contract

variable (M : Machine Op Resp ε σ Inp Req ρ) (init : σ → Prop)
  (Pre : Nat → Req → Op → State Op Resp ε σ Req → Prop)

/-- The contract with the preconditions `Pre`, and the history for its invariant. -/
def guarded : Contract M where
  Inv := fun s => ∃ w₀, init w₀ ∧ s.world = worldAfter w₀ s.hist ∧ Legal M Pre w₀ s.hist
  Pre := Pre
  call_inv := fun ⟨w₀, h₀, hw, hl⟩ hp he => ⟨w₀, h₀, rfl, hw, ⟨hp, _, he⟩, hl⟩
  crash_inv := fun ⟨w₀, h₀, hw, hl⟩ => ⟨w₀, h₀, rfl, hw, rfl, hl⟩

variable {M init Pre} {i : Nat} {q : Req} {s : State Op Resp ε σ Req}

/-- What a thread has done is its own affair. -/
theorem stable_own {K : Contract M} (P : List (Event Op Resp ε σ Req) → Prop) :
    K.Stable i fun s => P (own i s.hist) := Stable.own i P

/-- **The history of a run is legal**, when every request meets the contract, and a
thread that is over has done what its request has to have done. -/
theorem legal_and_done {R : Req → ρ → List (Event Op Resp ε σ Req) → Prop}
    (hreq : ∀ i q s, own i s.hist = [] → (guarded M init Pre).wp i q (M.prog q)
      (fun a s => R q a (own i s.hist)) (fun _ _ => True) s)
    {c : Config Op Resp ε σ Req ρ} (h : M.Reachable init c) :
    (∃ w₀, init w₀ ∧ c.state.world = worldAfter w₀ c.state.hist ∧ Legal M Pre w₀ c.state.hist) ∧
      ∀ i q a, c.threads[i]? = some (q, .done a) → R q a (own i c.state.hist) := by
  obtain ⟨hinv, hthreads⟩ := (guarded M init Pre).sound (Q := fun i q a s => R q a (own i s.hist))
    (E := fun _ _ _ _ => True) (fun w hw => ⟨w, hw, rfl, trivial⟩)
    (fun i q s _ _ hnew => hreq i q s (own_nil_of_new hnew)) (fun i q a => stable_own (R q a))
    (fun i _ _ => Stable.true i) (fun _ _ _ _ => trivial) h
  exact ⟨hinv, fun i q a ht => hthreads i q _ ht⟩

/-- The history of a run is legal. -/
theorem legal_of_reachable
    (hreq : ∀ i q s, own i s.hist = [] →
      (guarded M init Pre).wp i q (M.prog q) (fun _ _ => True) (fun _ _ => True) s)
    {c : Config Op Resp ε σ Req ρ} (h : M.Reachable init c) :
    ∃ w₀, init w₀ ∧ c.state.world = worldAfter w₀ c.state.hist ∧ Legal M Pre w₀ c.state.hist :=
  (legal_and_done (R := fun _ _ _ => True) hreq h).1

/-- **One call, and the thread has done one more thing.** -/
theorem wp_call {K : Contract M} {op : Op} {L : List (Event Op Resp ε σ Req)}
    (hL : own i s.hist = L) (hpre : ∀ t, K.Inv t → own i t.hist = L → K.Pre i q op t) :
    K.wp i q (Prog.await op)
      (fun a t => ∃ w w', own i t.hist = ⟨i, q, .call op (.ok a), w, w'⟩ :: L)
      (fun e t => ∃ w w', own i t.hist = ⟨i, q, .call op (.error e), w, w'⟩ :: L) s := by
  have hpush : ∀ {t : State Op Resp ε σ Req} {r : Except ε (Resp op)} {w : σ},
      own i t.hist = L → own i (t.push i q (.call op r) w).hist =
        ⟨i, q, .call op r, t.world, w⟩ :: L :=
    fun ht => own_push.trans (congrArg _ ht)
  exact wp_await (stable_own (K := K) (i := i) fun l => l = L) hL hpre
    (fun t _ a w _ ht _ => ⟨t.world, w, hpush ht⟩) fun t _ e w _ ht _ => ⟨t.world, w, hpush ht⟩

end Contract

end LakiraBackend.Concurrency
