import LakiraBackend.Concurrency.History

/-!
# Two machines with the same calls

Two machines may share what a call does and differ in their requests, and so in the programs that
answer them.  A history of the one is a history of the other once its entries are given other
requests (`relabel`): what a call did does not depend on whom it was made for.

A program may then be looked at under a contract of the other machine, with the request it answers
held fixed.  `wp_relabel` is that it does the same for the machine with the requests, when the
preconditions of the two agree: what its own thread is held to there follows from what it is held
to here, and what the others are held to there gives what they are held to here (`Agree`).
-/

namespace LakiraBackend.Concurrency

variable {Op : Type} {Resp : Op → Type} {ε σ Inp Req Req' ρ ρ' α : Type}

/-- The same entry, for another request. -/
def Event.relabel (f : Req' → Req) (e : Event Op Resp ε σ Req') : Event Op Resp ε σ Req :=
  ⟨e.tid, f e.req, e.act, e.before, e.after⟩

def State.relabel (f : Req' → Req) (s : State Op Resp ε σ Req') : State Op Resp ε σ Req :=
  ⟨s.world, s.hist.map (Event.relabel f)⟩

variable {f : Req' → Req}

theorem State.relabel_push (s : State Op Resp ε σ Req') (i : Nat) (q : Req') (a : Act Op Resp ε)
    (w : σ) : (s.push i q a w).relabel f = (s.relabel f).push i (f q) a w := rfl

theorem own_relabel (i : Nat) (hist : List (Event Op Resp ε σ Req')) :
    own i (hist.map (Event.relabel f)) = (own i hist).map (Event.relabel f) :=
  List.filter_map

theorem worldAfter_relabel (w₀ : σ) (hist : List (Event Op Resp ε σ Req')) :
    worldAfter w₀ (hist.map (Event.relabel f)) = worldAfter w₀ hist := by
  cases hist <;> rfl

/-- A past of the relabelled history is a relabelled past. -/
theorem suffix_relabel {e : Event Op Resp ε σ Req'} {past hist : List (Event Op Resp ε σ Req')}
    (h : (e :: past) <:+ hist) :
    (e.relabel f :: past.map (Event.relabel f)) <:+ hist.map (Event.relabel f) := by
  obtain ⟨later, rfl⟩ := h
  exact ⟨later.map (Event.relabel f), by rw [List.map_append, List.map_cons]⟩

/-- The machines do the same when a call is made, and when its caller dies. -/
structure SameCalls (M' : Machine Op Resp ε σ Inp Req' ρ') (M : Machine Op Resp ε σ Inp Req ρ) :
    Prop where
  exec : M'.exec = M.exec
  crash : M'.crash = M.crash

section Legal

variable {M : Machine Op Resp ε σ Inp Req ρ} {M' : Machine Op Resp ε σ Inp Req' ρ'}
  {Pre : Nat → Req → Op → State Op Resp ε σ Req → Prop}
  {Pre' : Nat → Req' → Op → State Op Resp ε σ Req' → Prop} {w₀ : σ}
  {hist : List (Event Op Resp ε σ Req')}

/-- **A legal history is legal for the other machine**, when its preconditions give the other's. -/
theorem Legal.relabel (h : SameCalls M' M)
    (hpre : ∀ e ∈ hist, ∀ op past, Pre' e.tid e.req op ⟨e.before, past⟩ →
      Pre e.tid (f e.req) op ⟨e.before, past.map (Event.relabel f)⟩)
    (hl : Legal M' Pre' w₀ hist) : Legal M Pre w₀ (hist.map (Event.relabel f)) := by
  induction hist with
  | nil => trivial
  | cons e past ih =>
    obtain ⟨hbefore, hobeys, hpast⟩ := hl
    refine ⟨hbefore.trans (worldAfter_relabel w₀ past).symm, ?_,
      ih (fun e' he' => hpre e' (List.mem_cons_of_mem e he')) hpast⟩
    have hhere := hpre e List.mem_cons_self
    obtain ⟨tid, req, act, before, after⟩ := e
    cases act with
    | call op r => exact ⟨hhere op past hobeys.1, h.exec ▸ hobeys.2⟩
    | crash => exact hobeys.trans (congrFun (congrFun h.crash tid) before)

end Legal

/-- The preconditions of a machine agree with those under which the program that answers `q` in
thread `i` is looked at. -/
structure Agree (f : Req' → Req)
    (Pre : Nat → Req' → Nat → Req → Op → State Op Resp ε σ Req → Prop)
    (Pre' : Nat → Req' → Op → State Op Resp ε σ Req' → Prop) : Prop where
  own : ∀ i q op s, Pre i q i (f q) op (s.relabel f) → Pre' i q op s
  others : ∀ i q j q' op s, (j = i → q' = q) → Pre' j q' op s → Pre i q j (f q') op (s.relabel f)

/-- What a precondition asks of thread `i` when it answers `q`; the others are free. -/
def heldTo (T : Nat → Req' → Op → State Op Resp ε σ Req → Prop) (i : Nat) (q : Req') (j : Nat)
    (_ : Req) (op : Op) (s : State Op Resp ε σ Req) : Prop := j = i → T i q op s

/-- The precondition for every thread, by its request. -/
def byRequest (f : Req' → Req) (T : Nat → Req' → Op → State Op Resp ε σ Req → Prop) (i : Nat)
    (q : Req') (op : Op) (s : State Op Resp ε σ Req') : Prop := T i q op (s.relabel f)

theorem agree_heldTo (T : Nat → Req' → Op → State Op Resp ε σ Req → Prop) :
    Agree f (heldTo T) (byRequest f T) where
  own := fun _ _ _ _ h => h rfl
  others := by
    intro i q j q' op s hq h hj
    subst hj
    exact hq rfl ▸ h

/-- A precondition that is the same for all agrees with itself. -/
theorem agree_same (Pre : Nat → Req → Op → State Op Resp ε σ Req → Prop) :
    Agree f (fun _ _ => Pre) (byRequest f fun i q => Pre i (f q)) where
  own := fun _ _ _ _ h => h
  others := fun _ _ _ _ _ _ _ h => h

namespace Contract

variable {M : Machine Op Resp ε σ Inp Req ρ} {M' : Machine Op Resp ε σ Inp Req' ρ'}
  {Pre : Nat → Req' → Nat → Req → Op → State Op Resp ε σ Req → Prop}
  {Pre' : Nat → Req' → Op → State Op Resp ε σ Req' → Prop} {init : σ → Prop} {i : Nat} {q : Req'}
  {s t : State Op Resp ε σ Req'} {Q : α → State Op Resp ε σ Req → Prop}
  {E : ε → State Op Resp ε σ Req → Prop}

/-- Thread `i` has answered `q` only. -/
def Answers (i : Nat) (q : Req') (s : State Op Resp ε σ Req') : Prop :=
  ∀ e ∈ s.hist, e.tid = i → e.req = q

theorem Answers.push {a : Act Op Resp ε} {w : σ} (h : Answers i q s) :
    Answers i q (s.push i q a w) := by
  intro e he hi
  rcases List.mem_cons.mp he with rfl | he
  · rfl
  · exact h e he hi

theorem inv_relabel (h : SameCalls M' M) (ha : Agree f Pre Pre') (hs : Answers i q s)
    (hi : (guarded M' init Pre').Inv s) : (guarded M init (Pre i q)).Inv (s.relabel f) := by
  obtain ⟨w₀, h₀, hw, hl⟩ := hi
  exact ⟨w₀, h₀, hw.trans (worldAfter_relabel w₀ s.hist).symm,
    hl.relabel h fun e he op _ hpre => ha.others i q e.tid e.req op _ (hs e he) hpre⟩

theorem others_relabel (h : SameCalls M' M) (ha : Agree f Pre Pre') (hs : Answers i q s)
    (ho : (guarded M' init Pre').Others i s t) :
    Answers i q t ∧ (guarded M init (Pre i q)).Others i (s.relabel f) (t.relabel f) := by
  induction ho with
  | refl => exact ⟨hs, .refl⟩
  | tail _ hstep ih =>
    obtain ⟨hanswers, hothers⟩ := ih
    constructor
    · obtain ⟨e, hhist, hne⟩ := hstep.hist
      intro e' he' hi
      rcases List.mem_cons.mp (hhist ▸ he') with rfl | he'
      · exact absurd hi hne
      · exact hanswers e' he' hi
    · refine hothers.tail ?_
      cases hstep with
      | call hj hinv hpre he =>
        exact .call hj (inv_relabel h ha hanswers hinv)
          (ha.others i q _ _ _ _ (fun hji => absurd hji hj) hpre) (h.exec ▸ he)
      | crash hj hinv =>
        rw [State.relabel_push, h.crash]
        exact .crash hj (inv_relabel h ha hanswers hinv)

/-- **What a program does with its own request held fixed, it does among the requests.** -/
theorem wp_relabel (h : SameCalls M' M) (ha : Agree f Pre Pre') {p : Prog Op Resp ε α}
    (hs : Answers i q s) (hp : (guarded M init (Pre i q)).wp i (f q) p Q E (s.relabel f)) :
    (guarded M' init Pre').wp i q p (fun a t => Q a (t.relabel f))
      (fun e t => E e (t.relabel f)) s := by
  induction p generalizing s with
  | done a => exact hp
  | fail e => exact hp
  | call op k ih =>
    intro t ho hi
    obtain ⟨hanswers, hothers⟩ := others_relabel h ha hs ho
    obtain ⟨hpre, hk⟩ := hp (t.relabel f) hothers (inv_relabel h ha hanswers hi)
    exact ⟨ha.own i q op t hpre, fun inp r w he => ih r hanswers.push (hk inp r w (h.exec ▸ he))⟩

/-- **The history of a run is legal, by its requests**, and a thread that is over has done what
its request has to have done. -/
theorem legal_by_request (h : SameCalls M' M) (ha : Agree f Pre Pre')
    {R : Req' → ρ' → List (Event Op Resp ε σ Req) → Prop}
    (hreq : ∀ i q t, M'.admits q t.world = true → own i t.hist = [] →
      (guarded M init (Pre i q)).wp i (f q) (M'.prog q) (fun a t => R q a (own i t.hist))
        (fun _ _ => True) t)
    {c : Config Op Resp ε σ Req' ρ'} (hr : M'.Reachable init c) :
    (∃ w₀, init w₀ ∧ c.state.world = worldAfter w₀ c.state.hist ∧ Legal M' Pre' w₀ c.state.hist) ∧
      ∀ i q a, c.threads[i]? = some (q, .done a) →
        R q a (own i (c.state.hist.map (Event.relabel f))) := by
  have hwp : ∀ i q (s : State Op Resp ε σ Req'), M'.admits q s.world = true →
      (∀ e ∈ s.hist, e.tid ≠ i) → (guarded M' init Pre').wp i q (M'.prog q)
        (fun a t => R q a (own i (t.relabel f).hist)) (fun _ _ => True) s := by
    intro i q s hadmits hnew
    have hown : own i (s.relabel f).hist = [] :=
      (own_relabel i s.hist).trans (by rw [own_nil_of_new hnew, List.map_nil])
    exact wp_relabel h ha (fun e he hi => absurd hi (hnew e he))
      (hreq i q (s.relabel f) hadmits hown)
  have hstable : ∀ i q a, (guarded M' init Pre').Stable i
      fun s => R q a (own i (s.relabel f).hist) := by
    intro i q a s t ho hs
    obtain ⟨e, hhist, hne⟩ := ho.hist
    change R q a (own i (t.hist.map _))
    rw [own_relabel, hhist, own_cons_ne hne, ← own_relabel]
    exact hs
  obtain ⟨hinv, hthreads⟩ := (guarded M' init Pre').sound
    (Q := fun i q a s => R q a (own i (s.relabel f).hist)) (E := fun _ _ _ _ => True)
    (fun w hw => ⟨w, hw, rfl, trivial⟩) (fun i q s _ hadmits hnew => hwp i q s hadmits hnew)
    hstable (fun i _ _ => Stable.true i) (fun _ _ _ _ => trivial) hr
  exact ⟨hinv, fun i q a ht => hthreads i q _ ht⟩

end Contract

end LakiraBackend.Concurrency
