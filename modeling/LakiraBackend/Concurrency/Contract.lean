import LakiraBackend.Concurrency.Machine
import Mathlib.Logic.Relation

/-!
# Contracts: invariants of interleaved programs

A `Contract` for a machine is an invariant of the state, a precondition for each
call, and the proof that a call made with its precondition keeps the invariant,
whoever makes it and whatever the answer.  The precondition is at once what a
thread owes when it calls and what every other thread may count on.

`wp i q p Q E s` says that thread `i`, answering request `q` with the program
`p` left to run, started in `s`, makes every call with its precondition, ends
with a value only where `Q` holds and with an error only where `E` holds,
whatever the other threads do between its calls (`Others`).  It follows the
program, so it comes with a rule for each way of building one (`wp_bind`,
`wp_handle`, `wp_await`).

`sound` ties the two together: when every admitted request meets the contract
from the state it is admitted in, the invariant holds in every reachable
configuration.
-/

namespace LakiraBackend.Concurrency

variable {Op : Type} {Resp : Op → Type} {ε σ Inp Req ρ α β : Type}

structure Contract (M : Machine Op Resp ε σ Inp Req ρ) where
  Inv : State Op Resp ε σ Req → Prop
  Pre : Nat → Req → Op → State Op Resp ε σ Req → Prop
  call_inv : ∀ {i : Nat} {q : Req} {op : Op} {s : State Op Resp ε σ Req} {inp : Inp}
    {r : Except ε (Resp op)} {w : σ}, Inv s → Pre i q op s →
    M.exec i inp op s.world = some (r, w) → Inv (s.push i q (.call op r) w)
  crash_inv : ∀ {i : Nat} {q : Req} {s : State Op Resp ε σ Req}, Inv s →
    Inv (s.push i q .crash (M.crash i s.world))

namespace Contract

variable {M : Machine Op Resp ε σ Inp Req ρ} (K : Contract M)

/-! ### What the other threads do -/

/-- One step of a thread other than `i`, under the contract. -/
inductive OtherStep (i : Nat) (s : State Op Resp ε σ Req) : State Op Resp ε σ Req → Prop
  | call {j : Nat} {q : Req} {op : Op} {inp : Inp} {r : Except ε (Resp op)} {w : σ} :
      j ≠ i → K.Inv s → K.Pre j q op s → M.exec j inp op s.world = some (r, w) →
      OtherStep i s (s.push j q (.call op r) w)
  | crash {j : Nat} {q : Req} : j ≠ i → K.Inv s →
      OtherStep i s (s.push j q .crash (M.crash j s.world))

/-- Any number of steps of the threads other than `i`. -/
def Others (i : Nat) : State Op Resp ε σ Req → State Op Resp ε σ Req → Prop :=
  Relation.ReflTransGen (K.OtherStep i)

/-- The other threads cannot make `P` false. -/
def Stable (i : Nat) (P : State Op Resp ε σ Req → Prop) : Prop :=
  ∀ ⦃s t⦄, K.OtherStep i s t → P s → P t

variable {K}

theorem Stable.others {i : Nat} {P : State Op Resp ε σ Req → Prop} (h : K.Stable i P)
    {s t : State Op Resp ε σ Req} (ho : K.Others i s t) (hs : P s) : P t := by
  induction ho with
  | refl => exact hs
  | tail _ hst ih => exact h hst ih

theorem Stable.and {i : Nat} {P Q : State Op Resp ε σ Req → Prop} (hP : K.Stable i P)
    (hQ : K.Stable i Q) : K.Stable i fun s => P s ∧ Q s :=
  fun _ _ h hs => ⟨hP h hs.1, hQ h hs.2⟩

theorem Stable.true (i : Nat) : K.Stable i fun _ => True := fun _ _ _ _ => trivial

/-- The other threads only add to the history, and only in their own names. -/
theorem OtherStep.hist {i : Nat} {s t : State Op Resp ε σ Req} (h : K.OtherStep i s t) :
    ∃ e, t.hist = e :: s.hist ∧ e.tid ≠ i := by
  cases h with
  | call hj _ _ _ => exact ⟨_, rfl, hj⟩
  | crash hj _ => exact ⟨_, rfl, hj⟩

/-- **What has happened stays in the history.** -/
theorem Stable.mem_hist (i : Nat) (P : Event Op Resp ε σ Req → Prop) :
    K.Stable i fun s => ∃ e ∈ s.hist, P e := by
  intro s t h ⟨e, he, hp⟩
  obtain ⟨e', hh, _⟩ := h.hist
  exact ⟨e, hh ▸ List.mem_cons_of_mem e' he, hp⟩

/-- What thread `i` has done is its own affair. -/
theorem Stable.own (i : Nat) (P : List (Event Op Resp ε σ Req) → Prop) :
    K.Stable i fun s => P (s.hist.filter (·.tid = i)) := by
  intro s t h hs
  obtain ⟨e, hh, he⟩ := h.hist
  rw [hh, List.filter_cons_of_neg (by simpa using he)]
  exact hs

variable (K)

/-! ### The program logic -/

/-- The weakest precondition of a program under the contract. -/
def wp (i : Nat) (q : Req) : Prog Op Resp ε α → (α → State Op Resp ε σ Req → Prop) →
    (ε → State Op Resp ε σ Req → Prop) → State Op Resp ε σ Req → Prop
  | .done a, Q, _, s => Q a s
  | .fail e, _, E, s => E e s
  | .call op k, Q, E, s => ∀ t, K.Others i s t → K.Inv t → K.Pre i q op t ∧
      ∀ inp r w, M.exec i inp op t.world = some (r, w) →
        wp i q (k r) Q E (t.push i q (.call op r) w)

variable {K} {i : Nat} {q : Req} {Q Q' : α → State Op Resp ε σ Req → Prop}
  {E E' : ε → State Op Resp ε σ Req → Prop} {s t : State Op Resp ε σ Req}

@[simp] theorem wp_done {a : α} : K.wp i q (.done a) Q E s ↔ Q a s := Iff.rfl

@[simp] theorem wp_fail {e : ε} : K.wp i q (.fail e : Prog Op Resp ε α) Q E s ↔ E e s := Iff.rfl

theorem wp_mono {p : Prog Op Resp ε α} (hQ : ∀ a s, Q a s → Q' a s) (hE : ∀ e s, E e s → E' e s)
    (h : K.wp i q p Q E s) : K.wp i q p Q' E' s := by
  induction p generalizing s with
  | done a => exact hQ a s h
  | fail e => exact hE e s h
  | call op k ih =>
    intro t ho hi
    obtain ⟨hp, hk⟩ := h t ho hi
    exact ⟨hp, fun inp r w he => ih r (hk inp r w he)⟩

/-- **Sequencing**: what `p` has to establish is what `f` starts from. -/
theorem wp_bind {p : Prog Op Resp ε α} {f : α → Prog Op Resp ε β}
    {R : β → State Op Resp ε σ Req → Prop} :
    K.wp i q (p.bind f) R E s ↔ K.wp i q p (fun a t => K.wp i q (f a) R E t) E s := by
  induction p generalizing s with
  | done a => rfl
  | fail e => rfl
  | call op k ih =>
    refine forall_congr' fun t => forall_congr' fun _ => forall_congr' fun _ =>
      and_congr_right fun _ => ?_
    exact forall_congr' fun inp => forall_congr' fun r => forall_congr' fun w =>
      forall_congr' fun _ => ih r

/-- Sequencing, where `p` establishes more than it has to. -/
theorem wp_seq {p : Prog Op Resp ε α} {f : α → Prog Op Resp ε β}
    {R : β → State Op Resp ε σ Req → Prop} {F : ε → State Op Resp ε σ Req → Prop}
    (h : K.wp i q p Q F s) (hE : ∀ e t, F e t → E e t) (hf : ∀ a t, Q a t → K.wp i q (f a) R E t) :
    K.wp i q (p.bind f) R E s :=
  wp_bind.mpr (wp_mono hf hE h)

/-- **Handling**: an error of `p` is what the handler starts from. -/
theorem wp_handle {p : Prog Op Resp ε α} {h : ε → Prog Op Resp ε α} :
    K.wp i q (p.handle h) Q E s ↔ K.wp i q p Q (fun e t => K.wp i q (h e) Q E t) s := by
  induction p generalizing s with
  | done a => rfl
  | fail e => rfl
  | call op k ih =>
    refine forall_congr' fun t => forall_congr' fun _ => forall_congr' fun _ =>
      and_congr_right fun _ => ?_
    exact forall_congr' fun inp => forall_congr' fun r => forall_congr' fun w =>
      forall_congr' fun _ => ih r

/-- **One call.**  From a fact `P` the others cannot spoil, the call needs its
precondition, and each answer has to establish what comes after it. -/
theorem wp_await {op : Op} {Q : Resp op → State Op Resp ε σ Req → Prop}
    {P : State Op Resp ε σ Req → Prop} (hP : K.Stable i P) (hs : P s)
    (hpre : ∀ t, K.Inv t → P t → K.Pre i q op t)
    (hok : ∀ t inp a w, K.Inv t → P t → M.exec i inp op t.world = some (.ok a, w) →
      Q a (t.push i q (.call op (.ok a)) w))
    (herr : ∀ t inp e w, K.Inv t → P t → M.exec i inp op t.world = some (.error e, w) →
      E e (t.push i q (.call op (.error e)) w)) :
    K.wp i q (Prog.await op) Q E s := by
  intro t ho hi
  have ht := hP.others ho hs
  refine ⟨hpre t hi ht, fun inp r w he => ?_⟩
  cases r with
  | ok a => exact hok t inp a w hi ht he
  | error e => exact herr t inp e w hi ht he

/-- **Programs that only make calls of one sort.**  A fact `P` that the others
cannot spoil, that lets every call in `S` be made, and that each of them keeps,
holds to the end of a program whose calls are all in `S`. -/
theorem wp_of_calls {S : Op → Prop} {P : State Op Resp ε σ Req → Prop} (hP : K.Stable i P)
    (hpre : ∀ op t, S op → K.Inv t → P t → K.Pre i q op t)
    (hown : ∀ op t inp r w, S op → K.Inv t → P t → M.exec i inp op t.world = some (r, w) →
      P (t.push i q (.call op r) w))
    {p : Prog Op Resp ε α} (hp : p.Calls S) (hs : P s) :
    K.wp i q p (fun _ => P) (fun _ => P) s := by
  induction p generalizing s with
  | done a => exact hs
  | fail e => exact hs
  | call op k ih =>
    intro t ho hi
    have ht := hP.others ho hs
    exact ⟨hpre op t hp.1 hi ht,
      fun inp r w he => ih r (hp.2 r) (hown op t inp r w hp.1 hi ht he)⟩

/-- **Programs that handle no error.**  A fact that the calls keep when they are
answered holds where the program ends with a value. -/
theorem wp_of_strict {S : Op → Prop} {F : ε → Prop} {P : State Op Resp ε σ Req → Prop}
    (hP : K.Stable i P) (hpre : ∀ op t, S op → K.Inv t → P t → K.Pre i q op t)
    (hok : ∀ op t inp a w, S op → K.Inv t → P t → M.exec i inp op t.world = some (.ok a, w) →
      P (t.push i q (.call op (.ok a)) w))
    (herror : ∀ op t inp e w, S op → P t → M.exec i inp op t.world = some (.error e, w) →
      E e (t.push i q (.call op (.error e)) w))
    (hfail : ∀ e t, F e → E e t) {p : Prog Op Resp ε α} (hp : p.Strict S F) (hs : P s) :
    K.wp i q p (fun _ => P) E s := by
  induction p generalizing s with
  | done a => exact hs
  | fail e => exact hfail e s hp
  | call op k ih =>
    obtain ⟨hop, herr, hk⟩ := hp
    intro t ho hi
    have ht := hP.others ho hs
    refine ⟨hpre op t hop hi ht, fun inp r w he => ?_⟩
    cases r with
    | ok a => exact ih (.ok a) (hk a) (hok op t inp a w hop hi ht he)
    | error e =>
      rw [herr e]
      exact herror op t inp e w hop ht he

/-- **The frame rule.**  A fact that neither the others nor the thread's own calls spoil holds at
the end as well. -/
theorem wp_frame {P : State Op Resp ε σ Req → Prop} (hP : K.Stable i P)
    (hown : ∀ op t inp r w, P t → M.exec i inp op t.world = some (r, w) →
      P (t.push i q (.call op r) w)) {p : Prog Op Resp ε α} (h : K.wp i q p Q E s) (hs : P s) :
    K.wp i q p (fun a t => Q a t ∧ P t) (fun e t => E e t ∧ P t) s := by
  induction p generalizing s with
  | done a => exact ⟨h, hs⟩
  | fail e => exact ⟨h, hs⟩
  | call op k ih =>
    intro t ho hi
    obtain ⟨hp, hk⟩ := h t ho hi
    exact ⟨hp, fun inp r w he => ih r (hk inp r w he) (hown op t inp r w (hP.others ho hs) he)⟩

/-- A thread that is yet to call does not mind what the others do. -/
theorem wp_others {p : Prog Op Resp ε α} (hQ : ∀ a, K.Stable i (Q a)) (hE : ∀ e, K.Stable i (E e))
    (ho : K.Others i s t) (h : K.wp i q p Q E s) : K.wp i q p Q E t := by
  cases p with
  | done a => exact (hQ a).others ho h
  | fail e => exact (hE e).others ho h
  | call op k => exact fun t' ho' hi => h t' (ho.trans ho') hi

/-! ### Programs that meet the contract from any state -/

variable (K) (i q) in
/-- Every call of the program is made with its precondition, wherever it is started. -/
def Meets (p : Prog Op Resp ε α) : Prop :=
  ∀ s, K.wp i q p (fun _ _ => True) (fun _ _ => True) s

theorem Meets.done {a : α} : K.Meets i q (.done a : Prog Op Resp ε α) := fun _ => trivial

theorem Meets.fail {e : ε} : K.Meets i q (.fail e : Prog Op Resp ε α) := fun _ => trivial

theorem Meets.await {op : Op} (h : ∀ s, K.Pre i q op s) : K.Meets i q (Prog.await op) :=
  fun _ => wp_await (Stable.true i) trivial (fun t _ _ => h t) (fun _ _ _ _ _ _ _ => trivial)
    fun _ _ _ _ _ _ _ => trivial

/-- Where the calls need nothing. -/
theorem Meets.free (h : ∀ op s, K.Pre i q op s) (p : Prog Op Resp ε α) : K.Meets i q p := by
  induction p with
  | done a => exact .done
  | fail e => exact .fail
  | call op k ih => exact fun s t _ _ => ⟨h op t, fun _ r _ _ => ih r _⟩

theorem Meets.bind {p : Prog Op Resp ε α} {f : α → Prog Op Resp ε β} (hp : K.Meets i q p)
    (hf : ∀ a, K.Meets i q (f a)) : K.Meets i q (p.bind f) :=
  fun s => wp_seq (hp s) (fun _ _ h => h) fun a t _ => hf a t

theorem Meets.handle {p : Prog Op Resp ε α} {h : ε → Prog Op Resp ε α} (hp : K.Meets i q p)
    (hh : ∀ e, K.Meets i q (h e)) : K.Meets i q (p.handle h) :=
  fun s => wp_handle.mpr (wp_mono (fun _ _ h => h) (fun e t _ => hh e t) (hp s))

/-! ### More than one contract -/

variable (K) in
/-- Two contracts at once. -/
def inter (L : Contract M) : Contract M where
  Inv s := K.Inv s ∧ L.Inv s
  Pre i q op s := K.Pre i q op s ∧ L.Pre i q op s
  call_inv h hp he := ⟨K.call_inv h.1 hp.1 he, L.call_inv h.2 hp.2 he⟩
  crash_inv h := ⟨K.crash_inv h.1, L.crash_inv h.2⟩

variable {L : Contract M}

theorem OtherStep.inter (h : (K.inter L).OtherStep i s t) : K.OtherStep i s t ∧ L.OtherStep i s t := by
  cases h with
  | call hj hinv hpre he => exact ⟨.call hj hinv.1 hpre.1 he, .call hj hinv.2 hpre.2 he⟩
  | crash hj hinv => exact ⟨.crash hj hinv.1, .crash hj hinv.2⟩

/-- **A program that meets each of two contracts meets both.** -/
theorem wp_inter {p : Prog Op Resp ε α} (h : K.wp i q p Q E s) (h' : L.wp i q p Q' E' s) :
    (K.inter L).wp i q p (fun a t => Q a t ∧ Q' a t) (fun e t => E e t ∧ E' e t) s := by
  induction p generalizing s with
  | done a => exact ⟨h, h'⟩
  | fail e => exact ⟨h, h'⟩
  | call op k ih =>
    intro t ho hi
    have hothers : K.Others i s t := ho.lift id fun _ _ hstep => (OtherStep.inter hstep).1
    have hothers' : L.Others i s t := ho.lift id fun _ _ hstep => (OtherStep.inter hstep).2
    obtain ⟨hp, hk⟩ := h t hothers hi.1
    obtain ⟨hp', hk'⟩ := h' t hothers' hi.2
    exact ⟨⟨hp, hp'⟩, fun inp r w he => ih r (hk inp r w he) (hk' inp r w he)⟩

/-! ### Soundness -/

theorem concat_cases {τ : Type} {l : List τ} {x y : τ} {j : Nat} (h : (l ++ [x])[j]? = some y) :
    l[j]? = some y ∨ (j = l.length ∧ y = x) := by
  rw [List.getElem?_append] at h
  split at h
  · exact .inl h
  · obtain ⟨hlt, hy⟩ := List.getElem?_eq_some_iff.mp h
    have hj : j = l.length := by simp at hlt; omega
    subst hj
    exact .inr ⟨rfl, by simpa using hy.symm⟩

theorem set_cases {τ : Type} {l : List τ} {x y : τ} {i j : Nat} (h : (l.set i x)[j]? = some y) :
    (j = i ∧ y = x) ∨ (j ≠ i ∧ l[j]? = some y) := by
  by_cases hj : j = i
  · subst hj
    have hlt := (List.getElem?_eq_some_iff.mp h).1
    rw [List.getElem?_set_self (by simpa using hlt)] at h
    exact .inl ⟨rfl, (Option.some.inj h).symm⟩
  · rw [List.getElem?_set_ne (Ne.symm hj)] at h
    exact .inr ⟨hj, h⟩

/-- Every entry of the history is by a thread there is. -/
theorem event_tid_lt {init : σ → Prop} {c : Config Op Resp ε σ Req ρ} (h : M.Reachable init c) :
    ∀ e ∈ c.state.hist, e.tid < c.threads.length := by
  induction h with
  | boot _ => intro e he; simp [Machine.boot] at he
  | step _ hn ih =>
    rcases Machine.next_cases hn with
      ⟨q, _, rfl⟩ | ⟨i, inp, q, op, k, r, w, ht, _, rfl⟩ | ⟨i, q, op, k, ht, rfl⟩
    · intro e he
      have := ih e he
      simp only [List.length_append, List.length_singleton]
      omega
    all_goals
      intro e he
      have hlt := (List.getElem?_eq_some_iff.mp ht).1
      simp only [List.length_set]
      rcases List.mem_cons.mp he with rfl | he
      · exact hlt
      · exact ih e he

/-- A thread keeps its request. -/
theorem thread_of_event {init : σ → Prop} {c : Config Op Resp ε σ Req ρ} (h : M.Reachable init c) :
    ∀ e ∈ c.state.hist, ∃ p, c.threads[e.tid]? = some (e.req, p) := by
  have hset : ∀ {l : List (Req × Prog Op Resp ε ρ)} {i j : Nat} {q q' : Req}
      {p p' p₁ : Prog Op Resp ε ρ}, l[i]? = some (q, p) → l[j]? = some (q', p') →
      ∃ p₂, (l.set i (q, p₁))[j]? = some (q', p₂) := by
    intro l i j q q' p p' p₁ hi hj
    by_cases hij : i = j
    · subst hij
      obtain ⟨rfl, _⟩ := Prod.mk.inj (Option.some.inj (hi.symm.trans hj))
      exact ⟨p₁, List.getElem?_set_self (List.getElem?_eq_some_iff.mp hi).1⟩
    · exact ⟨p', (List.getElem?_set_ne hij).trans hj⟩
  induction h with
  | boot _ => intro e he; simp [Machine.boot] at he
  | step _ hn ih =>
    rcases Machine.next_cases hn with
      ⟨q, _, rfl⟩ | ⟨i, inp, q, op, k, r, w, ht, _, rfl⟩ | ⟨i, q, op, k, ht, rfl⟩
    · intro e he
      obtain ⟨p, hp⟩ := ih e he
      exact ⟨p, (List.getElem?_append_left (List.getElem?_eq_some_iff.mp hp).1).trans hp⟩
    all_goals
      intro e he
      rcases List.mem_cons.mp he with rfl | he
      · exact hset ht ht
      · obtain ⟨p, hp⟩ := ih e he
        exact hset ht hp

/-- **Soundness**, for the runs all of whose decisions are of a kind: if every request that may be
spawned meets the contract, the invariant holds in every configuration reached, and every thread
still meets the contract from where it is. -/
theorem sound_by (K : Contract M) {kind : Config Op Resp ε σ Req ρ → Label Inp Req → Prop}
    {init : σ → Prop} {Q : Nat → Req → ρ → State Op Resp ε σ Req → Prop}
    {E : Nat → Req → ε → State Op Resp ε σ Req → Prop}
    (hinit : ∀ w, init w → K.Inv ⟨w, []⟩)
    (hreq : ∀ i q c, K.Inv c.state → kind c (.spawn q) → M.admits q c.state.world = true →
      (∀ e ∈ c.state.hist, e.tid ≠ i) → K.wp i q (M.prog q) (Q i q) (E i q) c.state)
    (hQ : ∀ i q a, K.Stable i (Q i q a)) (hE : ∀ i q e, K.Stable i (E i q e))
    (hcrash : ∀ i q s, K.Inv s → E i q M.crashed (s.push i q .crash (M.crash i s.world)))
    {c : Config Op Resp ε σ Req ρ} (h : M.ReachableBy kind init c) :
    K.Inv c.state ∧ ∀ i q p, c.threads[i]? = some (q, p) →
      K.wp i q p (Q i q) (E i q) c.state := by
  induction h with
  | boot hw => exact ⟨hinit _ hw, fun i q p ht => by simp [Machine.boot] at ht⟩
  | @step c c' l hr hkind hn ih =>
    obtain ⟨hi, hw⟩ := ih
    rcases Machine.next_eq_some hn with
      ⟨q, rfl, ha, rfl⟩ | ⟨i, inp, q, op, k, r, w, _, ht, he, rfl⟩ | ⟨i, q, op, k, _, ht, rfl⟩
    · refine ⟨hi, fun j q' p hj => ?_⟩
      rcases concat_cases hj with hj | ⟨rfl, hx⟩
      · exact hw j q' p hj
      · obtain ⟨rfl, rfl⟩ := Prod.mk.inj hx
        exact hreq _ q' c hi hkind ha fun e he => Nat.ne_of_lt (event_tid_lt hr.reachable e he)
    · obtain ⟨hp, hk⟩ := hw i q _ ht c.state .refl hi
      refine ⟨K.call_inv hi hp he, fun j q' p hj => ?_⟩
      rcases set_cases hj with ⟨rfl, hx⟩ | ⟨hji, hj⟩
      · obtain ⟨rfl, rfl⟩ := Prod.mk.inj hx
        exact hk inp r w he
      · exact wp_others (hQ j q') (hE j q') (.single (.call (Ne.symm hji) hi hp he)) (hw j q' p hj)
    · refine ⟨K.crash_inv hi, fun j q' p hj => ?_⟩
      rcases set_cases hj with ⟨rfl, hx⟩ | ⟨hji, hj⟩
      · obtain ⟨rfl, rfl⟩ := Prod.mk.inj hx
        exact hcrash j q' c.state hi
      · exact wp_others (hQ j q') (hE j q') (.single (.crash (Ne.symm hji) hi)) (hw j q' p hj)

/-- **Soundness.**  If every request meets the contract when it is admitted, then
in every reachable configuration the invariant holds and every thread still
meets the contract from where it is. -/
theorem sound (K : Contract M) {init : σ → Prop} {Q : Nat → Req → ρ → State Op Resp ε σ Req → Prop}
    {E : Nat → Req → ε → State Op Resp ε σ Req → Prop}
    (hinit : ∀ w, init w → K.Inv ⟨w, []⟩)
    (hreq : ∀ i q s, K.Inv s → M.admits q s.world = true → (∀ e ∈ s.hist, e.tid ≠ i) →
      K.wp i q (M.prog q) (Q i q) (E i q) s)
    (hQ : ∀ i q a, K.Stable i (Q i q a)) (hE : ∀ i q e, K.Stable i (E i q e))
    (hcrash : ∀ i q s, K.Inv s → E i q M.crashed (s.push i q .crash (M.crash i s.world)))
    {c : Config Op Resp ε σ Req ρ} (h : M.Reachable init c) :
    K.Inv c.state ∧ ∀ i q p, c.threads[i]? = some (q, p) →
      K.wp i q p (Q i q) (E i q) c.state :=
  K.sound_by hinit (fun i q c hi _ ha hnew => hreq i q c.state hi ha hnew) hQ hE hcrash h.by_any

/-- What one decision of the scheduler does to the state, when every thread meets
the contract: a call that is made has its precondition. -/
theorem state_cases {c c' : Config Op Resp ε σ Req ρ} {l : Label Inp Req}
    {Q : Nat → Req → ρ → State Op Resp ε σ Req → Prop}
    {E : Nat → Req → ε → State Op Resp ε σ Req → Prop}
    (h : K.Inv c.state ∧ ∀ i q p, c.threads[i]? = some (q, p) →
      K.wp i q p (Q i q) (E i q) c.state) (hn : M.next c l = some c') :
    c'.state = c.state ∨
    (∃ i q inp op r w, K.Pre i q op c.state ∧ M.exec i inp op c.state.world = some (r, w) ∧
      c'.state = c.state.push i q (.call op r) w) ∨
    (∃ i q, c'.state = c.state.push i q .crash (M.crash i c.state.world)) := by
  rcases Machine.next_cases hn with
    ⟨q, _, rfl⟩ | ⟨i, inp, q, op, k, r, w, ht, he, rfl⟩ | ⟨i, q, op, k, _, rfl⟩
  · exact .inl rfl
  · exact .inr (.inl ⟨i, q, inp, op, r, w, (h.2 i q _ ht c.state .refl h.1).1, he, rfl⟩)
  · exact .inr (.inr ⟨i, q, rfl⟩)

/-- Soundness for the invariant alone. -/
theorem inv_of_reachable (K : Contract M) {init : σ → Prop}
    (hinit : ∀ w, init w → K.Inv ⟨w, []⟩)
    (hreq : ∀ i q s, K.Inv s → M.admits q s.world = true → (∀ e ∈ s.hist, e.tid ≠ i) →
      K.wp i q (M.prog q) (fun _ _ => True) (fun _ _ => True) s)
    {c : Config Op Resp ε σ Req ρ} (h : M.Reachable init c) : K.Inv c.state :=
  (K.sound hinit hreq (fun _ _ _ => Stable.true _) (fun _ _ _ => Stable.true _)
    (fun _ _ _ _ => trivial) h).1

/-- **A fact that the calls of a contract keep holds in every reachable configuration.** -/
theorem keeps_of_reachable (K : Contract M) {init : σ → Prop} {J : State Op Resp ε σ Req → Prop}
    (hinit : ∀ w, init w → K.Inv ⟨w, []⟩ ∧ J ⟨w, []⟩)
    (hreq : ∀ i q s, K.Inv s → M.admits q s.world = true → (∀ e ∈ s.hist, e.tid ≠ i) →
      K.wp i q (M.prog q) (fun _ _ => True) (fun _ _ => True) s)
    (hcall : ∀ i q op s inp r w, K.Inv s → J s → K.Pre i q op s →
      M.exec i inp op s.world = some (r, w) → J (s.push i q (.call op r) w))
    (hcrash : ∀ i q s, K.Inv s → J s → J (s.push i q .crash (M.crash i s.world)))
    {c : Config Op Resp ε σ Req ρ} (h : M.Reachable init c) : J c.state := by
  have hsound : ∀ {c : Config Op Resp ε σ Req ρ}, M.Reachable init c → K.Inv c.state ∧
      ∀ i q p, c.threads[i]? = some (q, p) →
        K.wp i q p (fun _ _ => True) (fun _ _ => True) c.state :=
    K.sound (fun w hw => (hinit w hw).1) hreq (fun _ _ _ => Stable.true _)
      (fun _ _ _ => Stable.true _) fun _ _ _ _ => trivial
  induction h with
  | boot hw => exact (hinit _ hw).2
  | step hr hn ih =>
    have hinv := (hsound hr).1
    rcases state_cases (hsound hr) hn with hs | ⟨i, q, inp, op, r, w, hpre, he, hs⟩ | ⟨i, q, hs⟩
    · exact hs ▸ ih
    · exact hs ▸ hcall i q op _ inp r w hinv ih hpre he
    · exact hs ▸ hcrash i q _ hinv ih

end Contract

end LakiraBackend.Concurrency
