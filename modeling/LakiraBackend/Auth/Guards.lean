import LakiraBackend.Auth.Footprints
import LakiraBackend.Concurrency.History
import LakiraBackend.Concurrency.Naming

/-!
# Guards: what a thread has done before it writes

A claim about writes mostly rests on what the writer has read before.  `guard` is
the contract that has such facts for preconditions and nothing but the history for
its invariant.  Here are the rules to prove them of a program, and what they give
of a run for the names in a table: a name is given by one call at most, so it
always means the same row (`Named.unique`), and no two rows share one
(`distinct_of_legal`).
-/

namespace LakiraBackend.Auth

open LakiraBackend.Concurrency

/-- What a thread has to know when it makes a call. -/
abbrev Precondition : Type := Nat → Request → Op → AuthState → Prop

abbrev guard (D : Deps) (init : World → Prop) (Pre : Precondition) : Contract (authMachine D) :=
  Contract.guarded (authMachine D) init Pre

abbrev LegalHistory (D : Deps) (Pre : Precondition) (w₀ : World) (hist : List AuthEvent) : Prop :=
  Legal (authMachine D) Pre w₀ hist

variable {D : Deps} {init : World → Prop} {Pre : Precondition} {i j : Nat} {q : Request}
  {s t : AuthState} {w₀ : World} {hist past : List AuthEvent} {e : AuthEvent}

/-! ### Entries of the history -/

/-- A call of the history is a step of the store, and a crash a drop. -/
theorem store_of_obeys (h : Obeys (authMachine D) Pre e past) :
    (∃ op r, e.act = .call op r ∧ StoreStep D e.tid e.before.store op e.after.store) ∨
    (e.act = .crash ∧ e.after.store = e.before.store.drop e.tid) := by
  obtain ⟨tid, req, act, before, after⟩ := e
  cases act with
  | call op r =>
    obtain ⟨_, inp, he⟩ := h
    have he' : exec D tid inp op before = some (r, after) := he
    exact .inl ⟨op, r, rfl, exec_store he'⟩
  | crash =>
    have ha : after = { before with store := before.store.drop tid } := h
    exact .inr ⟨rfl, by rw [ha]⟩

theorem draws_le_of_obeys (h : Obeys (authMachine D) Pre e past) :
    e.before.draws ≤ e.after.draws := by
  obtain ⟨tid, req, act, before, after⟩ := e
  cases act with
  | call op r =>
    obtain ⟨_, inp, he⟩ := h
    have he' : exec D tid inp op before = some (r, after) := he
    exact exec_draws he'
  | crash =>
    have ha : after = { before with store := before.store.drop tid } := h
    rw [ha]

/-- What no write ends does not end. -/
theorem StoreStep.db_kept {op : Op} {s s' : AuthStore} {P : Db → Prop}
    (hP : ∀ (wr : Write) d, P d → P (wr.apply D d)) (h : StoreStep D i s op s') (hs : P s.db) :
    P s'.db := by
  rcases h.db_cases with hdb | ⟨wr, _, _, hdb⟩ | ⟨st, _, _, _, _, hdb⟩ | ⟨_, rfl⟩
  · exact hdb ▸ hs
  · exact hdb ▸ hP wr _ hs
  · exact hdb ▸ hP st.write _ hs
  · change P ((s.pendingOf i).foldl (fun d wr => wr.apply D d) s.db)
    generalize s.pendingOf i = ws
    induction ws using List.reverseRecOn with
    | nil => exact hs
    | append_singleton ws wr ih =>
      rw [List.foldl_append]
      exact hP wr _ ih

theorem kept_of_legal {P : Db → Prop} (hP : ∀ (wr : Write) d, P d → P (wr.apply D d))
    (h : LegalHistory D Pre w₀ hist) (hs : past <:+ hist)
    (hp : P (worldAfter w₀ past).store.db) : P (worldAfter w₀ hist).store.db := by
  induction hist with
  | nil => rwa [List.suffix_nil.mp hs] at hp
  | cons e hist ih =>
    rcases List.suffix_cons_iff.mp hs with rfl | hs
    · exact hp
    · have hbefore : P e.before.store.db := h.1 ▸ ih h.2.2 hs
      rcases store_of_obeys h.2.1 with ⟨_, _, _, hstep⟩ | ⟨_, hdrop⟩
      · exact hstep.db_kept hP hbefore
      · exact congrArg Store.db hdrop ▸ hbefore

/-- The event is a query outside any transaction, with its answer. -/
def Reads (rd : Read) (a : rd.Answer) (e : AuthEvent) : Prop :=
  e.act = .call (.call (.read false rd)) (.ok a)

/-- A query answers from the committed data, and leaves it. -/
theorem Reads.eval {rd : Read} {a : rd.Answer} (hr : Reads rd a e)
    (h : Obeys (authMachine D) Pre e past) :
    a = rd.eval D e.before.store.db ∧ e.after = e.before := by
  obtain ⟨inp, he⟩ := h.exec hr
  have he' : exec D e.tid inp (.call (.read false rd)) e.before = some (.ok a, e.after) := he
  exact exec_read_ok he'

/-- A value drawn before an entry was drawn before all that come after. -/
theorem draws_le_of_legal (h : LegalHistory D Pre w₀ hist) :
    ∀ e ∈ hist, e.before.draws ≤ (worldAfter w₀ hist).draws := by
  induction hist with
  | nil => intro e he; cases he
  | cons e past ih =>
    intro e' he'
    have hstep := draws_le_of_obeys h.2.1
    rcases List.mem_cons.mp he' with rfl | he'
    · exact hstep
    · refine (ih h.2.2 e' he').trans ?_
      rw [← h.1]
      exact hstep

/-- An uncommitted write was there at the start, or its thread has made it. -/
theorem pending_made (h : LegalHistory D Pre w₀ hist) :
    ∀ l ∈ (worldAfter w₀ hist).store.pending, l ∈ w₀.store.pending ∨
      (∃ e ∈ own l.1 hist, ∃ r, e.act = .call (.call (.write true l.2)) r) ∨
      ∃ st : Statement, l.2 = st.write := by
  induction hist with
  | nil => exact fun l hl => .inl hl
  | cons e past ih =>
    intro l hl
    have hpast : l ∈ e.before.store.pending → l ∈ w₀.store.pending ∨
        (∃ e' ∈ own l.1 (e :: past), ∃ r, e'.act = .call (.call (.write true l.2)) r) ∨
        ∃ st : Statement, l.2 = st.write := by
      intro hl
      refine (ih h.2.2 l (h.1 ▸ hl)).imp_right (Or.imp_left ?_)
      rintro ⟨e', he', hr⟩
      exact ⟨e', mem_own_cons he', hr⟩
    rcases store_of_obeys h.2.1 with ⟨op, r, ha, hstep⟩ | ⟨_, hdrop⟩
    · rcases hstep.mem_pending hl with hl' | htid
      · exact hpast hl'
      · rcases hstep.pending_cases hl with hl' | rfl | hst
        · exact hpast hl'
        · refine .inr (.inl ⟨e, ?_, r, ha⟩)
          rw [own_cons_self htid.symm]
          exact List.mem_cons_self
        · exact .inr (.inr hst)
    · have hl' : l ∈ (e.before.store.drop e.tid).pending := hdrop ▸ hl
      exact hpast (List.mem_of_mem_filter hl')

/-- What every write of a transaction has when it is made, every uncommitted write has. -/
theorem pending_of_legal {P : Write → Prop} (hstart : ∀ l ∈ w₀.store.pending, P l.2)
    (hwrite : ∀ i q wr s, Pre i q (.call (.write true wr)) s → P wr)
    (hupdate : ∀ st : Statement, P st.write) (h : LegalHistory D Pre w₀ hist) :
    ∀ l ∈ (worldAfter w₀ hist).store.pending, P l.2 := by
  intro l hl
  rcases pending_made h l hl with hl | ⟨e, he, r, ha⟩ | ⟨st, hst⟩
  · exact hstart l hl
  · obtain ⟨past, hs⟩ := exists_past (mem_of_mem_own he).1
    exact hwrite _ _ _ _ ((h.obeys hs).pre ha)
  · exact hst ▸ hupdate st

/-! ### Programs -/

/-- **A program that does not touch a table**, where only the calls on it have a
precondition. -/
theorem meets_untouched {α : Type} {T : Table}
    (hfree : ∀ op s, op.table ≠ some T → Pre i q op s) {Ts : List Table} (hT : T ∉ Ts)
    {p : Async α} (hp : Uses Ts p) : (guard D init Pre).Meets i q p :=
  fun _ => Contract.wp_of_calls (Contract.Stable.true i)
    (fun op t hw _ _ => hfree op t fun ht => hT (hw T ht))
    (fun _ _ _ _ _ _ _ _ _ => trivial) hp trivial

/-- One call, of which only a fact is kept. -/
theorem wp_keep {K : Contract (authMachine D)} {op : Op} {P : AuthState → Prop}
    (hP : K.Stable i P) (hs : P s) (hpre : ∀ t, K.Inv t → P t → K.Pre i q op t)
    (hown : ∀ t inp r w, K.Inv t → P t → exec D i inp op t.world = some (r, w) →
      P (t.push i q (.call op r) w)) :
    K.wp i q (Prog.await op) (fun _ t => P t) (fun _ t => P t) s :=
  Contract.wp_await hP hs hpre (fun t inp a w hi ht he => hown t inp (.ok a) w hi ht he)
    fun t inp e w hi ht he => hown t inp (.error e) w hi ht he

/-- One call, of which a fact about what the thread has done is kept. -/
theorem wp_keepOwn {K : Contract (authMachine D)} {op : Op} {P : List AuthEvent → Prop}
    (hP : ∀ e l, P l → P (e :: l)) (hs : P (own i s.hist))
    (hpre : ∀ t, P (own i t.hist) → K.Pre i q op t) {E : Err → AuthState → Prop}
    (hE : ∀ e t, E e t) :
    K.wp i q (Prog.await op) (fun _ t => P (own i t.hist)) E s := by
  refine Contract.wp_mono (fun _ _ h => h) (fun e t _ => hE e t)
    (wp_keep (Contract.stable_own P) hs (fun t _ ht => hpre t ht) fun t _ r w _ ht _ => ?_)
  rw [own_push]
  exact hP _ _ ht

/-- One call, of which nothing is kept. -/
theorem wp_keep_true {K : Contract (authMachine D)} {op : Op} {P : AuthState → Prop}
    (hP : K.Stable i P) (hs : P s) (hpre : ∀ t, K.Inv t → P t → K.Pre i q op t) :
    K.wp i q (Prog.await op) (fun _ _ => True) (fun _ _ => True) s :=
  Contract.wp_await hP hs hpre (fun _ _ _ _ _ _ _ => trivial) fun _ _ _ _ _ _ _ => trivial

/-- **A transaction**: its body starts from what BEGIN keeps. -/
theorem wp_inTransaction {α : Type} {K : Contract (authMachine D)} {P : AuthState → Prop}
    (hP : K.Stable i P) (hs : P s) (hfree : ∀ op t, op.table = none → K.Pre i q op t)
    (hbegin : ∀ t inp a w, P t → exec D i inp (.call .begin) t.world = some (.ok a, w) →
      P (t.push i q (.call (.call .begin) (.ok a)) w))
    {p : Async α} (hp : ∀ t, P t → K.wp i q p (fun _ _ => True) (fun _ _ => True) t) :
    K.wp i q (runInTransaction p) (fun _ _ => True) (fun _ _ => True) s := by
  have hcall : ∀ {c : Call}, (Op.call c).table = none → K.Meets i q (await c) :=
    fun h => .await fun t => hfree _ t h
  refine Contract.wp_handle.mpr (Contract.wp_mono (fun _ _ h => h) (fun e t _ => ?_)
    (Contract.wp_seq (Contract.wp_await hP hs (fun t _ _ => hfree _ t rfl)
      (fun t inp a w _ ht he => hbegin t inp a w ht he) fun _ _ _ _ _ _ _ => trivial)
        (fun _ _ h => h) fun _ t ht => Contract.wp_seq (hp t ht) (fun _ _ h => h) fun a t _ => ?_))
  · exact Contract.Meets.bind (.handle (hcall rfl) fun _ => .done) (fun _ => .fail) t
  · exact Contract.Meets.bind (hcall rfl) (fun _ => .done) t

theorem meets_runInTransaction {α : Type} {K : Contract (authMachine D)} {p : Async α}
    (hfree : ∀ op t, op.table = none → K.Pre i q op t) (hp : K.Meets i q p) :
    K.Meets i q (runInTransaction p) :=
  fun _ => wp_inTransaction (Contract.Stable.true i) trivial hfree (fun _ _ _ _ _ _ => trivial)
    fun t _ => hp t

/-- **A job**: its work starts from what BEGIN and the record of the message keep. -/
theorem wp_runOnce {K : Contract (authMachine D)} {P : AuthState → Prop}
    (hP : K.Stable i P) (hs : P s)
    (hfree : ∀ op t, Within [.processedMessages] op → K.Pre i q op t)
    (hkeep : ∀ op t inp r w, Within [.processedMessages] op → P t →
      exec D i inp op t.world = some (r, w) → P (t.push i q (.call op r) w))
    {messageId : JsonValue} {queue : String} {org : Option Uuid} {work : Async Unit}
    (hwork : ∀ t, P t → K.wp i q work (fun _ _ => True) (fun _ _ => True) t) :
    K.wp i q (runOnce D messageId queue org work) (fun _ _ => True) (fun _ _ => True) s := by
  unfold runOnce
  split
  · trivial
  · rename_i id _
    refine Contract.wp_handle.mpr (Contract.wp_mono (fun _ _ h => h) (fun e t _ => ?_)
      (Contract.wp_seq (Q := fun _ _ => True) (wp_inTransaction hP hs ?_ ?_ fun t ht => ?_)
        (fun _ _ h => h) fun _ _ _ => trivial))
    · cases e <;> trivial
    · exact fun op t hop => hfree op t (within_of_none hop)
    · exact fun t inp a w ht he => hkeep _ t inp (.ok a) w (within_of_none rfl) ht he
    · have hclaim := Contract.wp_of_calls hP (fun op t hop _ _ => hfree op t hop)
        (fun op t inp r w hop _ ht he => hkeep op t inp r w hop ht he)
        (uses_claimMessage (p := ⟨id, queue, org⟩) (List.mem_singleton_self _)) ht
      exact Contract.wp_seq hclaim (fun _ _ _ => trivial) fun _ t ht => hwork t ht

theorem meets_runOnce {K : Contract (authMachine D)}
    (hfree : ∀ op t, Within [.processedMessages] op → K.Pre i q op t)
    {messageId : JsonValue} {queue : String} {org : Option Uuid} {work : Async Unit}
    (hwork : K.Meets i q work) : K.Meets i q (runOnce D messageId queue org work) :=
  fun _ => wp_runOnce (Contract.Stable.true i) trivial hfree (fun _ _ _ _ _ _ _ _ => trivial)
    fun t _ => hwork t

/-! ### Names -/

/-- A naming whose names are random values, and are not given by the UPDATEs over
many rows. -/
structure RandomNaming (D : Deps) (F : Type) extends Naming (schema D) Uuid F where
  updates_keep : ∀ st : Statement, gives st.write = none

variable {F : Type} {A : RandomNaming D F} {n m : Uuid × F} {u : Uuid}

/-- The event is a call to give the name, whatever came of it. -/
def Gives (A : RandomNaming D F) (n : Uuid × F) (e : AuthEvent) : Prop :=
  ∃ tx wr r, e.act = .call (.call (.write tx wr)) r ∧ A.gives wr = some n

/-- A value of thread `i` that nobody has given yet. -/
def NewName (A : RandomNaming D F) (i : Nat) (u : Uuid) (s : AuthState) : Prop :=
  u.By i s.world.draws ∧ ∀ e ∈ s.hist, ∀ n, Gives A n e → n.1 ≠ u

/-- The preconditions ask for new names. -/
def AsksNew (A : RandomNaming D F) (Pre : Precondition) : Prop :=
  ∀ i q tx wr n s, A.gives wr = some n → Pre i q (.call (.write tx wr)) s → NewName A i n.1 s

theorem newName_of_gives (hA : AsksNew A Pre) (h : Obeys (authMachine D) Pre e past)
    (hg : Gives A n e) : NewName A e.tid n.1 ⟨e.before, past⟩ := by
  obtain ⟨tx, wr, r, ha, hn⟩ := hg
  exact hA _ _ _ _ _ _ hn (h.pre ha)

/-- **A name is given by one call.** -/
theorem gives_once (hA : AsksNew A Pre) (h : LegalHistory D Pre w₀ hist) {e' : AuthEvent}
    {past' : List AuthEvent} (hs : (e :: past) <:+ hist) (hs' : (e' :: past') <:+ hist)
    (hg : Gives A n e) (hg' : Gives A m e') (heq : n.1 = m.1) : e :: past = e' :: past' := by
  have hno : ∀ {e₁ e₂ : AuthEvent} {p₁ p₂ : List AuthEvent} {n₁ n₂ : Uuid × F},
      (e₂ :: p₂) <:+ hist → Gives A n₁ e₁ → Gives A n₂ e₂ → n₁.1 = n₂.1 → ¬ (e₁ :: p₁) <:+ p₂ :=
    fun h₂ hg₁ hg₂ heq hlt =>
      (newName_of_gives hA (h.obeys h₂) hg₂).2 _ (hlt.mem List.mem_cons_self) _ hg₁ heq
  rcases List.suffix_or_suffix_of_suffix hs hs' with hle | hle
  · exact (List.suffix_cons_iff.mp hle).resolve_right (hno hs' hg hg' heq)
  · exact ((List.suffix_cons_iff.mp hle).resolve_right (hno hs hg' hg heq.symm)).symm

theorem not_gives_of_op {op : Op} {r : Except Err op.Answer} {w w' : World}
    (h : ∀ tx wr, op = .call (.write tx wr) → A.gives wr = none) :
    ¬ Gives A n ⟨i, q, .call op r, w, w'⟩ := by
  rintro ⟨tx, wr, r', ha, hn⟩
  obtain ⟨rfl, _⟩ := Act.call.inj ha
  rw [h tx wr rfl] at hn
  cases hn

/-- A drawn value is a new name. -/
theorem newName_of_draw (hA : AsksNew A Pre) (hinv : (guard D init Pre).Inv s) {r : Except Err Uuid}
    {w : World} (hw : w.draws = s.world.draws + 1) :
    NewName A i (.drawn i s.world.draws) (s.push i q (.call .random r) w) := by
  obtain ⟨w₀, _, hworld, hl⟩ := hinv
  refine ⟨⟨s.world.draws, by rw [State.push_world, hw]; exact Nat.lt_succ_self _, rfl⟩, ?_⟩
  intro e he n hg hnu
  rcases List.mem_cons.mp he with rfl | he
  · have hno : ¬ Gives A n ⟨i, q, .call .random r, s.world, w⟩ :=
      not_gives_of_op fun _ _ h => nomatch h
    exact hno hg
  · -- a name given before was drawn before
    obtain ⟨past, hs⟩ := exists_past he
    obtain ⟨⟨l, hlt, hn⟩, _⟩ := newName_of_gives hA (hl.obeys hs) hg
    have hle := draws_le_of_legal hl e he
    rw [hn] at hnu
    have := (Uuid.drawn.inj hnu).2
    rw [← hworld] at hle
    simp only at hlt
    omega

/-- A new name stays new while the thread itself does not give it. -/
theorem NewName.push {op : Op} {r : Except Err op.Answer} {w : World}
    (h : NewName A i u s) (hn : s.world.draws ≤ w.draws)
    (hg : ∀ n, Gives A n ⟨j, q, .call op r, s.world, w⟩ → n.1 ≠ u) :
    NewName A i u (s.push j q (.call op r) w) := by
  refine ⟨h.1.mono hn, fun e he n hgive => ?_⟩
  rcases List.mem_cons.mp he with rfl | he
  · exact hg n hgive
  · exact h.2 e he n hgive

/-- The others do not give it. -/
theorem stable_newName (hA : AsksNew A Pre) : (guard D init Pre).Stable i (NewName A i u) := by
  intro s t h hs
  cases h with
  | @call j q op inp r w hj hinv hpre he =>
    have he' : exec D j inp op s.world = some (r, w) := he
    refine hs.push (exec_draws he') fun n hg hnu => hj ?_
    obtain ⟨tx, wr, r', ha, hn⟩ := hg
    obtain ⟨rfl, _⟩ := Act.call.inj ha
    have hby := (hA _ _ _ _ _ _ hn hpre).1
    by_contra hij
    exact hby.ne hs.1 hij hnu
  | crash _ _ =>
    refine ⟨hs.1, fun e he n hgive => ?_⟩
    rcases List.mem_cons.mp he with rfl | he
    · obtain ⟨_, _, _, ha, _⟩ := hgive
      cases ha
    · exact hs.2 e he n hgive

/-- **Drawing a name.** -/
theorem wp_drawName (hA : AsksNew A Pre) (hfree : ∀ s, Pre i q .random s)
    {P : AuthState → Prop} (hP : (guard D init Pre).Stable i P) (hs : P s)
    (hown : ∀ t r w, P t → P (t.push i q (.call .random r) w)) {E : Err → AuthState → Prop} :
    (guard D init Pre).wp i q (Prog.await Op.random) (fun u t => P t ∧ NewName A i u t) E s := by
  refine Contract.wp_await hP hs (fun t _ _ => hfree t) (fun t inp u w hinv hp he => ?_)
    fun _ _ _ _ _ _ he => nomatch he
  have he' : exec D i inp .random t.world = some (.ok u, w) := he
  obtain ⟨hu, rfl⟩ := exec_random he'
  cases hu
  exact ⟨hown t _ _ hp, newName_of_draw hA hinv rfl⟩

/-! ### What has a name -/

section AnyNaming

variable {N : Type} {B : Naming (schema D) N F} {k : N × F}

theorem known_of_storeStep (hupdates : ∀ st : Statement, B.gives st.write = none) {op : Op}
    {s s' : AuthStore} (h : StoreStep D i s op s') (hk : B.Known s' k) :
    B.Known s k ∨ ∃ tx wr, op = .call (.write tx wr) ∧ B.gives wr = some k := by
  have hwritten : ∀ {tx : Bool} {wr : Write}, B.Known (s.written (schema D) i tx wr) k →
      B.Known s k ∨ B.gives wr = some k := by
    intro tx wr hk
    cases tx with
    | false => exact hk.of_autocommit
    | true => exact hk.of_put
  cases h with
  | same _ => exact .inl hk
  | lock _ _ => exact .inl (hk.mono rfl fun _ h => h)
  | @write tx wr _ => exact (hwritten hk).imp_right fun h => ⟨tx, wr, rfl, h⟩
  | commit => exact .inl hk.of_commit
  | rollback _ => exact .inl (hk.mono rfl fun _ h => List.mem_of_mem_filter h)
  | start => exact .inl (hk.mono rfl fun _ h => h)
  | @finish st _ _ =>
    have hk' : B.Known (s.written (schema D) i st.tx st.write) k := hk.mono rfl fun _ h => h
    refine .inl ((hwritten hk').resolve_right fun h => ?_)
    rw [hupdates st] at h
    cases h
  | stop _ => exact .inl (hk.mono rfl fun _ h => h)

theorem distinct_of_storeStep (hupdates : ∀ st : Statement, B.gives st.write = none) {op : Op}
    {s s' : AuthStore} (h : StoreStep D i s op s') (hd : B.Distinct s)
    (hnew : ∀ tx wr, op = .call (.write tx wr) → s.Takes (schema D) i tx wr →
      ∀ n, B.gives wr = some n → ∀ m, B.Known s m → m.1 ≠ n.1) : B.Distinct s' := by
  have hwritten : ∀ {tx : Bool} {wr : Write}, (∀ n, B.gives wr = some n → ∀ m, B.Known s m →
      m.1 ≠ n.1) → B.Distinct (s.written (schema D) i tx wr) := by
    intro tx wr hw
    cases tx with
    | false => exact hd.autocommit hw
    | true => exact hd.put hw
  cases h with
  | same _ => exact hd
  | lock _ _ => exact hd.mono rfl (.refl _)
  | @write tx wr ht => exact hwritten (hnew tx wr rfl ht)
  | commit => exact hd.commit
  | rollback _ => exact hd.mono rfl List.filter_sublist
  | start => exact hd.mono rfl (.refl _)
  | @finish st _ _ =>
    refine (hwritten fun n hn => ?_).mono (s := s.written (schema D) i st.tx st.write) rfl (.refl _)
    rw [hupdates st] at hn
    cases hn
  | stop _ => exact hd.mono rfl (.refl _)

end AnyNaming

/-- A name that was there at the start, or that some call of the history gave. -/
def Named (A : RandomNaming D F) (w₀ : World) (hist : List AuthEvent) (n : Uuid × F) : Prop :=
  A.Known w₀.store n ∨ ∃ e ∈ hist, Gives A n e

theorem Named.mono (h : Named A w₀ past n) (hs : past <:+ hist) : Named A w₀ hist n :=
  h.imp_right fun ⟨e, he, hg⟩ => ⟨e, hs.mem he, hg⟩

/-- **Every name in the store was given.** -/
theorem named_of_known (h : LegalHistory D Pre w₀ hist)
    (hk : A.Known (worldAfter w₀ hist).store n) : Named A w₀ hist n := by
  induction hist with
  | nil => exact .inl hk
  | cons e past ih =>
    have hpast : A.Known e.before.store n → Named A w₀ (e :: past) n := fun hk =>
      (ih h.2.2 (h.1 ▸ hk)).mono (List.suffix_cons e past)
    rcases store_of_obeys h.2.1 with ⟨op, r, ha, hstep⟩ | ⟨_, hdrop⟩
    · rcases known_of_storeStep A.updates_keep hstep hk with hk | ⟨tx, wr, rfl, hn⟩
      · exact hpast hk
      · exact .inr ⟨e, List.mem_cons_self, tx, wr, r, ha, hn⟩
    · have hk' : A.Known (e.before.store.drop e.tid) n := hdrop ▸ hk
      exact hpast (hk'.mono rfl fun _ h => List.mem_of_mem_filter h)

/-- The names at the start are no random values. -/
def Seeded (A : RandomNaming D F) (w : World) : Prop :=
  A.Distinct w.store ∧ ∀ n, A.Known w.store n → ∃ k, n.1 = .seed k

theorem seeded_of_init {d : Db} (hnd : ((A.names d).map Prod.fst).Nodup)
    (hseed : ∀ n ∈ A.names d, ∃ k, n.1 = .seed k) : Seeded A (World.init d) := by
  refine ⟨⟨hnd, (fun _ h => nomatch h), .nil⟩, ?_⟩
  rintro n (hn | ⟨_, h, _⟩)
  · exact hseed n hn
  · cases h

theorem ne_of_named (hseed : Seeded A w₀) {s : AuthState} (hw : NewName A i u s)
    (hm : Named A w₀ s.hist m) : m.1 ≠ u := by
  rcases hm with hm | ⟨e, he, hg⟩
  · obtain ⟨k, hk⟩ := hseed.2 m hm
    obtain ⟨l, _, rfl⟩ := hw.1
    rw [hk]
    exact fun h => nomatch h
  · exact hw.2 e he m hg

/-- **No two rows share a name.** -/
theorem distinct_of_legal (hA : AsksNew A Pre) (hseed : Seeded A w₀)
    (h : LegalHistory D Pre w₀ hist) : A.Distinct (worldAfter w₀ hist).store := by
  induction hist with
  | nil => exact hseed.1
  | cons e past ih =>
    have hd : A.Distinct e.before.store := h.1 ▸ ih h.2.2
    rcases store_of_obeys h.2.1 with ⟨op, r, ha, hstep⟩ | ⟨_, hdrop⟩
    · refine distinct_of_storeStep A.updates_keep hstep hd fun tx wr hop _ n hn m hm => ?_
      subst hop
      have hnew : NewName A e.tid n.1 ⟨e.before, past⟩ :=
        newName_of_gives hA h.2.1 ⟨tx, wr, r, ha, hn⟩
      exact ne_of_named hseed hnew (named_of_known h.2.2 (h.1 ▸ hm))
    · have hdrop' : (worldAfter w₀ (e :: past)).store = e.before.store.drop e.tid := hdrop
      rw [hdrop']
      exact hd.mono rfl List.filter_sublist

/-- **A name is given once**, so it always means the same. -/
theorem Named.unique (hA : AsksNew A Pre) (hseed : Seeded A w₀)
    (h : LegalHistory D Pre w₀ hist) (hn : Named A w₀ hist n) (hm : Named A w₀ hist m)
    (heq : n.1 = m.1) (hstart : ∀ n m, A.Known w₀.store n → A.Known w₀.store m → n.1 = m.1 → n = m) :
    n = m := by
  induction hist generalizing n m with
  | nil =>
    rcases hn with hn | ⟨_, he, _⟩
    · rcases hm with hm | ⟨_, he, _⟩
      · exact hstart n m hn hm heq
      · cases he
    · cases he
  | cons e past ih =>
    have hcases : ∀ {n}, Named A w₀ (e :: past) n → Named A w₀ past n ∨ Gives A n e := by
      rintro n (hn | ⟨e', he', hg⟩)
      · exact .inl (.inl hn)
      · rcases List.mem_cons.mp he' with rfl | he'
        · exact .inr hg
        · exact .inl (.inr ⟨e', he', hg⟩)
    rcases hcases hn with hn | hgn
    · rcases hcases hm with hm | hgm
      · exact ih h.2.2 hn hm heq
      · exact absurd heq (ne_of_named hseed (newName_of_gives hA h.2.1 hgm) hn)
    · rcases hcases hm with hm | hgm
      · exact absurd heq.symm (ne_of_named hseed (newName_of_gives hA h.2.1 hgn) hm)
      · obtain ⟨tx, wr, r, ha, hn⟩ := hgn
        obtain ⟨tx', wr', r', ha', hm⟩ := hgm
        obtain ⟨hop, _⟩ := Act.call.inj (ha.symm.trans ha')
        cases hop
        exact Option.some.inj (hn.symm.trans hm)

end LakiraBackend.Auth
