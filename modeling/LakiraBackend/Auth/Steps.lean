import LakiraBackend.Auth.System

/-!
# What one call does

`StoreStep` lists what a call can do to the store, however it ends, and
`exec_store` says it is one of these; every invariant of the store is proved from
it.  After it, what the calls answer when they are done, and the tables that a
step leaves alone.
-/

namespace LakiraBackend.Auth

open LakiraBackend.Concurrency

variable {D : Deps} {i : Nat} {inp : Input} {w w' : World}

/-- Whether a call ends the caller's transaction, however it ends itself. -/
def Op.ends : Op → Bool
  | .call .commit => true
  | .call .rollback => true
  | _ => false

/-- What a call of thread `i` can do to the store. -/
inductive StoreStep (D : Deps) (i : Nat) (s : AuthStore) : Op → AuthStore → Prop
  | same {op : Op} : op.ends = false → StoreStep D i s op s
  | lock {h : TokenHash} {t : RefreshToken} :
      (s.view (schema D) i).refreshTokens.find? (fun t => t.tokenHash = h) = some t →
      (∀ j, (j, ⟨.refreshTokens, t.id⟩) ∈ s.locks → j = i) →
      StoreStep D i s (.call (.findRefreshTokenForUpdate h)) (s.lock i [⟨.refreshTokens, t.id⟩])
  | write {tx : Bool} {wr : Write} : s.Takes (schema D) i tx wr →
      StoreStep D i s (.call (.write tx wr)) (s.written (schema D) i tx wr)
  | commit : StoreStep D i s (.call .commit) (s.commit (schema D) i)
  | rollback {c : Call} : c = .commit ∨ c = .rollback →
      StoreStep D i s (.call c) (s.rollback i)
  | start {tx : Bool} {u : Update} :
      StoreStep D i s (.call (.startUpdate tx u))
        (s.start i ⟨tx, u, u.matching (s.base (schema D) i tx)⟩)
  | finish {st : Statement} : (i, st) ∈ s.running → s.Takes (schema D) i st.tx st.write →
      StoreStep D i s (.call (.finishUpdate st.tx st.update))
        ((s.written (schema D) i st.tx st.write).stop i st)
  | stop {st : Statement} : (i, st) ∈ s.running →
      StoreStep D i s (.call (.finishUpdate st.tx st.update)) (s.stop i st)

theorem underway_some {tx : Bool} {u : Update} {st : Statement}
    (h : w.underway i tx u = some st) :
    (i, st) ∈ w.store.running ∧ st.tx = tx ∧ st.update = u := by
  obtain ⟨⟨j, st'⟩, hf, rfl⟩ := Option.map_eq_some_iff.mp h
  have hm := List.mem_of_find?_eq_some hf
  have hp := List.find?_some hf
  simp only [Bool.and_eq_true, decide_eq_true_eq] at hp
  obtain ⟨⟨rfl, htx⟩, hu⟩ := hp
  exact ⟨hm, htx, hu⟩

theorem lockRefreshToken_cases {h : TokenHash} {t : Option RefreshToken}
    (he : w.lockRefreshToken D i h = some (t, w')) :
    (t = none ∧ w' = w) ∨
    ∃ t', t = some t' ∧
      (w.store.view (schema D) i).refreshTokens.find? (fun t => t.tokenHash = h) = some t' ∧
      (∀ j, (j, ⟨.refreshTokens, t'.id⟩) ∈ w.store.locks → j = i) ∧
      w' = { w with store := w.store.lock i [⟨.refreshTokens, t'.id⟩] } := by
  simp only [World.lockRefreshToken] at he
  split at he
  · obtain ⟨rfl, rfl⟩ := Prod.mk.inj (Option.some.inj he)
    exact .inl ⟨rfl, rfl⟩
  · rename_i t' hf
    split at he
    · cases he
    · rename_i hl
      obtain ⟨rfl, rfl⟩ := Prod.mk.inj (Option.some.inj he)
      refine .inr ⟨t', rfl, hf, fun j hj => ?_, rfl⟩
      by_contra hne
      exact hl (w.store.heldByOther_iff.mpr ⟨j, hne, hj⟩)

/-- What a call that is done does to the store. -/
theorem perform_store {c : Call} {r : Except Err c.Answer} (h : perform D i c w = some (r, w')) :
    StoreStep D i w.store (.call c) w'.store := by
  cases c with
  | commit => cases h; exact .commit
  | rollback => cases h; exact .rollback (.inr rfl)
  | startUpdate tx u => cases h; exact .start
  | findRefreshTokenForUpdate hash =>
    obtain ⟨⟨t, w₁⟩, ht, hr⟩ := Option.map_eq_some_iff.mp h
    cases hr
    rcases lockRefreshToken_cases ht with ⟨rfl, rfl⟩ | ⟨t', rfl, hf, hl, rfl⟩
    · exact .same rfl
    · exact .lock hf hl
  | write tx wr =>
    obtain ⟨⟨r₁, s⟩, hs, hr⟩ := Option.map_eq_some_iff.mp h
    cases hr
    rcases Store.write_cases hs with ⟨e, rfl, rfl, _⟩ | ⟨rfl, rfl, ht⟩
    · exact .same rfl
    · exact .write ht
  | finishUpdate tx u =>
    obtain ⟨st, hu, h⟩ := Option.bind_eq_some_iff.mp h
    obtain ⟨hrun, rfl, rfl⟩ := underway_some hu
    obtain ⟨⟨r₁, s⟩, hs, hr⟩ := Option.map_eq_some_iff.mp h
    cases hr
    rcases Store.write_cases hs with ⟨e, rfl, rfl, _⟩ | ⟨rfl, rfl, ht⟩
    · exact .stop hrun
    · exact .finish hrun ht
  | _ => cases h; exact .same rfl

/-- **What a call does to the store**, however it ends. -/
theorem exec_store {op : Op} {r : Except Err op.Answer} (h : exec D i inp op w = some (r, w')) :
    StoreStep D i w.store op w'.store := by
  cases op with
  | call c =>
    simp only [exec] at h
    split at h
    · exact perform_store h
    · cases h
      cases c with
      | commit => exact .rollback (.inl rfl)
      | rollback => exact .rollback (.inr rfl)
      | finishUpdate tx u =>
        simp only [World.abandon]
        split
        · rename_i st hu
          obtain ⟨hrun, rfl, rfl⟩ := underway_some hu
          exact .stop hrun
        · exact .same rfl
      | _ => exact .same rfl
    · obtain ⟨⟨r₁, w₁⟩, hp, hr⟩ := Option.map_eq_some_iff.mp h
      cases hr
      cases c with
      | startUpdate tx u => exact .same rfl
      | _ => exact perform_store hp
  | _ => cases h; exact .same rfl

/-- What a call does besides the store: random values are only ever used up, and mails added. -/
structure Grows (op : Op) (w w' : World) : Prop where
  draws : w.draws ≤ w'.draws
  outbox : w'.outbox = w.outbox ∨ ∃ m, op = .call (.send m) ∧ w'.outbox = m :: w.outbox

theorem Grows.same {op : Op} (hd : w'.draws = w.draws) (ho : w'.outbox = w.outbox) :
    Grows op w w' :=
  ⟨Nat.le_of_eq hd.symm, .inl ho⟩

theorem perform_grows {c : Call} {r : Except Err c.Answer} (h : perform D i c w = some (r, w')) :
    Grows (.call c) w w' := by
  cases c with
  | findRefreshTokenForUpdate hash =>
    obtain ⟨⟨t, w₁⟩, ht, hr⟩ := Option.map_eq_some_iff.mp h
    cases hr
    rcases lockRefreshToken_cases ht with ⟨rfl, rfl⟩ | ⟨t', rfl, _, _, rfl⟩ <;> exact .same rfl rfl
  | write tx wr =>
    obtain ⟨⟨r₁, s⟩, _, hr⟩ := Option.map_eq_some_iff.mp h
    cases hr
    exact .same rfl rfl
  | finishUpdate tx u =>
    obtain ⟨st, _, h⟩ := Option.bind_eq_some_iff.mp h
    obtain ⟨⟨r₁, s⟩, _, hr⟩ := Option.map_eq_some_iff.mp h
    cases hr
    exact .same rfl rfl
  | hash password => cases h; exact ⟨Nat.le_succ _, .inl rfl⟩
  | send m => cases h; exact ⟨Nat.le_refl _, .inr ⟨m, rfl, rfl⟩⟩
  | _ => cases h; exact .same rfl rfl

theorem exec_grows {op : Op} {r : Except Err op.Answer} (h : exec D i inp op w = some (r, w')) :
    Grows op w w' := by
  cases op with
  | call c =>
    simp only [exec] at h
    split at h
    · exact perform_grows h
    · cases h
      cases c with
      | finishUpdate tx u => simp only [World.abandon]; split <;> exact .same rfl rfl
      | _ => exact .same rfl rfl
    · obtain ⟨⟨r₁, w₁⟩, hp, hr⟩ := Option.map_eq_some_iff.mp h
      cases hr
      cases c with
      | startUpdate tx u => exact .same rfl rfl
      | _ => exact perform_grows hp
  | random => cases h; exact ⟨Nat.le_succ _, .inl rfl⟩
  | _ => cases h; exact .same rfl rfl

theorem exec_draws {op : Op} {r : Except Err op.Answer} (h : exec D i inp op w = some (r, w')) :
    w.draws ≤ w'.draws :=
  (exec_grows h).draws

theorem exec_outbox {op : Op} {r : Except Err op.Answer} (h : exec D i inp op w = some (r, w')) :
    w'.outbox = w.outbox ∨ ∃ m, op = .call (.send m) ∧ w'.outbox = m :: w.outbox :=
  (exec_grows h).outbox

/-! ### What a step leaves to the other sessions -/

section Others

variable {s s' : AuthStore} {op : Op} {j : Nat}

theorem pendingOf_written_ne {tx : Bool} {wr : Write} (hij : i ≠ j) :
    (s.written (schema D) j tx wr).pendingOf i = s.pendingOf i := by
  cases tx with
  | false => rfl
  | true => exact s.pendingOf_put_ne _ hij

/-- The uncommitted writes of a session are its own affair. -/
theorem StoreStep.pendingOf_ne (h : StoreStep D j s op s') (hij : i ≠ j) :
    s'.pendingOf i = s.pendingOf i := by
  cases h with
  | same _ => rfl
  | lock _ _ => rfl
  | write _ => exact pendingOf_written_ne hij
  | commit => exact s.pendingOf_rollback_ne hij
  | rollback _ => exact s.pendingOf_rollback_ne hij
  | start => rfl
  | finish _ _ => exact pendingOf_written_ne hij
  | stop _ => rfl

theorem mem_locks_written {tx : Bool} {wr : Write} {l : Nat × Key} (h : l ∈ s.locks) :
    l ∈ (s.written (schema D) j tx wr).locks := by
  cases tx with
  | false => exact h
  | true => exact List.mem_append_left _ h

theorem mem_locks_of_written {tx : Bool} {wr : Write} {l : Nat × Key}
    (h : l ∈ (s.written (schema D) j tx wr).locks) :
    l ∈ s.locks ∨ (l.1 = j ∧ l.2 ∈ wr.rows D (s.base (schema D) j tx)) := by
  cases tx with
  | false => exact .inl h
  | true =>
    rcases List.mem_append.mp h with h | h
    · exact .inl h
    · obtain ⟨k, hk, rfl⟩ := List.mem_map.mp h
      exact .inr ⟨rfl, hk⟩

/-- A session keeps its locks until it ends. -/
theorem StoreStep.mem_locks_ne (h : StoreStep D j s op s') (hij : i ≠ j) {k : Key}
    (hl : (i, k) ∈ s.locks) : (i, k) ∈ s'.locks := by
  cases h with
  | same _ => exact hl
  | lock _ _ => exact List.mem_append_left _ hl
  | write _ => exact mem_locks_written hl
  | commit => exact List.mem_filter.mpr ⟨hl, by simpa using hij⟩
  | rollback _ => exact List.mem_filter.mpr ⟨hl, by simpa using hij⟩
  | start => exact hl
  | finish _ _ => exact mem_locks_written hl
  | stop _ => exact hl

/-- At most one session has locked a row. -/
def Exclusive (s : AuthStore) : Prop :=
  ∀ ⦃i j k⦄, (i, k) ∈ s.locks → (j, k) ∈ s.locks → i = j

theorem Exclusive.written {tx : Bool} {wr : Write} (hl : Exclusive s)
    (ht : s.Takes (schema D) j tx wr) : Exclusive (s.written (schema D) j tx wr) := by
  intro a b k ha hb
  rcases mem_locks_of_written ha with ha | ⟨ha, hka⟩
  · rcases mem_locks_of_written hb with hb | ⟨hb, hkb⟩
    · exact hl ha hb
    · exact (ht.unlocked k hkb a ha).trans hb.symm
  · rcases mem_locks_of_written hb with hb | ⟨hb, hkb⟩
    · exact ha.trans (ht.unlocked k hka b hb).symm
    · exact ha.trans hb.symm

theorem Exclusive.rollback (hl : Exclusive s) (j : Nat) : Exclusive (s.rollback j) :=
  fun _ _ _ ha hb => hl (List.mem_of_mem_filter ha) (List.mem_of_mem_filter hb)

theorem StoreStep.exclusive (h : StoreStep D j s op s') (hl : Exclusive s) : Exclusive s' := by
  cases h with
  | same _ => exact hl
  | @lock hash t _ hfree =>
    intro a b k ha hb
    rcases List.mem_append.mp ha with ha | ha
    · rcases List.mem_append.mp hb with hb | hb
      · exact hl ha hb
      · obtain ⟨hbj, rfl⟩ := Prod.mk.inj (List.mem_singleton.mp hb)
        exact (hfree a ha).trans hbj.symm
    · obtain ⟨haj, rfl⟩ := Prod.mk.inj (List.mem_singleton.mp ha)
      rcases List.mem_append.mp hb with hb | hb
      · exact haj.trans (hfree b hb).symm
      · exact haj.trans (Prod.mk.inj (List.mem_singleton.mp hb)).1.symm
  | write ht => exact hl.written ht
  | commit => exact hl.rollback j
  | rollback _ => exact hl.rollback j
  | start => exact hl
  | finish _ ht => exact hl.written ht
  | stop _ => exact hl

/-- What a step does to the committed data. -/
theorem StoreStep.db_cases (h : StoreStep D j s op s') :
    s'.db = s.db ∨
    (∃ wr, op = .call (.write false wr) ∧ s.Takes (schema D) j false wr ∧
      s'.db = wr.apply D s.db) ∨
    (∃ st : Statement, op = .call (.finishUpdate false st.update) ∧ st.tx = false ∧
      (j, st) ∈ s.running ∧ s.Takes (schema D) j false st.write ∧ s'.db = st.write.apply D s.db) ∨
    (op = .call .commit ∧ s' = s.commit (schema D) j) := by
  cases h with
  | same _ => exact .inl rfl
  | lock _ _ => exact .inl rfl
  | @write tx wr ht =>
    cases tx with
    | false => exact .inr (.inl ⟨wr, rfl, ht, rfl⟩)
    | true => exact .inl rfl
  | commit => exact .inr (.inr (.inr ⟨rfl, rfl⟩))
  | rollback _ => exact .inl rfl
  | start => exact .inl rfl
  | @finish st hrun ht =>
    obtain ⟨tx, u, ids⟩ := st
    cases tx with
    | false => exact .inr (.inr (.inl ⟨_, rfl, rfl, hrun, ht, rfl⟩))
    | true => exact .inl rfl
  | stop _ => exact .inl rfl

/-- What a step does to the uncommitted writes of its own session. -/
theorem StoreStep.pendingOf_self (h : StoreStep D j s op s') :
    (op.ends = false ∧ s'.pendingOf j = s.pendingOf j) ∨
    (∃ wr, op = .call (.write true wr) ∧ s'.pendingOf j = s.pendingOf j ++ [wr]) ∨
    (∃ st : Statement, op = .call (.finishUpdate true st.update) ∧ (j, st) ∈ s.running ∧
      s'.pendingOf j = s.pendingOf j ++ [st.write]) ∨
    (op.ends = true ∧ s'.pendingOf j = []) := by
  cases h with
  | same he => exact .inl ⟨he, rfl⟩
  | lock _ _ => exact .inl ⟨rfl, rfl⟩
  | @write tx wr _ =>
    cases tx with
    | false => exact .inl ⟨rfl, rfl⟩
    | true => exact .inr (.inl ⟨wr, rfl, s.pendingOf_put_self (schema D)⟩)
  | commit => exact .inr (.inr (.inr ⟨rfl, s.pendingOf_rollback_self⟩))
  | rollback hc =>
    refine .inr (.inr (.inr ⟨?_, s.pendingOf_rollback_self⟩))
    rcases hc with rfl | rfl <;> rfl
  | start => exact .inl ⟨rfl, rfl⟩
  | @finish st hrun _ =>
    obtain ⟨tx, u, ids⟩ := st
    cases tx with
    | false => exact .inl ⟨rfl, rfl⟩
    | true => exact .inr (.inr (.inl ⟨_, rfl, hrun, s.pendingOf_put_self (schema D)⟩))
  | stop _ => exact .inl ⟨rfl, rfl⟩

/-- Which UPDATEs are under way after a step. -/
theorem StoreStep.mem_running (h : StoreStep D j s op s') {r : Nat × Statement}
    (hr : r ∈ s'.running) :
    r ∈ s.running ∨ ∃ tx u, op = .call (.startUpdate tx u) ∧ s'.db = s.db ∧
      r = (j, ⟨tx, u, u.matching (s.base (schema D) j tx)⟩) := by
  have hwritten : ∀ {tx : Bool} {wr : Write},
      (s.written (schema D) j tx wr).running = s.running := by
    intro tx wr
    cases tx <;> rfl
  cases h with
  | same _ => exact .inl hr
  | lock _ _ => exact .inl hr
  | write _ => exact .inl (hwritten ▸ hr)
  | commit => exact .inl hr
  | rollback _ => exact .inl hr
  | @start tx u =>
    rcases List.mem_append.mp hr with hr | hr
    · exact .inl hr
    · exact .inr ⟨tx, u, rfl, rfl, List.mem_singleton.mp hr⟩
  | finish _ _ => exact .inl (hwritten ▸ List.mem_of_mem_erase hr)
  | stop _ => exact .inl (List.mem_of_mem_erase hr)

/-! ### Whose writes they are -/

theorem StoreStep.mem_pending (h : StoreStep D j s op s') {l : Nat × Write}
    (hl : l ∈ s'.pending) : l ∈ s.pending ∨ l.1 = j := by
  by_cases hj : l.1 = j
  · exact .inr hj
  · left
    have hmem : l.2 ∈ s'.pendingOf l.1 := s'.mem_pendingOf.mpr hl
    rw [h.pendingOf_ne hj] at hmem
    exact s.mem_pendingOf.mp hmem

/-- An uncommitted write was there before, or the step made it. -/
theorem StoreStep.pending_cases (h : StoreStep D j s op s') {l : Nat × Write}
    (hl : l ∈ s'.pending) :
    l ∈ s.pending ∨ op = .call (.write true l.2) ∨ ∃ st : Statement, l.2 = st.write := by
  by_cases hj : l.1 = j
  · have hmem : l.2 ∈ s'.pendingOf j := hj ▸ s'.mem_pendingOf.mpr hl
    have hold : l.2 ∈ s.pendingOf j → l ∈ s.pending := fun h => s.mem_pendingOf.mp (hj ▸ h)
    rcases h.pendingOf_self with ⟨_, hp⟩ | ⟨wr, rfl, hp⟩ | ⟨st, rfl, _, hp⟩ | ⟨_, hp⟩
    · exact .inl (hold (hp ▸ hmem))
    · rw [hp] at hmem
      rcases List.mem_append.mp hmem with hmem | hmem
      · exact .inl (hold hmem)
      · rw [List.mem_singleton.mp hmem]
        exact .inr (.inl rfl)
    · rw [hp] at hmem
      rcases List.mem_append.mp hmem with hmem | hmem
      · exact .inl (hold hmem)
      · exact .inr (.inr ⟨st, List.mem_singleton.mp hmem⟩)
    · rw [hp] at hmem
      cases hmem
  · exact .inl ((h.mem_pending hl).resolve_right hj)

end Others

/-- Every uncommitted write is by a thread that has made a call. -/
def Attributed (s : AuthState) : Prop :=
  ∀ l ∈ s.world.store.pending, ∃ e ∈ s.hist, e.tid = l.1

theorem Attributed.call {s : AuthState} {q : Request} {op : Op} {r : Except Err op.Answer}
    (h : Attributed s) (he : exec D i inp op s.world = some (r, w')) :
    Attributed (s.push i q (.call op r) w') := by
  intro l hl
  rcases (exec_store he).mem_pending hl with hl | hl
  · obtain ⟨e, hmem, htid⟩ := h l hl
    exact ⟨e, List.mem_cons_of_mem _ hmem, htid⟩
  · exact ⟨_, List.mem_cons_self, hl.symm⟩

theorem Attributed.crash {s : AuthState} {q : Request} (h : Attributed s) :
    Attributed (s.push i q .crash { s.world with store := s.world.store.drop i }) := by
  intro l hl
  obtain ⟨e, hmem, htid⟩ := h l (List.mem_of_mem_filter hl)
  exact ⟨e, List.mem_cons_of_mem _ hmem, htid⟩

theorem Attributed.pendingOf_new {s : AuthState} (h : Attributed s)
    (hnew : ∀ e ∈ s.hist, e.tid ≠ i) : s.world.store.pendingOf i = [] := by
  refine List.eq_nil_iff_forall_not_mem.mpr fun wr hwr => ?_
  obtain ⟨e, he, htid⟩ := h _ (s.world.store.mem_pendingOf.mp hwr)
  exact hnew e he htid

/-- A call that only reads, or does nothing to the database. -/
def Op.Quiet : Op → Prop
  | .call (.write _ _) => False
  | .call .commit => False
  | .call .rollback => False
  | .call (.startUpdate _ _) => False
  | .call (.finishUpdate _ _) => False
  | .call (.findRefreshTokenForUpdate _) => False
  | _ => True

theorem StoreStep.quiet {s s' : AuthStore} {op : Op} (h : StoreStep D i s op s')
    (hq : op.Quiet) : s' = s := by
  cases h with
  | same _ => rfl
  | rollback hc => rcases hc with rfl | rfl <;> exact hq.elim
  | _ => exact hq.elim

/-! ### What the calls answer -/

theorem exec_call_ok {c : Call} {a : c.Answer} (h : exec D i inp (.call c) w = some (.ok a, w')) :
    perform D i c w = some (.ok a, w') := by
  simp only [exec] at h
  split at h
  · exact h
  · cases h
  · obtain ⟨⟨r₁, w₁⟩, _, hr⟩ := Option.map_eq_some_iff.mp h
    cases hr

theorem exec_read_ok {tx : Bool} {q : Read} {a : q.Answer}
    (h : exec D i inp (.call (.read tx q)) w = some (.ok a, w')) :
    a = q.eval D (w.store.base (schema D) i tx) ∧ w' = w := by
  cases exec_call_ok h
  exact ⟨rfl, rfl⟩

theorem exec_write_ok {tx : Bool} {wr : Write}
    (h : exec D i inp (.call (.write tx wr)) w = some (.ok (), w')) :
    w.store.Takes (schema D) i tx wr ∧
      w' = { w with store := w.store.written (schema D) i tx wr } := by
  obtain ⟨⟨r₁, s⟩, hs, hr⟩ := Option.map_eq_some_iff.mp (exec_call_ok h)
  cases hr
  rcases Store.write_cases hs with ⟨e, he, _, _⟩ | ⟨_, rfl, ht⟩
  · cases he
  · exact ⟨ht, rfl⟩

/-- An UPDATE that is done wrote to the rows of its snapshot. -/
theorem exec_finish_ok {tx : Bool} {u : Update}
    (h : exec D i inp (.call (.finishUpdate tx u)) w = some (.ok (), w')) :
    ∃ st : Statement, (i, st) ∈ w.store.running ∧ st.tx = tx ∧ st.update = u ∧
      w.store.Takes (schema D) i tx st.write ∧
      w' = { w with store := (w.store.written (schema D) i tx st.write).stop i st } := by
  obtain ⟨st, hu, hp⟩ := Option.bind_eq_some_iff.mp (exec_call_ok h)
  obtain ⟨hrun, htx, hup⟩ := underway_some hu
  obtain ⟨⟨r₁, s⟩, hs, hr⟩ := Option.map_eq_some_iff.mp hp
  cases hr
  rcases Store.write_cases hs with ⟨e, he, _, _⟩ | ⟨_, rfl, ht⟩
  · cases he
  · exact ⟨st, hrun, htx, hup, ht, rfl⟩

theorem exec_lock_ok {h : TokenHash} {t : Option RefreshToken}
    (he : exec D i inp (.call (.findRefreshTokenForUpdate h)) w = some (.ok t, w')) :
    w.lockRefreshToken D i h = some (t, w') := by
  obtain ⟨⟨t₁, w₁⟩, ht, hr⟩ := Option.map_eq_some_iff.mp (exec_call_ok he)
  cases hr
  exact ht

theorem exec_random {r : Except Err Uuid} (h : exec D i inp .random w = some (r, w')) :
    r = .ok (.drawn i w.draws) ∧ w' = { w with draws := w.draws + 1 } := by
  cases h
  exact ⟨rfl, rfl⟩

/-! ### Random values -/

/-- Drawn by thread `i`, one of the first `n` values. -/
def Uuid.By (i n : Nat) (u : Uuid) : Prop := ∃ k, k < n ∧ u = .drawn i k

theorem Uuid.By.mono {i n m : Nat} {u : Uuid} (h : u.By i n) (hnm : n ≤ m) : u.By i m := by
  obtain ⟨k, hk, rfl⟩ := h
  exact ⟨k, Nat.lt_of_lt_of_le hk hnm, rfl⟩

theorem Uuid.By.ne {i j n m : Nat} {u v : Uuid} (hu : u.By i n) (hv : v.By j m) (hij : i ≠ j) :
    u ≠ v := by
  obtain ⟨k, _, rfl⟩ := hu
  obtain ⟨l, _, rfl⟩ := hv
  exact fun h => hij (Uuid.drawn.inj h).1

end LakiraBackend.Auth
