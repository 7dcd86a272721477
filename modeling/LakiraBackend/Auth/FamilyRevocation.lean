import LakiraBackend.Auth.FamilyPrograms

/-!
# What a returned `revokeFamily` leaves

`revokeFamily` is one UPDATE outside any transaction.  It revokes the rows of its
snapshot; a successor that a rotation commits while the UPDATE waits for the row
being replaced is not among them, and stays unrevoked (`revokeFamily_overtaken`).

When no rotation commits into the family while it is being revoked, the family is
dead once `revokeFamily` has returned: every row is revoked, and none is ever
added (`revokeFamily_final`).
-/

namespace LakiraBackend.Auth

open LakiraBackend.Concurrency

variable {D : Deps} {f : Uuid}

/-- The rows of a family. -/
def familyRows (f : Uuid) (w : World) : List RefreshToken :=
  w.refreshTokens.filter fun t => t.familyId = f

/-- The event commits a token into the family while thread `i` is revoking it: the
`revokeFamily` has its snapshot, and is not over. -/
def Overtakes (i : Nat) (f : Uuid) (now : Time) (e : AuthEvent) : Prop :=
  (∃ r ∈ e.before.store.running, r.1 = i ∧ r.2.update = .revokeFamily f now) ∧
    ∃ t ∈ e.after.refreshTokens, t.familyId = f ∧
      .upsertRefreshToken t ∈ e.before.store.pendingOf e.tid

instance (i : Nat) (f : Uuid) (now : Time) : DecidablePred (Overtakes i f now) :=
  fun _ => inferInstanceAs (Decidable (_ ∧ _))

/-- The event is the return of a `revokeFamily` of the family. -/
def ReturnsRevoke (f : Uuid) (now : Time) (e : AuthEvent) : Prop :=
  match e.act with
  | .call (.call (.finishUpdate false (.revokeFamily g now'))) (.ok _) => g = f ∧ now' = now
  | _ => False

instance (f : Uuid) (now : Time) : DecidablePred (ReturnsRevoke f now) := fun e => by
  unfold ReturnsRevoke
  split <;> infer_instance

/-- A family with rows, all revoked. -/
structure Dead (f : Uuid) (w : World) : Prop where
  family : FamilyExists f w
  revoked : ∀ t ∈ w.refreshTokens, t.familyId = f → t.revokedAt ≠ none

/-! ### Dead families stay dead -/

theorem filter_map_eq {α : Type} {p : α → Bool} {g : α → α} {l : List α}
    (hp : ∀ a ∈ l, p (g a) = p a) (hg : ∀ a ∈ l, p a = true → g a = a) :
    (l.map g).filter p = l.filter p := by
  induction l with
  | nil => rfl
  | cons a l ih =>
    have hl := ih (fun b hb => hp b (List.mem_cons_of_mem _ hb))
      fun b hb => hg b (List.mem_cons_of_mem _ hb)
    have hpa := hp a List.mem_cons_self
    cases ha : p a with
    | true =>
      rw [List.map_cons, hg a List.mem_cons_self ha, List.filter_cons_of_pos ha,
        List.filter_cons_of_pos ha, hl]
    | false =>
      rw [List.map_cons, List.filter_cons_of_neg (by rw [hpa, ha]; simp),
        List.filter_cons_of_neg (by rw [ha]; simp), hl]

/-- **A dead family does not change.** -/
theorem Dead.step {w w' : World} {j : Nat} (h : Dead f w) (hinv : TokenInv w)
    (hs : TokenStep j w w') : Dead f w' ∧ familyRows f w' = familyRows f w := by
  have hrows : familyRows f w' = familyRows f w := by
    unfold familyRows
    have htab := hs.table
    generalize w'.refreshTokens = ts' at htab
    cases htab with
    | same => rfl
    | @root r hr =>
      obtain ⟨a, ha, haf⟩ := h.family
      rw [List.filter_append, List.filter_cons_of_neg, List.filter_nil, List.append_nil]
      simpa using fun hrf => hr.family_new a ha (haf.trans hrf.symm)
    | @rotate e r now hsucc =>
      -- the token that is replaced is live, so it is not of this family
      have hef : e.familyId ≠ f := fun hef => h.revoked e hsucc.mem hef hsucc.live
      rw [List.filter_append, List.filter_cons_of_neg (by simpa [hsucc.family_eq] using hef),
        List.filter_nil, List.append_nil]
      refine filter_map_eq (fun a ha => ?_) fun a ha haf => ?_
      · rw [replaceBy_eq]
        split
        · rename_i hae
          rw [hinv.wf.eq_of_id ha hsucc.mem hae]
          rfl
        · rfl
      · refine if_neg fun hae => hef ?_
        rw [← hinv.wf.eq_of_id ha hsucc.mem hae]
        exact of_decide_eq_true haf
    | @revoke g now ids =>
      refine filter_map_eq (fun a _ => by simp) fun a ha hf => ?_
      exact if_neg fun hc => h.revoked a ha (by simpa using hf) hc.2.2
  refine ⟨⟨h.family.step hinv hs, fun t ht htf => ?_⟩, hrows⟩
  have hmem : t ∈ familyRows f w' := List.mem_filter.mpr ⟨ht, by simpa using htf⟩
  rw [hrows] at hmem
  exact h.revoked t (List.mem_of_mem_filter hmem) htf

/-! ### Where an unrevoked token comes from -/

section Newcomers

variable {i j : Nat} {w w' : World} {t : RefreshToken}

theorem mem_of_live_revoked {ts : List RefreshToken} {g : Uuid} {now : Time} {ids : List Uuid}
    (ht : t ∈ ts.map (revokeRow g now ids)) (hl : t.revokedAt = none) : t ∈ ts := by
  obtain ⟨a, ha, rfl⟩ := List.mem_map.mp ht
  rwa [revokeRow_of_live hl]

theorem mem_of_live_replaced {ts : List RefreshToken} {e r : RefreshToken} {now : Time}
    (ht : t ∈ ts.map (tokenLineage.replaceBy (e.replacedBy now r))) (hl : t.revokedAt = none) :
    t ∈ ts := by
  obtain ⟨a, ha, rfl⟩ := List.mem_map.mp ht
  rw [replaceBy_eq] at hl ⊢
  split
  · rename_i hae
    rw [if_pos hae] at hl
    cases hl
  · exact ha

/-- An unrevoked token was there before the transaction, or the transaction wrote it. -/
theorem Phase.mem_of_live {p : Phase} (hok : p.Ok w i) (hc : p.Complete)
    (ht : t ∈ p.writes.foldl (fun ts wr => wr.onRefreshTokens ts) w.refreshTokens)
    (hl : t.revokedAt = none) : t ∈ w.refreshTokens ∨ .upsertRefreshToken t ∈ p.writes := by
  cases p with
  | idle => exact .inl ht
  | rooted r =>
    have hr : Root w.refreshTokens w.draws i r := hok
    rw [Phase.writes, List.foldl_cons, List.foldl_nil, upsert_new hr.id_new] at ht
    rcases List.mem_append.mp ht with ht | ht
    · exact .inl ht
    · rw [List.mem_singleton.mp ht]
      exact .inr List.mem_cons_self
  | opened e r => exact hc.elim
  | replaced e r now =>
    have hs : Successor w.refreshTokens w.draws i e r := hok.1
    have hrep : (Write.upsertRefreshToken (e.replacedBy now r)).onRefreshTokens
        (w.refreshTokens ++ [r]) =
          (w.refreshTokens ++ [r]).map (tokenLineage.replaceBy (e.replacedBy now r)) :=
      upsert_old (List.mem_append_left _ hs.mem) rfl
    rw [Phase.writes, List.foldl_cons, List.foldl_cons, List.foldl_nil, upsert_new hs.id_new,
      hrep] at ht
    rcases List.mem_append.mp (mem_of_live_replaced ht hl) with ht | ht
    · exact .inl ht
    · rw [List.mem_singleton.mp ht]
      exact .inr List.mem_cons_self

/-- **An unrevoked token** after a step was there before it, or starts a family, or
is one that the step commits. -/
theorem mem_of_live {op : Op} (hpre : TokenPre j w op)
    (hstep : StoreStep D j w.store op w'.store) (ht : t ∈ w'.refreshTokens)
    (hl : t.revokedAt = none) :
    t ∈ w.refreshTokens ∨ (∀ a ∈ w.refreshTokens, a.familyId ≠ t.familyId) ∨
      .upsertRefreshToken t ∈ w.store.pendingOf j := by
  rcases hstep.db_cases with hdb | ⟨wr, rfl, _, hdb⟩ | ⟨st, rfl, _, _, _, hdb⟩ | ⟨rfl, hs⟩
  · have hrt : w'.refreshTokens = w.refreshTokens := congrArg Db.refreshTokens hdb
    exact .inl (hrt ▸ ht)
  · have hrt : w'.refreshTokens = wr.onRefreshTokens w.refreshTokens :=
      congrArg Db.refreshTokens hdb
    rw [hrt] at ht
    by_cases htab : wr.table = .refreshTokens
    · obtain ⟨r, rfl, hroot⟩ := hpre htab
      rw [if_neg (by simp)] at hroot
      rw [upsert_new hroot.2.id_new] at ht
      rcases List.mem_append.mp ht with ht | ht
      · exact .inl ht
      · rw [List.mem_singleton.mp ht]
        exact .inr (.inl hroot.2.family_new)
    · rw [Write.onRefreshTokens_of_table htab] at ht
      exact .inl ht
  · have hrt : w'.refreshTokens = st.write.onRefreshTokens w.refreshTokens :=
      congrArg Db.refreshTokens hdb
    rw [hrt] at ht
    by_cases htab : st.write.table = .refreshTokens
    · obtain ⟨g, now, _, hw⟩ := statement_table htab
      rw [hw, revoke_onRefreshTokens] at ht
      exact .inl (mem_of_live_revoked ht hl)
    · rw [Write.onRefreshTokens_of_table htab] at ht
      exact .inl ht
  · obtain ⟨p, hp, hok, hc⟩ := hpre
    have hrt : w'.refreshTokens = p.writes.foldl (fun ts wr => wr.onRefreshTokens ts)
        w.refreshTokens := by
      rw [World.refreshTokens, hs, ← hp, ← view_refreshTokens D]
      rfl
    rcases p.mem_of_live hok hc (hrt ▸ ht) hl with h | h
    · exact .inl h
    · rw [← hp] at h
      exact .inr (.inr (List.mem_of_mem_filter h))

end Newcomers

/-! ### The snapshot of a `revokeFamily` -/

/-- The snapshot has every unrevoked token of the family. -/
structure Covers (f : Uuid) (st : Statement) (w : World) : Prop where
  family : FamilyExists f w
  all : ∀ t ∈ w.refreshTokens, t.familyId = f → t.revokedAt = none → t.id ∈ st.ids

variable {i j : Nat} {now : Time} {w w' : World}

theorem Covers.step {op : Op} {st : Statement} (h : Covers f st w) (hinv : TokenInv w)
    (hpre : TokenPre j w op) (hstep : StoreStep D j w.store op w'.store)
    (hn : w.draws ≤ w'.draws)
    (hno : ∀ t, t.familyId = f → .upsertRefreshToken t ∈ w.store.pendingOf j →
      t ∉ w'.refreshTokens) : Covers f st w' := by
  refine ⟨h.family.step hinv (tokenStep hinv hpre hstep hn), fun t ht hf hl => ?_⟩
  rcases mem_of_live hpre hstep ht hl with hold | hnew | hpend
  · exact h.all t hold hf hl
  · obtain ⟨a, ha, haf⟩ := h.family
    exact absurd (haf.trans hf.symm) (hnew a ha)
  · exact absurd ht (hno t hf hpend)

/-- A `revokeFamily` starts with all of them. -/
theorem covers_start (hf : FamilyExists f w) (hdb : w'.store.db = w.store.db) :
    Covers f ⟨false, .revokeFamily f now,
      (Update.revokeFamily f now).matching (w.store.base (schema D) j false)⟩ w' := by
  have hrt : w'.refreshTokens = w.refreshTokens := congrArg Db.refreshTokens hdb
  refine ⟨?_, fun t ht htf hl => ?_⟩
  · rw [FamilyExists, hrt]
    exact hf
  · rw [hrt] at ht
    refine List.mem_map.mpr ⟨t, List.mem_filter.mpr ⟨ht, ?_⟩, rfl⟩
    simp [htf, hl]

/-- **While nothing overtakes it, a `revokeFamily` has every unrevoked token.** -/
theorem covers_of_revoking {c : AuthConfig} (h : (authMachine D).Reachable NoSessions c)
    (hno : ∀ e ∈ c.state.hist, ¬ Overtakes i f now e) :
    ∀ st, (i, st) ∈ c.state.world.store.running → st.update = .revokeFamily f now →
      Covers f st c.state.world := by
  induction h with
  | boot hw =>
    obtain ⟨d, _, rfl⟩ := hw
    intro st hrun
    cases hrun
  | @step c c' l hr hn ih =>
    obtain ⟨hinv, hwp⟩ := token_sound hr
    rcases Contract.state_cases ⟨hinv, hwp⟩ hn with
      heq | ⟨j, q, inp, op, r, w, hpre, he, heq⟩ | ⟨j, q, heq⟩
    · rw [heq] at hno ⊢
      exact ih hno
    · rw [heq] at hno ⊢
      have hstep := exec_store he
      intro st hrun hu
      rcases hstep.mem_running hrun with hrun | ⟨tx, u, rfl, hdb, hst⟩
      · refine (ih (fun e he => hno e (List.mem_cons_of_mem _ he)) st hrun hu).step hinv.1
          hpre hstep (exec_draws he) fun t htf hpend ht => ?_
        exact hno _ List.mem_cons_self ⟨⟨_, hrun, rfl, hu⟩, t, ht, htf, hpend⟩
      · obtain ⟨rfl, rfl⟩ := Prod.mk.inj hst
        obtain rfl : u = .revokeFamily f now := hu
        obtain ⟨rfl, hf⟩ := hpre f now rfl
        exact covers_start hf hdb
    · rw [heq] at hno ⊢
      intro st hrun hu
      have hcov := ih (fun e he => hno e (List.mem_cons_of_mem _ he)) st
        (List.mem_of_mem_filter hrun) hu
      exact ⟨hcov.family, hcov.all⟩

/-- **A `revokeFamily` that has every unrevoked token leaves the family dead.** -/
theorem dead_of_covers {inp : Input} (hinv : TokenInv w)
    (hpre : TokenPre i w (.call (.finishUpdate false (.revokeFamily f now))))
    (hcov : ∀ st, (i, st) ∈ w.store.running → st.update = .revokeFamily f now → Covers f st w)
    (he : exec D i inp (.call (.finishUpdate false (.revokeFamily f now))) w =
      some (.ok (), w')) : Dead f w' := by
  obtain ⟨st, hrun, htx, hu, _, hw'⟩ := exec_finish_ok he
  have hc := hcov st hrun hu
  refine ⟨hc.family.step hinv (tokenStep hinv hpre (exec_store he) (exec_draws he)), ?_⟩
  have hrt : w'.refreshTokens = w.refreshTokens.map (revokeRow f now st.ids) := by
    obtain ⟨tx, u, ids⟩ := st
    obtain rfl : u = .revokeFamily f now := hu
    rw [hw']
    rfl
  intro t ht htf hl
  rw [hrt] at ht
  obtain ⟨a, ha, rfl⟩ := List.mem_map.mp ht
  -- an unrevoked row would have been one of those the UPDATE marks
  have hsame := revokeRow_of_live hl
  rw [hsame] at hl
  rw [revokeRow_familyId] at htf
  have hmark : revokeRow f now st.ids a = a.markRevoked now :=
    if_pos ⟨hc.all a ha htf hl, htf, hl⟩
  rw [hsame] at hmark
  rw [hmark] at hl
  cases hl

theorem returnsRevoke_call {e : AuthEvent} (h : ReturnsRevoke f now e) :
    e.act = .call (.call (.finishUpdate false (.revokeFamily f now))) (.ok ()) := by
  unfold ReturnsRevoke at h
  split at h
  · rename_i ha
    obtain ⟨rfl, rfl⟩ := h
    exact ha
  · exact h.elim

/-- **Revocation is final.**  Once a `revokeFamily` has returned that no rotation
overtook, every token of the family is revoked, and the family never changes
again: no token of it is replaced, and none is added. -/
theorem revokeFamily_final {c : AuthConfig} (h : (authMachine D).Reachable NoSessions c)
    {later past : List AuthEvent} {e : AuthEvent} (hhist : c.state.hist = later ++ e :: past)
    (hret : ReturnsRevoke f now e) (hno : ∀ e' ∈ past, ¬ Overtakes e.tid f now e') :
    Dead f c.state.world ∧ familyRows f c.state.world = familyRows f e.after := by
  induction h generalizing later with
  | boot _ => cases later <;> cases hhist
  | @step c c' l hr hn ih =>
    obtain ⟨hinv, hwp⟩ := token_sound hr
    rcases Contract.state_cases ⟨hinv, hwp⟩ hn with
      heq | ⟨j, q, inp, op, r, w, hpre, he, heq⟩ | ⟨j, q, heq⟩
    · rw [heq] at hhist ⊢
      exact ih hhist
    · rw [heq] at hhist ⊢
      cases later with
      | nil =>
        obtain ⟨rfl, rfl⟩ := List.cons.inj hhist
        obtain ⟨rfl, hr'⟩ := Act.call.inj (returnsRevoke_call hret)
        cases hr'
        exact ⟨dead_of_covers hinv.1 hpre (covers_of_revoking hr hno) he, rfl⟩
      | cons e₀ later =>
        obtain ⟨hd, hrows⟩ := ih (List.cons.inj hhist).2
        obtain ⟨hd', hrows'⟩ :=
          hd.step hinv.1 (tokenStep hinv.1 hpre (exec_store he) (exec_draws he))
        exact ⟨hd', hrows'.trans hrows⟩
    · rw [heq] at hhist ⊢
      cases later with
      | nil =>
        obtain ⟨rfl, rfl⟩ := List.cons.inj hhist
        exact hret.elim
      | cons e₀ later =>
        obtain ⟨hd, hrows⟩ := ih (List.cons.inj hhist).2
        obtain ⟨hd', hrows'⟩ := hd.step hinv.1 (tokenStep_drop D hinv.1)
        exact ⟨hd', hrows'.trans hrows⟩

/-- A login, a rotation of its token, and a logout with the successor. -/
def rotateAndLogout : List (Label Input Request) :=
  loginAndRotate ++ [.spawn (.revokeRefreshTokenFamily (.drawn 1 3))] ++ steps 2 4

theorem revokeFamily_final_rotateAndLogout :
    ∃ c : AuthConfig, runFrom sampleDeps sampleDb rotateAndLogout = some c ∧
      (familyRows (.drawn 0 2) c.state.world).length = 2 ∧ Dead (.drawn 0 2) c.state.world := by
  have hrun : (runFrom sampleDeps sampleDb rotateAndLogout).map (fun c =>
      ((familyRows (.drawn 0 2) c.state.world).length,
        c.state.hist.head?.map fun e => decide (e.tid = 2 ∧ ReturnsRevoke (.drawn 0 2) 0 e),
        decide (∀ e ∈ c.state.hist.tail, ¬ Overtakes 2 (.drawn 0 2) 0 e))) =
      some (2, some true, true) := by decide +kernel
  obtain ⟨c, hc, hval⟩ := Option.map_eq_some_iff.mp hrun
  obtain ⟨hlen, hval⟩ := Prod.mk.inj hval
  obtain ⟨hhead, hno⟩ := Prod.mk.inj hval
  obtain ⟨e, he, hret⟩ := Option.map_eq_some_iff.mp hhead
  obtain ⟨htid, hret⟩ := of_decide_eq_true hret
  have hinit : NoSessions (World.init sampleDb) := ⟨sampleDb, rfl, rfl⟩
  have hhist : c.state.hist = [] ++ e :: c.state.hist.tail := List.eq_cons_of_mem_head? he
  refine ⟨c, hc, hlen, (revokeFamily_final (Machine.reachable_of_run hinit hc) hhist hret ?_).1⟩
  rw [htid]
  exact of_decide_eq_true hno

/-- A logout whose `revokeFamily` has its snapshot when a rotation of the token commits. -/
def logoutDuringRotation : List (Label Input Request) :=
  [.spawn (.loginUser ⟨"ann@x.io", "pw", sampleClient⟩)] ++ steps 0 10 ++
    [.spawn (.rotateRefreshToken ⟨.drawn 0 0, sampleClient⟩)] ++ steps 1 12 ++
    [.spawn (.revokeRefreshTokenFamily (.drawn 0 0))] ++ steps 2 3 ++ steps 1 1 ++ steps 2 1

/-- **It is not final when a rotation overtakes it.**  The `revokeFamily` has returned
and no transaction is open, and the successor is not revoked. -/
theorem revokeFamily_overtaken :
    ∃ c ∈ runFrom sampleDeps sampleDb logoutDuringRotation,
      (∃ e ∈ c.state.hist.head?, ReturnsRevoke (.drawn 0 2) 0 e) ∧
      c.state.world.store.pending = [] ∧
      ∃ t ∈ c.state.world.refreshTokens, t.familyId = .drawn 0 2 ∧ t.revokedAt = none := by
  decide +kernel

end LakiraBackend.Auth
