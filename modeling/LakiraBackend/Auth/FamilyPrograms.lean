import LakiraBackend.Auth.Families

/-!
# The use cases keep the families

Each use case that writes `refresh_tokens` meets the contract of
`Families.lean`; the others do not write it at all.  At the end stands what that
gives for every run: `refreshToken_families`.
-/

namespace LakiraBackend.Auth

open LakiraBackend.Concurrency

variable {D : Deps} {i : Nat} {q : Request} {s : AuthState} {α β : Type}

/-! ### Calls that leave the store alone -/

theorem tokenPre_of_quiet {op : Op} (hq : op.Quiet) (w : World) : TokenPre i w op := by
  cases op with
  | call c => cases c <;> trivial
  | _ => trivial

theorem wp_quiet {op : Op} (hq : op.Quiet) {P : World → Prop} (hP : Solid D i P)
    (hs : P s.world) :
    (tokenContract D).wp i q (Prog.await op) (fun _ t => P t.world) (fun _ t => P t.world) s :=
  Contract.wp_await hP.stable hs (fun t _ _ => tokenPre_of_quiet hq t.world)
    (fun t _ _ w _ hp he => hP.quiet t.world w ((exec_store he).quiet hq) (exec_draws he) hp)
    (fun t _ _ w _ hp he => hP.quiet t.world w ((exec_store he).quiet hq) (exec_draws he) hp)

/-- A call that leaves the store alone, and cannot fail. -/
theorem wp_sure {op : Op} (hq : op.Quiet)
    (hsure : ∀ inp w e w', exec D i inp op w ≠ some (.error e, w')) {P : World → Prop}
    (hP : Solid D i P) (hs : P s.world) {E : Err → AuthState → Prop} :
    (tokenContract D).wp i q (Prog.await op) (fun _ t => P t.world) E s :=
  Contract.wp_await hP.stable hs (fun t _ _ => tokenPre_of_quiet hq t.world)
    (fun t _ _ w _ hp he => hP.quiet t.world w ((exec_store he).quiet hq) (exec_draws he) hp)
    (fun _ _ _ _ _ _ he => absurd he (hsure _ _ _ _))

theorem wp_newDate {P : World → Prop} (hP : Solid D i P) (hs : P s.world)
    {E : Err → AuthState → Prop} :
    (tokenContract D).wp i q newDate (fun _ t => P t.world) E s := by
  have hq : Op.now.Quiet := trivial
  refine wp_sure hq (fun inp w e w' h => ?_) hP hs
  cases h

/-- A random value is one nobody has used. -/
theorem wp_random {P : World → Prop} (hP : Solid D i P) (hs : P s.world)
    {E : Err → AuthState → Prop} :
    (tokenContract D).wp i q (Prog.await Op.random)
      (fun u t => P t.world ∧ Unused i u t.world) E s := by
  refine Contract.wp_await hP.stable hs (fun t _ _ => trivial)
    (fun t inp u w hinv hp he => ?_) fun _ _ _ _ _ _ he => nomatch he
  have he' : exec D i inp .random t.world = some (.ok u, w) := he
  obtain ⟨hu, rfl⟩ := exec_random he'
  cases hu
  refine ⟨hP.quiet t.world _ rfl (Nat.le_succ t.world.draws) hp, ⟨_, Nat.lt_succ_self _, rfl⟩, ?_⟩
  -- every value in the table was drawn before
  have hold : ∀ v : Uuid, (∃ j, v.By j t.world.draws) → v ≠ .drawn i t.world.draws := by
    rintro v ⟨j, k, hk, rfl⟩ h
    exact Nat.ne_of_lt hk (Uuid.drawn.inj h).2
  exact fun a ha => ⟨hold _ (hinv.1.drawn a ha).1, hold _ (hinv.1.drawn a ha).2⟩

/-- A query answers from the committed data. -/
theorem wp_read {rd : Read} {P : World → Prop} (hP : Solid D i P) (hs : P s.world) :
    (tokenContract D).wp i q (await (.read false rd))
      (fun a t => P t.world ∧ a = rd.eval D t.world.store.db) (fun _ t => P t.world) s := by
  have hq : (Op.call (.read false rd)).Quiet := trivial
  have hkeep : ∀ {t : AuthState} {inp : Input} {a : Except Err rd.Answer} {w : World}, P t.world →
      exec D i inp (.call (.read false rd)) t.world = some (a, w) → P w :=
    fun hp he => hP.quiet _ _ ((exec_store he).quiet hq) (exec_draws he) hp
  refine Contract.wp_await hP.stable hs (fun _ _ _ => trivial) (fun t inp a w _ ht he => ?_)
    fun t _ _ w _ ht he => hkeep ht he
  have he' : exec D i inp (.call (.read false rd)) t.world = some (.ok a, w) := he
  obtain ⟨ha, hw⟩ := exec_read_ok he'
  exact ⟨hkeep ht he', by rw [ha, ← hw]; rfl⟩

/-! ### Programs that write other tables -/

theorem idle_of_step {op : Op} {w w' : World} (h : Idle i w)
    (hstep : StoreStep D i w.store op w'.store)
    (hw : ∀ wr, op = .call (.write true wr) → wr.table ≠ .refreshTokens)
    (hu : ∀ u, op = .call (.finishUpdate true u) → u.table ≠ .refreshTokens) : Idle i w' := by
  rcases hstep.pendingOf_self with ⟨_, hp⟩ | ⟨wr, rfl, hp⟩ | ⟨st, rfl, _, hp⟩ | ⟨_, hp⟩
  · exact (tokenWrites_of_pendingOf hp).trans h
  · rw [Idle, tokenWrites_append hp, if_neg (hw wr rfl), h]; rfl
  · rw [Idle, tokenWrites_append hp, statement_write_table, if_neg (hu _ rfl), h]; rfl
  · exact tokenWrites_nil hp

theorem commit_pre_of_idle {w : World} (h : Idle i w) : TokenPre i w (.call .commit) :=
  ⟨.idle, h, trivial, trivial⟩

/-- **A program that does not write `refresh_tokens` meets the contract.** -/
theorem wp_of_uses {Ts : List Table} (hT : .refreshTokens ∉ Ts) {p : Async α} (hp : Uses Ts p)
    (hs : Idle i s.world) :
    (tokenContract D).wp i q p (fun _ t => Idle i t.world) (fun _ t => Idle i t.world) s := by
  have hno : ∀ {op : Op} {T : Table}, Within Ts op → op.table = some T → T ≠ .refreshTokens :=
    fun hw hop h => hT (h ▸ hw _ hop)
  refine Contract.wp_of_calls (solid_idle (D := D)).stable (fun op t hw _ hidle => ?_)
    (fun op t inp r w hw _ hidle he => ?_) hp hs
  · cases op with
    | call c =>
      cases c with
      | write tx wr => exact fun h => absurd h (hno hw rfl)
      | commit => exact commit_pre_of_idle hidle
      | startUpdate tx u => exact fun f now hu => absurd (congrArg Update.table hu) (hno hw rfl)
      | finishUpdate tx u => exact fun h => absurd h (hno hw rfl)
      | _ => trivial
    | _ => trivial
  · refine idle_of_step hidle (exec_store he) (fun wr h => ?_) fun u h => ?_
    · subst h; exact hno hw rfl
    · subst h; exact hno hw rfl

/-! ### Revoking families -/

/-- The calls of `revokeFamily` on one of some families. -/
def Revokes (fs : List Uuid) (op : Op) : Prop :=
  op.Quiet ∨ ∃ f ∈ fs, ∃ now, op = .call (.startUpdate false (.revokeFamily f now)) ∨
    op = .call (.finishUpdate false (.revokeFamily f now))

theorem revokeFamily_calls {f : Uuid} {fs : List Uuid} (hf : f ∈ fs) :
    (RefreshTokenRepository.revokeFamily f).Calls (Revokes fs) :=
  .bind (.await (.inl trivial)) fun now =>
    .bind (.await (.inr ⟨f, hf, now, .inl rfl⟩)) fun _ => .await (.inr ⟨f, hf, now, .inr rfl⟩)

theorem wp_of_revokes {fs : List Uuid} {p : Async α} (hp : p.Calls (Revokes fs))
    (hs : Idle i s.world) (hf : ∀ f ∈ fs, FamilyExists f s.world) :
    (tokenContract D).wp i q p (fun _ t => Idle i t.world) (fun _ t => Idle i t.world) s := by
  have hP : (tokenContract D).Stable i fun t : AuthState =>
      Idle i t.world ∧ ∀ f ∈ fs, FamilyExists f t.world :=
    (solid_idle (D := D)).stable.and fun s t h hfs f hf =>
      (solid_familyExists (D := D)).stable h (hfs f hf)
  have hpre : ∀ (op : Op) (t : AuthState), Revokes fs op →
      (Idle i t.world ∧ ∀ f ∈ fs, FamilyExists f t.world) → TokenPre i t.world op := by
    rintro op t (hq | ⟨f, hf, now, rfl | rfl⟩) ⟨hidle, hfs⟩
    · exact tokenPre_of_quiet hq _
    · rintro f' now' hu
      cases hu
      exact ⟨rfl, hfs f hf⟩
    · exact fun _ => ⟨rfl, hidle⟩
  refine Contract.wp_mono (fun _ _ h => h.1) (fun _ _ h => h.1)
    (Contract.wp_of_calls hP (fun op t hop _ => hpre op t hop) (fun op t inp r w hop hinv hP he => ⟨?_, fun f hf => ?_⟩)
      hp ⟨hs, hf⟩)
  · refine idle_of_step hP.1 (exec_store he) ?_ ?_
    · rintro wr rfl
      rcases hop with hq | ⟨f, _, now, h | h⟩
      · exact hq.elim
      · cases h
      · cases h
    · rintro u rfl
      rcases hop with hq | ⟨f, _, now, h | h⟩
      · exact hq.elim
      · cases h
      · cases h
  · exact (hP.2 f hf).step hinv.1
      (tokenStep hinv.1 (hpre op t hop hP) (exec_store he) (exec_draws he))

/-! ### Issuing a token -/

/-- `RefreshToken.issue` for a new family: its id and its family are unused. -/
theorem wp_issue_root {P : World → Prop} (hP : Solid D i P) (hs : P s.world) {userId : Uuid}
    {h : TokenHash} {org : Option Uuid} {ttl : Option Int} {client : Client}
    {E : Err → AuthState → Prop} :
    (tokenContract D).wp i q (RefreshToken.issue userId h none org ttl client)
      (fun r t => P t.world ∧ Root t.world.refreshTokens t.world.draws i r) E s := by
  refine Contract.wp_bind.mpr (Contract.wp_mono (fun now t ht => ?_) (fun _ _ h => h)
    (wp_newDate hP hs))
  refine Contract.wp_bind.mpr (Contract.wp_mono (fun id t ht => ?_) (fun _ _ h => h)
    (wp_random hP ht))
  refine Contract.wp_bind.mpr (Contract.wp_mono (fun f t ht => ?_) (fun _ _ h => h)
    (wp_random (hP.and solid_unused) ht))
  obtain ⟨⟨hp, hid⟩, hfam⟩ := ht
  exact ⟨hp, hid.1, fun a ha => (hid.2 a ha).1, hfam.1, fun a ha => (hfam.2 a ha).2, rfl⟩

/-- `RefreshToken.issue` for the family of a token that is held. -/
theorem wp_issue_successor {e : RefreshToken} (hs : Holding i e s.world)
    (hlive : e.revokedAt = none) {h : TokenHash} {org : Option Uuid} {ttl : Option Int}
    {client : Client} {E : Err → AuthState → Prop} :
    (tokenContract D).wp i q (RefreshToken.issue e.userId h (some e.familyId) org ttl client)
      (fun r t => Holding i e t.world ∧ Successor t.world.refreshTokens t.world.draws i e r) E s := by
  refine Contract.wp_bind.mpr (Contract.wp_mono (fun now t ht => ?_) (fun _ _ h => h)
    (wp_newDate solid_holding hs))
  refine Contract.wp_bind.mpr (Contract.wp_mono (fun id t ht => ?_) (fun _ _ h => h)
    (wp_random solid_holding ht))
  obtain ⟨hh, hid⟩ := ht
  exact ⟨hh, hh.mem, hlive, hid.1, fun a ha => (hid.2 a ha).1, rfl, rfl, rfl⟩

theorem solid_root {r : RefreshToken} :
    Solid D i fun w => Root w.refreshTokens w.draws i r := by
  constructor
  case stable =>
    intro s t h hr
    obtain ⟨j, hj, hst⟩ := tokenStep_of_other h
    exact hr.step hst (Ne.symm hj)
  case quiet =>
    intro w w' h hn hr
    have ht : w'.refreshTokens = w.refreshTokens := by rw [World.refreshTokens, h]; rfl
    exact ⟨hr.id_by.mono hn, ht ▸ hr.id_new, hr.family_by.mono hn, ht ▸ hr.family_new,
      hr.not_replaced⟩

/-- A write of the transaction to `refresh_tokens` brings it to its next phase. -/
theorem wp_saveInTransaction {r : RefreshToken} {b p : Phase}
    (hw : b.writes ++ [.upsertRefreshToken r] = p.writes) {P : World → Prop} (hP : Solid D i P)
    (hs : P s.world) (hp : ∀ w, P w → w.tokenWrites i = b.writes ∧ p.Ok w i) :
    (tokenContract D).wp i q (RefreshTokenRepository.save r true)
      (fun _ t => t.world.tokenWrites i = p.writes ∧ p.Ok t.world i) (fun _ _ => True) s := by
  refine Contract.wp_await hP.stable hs (fun t _ ht _ => ⟨r, rfl, ?_⟩)
    (fun t inp u w _ ht he => ?_) fun _ _ _ _ _ _ _ => trivial
  · obtain ⟨hb, hok⟩ := hp t.world ht
    rw [if_pos rfl]
    exact ⟨p, by rw [hb, hw], hok⟩
  · obtain ⟨hb, hok⟩ := hp t.world ht
    have he' : exec D i inp (.call (.write true (.upsertRefreshToken r))) t.world =
        some (.ok (), w) := he
    obtain ⟨_, rfl⟩ := exec_write_ok he'
    refine ⟨?_, hok.mono rfl (Nat.le_refl _) fun id hl => mem_locks_written hl⟩
    refine (tokenWrites_append (w := t.world) (t.world.store.pendingOf_put_self (schema D))).trans ?_
    have htab : (Write.upsertRefreshToken r).table = .refreshTokens := rfl
    rw [if_pos htab, hb, hw]

theorem wp_saveRoot {r : RefreshToken}
    (hs : Idle i s.world ∧ Root s.world.refreshTokens s.world.draws i r) :
    (tokenContract D).wp i q (RefreshTokenRepository.save r false)
      (fun _ t => Idle i t.world) (fun _ t => Idle i t.world) s := by
  have hidle : ∀ {t : AuthState} {inp : Input} {a : Except Err Unit} {w : World}, Idle i t.world →
      exec D i inp (.call (.write false (.upsertRefreshToken r))) t.world = some (a, w) →
      Idle i w :=
    fun hi he => idle_of_step hi (exec_store he) (fun _ h => nomatch h) fun _ h => nomatch h
  refine Contract.wp_await (solid_idle.and solid_root).stable hs (fun t _ ht _ => ⟨r, rfl, ?_⟩)
    (fun t _ _ _ _ ht he => hidle ht.1 he) fun t _ _ _ _ ht he => hidle ht.1 he
  rw [if_neg (by simp)]
  exact ht

/-- A token that starts a family, by itself. -/
theorem wp_issueRefreshToken {userId : Uuid} {org : Option Uuid} {client : Client}
    (hs : Idle i s.world) :
    (tokenContract D).wp i q (issueRefreshToken D ⟨userId, none, org, client⟩ false)
      (fun _ t => Idle i t.world) (fun _ t => Idle i t.world) s := by
  refine Contract.wp_bind.mpr (Contract.wp_mono (fun raw t ht => ?_) (fun _ _ h => h)
    (wp_random solid_idle hs))
  refine Contract.wp_bind.mpr (Contract.wp_mono (fun r t ht => ?_) (fun _ _ h => h)
    (wp_issue_root solid_idle ht.1))
  exact Contract.wp_bind.mpr (Contract.wp_mono (fun _ t ht => ht) (fun _ _ h => h)
    (wp_saveRoot ht))

/-- Where a transaction may be committed. -/
def Commitable (i : Nat) (w : World) : Prop :=
  ∃ p : Phase, w.tokenWrites i = p.writes ∧ p.Ok w i ∧ p.Complete

theorem solid_commitable : Solid D i (Commitable i) := by
  constructor
  case stable =>
    rintro s t h ⟨p, hp, hok, hc⟩
    obtain ⟨hp', hok'⟩ := (solid_phase p).stable h ⟨hp, hok⟩
    exact ⟨p, hp', hok', hc⟩
  case quiet =>
    rintro w w' h hn ⟨p, hp, hok, hc⟩
    obtain ⟨hp', hok'⟩ := (solid_phase (D := D) p).quiet w w' h hn ⟨hp, hok⟩
    exact ⟨p, hp', hok', hc⟩

/-- A token that starts a family, in a transaction. -/
theorem wp_issueInTransaction {userId : Uuid} {org : Option Uuid} {client : Client}
    (hs : Idle i s.world) :
    (tokenContract D).wp i q (issueRefreshToken D ⟨userId, none, org, client⟩ true)
      (fun _ t => Commitable i t.world) (fun _ _ => True) s := by
  refine Contract.wp_bind.mpr (Contract.wp_mono (fun raw t ht => ?_) (fun _ _ h => h)
    (wp_random solid_idle hs))
  refine Contract.wp_bind.mpr (Contract.wp_mono (fun r t ht => ?_) (fun _ _ h => h)
    (wp_issue_root solid_idle ht.1))
  have hsave := wp_saveInTransaction (q := q) (b := .idle) (p := .rooted r) rfl
    (solid_idle.and (solid_root (D := D))) ht fun w h => h
  have hc : (Phase.rooted r).Complete := trivial
  exact Contract.wp_bind.mpr (Contract.wp_mono (fun _ t h => ⟨_, h.1, h.2, hc⟩)
    (fun _ _ h => h) hsave)

/-- The successor of a token, in the transaction that holds it. -/
theorem wp_issueSuccessor {e : RefreshToken} (hs : Holding i e s.world)
    (hlive : e.revokedAt = none) {org : Option Uuid} {client : Client} :
    (tokenContract D).wp i q
      (issueRefreshToken D ⟨e.userId, some e.familyId, org, client⟩ true)
      (fun p t => t.world.tokenWrites i = (Phase.opened e p.2).writes ∧
        (Phase.opened e p.2).Ok t.world i) (fun _ _ => True) s := by
  refine Contract.wp_bind.mpr (Contract.wp_mono (fun raw t ht => ?_) (fun _ _ h => h)
    (wp_random solid_holding hs))
  refine Contract.wp_bind.mpr (Contract.wp_mono (fun r t ht => ?_) (fun _ _ h => h)
    (wp_issue_successor ht.1 hlive))
  have hsolid : Solid D i fun w => Holding i e w ∧ Successor w.refreshTokens w.draws i e r := by
    constructor
    case stable =>
      intro s t h ⟨hh, hsucc⟩
      obtain ⟨j, hj, hst⟩ := tokenStep_of_other h
      exact ⟨solid_holding.stable h hh, hsucc.step hh.holds hst (Ne.symm hj)⟩
    case quiet =>
      intro w w' h hn ⟨hh, hsucc⟩
      have hopen := (solid_phase (D := D) (i := i) (.replaced e r 0)).quiet w w' h hn
      refine ⟨solid_holding.quiet (D := D) w w' h hn hh, ?_⟩
      have ht : w'.refreshTokens = w.refreshTokens := by rw [World.refreshTokens, h]; rfl
      exact ⟨ht ▸ hsucc.mem, hsucc.live, hsucc.id_by.mono hn, ht ▸ hsucc.id_new, hsucc.family_eq,
        hsucc.user_eq, hsucc.not_replaced⟩
  have hsave := wp_saveInTransaction (q := q) (b := .idle) (p := .opened e r) rfl hsolid ht
    fun w h => ⟨h.1.idle, h.2, h.1.holds⟩
  exact Contract.wp_bind.mpr (Contract.wp_mono (fun _ _ h => h) (fun _ _ h => h) hsave)

/-! ### Rotating -/

theorem replaceWith_ok {e e' r : RefreshToken} {now : Time}
    (h : (e.markRevoked now).replaceWith r.id = .ok e') : e' = e.replacedBy now r := by
  unfold RefreshToken.replaceWith at h
  split at h
  · cases h
  · exact (Except.ok.inj h).symm

theorem wp_replaceRefreshToken {e : RefreshToken} (hs : Holding i e s.world)
    (hlive : e.revokedAt = none) {org : Uuid} {client : Client} :
    (tokenContract D).wp i q (replaceRefreshToken D e org client)
      (fun _ t => Commitable i t.world) (fun _ _ => True) s := by
  refine Contract.wp_bind.mpr (Contract.wp_mono (fun now t ht => ?_) (fun _ _ h => h)
    (wp_newDate solid_holding hs))
  refine Contract.wp_bind.mpr (Contract.wp_mono (fun p t ht => ?_) (fun _ _ h => h)
    (wp_issueSuccessor ht hlive))
  obtain ⟨raw, r⟩ := p
  dsimp only
  have hsave := wp_saveInTransaction (q := q) (r := e.replacedBy now r) (b := .opened e r)
    (p := .replaced e r now) rfl (solid_phase (D := D) (.opened e r)) ht fun w h => h
  split
  · trivial
  · rename_i e' he'
    obtain rfl := replaceWith_ok he'
    have hc : (Phase.replaced e r now).Complete := trivial
    exact Contract.wp_bind.mpr (Contract.wp_mono (fun _ t h => ⟨_, h.1, h.2, hc⟩)
      (fun _ _ h => h) hsave)

/-- What the lookup of a rotation finds is held. -/
theorem wp_findForUpdate {h : TokenHash} (hs : Idle i s.world) :
    (tokenContract D).wp i q (RefreshTokenRepository.findByTokenHashForUpdate h)
      (fun a t => Idle i t.world ∧ ∀ e, a = some e → Holding i e t.world)
      (fun _ _ => True) s := by
  refine Contract.wp_await solid_idle.stable hs (fun t _ _ => trivial)
    (fun t inp a w _ hidle he => ?_) fun _ _ _ _ _ _ _ => trivial
  have he' : exec D i inp (.call (.findRefreshTokenForUpdate h)) t.world = some (.ok a, w) := he
  have hidle' : Idle i w :=
    idle_of_step hidle (exec_store he') (fun _ h => nomatch h) fun _ h => nomatch h
  refine ⟨hidle', fun e hae => ?_⟩
  subst hae
  rcases lockRefreshToken_cases (exec_lock_ok he') with ⟨h, _⟩ | ⟨e', he'', hf, _, rfl⟩
  · cases h
  · cases he''
    refine ⟨hidle', ?_, List.mem_append_right _ (List.mem_singleton_self _)⟩
    have hmem := List.mem_of_find?_eq_some hf
    rw [view_refreshTokens, hidle] at hmem
    exact hmem

/-- Calls that leave the store alone, one after the other. -/
theorem wp_of_quiet {P : World → Prop} (hP : Solid D i P) {p : Async α}
    (hp : p.Calls Op.Quiet) (hs : P s.world) :
    (tokenContract D).wp i q p (fun _ t => P t.world) (fun _ t => P t.world) s :=
  Contract.wp_of_calls hP.stable (fun _ t hq _ _ => tokenPre_of_quiet hq t.world)
    (fun _ t _ _ w hq _ ht he =>
      hP.quiet t.world w ((exec_store he).quiet hq) (exec_draws he) ht) hp hs

theorem organizationOf_calls (e : RefreshToken) : (organizationOf e).Calls Op.Quiet := by
  unfold organizationOf
  split
  · refine .bind (.await trivial) fun m => ?_
    split
    · trivial
    · split <;> trivial
  · refine .bind (.await trivial) fun m => ?_
    split <;> trivial

/-- What a transaction that ends well has to leave, for its result. -/
def RotateResult.Post (i : Nat) (w : World) : RotateResult → Prop
  | .rotated _ => Commitable i w
  | .revoke f _ => Commitable i w ∧ FamilyExists f w

theorem wp_rotateInTransaction {rawToken : Uuid} {client : Client} (hs : Idle i s.world) :
    (tokenContract D).wp i q (rotateInTransaction D rawToken client)
      (fun a t => a.Post i t.world) (fun _ _ => True) s := by
  have herr : ∀ {P : World → Prop} (e : Err) (t : AuthState), P t.world → True :=
    fun _ _ _ => trivial
  refine Contract.wp_bind.mpr (Contract.wp_mono (fun a t ht => ?_) (fun _ _ h => h)
    (wp_findForUpdate hs))
  split
  · trivial
  · rename_i e
    have hh := ht.2 e rfl
    have hrevoke : ∀ {t : AuthState} (reason : RevokeReason), Holding i e t.world →
        RotateResult.Post i t.world (.revoke e.familyId reason) :=
      fun _ h => ⟨⟨.idle, h.idle, trivial, trivial⟩, e, h.mem, rfl⟩
    split
    · exact hrevoke .reuse hh
    · rename_i hrev
      have hlive : e.revokedAt = none := by simpa [RefreshToken.isRevoked] using hrev
      refine Contract.wp_bind.mpr (Contract.wp_mono (fun now t ht => ?_) (fun _ _ h => h)
        (wp_newDate solid_holding hh))
      split
      · exact hrevoke .expired ht
      · refine Contract.wp_bind.mpr (Contract.wp_mono (fun u t ht => ?_) (fun _ _ _ => trivial)
          (wp_quiet (by trivial) solid_holding ht))
        split
        · trivial
        · refine Contract.wp_bind.mpr (Contract.wp_mono (fun org t ht => ?_)
            (fun _ _ _ => trivial) (wp_of_quiet solid_holding (organizationOf_calls e) ht))
          refine Contract.wp_bind.mpr (Contract.wp_mono (fun raw t ht => ?_)
            (fun _ _ h => h) (wp_replaceRefreshToken ht hlive))
          exact Contract.wp_bind.mpr (Contract.wp_mono (fun _ _ h => h)
            (fun _ _ _ => trivial) (wp_quiet (by trivial) solid_commitable ht))

/-! ### Transactions -/

/-- **A transaction** whose body brings it to where it may be committed.  However
it ends, nothing of it is left open; `R` is what its value stands for. -/
theorem wp_runInTransaction {p : Async α} {R : α → World → Prop}
    (hR : ∀ a j w w', TokenInv w → TokenStep j w w' → R a w → R a w')
    (hs : Idle i s.world)
    (hbody : ∀ t : AuthState, Idle i t.world → (tokenContract D).wp i q p
      (fun a t => Commitable i t.world ∧ R a t.world) (fun _ _ => True) t) :
    (tokenContract D).wp i q (runInTransaction p)
      (fun a t => Idle i t.world ∧ R a t.world) (fun _ t => Idle i t.world) s := by
  have hstable : ∀ a, (tokenContract D).Stable i fun t : AuthState =>
      Commitable i t.world ∧ R a t.world := by
    intro a
    refine (solid_commitable (D := D)).stable.and fun s t h hr => ?_
    obtain ⟨j, _, hst⟩ := tokenStep_of_other h
    exact hR a j _ _ (otherStep_inv h) hst hr
  have hend : ∀ {op : Op} {w w' : World}, op.ends = true → StoreStep D i w.store op w'.store →
      Idle i w' := by
    intro op w w' hop hstep
    rcases hstep.pendingOf_self with ⟨he, _⟩ | ⟨wr, rfl, _⟩ | ⟨st, rfl, _, _⟩ | ⟨_, hp⟩
    · rw [hop] at he; cases he
    · cases hop
    · cases hop
    · exact tokenWrites_nil hp
  have hcommit : (Op.call .commit).ends = true := rfl
  have hrollback : (Op.call .rollback).ends = true := rfl
  refine Contract.wp_handle.mpr (Contract.wp_bind.mpr ?_)
  -- an error, wherever it comes from, rolls back
  have herr : ∀ (e : Err) (t : AuthState), (tokenContract D).wp i q
      ((tryCatch (await .rollback) fun _ => pure ()).bind fun _ => (throw e : Async α))
      (fun a t => Idle i t.world ∧ R a t.world) (fun _ t => Idle i t.world) t := by
    intro e t
    refine Contract.wp_bind.mpr (Contract.wp_handle.mpr ?_)
    exact Contract.wp_await (Contract.Stable.true i) trivial (fun _ _ _ => trivial)
      (fun t _ _ _ _ _ he => hend hrollback (exec_store he))
      fun t _ _ _ _ _ he => hend hrollback (exec_store he)
  refine Contract.wp_mono (fun _ t ht => ?_) (fun e t _ => herr e t)
    (wp_quiet (by trivial) solid_idle hs)
  refine Contract.wp_bind.mpr (Contract.wp_mono (fun a t ht => ?_) (fun e t _ => herr e t)
    (hbody t ht))
  refine Contract.wp_bind.mpr (Contract.wp_await (hstable a) ht (fun _ _ h => h.1)
    (fun t inp u w hinv h he => ?_) fun _ _ e _ _ _ _ => herr e _)
  have hpre : TokenPre i t.world (.call .commit) := h.1
  have he' : exec D i inp (.call .commit) t.world = some (.ok u, w) := he
  have hst := tokenStep hinv.1 hpre (exec_store he') (exec_draws he')
  exact ⟨hend hcommit (exec_store he'), hR a i t.world w hinv.1 hst h.2⟩

/-! ### The use cases -/

theorem wp_rotateRefreshToken {input : RotateRefreshTokenInput} (hs : Idle i s.world) :
    (tokenContract D).wp i q (rotateRefreshToken D input)
      (fun _ t => Idle i t.world) (fun _ t => Idle i t.world) s := by
  have htx := wp_runInTransaction (q := q) (D := D)
    (p := rotateInTransaction D input.rawToken input.client)
    (R := fun a w => ∀ f reason, a = .revoke f reason → FamilyExists f w)
    (fun a j w w' hinv hst h f reason ha => (h f reason ha).step hinv hst) hs fun t ht =>
      Contract.wp_mono (fun a t h => by
        cases a with
        | rotated s => exact ⟨h, fun f reason ha => nomatch ha⟩
        | revoke f reason =>
          refine ⟨h.1, fun f' reason' ha => ?_⟩
          cases ha
          exact h.2) (fun _ _ h => h) (wp_rotateInTransaction ht)
  refine Contract.wp_bind.mpr (Contract.wp_mono (fun a t ht => ?_) (fun _ _ h => h) htx)
  cases a with
  | rotated s => exact ht.1
  | revoke f reason =>
    have hf : ∀ f' ∈ [f], FamilyExists f' t.world := by
      intro f' hf'
      rw [List.mem_singleton.mp hf']
      exact ht.2 f reason rfl
    exact Contract.wp_bind.mpr (Contract.wp_mono (fun _ _ h => h) (fun _ _ h => h)
      (wp_of_revokes (revokeFamily_calls (List.mem_singleton_self f)) ht.1 hf))

theorem wp_revokeRefreshTokenFamily {rawToken : Uuid} (hs : Idle i s.world) :
    (tokenContract D).wp i q (revokeRefreshTokenFamily rawToken)
      (fun _ t => Idle i t.world) (fun _ t => Idle i t.world) s := by
  refine Contract.wp_bind.mpr (Contract.wp_mono (fun a t ht => ?_) (fun _ _ h => h)
    (wp_read solid_idle hs))
  obtain ⟨hidle, ha⟩ := ht
  split
  · exact hidle
  · rename_i e
    refine wp_of_revokes (revokeFamily_calls (List.mem_singleton_self e.familyId)) hidle ?_
    intro f hf
    rw [List.mem_singleton.mp hf]
    exact ⟨e, List.mem_of_find?_eq_some ha.symm, rfl⟩

theorem wp_switchOrganization {input : SwitchOrganizationInput} (hs : Idle i s.world) :
    (tokenContract D).wp i q (switchOrganization D input)
      (fun _ t => Idle i t.world) (fun _ t => Idle i t.world) s := by
  refine Contract.wp_bind.mpr (Contract.wp_mono (fun m t ht => ?_) (fun _ _ h => h)
    (wp_quiet (by trivial) solid_idle hs))
  split
  · exact ht
  · refine Contract.wp_bind.mpr (Contract.wp_mono (fun u t ht => ?_) (fun _ _ h => h)
      (wp_quiet (by trivial) solid_idle ht))
    split
    · exact ht
    · refine Contract.wp_bind.mpr (Contract.wp_bind.mpr (Contract.wp_mono (fun now t ht => ?_)
        (fun _ _ h => h) (wp_newDate solid_idle ht)))
      refine Contract.wp_mono (fun a t ht => ?_) (fun _ _ h => h) (wp_read solid_idle ht)
      obtain ⟨hidle, ha⟩ := ht
      have hcalls : (promiseAll (revokeFamilySteps * (a.map (·.familyId)).eraseDups.length)
          ((a.map (·.familyId)).eraseDups.map RefreshTokenRepository.revokeFamily) none).Calls
            (Revokes (a.map (·.familyId)).eraseDups) := by
        refine calls_promiseAll (.inl trivial) fun p hp => ?_
        obtain ⟨f, hf, rfl⟩ := List.mem_map.mp hp
        exact revokeFamily_calls hf
      refine Contract.wp_bind.mpr (Contract.wp_mono (fun _ t ht => ?_) (fun _ _ h => h)
        (wp_of_revokes hcalls hidle ?_))
      · refine Contract.wp_bind.mpr (Contract.wp_mono (fun tok t ht => ?_) (fun _ _ h => h)
          (wp_quiet (by trivial) solid_idle ht))
        exact Contract.wp_bind.mpr (Contract.wp_mono (fun _ _ h => h) (fun _ _ h => h)
          (wp_issueRefreshToken ht))
      · intro f hf
        rw [List.mem_eraseDups] at hf
        obtain ⟨e, he, rfl⟩ := List.mem_map.mp hf
        rw [ha] at he
        exact ⟨e, List.mem_of_mem_filter he, rfl⟩

theorem wp_refuseLogin {email : String} (hs : Idle i s.world) :
    (tokenContract D).wp i q (refuseLogin email)
      (fun _ t => Idle i t.world) (fun _ t => Idle i t.world) s :=
  Contract.wp_bind.mpr (Contract.wp_mono (fun _ _ h => h) (fun _ _ h => h)
    (wp_quiet (by trivial) solid_idle hs))

theorem wp_loginUser {input : LoginInput} (hs : Idle i s.world) :
    (tokenContract D).wp i q (loginUser D input)
      (fun _ t => Idle i t.world) (fun _ t => Idle i t.world) s := by
  refine Contract.wp_bind.mpr (Contract.wp_mono (fun u t ht => ?_) (fun _ _ h => h)
    (wp_quiet (by trivial) solid_idle hs))
  split
  · exact wp_refuseLogin ht
  · refine Contract.wp_bind.mpr (Contract.wp_mono (fun v t ht => ?_) (fun _ _ h => h)
      (wp_quiet (by trivial) solid_idle ht))
    split
    · exact wp_refuseLogin ht
    · refine Contract.wp_bind.mpr (Contract.wp_mono (fun m t ht => ?_) (fun _ _ h => h)
        (wp_quiet (by trivial) solid_idle ht))
      split
      · exact ht
      · refine Contract.wp_bind.mpr (Contract.wp_mono (fun tok t ht => ?_) (fun _ _ h => h)
          (wp_quiet (by trivial) solid_idle ht))
        refine Contract.wp_bind.mpr (Contract.wp_mono (fun p t ht => ?_) (fun _ _ h => h)
          (wp_issueRefreshToken ht))
        exact Contract.wp_bind.mpr (Contract.wp_mono (fun _ _ h => h) (fun _ _ h => h)
          (wp_quiet (by trivial) solid_idle ht))

theorem wp_registerInTransaction {email username : String} {h : PasswordHash} {pub : Bool}
    {client : Client} (hs : Idle i s.world) :
    (tokenContract D).wp i q (registerInTransaction D email username h pub client)
      (fun _ t => Commitable i t.world) (fun _ _ => True) s := by
  have hT : Table.refreshTokens ∉ [Table.users, .organizations, .memberships] := by simp
  refine Contract.wp_bind.mpr (Contract.wp_mono (fun u t ht => ?_) (fun _ _ _ => trivial)
    (wp_of_uses hT (.bind uses_randomUUID fun _ => .bind (uses_write (by simp [Write.table]))
      fun _ => trivial) hs))
  refine Contract.wp_bind.mpr (Contract.wp_mono (fun o t ht => ?_) (fun _ _ _ => trivial)
    (wp_of_uses hT (.bind uses_randomUUID fun _ => .bind (uses_write (by simp [Write.table]))
      fun _ => trivial) ht))
  refine Contract.wp_bind.mpr (Contract.wp_mono (fun m t ht => ?_) (fun _ _ _ => trivial)
    (wp_of_uses hT (uses_createMembership (by simp)) ht))
  exact Contract.wp_bind.mpr (Contract.wp_mono (fun _ _ h => h) (fun _ _ h => h)
    (wp_issueInTransaction ht))

theorem wp_registerUser {input : RegisterInput} (hs : Idle i s.world) :
    (tokenContract D).wp i q (registerUser D input)
      (fun _ t => Idle i t.world) (fun _ t => Idle i t.world) s := by
  unfold registerUser
  split
  · exact hs
  · refine Contract.wp_bind.mpr (Contract.wp_mono (fun b t ht => ?_) (fun _ _ h => h)
      (wp_quiet (by trivial) solid_idle hs))
    split
    · exact ht
    · refine Contract.wp_bind.mpr (Contract.wp_mono (fun b t ht => ?_) (fun _ _ h => h)
        (wp_quiet (by trivial) solid_idle ht))
      split
      · exact ht
      · refine Contract.wp_bind.mpr (Contract.wp_mono (fun h t ht => ?_) (fun _ _ h => h)
          (wp_quiet (by trivial) solid_idle ht))
        refine Contract.wp_bind.mpr (Contract.wp_mono (fun r t ht => ?_) (fun _ _ h => h)
          (wp_runInTransaction (R := fun _ _ => True) (fun _ _ _ _ _ _ h => h) ht fun t ht =>
            Contract.wp_mono (fun _ _ h => ⟨h, trivial⟩) (fun _ _ h => h)
              (wp_registerInTransaction ht)))
        exact Contract.wp_bind.mpr (Contract.wp_mono (fun _ _ h => h) (fun _ _ h => h)
          (wp_quiet (by trivial) solid_idle ht.1))

/-- Every request meets the contract. -/
theorem wp_handle_idle (q : Request) (hs : Idle i s.world) :
    (tokenContract D).wp i q (handle D q)
      (fun _ t => Idle i t.world) (fun _ t => Idle i t.world) s := by
  have hreply : ∀ {γ : Type} {p : Async γ} {f : γ → Reply},
      (tokenContract D).wp i q p (fun _ t => Idle i t.world) (fun _ t => Idle i t.world) s →
      (tokenContract D).wp i q (p.bind fun r => pure (f r)) (fun _ t => Idle i t.world)
        (fun _ t => Idle i t.world) s :=
    fun h => Contract.wp_seq h (fun _ _ h => h) fun _ _ h => h
  cases q with
  | registerUser input => exact hreply (wp_registerUser hs)
  | loginUser input => exact hreply (wp_loginUser hs)
  | rotateRefreshToken input => exact hreply (wp_rotateRefreshToken hs)
  | revokeRefreshTokenFamily raw => exact hreply (wp_revokeRefreshTokenFamily hs)
  | switchOrganization input => exact hreply (wp_switchOrganization hs)
  | _ => exact wp_of_uses (by simp [Request.footprint]) (uses_handle _) hs

/-! ### Every run -/

/-- No session has been started yet, and nothing is under way. -/
def NoSessions (w : World) : Prop := ∃ d : Db, d.refreshTokens = [] ∧ w = World.init d

theorem tokenInv_of_noSessions {w : World} (h : NoSessions w) : TokenInv w := by
  obtain ⟨d, hd, rfl⟩ := h
  have hnil : (World.init d).refreshTokens = [] := hd
  refine ⟨hnil ▸ .nil, fun a ha => ?_, (fun _ _ _ ha => nomatch ha),
    fun i => ⟨.idle, rfl, trivial⟩⟩
  rw [hnil] at ha
  cases ha

/-- In every reachable configuration the invariant holds, and every thread meets
the contract from where it is. -/
theorem token_sound {c : AuthConfig} (h : (authMachine D).Reachable NoSessions c) :
    (TokenInv c.state.world ∧ Attributed c.state) ∧ ∀ i q p, c.threads[i]? = some (q, p) →
      (tokenContract D).wp i q p (fun _ _ => True) (fun _ _ => True) c.state :=
  (tokenContract D).sound (Q := fun _ _ _ _ => True) (E := fun _ _ _ _ => True)
    (fun w hw => ⟨tokenInv_of_noSessions hw, fun _ hl => by
      obtain ⟨d, _, rfl⟩ := hw
      cases hl⟩)
    (fun i q s hinv _ hnew => Contract.wp_mono (fun _ _ _ => trivial) (fun _ _ _ => trivial)
      (wp_handle_idle q (tokenWrites_nil (hinv.2.pendingOf_new hnew))))
    (fun _ _ _ => Contract.Stable.true _) (fun _ _ _ => Contract.Stable.true _)
    (fun _ _ _ _ => trivial) h

/-- What one decision of the scheduler does to `refresh_tokens`. -/
theorem token_state_cases {c c' : AuthConfig} {l : Label Input Request}
    (h : (authMachine D).Reachable NoSessions c) (hn : (authMachine D).next c l = some c') :
    c'.state = c.state ∨ ∃ i q a w, c'.state = c.state.push i q a w ∧
      TokenStep i c.state.world w := by
  obtain ⟨hinv, hwp⟩ := token_sound h
  rcases Contract.state_cases ⟨hinv, hwp⟩ hn with
    heq | ⟨i, q, inp, op, r, w, hpre, he, heq⟩ | ⟨i, q, heq⟩
  · exact .inl heq
  · exact .inr ⟨i, q, _, w, heq, tokenStep hinv.1 hpre (exec_store he) (exec_draws he)⟩
  · exact .inr ⟨i, q, _, _, heq, tokenStep_drop D hinv.1⟩

theorem revoked_of_replaced {ts : List RefreshToken} (hw : tokenLineage.Wf ts) :
    ∀ a ∈ ts, a.replacedById ≠ none → a.revokedAt ≠ none :=
  fun a ha hn => of_decide_eq_false (hw.next_retired a ha hn)

/-- A replaced row never changes again, so it keeps its successor. -/
theorem replaced_kept {c : AuthConfig} (h : (authMachine D).Reachable NoSessions c) :
    ∀ e ∈ c.state.hist, ∀ a ∈ e.before.refreshTokens, a.replacedById ≠ none →
      a ∈ e.after.refreshTokens := by
  induction h with
  | boot _ => intro e he; cases he
  | @step c c' l hr hn ih =>
    rcases token_state_cases hr hn with heq | ⟨i, q, a, w, heq, hst⟩
    · rw [heq]
      exact ih
    · rw [heq]
      intro e he
      rcases List.mem_cons.mp he with rfl | he
      · intro b hb hrep
        have hwf := (token_sound hr).1.1.wf
        obtain ⟨b', hb', _, _, _, hsame⟩ := hst.table.kept hwf hb
        exact hsame (revoked_of_replaced hwf b hb hrep) ▸ hb'
      · exact ih e he

/-- What `refresh_tokens` always is: families with at most one unrevoked token, of
one user each, and linear chains of successors inside them. -/
structure FamilyRules (ts : List RefreshToken) : Prop where
  id_unique : (ts.map fun t => t.id).Nodup
  one_unrevoked : ∀ a ∈ ts, ∀ b ∈ ts, a.familyId = b.familyId → a.revokedAt = none →
    b.revokedAt = none → a = b
  one_user : ∀ a ∈ ts, ∀ b ∈ ts, a.familyId = b.familyId → a.userId = b.userId
  only_revoked_replaced : ∀ a ∈ ts, a.replacedById ≠ none → a.revokedAt ≠ none
  successor_in_family : ∀ a ∈ ts, ∀ x, a.replacedById = some x →
    ∃ b ∈ ts, b.id = x ∧ b.familyId = a.familyId
  one_predecessor : ∀ a ∈ ts, ∀ b ∈ ts, a.replacedById = b.replacedById →
    a.replacedById ≠ none → a = b
  no_cycle : ∀ a, ¬ Relation.TransGen
    (fun a b => a ∈ ts ∧ b ∈ ts ∧ a.replacedById = some b.id) a a
  one_first : ∀ a ∈ ts, ∀ b ∈ ts, a.familyId = b.familyId →
    (∀ c ∈ ts, c.replacedById ≠ some a.id) → (∀ c ∈ ts, c.replacedById ≠ some b.id) → a = b

/-- **Refresh-token families.**  Whatever requests there are and however their
calls are interleaved, fail or die, the table obeys the rules, and a token once
replaced keeps its successor. -/
theorem refreshToken_families {c : AuthConfig} (h : (authMachine D).Reachable NoSessions c) :
    FamilyRules c.state.world.refreshTokens ∧
      ∀ e ∈ c.state.hist, ∀ a ∈ e.before.refreshTokens, a.replacedById ≠ none →
        a ∈ e.after.refreshTokens := by
  have hwf := (token_sound h).1.1.wf
  refine ⟨⟨hwf.nodup, fun a ha b hb hf hla hlb => ?_, hwf.owner_eq, revoked_of_replaced hwf,
    hwf.next_mem, hwf.next_inj, hwf.acyclic, hwf.root_unique⟩, replaced_kept h⟩
  exact hwf.live_unique a ha b hb (decide_eq_true hla) (decide_eq_true hlb) hf

/-- A login, and a rotation of its token. -/
def loginAndRotate : List (Label Input Request) :=
  [.spawn (.loginUser ⟨"ann@x.io", "pw", sampleClient⟩)] ++ steps 0 10 ++
    [.spawn (.rotateRefreshToken ⟨.drawn 0 0, sampleClient⟩)] ++ steps 1 13

theorem refreshToken_families_loginAndRotate :
    ∃ c : AuthConfig, runFrom sampleDeps sampleDb loginAndRotate = some c ∧
      c.state.world.refreshTokens.length = 2 ∧ FamilyRules c.state.world.refreshTokens := by
  have hrun : (runFrom sampleDeps sampleDb loginAndRotate).map
      (fun c => c.state.world.refreshTokens.length) = some 2 := by decide +kernel
  obtain ⟨c, hc, hlen⟩ := Option.map_eq_some_iff.mp hrun
  have hinit : NoSessions (World.init sampleDb) := ⟨sampleDb, rfl, rfl⟩
  exact ⟨c, hc, hlen, (refreshToken_families (Machine.reachable_of_run hinit hc)).1⟩

end LakiraBackend.Auth
