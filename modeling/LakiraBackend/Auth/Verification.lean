import LakiraBackend.Auth.UserRow

/-!
# Verified addresses

`VerifyEmail` verifies a user who presents a token that was mailed to the address
the user had when the request that made the token read their row.  No later
change of the address resets the flag (`verified_other_address`): a change of
address is not verified again.

So a verified user has proved the address of that reading, which is the user's
address while it has not been changed since (`verified_address`).
-/

namespace LakiraBackend.Auth

open LakiraBackend.Concurrency
open scoped List

/-- The tokens of a kind, by the raw token they were made of; a token stays its user's. -/
def tokenNames (D : Deps) (kind : TokenKind) : RandomNaming D Uuid where
  names := fun d => (d.tokens kind).map fun t => (t.tokenHash.raw, t.userId)
  gives := fun wr => match wr with
    | .createToken k t => if k = kind then some (t.tokenHash.raw, t.userId) else none
    | _ => none
  names_of_gives := by
    intro wr n d h
    cases wr with
    | createToken k t =>
      simp only [Option.ite_none_right_eq_some, Option.some.injEq] at h
      obtain ⟨rfl, rfl⟩ := h
      change ((Write.apply D _ d).tokens k).map _ = _
      rw [Write.apply_tokens, Write.onTokens, if_pos rfl, List.map_append]
      rfl
    | _ => cases h
  names_of_keeps := by
    intro wr d h
    change ((Write.apply D _ d).tokens kind).map _ <+ _
    rw [Write.apply_tokens]
    have hmap : ∀ f : OneTimeToken → OneTimeToken,
        (∀ t, (f t).tokenHash = t.tokenHash ∧ (f t).userId = t.userId) →
        ((d.tokens kind).map f).map (fun t => (t.tokenHash.raw, t.userId)) =
          (d.tokens kind).map fun t => (t.tokenHash.raw, t.userId) := by
      intro f hf
      refine List.map_map.trans (List.map_congr_left fun t _ => ?_)
      simp [hf t]
    cases wr with
    | createToken k t =>
      simp only [ite_eq_right_iff, reduceCtorEq, imp_false] at h
      rw [Write.onTokens, if_neg h]
    | markTokenUsed k id usedAt =>
      simp only [Write.onTokens]
      split
      · rw [hmap _ fun t => by split <;> exact ⟨rfl, rfl⟩]
      · exact List.Sublist.refl _
    | useTokens k userId now ids =>
      simp only [Write.onTokens]
      split
      · rw [hmap _ fun t => by split <;> exact ⟨rfl, rfl⟩]
      · exact List.Sublist.refl _
    | _ => exact List.Sublist.refl _
  updates_keep := by
    rintro ⟨tx, u, ids⟩
    cases u <;> rfl

/-! ### What a request knows when it mails a token -/

/-- None of the calls writes a user. -/
def NoUserWrite (l : List AuthEvent) : Prop :=
  ∀ e ∈ l, ∀ tx wr r, e.act = .call (.call (.write tx wr)) r → wr.table ≠ .users

/-- The request has loaded this user last, and has written none. -/
def Loaded (v : AuthUser) (l : List AuthEvent) : Prop :=
  (∃ tx, loadedUser l = some (tx, v)) ∧ NoUserWrite l

/-- If the mail carries a verification token, the request has made the token for the
user it had loaded, and mails it to their address. -/
def Minted (D : Deps) (m : EmailMessage) (l : List AuthEvent) : Prop :=
  ∀ raw ttl, m.body = .emailVerification raw ttl → ∃ later e rest v, l = later ++ e :: rest ∧
    Gives (tokenNames D .emailVerification) (raw, v.id) e ∧ Loaded v rest ∧ m.recipient = v.email

/-- The token presented has been found, and is this user's. -/
def Presented (token : Uuid) (x : Uuid) (l : List AuthEvent) : Prop :=
  ∃ r ∈ l, ∃ t, Reads (.findTokenByTokenHash .emailVerification (.sha256 token)) (some t) r ∧
    t.userId = x

/-- A token is made for the user its request has loaded, and mailed to their address;
`VerifyEmail` saves the user whose token it has found. -/
def verifyPre (D : Deps) : Precondition := fun i q op s => match op with
  | .call (.write _ (.createToken .emailVerification t)) =>
      NewName (tokenNames D .emailVerification) i t.tokenHash.raw s ∧
        ∃ v, Loaded v (own i s.hist) ∧ v.id = t.userId
  | .call (.write _ (.saveUser u)) =>
      ∀ input, q = .verifyEmail input → Presented input.token u.id (own i s.hist)
  | .call (.send m) => Minted D m (own i s.hist)
  | _ => True

variable {D : Deps} {init : World → Prop} {i : Nat} {q : Request} {s : AuthState} {w₀ : World}
  {hist past : List AuthEvent} {e : AuthEvent} {v : AuthUser} {l : List AuthEvent}

theorem verifyPre_free (hq : ∀ input, q ≠ .verifyEmail input) (op : Op) (s : AuthState)
    (h : op.table ≠ some (.tokens .emailVerification)) : verifyPre D i q op s := by
  cases op with
  | call c =>
    cases c with
    | write tx wr =>
      cases wr with
      | createToken kind t =>
        cases kind with
        | emailVerification => exact absurd rfl h
        | passwordReset => trivial
      | saveUser u => exact fun input hi => absurd hi (hq input)
      | _ => trivial
    | send m =>
      obtain ⟨recipient, body⟩ := m
      rintro raw ttl rfl
      exact absurd rfl h
    | _ => trivial
  | _ => trivial

theorem verifyPre_new : AsksNew (tokenNames D .emailVerification) (verifyPre D) := by
  intro i q tx wr n s hn hpre
  cases wr with
  | createToken kind t =>
    cases kind with
    | emailVerification =>
      cases hn
      exact hpre.1
    | passwordReset => cases hn
  | _ => cases hn

/-! ### The use cases meet the contract -/

theorem NoUserWrite.cons {op : Op} {r : Except Err op.Answer} {w w' : World}
    (hop : op.table ≠ some .users) (h : NoUserWrite l) :
    NoUserWrite (⟨i, q, .call op r, w, w'⟩ :: l) := by
  intro e he tx wr r' ha
  rcases List.mem_cons.mp he with rfl | he
  · obtain ⟨rfl, _⟩ := Act.call.inj ha
    exact fun ht => hop (congrArg some ht)
  · exact h e he tx wr r' ha

theorem Loaded.cons {op : Op} {r : Except Err op.Answer} {w w' : World}
    (hop : op.table ≠ some .users) (hload : op.loadsUser = false) (h : Loaded v l) :
    Loaded v (⟨i, q, .call op r, w, w'⟩ :: l) := by
  obtain ⟨⟨tx, hl⟩, hno⟩ := h
  exact ⟨⟨tx, (loadedUser_cons hload).trans hl⟩, hno.cons hop⟩

theorem stable_noUserWrite {K : Contract (authMachine D)} :
    K.Stable i fun s => NoUserWrite (own i s.hist) := Contract.stable_own NoUserWrite

theorem stable_isLoaded {K : Contract (authMachine D)} :
    K.Stable i fun s => Loaded v (own i s.hist) := Contract.stable_own (Loaded v)

/-- A call that loads no user and writes none. -/
theorem wp_keepLoaded {op : Op} (hop : op.table ≠ some .users) (hload : op.loadsUser = false)
    (hfree : ∀ t, verifyPre D i q op t) (hs : Loaded v (own i s.hist)) :
    (guard D init (verifyPre D)).wp i q (Prog.await op) (fun _ t => Loaded v (own i t.hist))
      (fun _ _ => True) s := by
  refine Contract.wp_mono (fun _ _ h => h) (fun _ _ _ => trivial)
    (wp_keep stable_isLoaded hs (fun t _ _ => hfree t) fun t _ r w _ ht _ => ?_)
  rw [own_push]
  exact ht.cons hop hload

theorem wp_createVerificationToken {raw : Uuid} {t : Time} {tx : Bool}
    (hs : Loaded v (own i s.hist) ∧ NewName (tokenNames D .emailVerification) i raw s) :
    (guard D init (verifyPre D)).wp i q
      (EmailVerificationTokenRepository.save v.id (.sha256 raw) t tx)
      (fun _ s => ∃ e rest, own i s.hist = e :: rest ∧
        Gives (tokenNames D .emailVerification) (raw, v.id) e ∧ Loaded v rest)
      (fun _ _ => True) s := by
  have hstable := (stable_isLoaded (v := v) (K := guard D init (verifyPre D)) (i := i)).and
    (stable_newName (u := raw) (verifyPre_new (D := D)))
  refine Contract.wp_seq (wp_keep hstable hs (fun _ _ _ => trivial) fun t inp r w _ ht he => ?_)
    (fun _ _ _ => trivial) fun id s hs => ?_
  · have hload : Loaded v (own i (t.push i q (.call .random r) w).hist) := by
      rw [own_push]
      exact ht.1.cons (by simp [Op.table]) rfl
    exact ⟨hload, ht.2.push (exec_draws he) fun n hg =>
      absurd hg (not_gives_of_op fun _ _ h => nomatch h)⟩
  · refine Contract.wp_seq (Contract.wp_await hstable hs (fun t _ ht => ⟨ht.2, v, ht.1, rfl⟩)
      (fun t _ _ w _ ht _ => ?_) fun _ _ _ _ _ _ _ => trivial) (fun _ _ h => h) fun _ _ h => h
    exact ⟨_, _, own_push, ⟨tx, _, _, rfl, rfl⟩, ht.1⟩

theorem wp_issueVerificationToken {userId : Uuid} {tx : Bool}
    (hs : NoUserWrite (own i s.hist)) :
    (guard D init (verifyPre D)).wp i q (issueVerificationToken D userId tx)
      (fun m t => ∀ email, m = some email → Minted D email (own i t.hist)) (fun _ _ => True) s := by
  unfold issueVerificationToken
  refine Contract.wp_seq (Contract.wp_call rfl fun _ _ _ => trivial) (fun _ _ _ => trivial)
    fun a t hown => ?_
  split
  · intro _ h
    cases h
  · rename_i v
    obtain ⟨w, w', ht⟩ := hown
    split
    · intro _ h
      cases h
    · have hload : Loaded v (own i t.hist) := by
        rw [ht]
        exact ⟨⟨tx, rfl⟩, hs.cons (by simp [Op.table])⟩
      refine Contract.wp_seq (wp_keepLoaded (by simp [Op.table]) rfl (fun _ => trivial) hload)
        (fun _ _ h => h) fun now t hload => ?_
      refine Contract.wp_seq (Contract.wp_seq
        (wp_keepLoaded (by simp [Op.table, Update.table]) rfl (fun _ => trivial) hload)
        (fun _ _ h => h) fun _ t hload =>
          wp_keepLoaded (by simp [Op.table, Update.table]) rfl (fun _ => trivial) hload)
        (fun _ _ h => h) fun _ t hload => ?_
      refine Contract.wp_seq (wp_drawName verifyPre_new (fun _ => trivial) stable_isLoaded hload
        fun t r w ht => ?_) (fun _ _ h => h) fun raw t ht => ?_
      · rw [own_push]
        exact ht.cons (by simp [Op.table]) rfl
      · refine Contract.wp_seq (wp_createVerificationToken ht) (fun _ _ h => h)
          fun _ t ht => ?_
        obtain ⟨e, rest, hown, hg, hrest⟩ := ht
        rintro _ ⟨⟩ raw' ttl ⟨⟩
        exact ⟨[], e, rest, v, hown, hg, hrest, rfl⟩

theorem wp_requestEmailVerification {userId : Uuid} (hs : own i s.hist = []) :
    (guard D init (verifyPre D)).wp i q (requestEmailVerification D userId) (fun _ _ => True)
      (fun _ _ => True) s := by
  refine Contract.wp_seq (wp_issueVerificationToken (by rw [hs]; exact fun _ h => nomatch h))
    (fun _ _ h => h) fun m t hm => ?_
  split
  · trivial
  · rename_i email
    exact Contract.wp_handle.mpr (wp_keep_true (Contract.stable_own (Minted D email)) (hm email rfl)
      fun _ _ h => h)

/-- The job, wherever it is run. -/
theorem wp_verificationJob {userId : Uuid} {messageId : JsonValue} {queue : String}
    (hq : ∀ input, q ≠ .verifyEmail input) (hs : own i s.hist = []) :
    (guard D init (verifyPre D)).wp i q
      (runOnce D messageId queue none (sendVerificationInTransaction D userId)) (fun _ _ => True)
      (fun _ _ => True) s := by
  refine wp_runOnce stable_noUserWrite (by rw [hs]; exact fun _ h => nomatch h)
    (fun op t hop => verifyPre_free hq op t ?_) (fun op t inp r w hop ht _ => ?_) fun t ht => ?_
  · exact fun h => by simpa using hop _ h
  · rw [own_push]
    exact ht.cons fun h => by simpa using hop _ h
  · refine Contract.wp_seq (wp_issueVerificationToken ht) (fun _ _ h => h) fun m t hm => ?_
    split
    · trivial
    · rename_i email
      exact wp_keep_true (Contract.stable_own (Minted D email)) (hm email rfl) fun _ _ h => h

theorem Presented.cons {token x : Uuid} (h : Presented token x l) (e : AuthEvent) :
    Presented token x (e :: l) := by
  obtain ⟨r, hr, ht⟩ := h
  exact ⟨r, List.mem_cons_of_mem e hr, ht⟩

theorem stable_presented {K : Contract (authMachine D)} {token x : Uuid} :
    K.Stable i fun s => Presented token x (own i s.hist) := Contract.stable_own (Presented token x)

theorem wp_verifyEmail {input : VerifyEmailInput} :
    (guard D init (verifyPre D)).wp i (.verifyEmail input) (verifyEmail input) (fun _ _ => True)
      (fun _ _ => True) s := by
  refine Contract.wp_seq (Contract.Meets.await (fun _ => trivial) s) (fun _ _ h => h)
    fun now s _ => ?_
  refine Contract.wp_seq (Contract.wp_call rfl fun _ _ _ => trivial) (fun _ _ _ => trivial)
    fun a s hown => ?_
  split
  · trivial
  · rename_i token
    split
    · trivial
    · obtain ⟨w, w', hown⟩ := hown
      have hs : Presented input.token token.userId (own i s.hist) := by
        rw [hown]
        exact ⟨_, List.mem_cons_self, token, rfl, rfl⟩
      refine Contract.wp_seq (Q := fun a t => Presented input.token token.userId (own i t.hist) ∧
        ∀ v, a = some v → v.id = token.userId) (F := fun _ _ => True) ?_ (fun _ _ h => h)
        fun a s hfound => ?_
      · refine Contract.wp_await stable_presented hs (fun _ _ _ => trivial)
          (fun t inp a w _ ht he => ⟨?_, fun v hv => ?_⟩) fun _ _ _ _ _ _ _ => trivial
        · rw [own_push]
          exact ht.cons _
        · obtain ⟨ha, _⟩ := exec_read_ok (i := i) (D := D) he
          subst hv
          simpa using List.find?_some ha.symm
      · split
        · trivial
        · rename_i v
          obtain ⟨hs, hid⟩ := hfound
          have hpre : Presented input.token (v.setEmailVerifiedAt now).id (own i s.hist) := by
            rw [AuthUser.setEmailVerifiedAt, hid v rfl]
            exact hs
          have hsave : (guard D init (verifyPre D)).wp i (.verifyEmail input)
              (UserRepository.save (v.setEmailVerifiedAt now)) (fun _ _ => True)
              (fun _ _ => True) s := by
            refine Contract.wp_seq (wp_keep_true stable_presented hpre fun t _ ht input' hi => ?_)
              (fun _ _ h => h) fun _ _ _ => trivial
            cases hi
            exact ht
          exact Contract.wp_seq hsave (fun _ _ h => h)
            fun _ t _ => Contract.Meets.await (fun _ => trivial) t

theorem wp_handle_verify (q : Request) (hs : own i s.hist = []) :
    (guard D init (verifyPre D)).wp i q (handle D q) (fun _ _ => True) (fun _ _ => True) s := by
  have hreply : ∀ {α : Type} {p : Async α} {f : α → Reply},
      (guard D init (verifyPre D)).wp i q p (fun _ _ => True) (fun _ _ => True) s →
      (guard D init (verifyPre D)).wp i q (p.bind fun a => pure (f a)) (fun _ _ => True)
        (fun _ _ => True) s :=
    fun h => Contract.wp_seq h (fun _ _ h => h) fun _ _ _ => trivial
  cases q with
  | requestEmailVerification userId => exact hreply (wp_requestEmailVerification hs)
  | verificationJob userId messageId => exact hreply (wp_verificationJob (by simp) hs)
  | sendVerificationEmail msg queue =>
    refine hreply ?_
    unfold sendVerificationEmail handleIdJob
    split
    · trivial
    · exact wp_verificationJob (by simp) hs
  | verifyEmail input => exact hreply wp_verifyEmail
  | _ =>
    exact meets_untouched (verifyPre_free (by simp)) (by simp [Request.footprint]) (uses_handle _) s

/-! ### Where the rows were read -/

theorem exists_load {tx : Bool} (h : loadedUser l = some (tx, v)) :
    ∃ e ∈ l, ∃ id, e.act = .call (.call (.read tx (.findUserById id))) (.ok (some v)) := by
  obtain ⟨e, he, hload⟩ := List.exists_of_findSome?_eq_some h
  unfold loads at hload
  split at hload
  · rename_i tx' id u ha
    obtain ⟨v', rfl, hv⟩ := Option.map_eq_some_iff.mp hload
    cases hv
    exact ⟨e, he, id, ha⟩
  · cases hload

theorem NoUserWrite.mono {l' : List AuthEvent} (h : NoUserWrite l) (hs : l' ⊆ l) :
    NoUserWrite l' := fun e he => h e (hs he)

theorem users_foldl {ws : List Write} (hws : ∀ wr ∈ ws, wr.table ≠ .users) (d : Db) :
    (ws.foldl (fun d wr => (schema D).apply wr d) d).users = d.users := by
  induction ws generalizing d with
  | nil => rfl
  | cons wr ws ih =>
    rw [List.foldl_cons, ih fun wr' h => hws wr' (List.mem_cons_of_mem _ h)]
    exact Write.onUsers_of_table (hws wr List.mem_cons_self) d.users

/-- A thread that has written no user sees the committed ones. -/
theorem base_users {Pre : Precondition} (h : LegalHistory D Pre w₀ hist)
    (hpend : w₀.store.pending = []) (hno : NoUserWrite (own i hist)) (tx : Bool) :
    ((worldAfter w₀ hist).store.base (schema D) i tx).users =
      (worldAfter w₀ hist).store.db.users := by
  cases tx with
  | false => rfl
  | true =>
    refine users_foldl (fun wr hwr => ?_) _
    rcases pending_made h _ (Store.mem_pendingOf _ |>.mp hwr) with hl | ⟨e, he, r, ha⟩ | ⟨st, hst⟩
    · rw [hpend] at hl
      cases hl
    · exact hno e he _ _ r ha
    · have hst' : wr = st.write := hst
      rw [hst', statement_write_table]
      cases st.update <;> simp [Update.table]

/-- The user loaded is the row committed then. -/
theorem userRow_of_load {Pre : Precondition} (h : LegalHistory D Pre w₀ (e :: past))
    (hpend : w₀.store.pending = []) (hno : NoUserWrite (own e.tid past)) {tx : Bool} {id : Uuid}
    (ha : e.act = .call (.call (.read tx (.findUserById id))) (.ok (some v))) :
    userRow v.id e.before = some v ∧ e.after = e.before := by
  obtain ⟨inp, he⟩ := h.2.1.exec ha
  have he' : exec D e.tid inp (.call (.read tx (.findUserById id))) e.before =
      some (.ok (some v), e.after) := he
  obtain ⟨hv, hafter⟩ := exec_read_ok he'
  have hfind : some v = (e.before.store.base (schema D) e.tid tx).users.find? fun u => u.id = id := hv
  have hid : v.id = id := by simpa using List.find?_some hfind.symm
  refine ⟨?_, hafter⟩
  rw [h.1] at hfind ⊢
  rw [userRow, ← base_users h.2.2 hpend hno tx, hid]
  exact hfind.symm

/-! ### Who verified a user -/

theorem mem_users_foldl {ws : List Write} (hws : ∀ wr ∈ ws, wr.table = .users →
    ∃ u, wr = .createUser u ∧ u.emailVerifiedAt = none) {d : Db}
    (h : v ∈ (ws.foldl (fun d wr => (schema D).apply wr d) d).users) :
    v ∈ d.users ∨ v.emailVerifiedAt = none := by
  induction ws generalizing d with
  | nil => exact .inl h
  | cons wr ws ih =>
    refine (ih (fun wr' h => hws wr' (List.mem_cons_of_mem _ h)) h).elim (fun h => ?_) .inr
    have hv : v ∈ wr.onUsers d.users := h
    by_cases ht : wr.table = .users
    · obtain ⟨u, rfl, hu⟩ := hws wr List.mem_cons_self ht
      rcases List.mem_append.mp hv with hv | hv
      · exact .inl hv
      · rw [List.mem_singleton.mp hv]
        exact .inr hu
    · exact .inl (Write.onUsers_of_table ht d.users ▸ hv)

/-- A user is created unverified. -/
theorem created_unverified (hpend : w₀.store.pending = [])
    (h : LegalHistory D userPre w₀ (e :: past)) {x : Uuid} (hnone : userRow x e.before = none)
    (hv : userRow x e.after = some v) : v.emailVerifiedAt = none := by
  have hold : ∀ u ∈ e.before.store.db.users, u.id ≠ x := by
    simpa [userRow] using hnone
  have hid : v.id = x := by simpa using List.find?_some hv
  have hmem : v ∈ e.after.store.db.users := List.mem_of_find?_eq_some hv
  have hsame : e.after.store.db.users ≠ e.before.store.db.users :=
    fun heq => hold v (heq ▸ hmem) hid
  rcases store_of_obeys h.2.1 with ⟨op, r, ha, hstep⟩ | ⟨_, hdrop⟩
  · rcases hstep.db_cases with hdb | ⟨wr, rfl, _, hdb⟩ | ⟨st, rfl, _, _, _, hdb⟩ | ⟨rfl, hs⟩
    · exact absurd (congrArg Db.users hdb) hsame
    · have hus : e.after.store.db.users = wr.onUsers e.before.store.db.users :=
        congrArg Db.users hdb
      by_cases ht : wr.table = .users
      · rw [hus] at hmem
        rcases h.2.1.pre ha ht with ⟨u, rfl, hu⟩ | ⟨_, u, _, rfl, _⟩
        · rcases List.mem_append.mp hmem with hm | hm
          · exact absurd hid (hold v hm)
          · rw [List.mem_singleton.mp hm]
            exact hu
        · obtain ⟨v', hv', heq⟩ := List.mem_map.mp hmem
          split at heq
          · rename_i hu
            exact absurd (hu.trans (heq ▸ hid)) (hold v' hv')
          · exact absurd (heq ▸ hid) (hold v' hv')
      · exact absurd (hus.trans (Write.onUsers_of_table ht _)) hsame
    · have ht : st.write.table ≠ .users := by
        rw [statement_write_table]
        cases st.update <;> simp [Update.table]
      exact absurd ((congrArg Db.users hdb).trans (Write.onUsers_of_table ht _)) hsame
    · -- a transaction only creates users
      have hcreate := pending_of_legal (P := fun wr => wr.table = .users →
          ∃ u, wr = .createUser u ∧ u.emailVerifiedAt = none)
        (by rw [hpend]; exact fun _ h => absurd h List.not_mem_nil)
        (fun i q wr s hpre ht => (hpre ht).resolve_right fun hfalse => by cases hfalse.1)
        (fun st ht => by
          rw [statement_write_table] at ht
          cases hu : st.update <;> rw [hu] at ht <;> cases ht) h.2.2
      rw [hs] at hmem
      refine (mem_users_foldl (fun wr hwr => ?_) hmem).resolve_left fun hm => hold v hm hid
      exact hcreate _ (h.1 ▸ e.before.store.mem_pendingOf.mp hwr)
  · exact absurd (by rw [hdrop]; rfl) hsame

theorem sets_emailVerifiedAt (h : q.sets .emailVerifiedAt = true) :
    ∃ input, q = .verifyEmail input := by
  cases q with
  | verifyEmail input => exact ⟨input, rfl⟩
  | _ => cases h

/-- **A verified user was saved by `VerifyEmail`.** -/
theorem verified_by (hpend : w₀.store.pending = [])
    (hstart : ∀ u ∈ w₀.store.db.users, u.emailVerifiedAt = none)
    (h : LegalHistory D userPre w₀ hist) {x : Uuid} :
    ∀ hist' v, hist' <:+ hist → userRow x (worldAfter w₀ hist') = some v →
      v.emailVerifiedAt ≠ none → ∃ e past u input, (e :: past) <:+ hist ∧ savedUser e = some u ∧
        u.id = x ∧ e.req = .verifyEmail input := by
  induction hist with
  | nil =>
    intro hist' v hs hv hver
    rw [List.suffix_nil.mp hs] at hv
    exact absurd (hstart v (List.mem_of_find?_eq_some hv)) hver
  | cons e past ih =>
    intro hist' v hs hv hver
    have hpast : ∀ hist' v, hist' <:+ past → userRow x (worldAfter w₀ hist') = some v →
        v.emailVerifiedAt ≠ none → ∃ e' past' u input, (e' :: past') <:+ (e :: past) ∧
          savedUser e' = some u ∧ u.id = x ∧ e'.req = .verifyEmail input := by
      intro hist' v hs hv hver
      obtain ⟨e', past', u, input, hs', hrest⟩ := ih h.2.2 hist' v hs hv hver
      exact ⟨e', past', u, input, hs'.trans (List.suffix_cons e past), hrest⟩
    rcases List.suffix_cons_iff.mp hs with rfl | hs
    · have hafter : userRow x e.after = some v := hv
      cases hx : userRow x e.before with
      | none => exact absurd (created_unverified hpend h hx hafter) hver
      | some v₀ =>
        rcases userRow_step (x := x) hpend h (by rw [hx]; rfl) with ⟨u, hu, hid⟩ | hsame
        · rw [userRow_of_saved hu, if_pos hid] at hafter
          cases hafter
          by_cases hset : e.req.sets .emailVerifiedAt = true
          · obtain ⟨input, hreq⟩ := sets_emailVerifiedAt hset
            exact ⟨e, past, v, input, List.suffix_refl _, hu, hid, hreq⟩
          · -- the flag was there when the call loaded the row
            obtain ⟨v', hload, hedit⟩ := saved_edited h hu
            obtain ⟨el, hel, id, ha⟩ := exists_load hload
            obtain ⟨pl, hsl⟩ := exists_past (mem_of_mem_own hel).1
            have hflag : v'.emailVerifiedAt = v.emailVerifiedAt :=
              (hedit.unset .emailVerifiedAt (by simpa using hset)).symm
            have hr : Reads (.findUserById id) (some v') el := ha
            obtain ⟨hv', _⟩ := hr.eval (h.2.2.obeys hsl)
            have hid' : v'.id = id := by simpa using List.find?_some hv'.symm
            refine hpast pl v' ((List.suffix_cons el pl).trans hsl) ?_ (hflag ▸ hver)
            rw [← h.2.2.before hsl, userRow, ← hid, hedit.id_eq, hid']
            exact hv'.symm
        · exact hpast past v (List.suffix_refl _) (h.1 ▸ hsame ▸ hafter) hver
    · exact hpast hist' v hs hv hver

/-! ### Where the token comes from -/

/-- A mail delivered was sent. -/
theorem sent_of_mem_outbox {Pre : Precondition} (h : LegalHistory D Pre w₀ hist)
    (hout : w₀.outbox = []) {m : EmailMessage} (hm : m ∈ (worldAfter w₀ hist).outbox) :
    ∃ e past r, (e :: past) <:+ hist ∧ e.act = .call (.call (.send m)) r := by
  induction hist with
  | nil =>
    have hm' : m ∈ w₀.outbox := hm
    rw [hout] at hm'
    cases hm'
  | cons e past ih =>
    have hpast : m ∈ e.before.outbox →
        ∃ e' past' r, (e' :: past') <:+ (e :: past) ∧ e'.act = .call (.call (.send m)) r := by
      intro hm
      obtain ⟨e', past', r, hs, ha⟩ := ih h.2.2 (h.1 ▸ hm)
      exact ⟨e', past', r, hs.trans (List.suffix_cons e past), ha⟩
    have hafter : m ∈ e.after.outbox := hm
    cases ha : e.act with
    | call op r =>
      obtain ⟨inp, he⟩ := h.2.1.exec ha
      have he' : exec D e.tid inp op e.before = some (r, e.after) := he
      rcases exec_outbox he' with hsame | ⟨m', rfl, hm'⟩
      · exact hpast (hsame ▸ hafter)
      · rcases List.mem_cons.mp (hm' ▸ hafter) with rfl | hm
        · exact ⟨e, past, r, List.suffix_refl _, ha⟩
        · exact hpast hm
    | crash =>
      have hobeys := h.2.1
      simp only [Obeys, ha] at hobeys
      rw [hobeys] at hafter
      exact hpast hafter

theorem loaded_of_gives (h : LegalHistory D (verifyPre D) w₀ (e :: past)) {raw x : Uuid}
    (hg : Gives (tokenNames D .emailVerification) (raw, x) e) :
    ∃ v, Loaded v (own e.tid past) ∧ v.id = x := by
  obtain ⟨tx, wr, r, ha, hn⟩ := hg
  have hpre := h.2.1.pre ha
  cases wr with
  | createToken kind t =>
    cases kind with
    | emailVerification =>
      cases hn
      exact hpre.2
    | passwordReset => cases hn
  | _ => cases hn

/-- A token found was made by a call of the history. -/
theorem made_of_found {d : Db} (hd : d.emailVerificationTokens = [])
    (h : LegalHistory D (verifyPre D) (World.init d) (e :: past)) {raw : Uuid} {t : OneTimeToken}
    (hr : Reads (.findTokenByTokenHash .emailVerification (.sha256 raw)) (some t) e) :
    ∃ e' past', (e' :: past') <:+ past ∧
      Gives (tokenNames D .emailVerification) (raw, t.userId) e' := by
  obtain ⟨heval, _⟩ := hr.eval h.2.1
  have hfind : some t = (e.before.store.db.tokens .emailVerification).find?
    fun s => s.tokenHash = .sha256 raw := heval
  have hhash : t.tokenHash = .sha256 raw := by simpa using List.find?_some hfind.symm
  have hname : (raw, t.userId) ∈
      (tokenNames D .emailVerification).names (worldAfter (World.init d) past).store.db := by
    rw [← h.1]
    exact List.mem_map.mpr ⟨t, List.mem_of_find?_eq_some hfind.symm, by rw [hhash]⟩
  rcases named_of_known h.2.2 (.inl hname) with (hk | ⟨p, hp, _⟩) | ⟨e', he', hg⟩
  · obtain ⟨t', ht', _⟩ := List.mem_map.mp hk
    have ht'' : t' ∈ d.emailVerificationTokens := ht'
    rw [hd] at ht''
    cases ht''
  · cases hp
  · obtain ⟨past', hs⟩ := exists_past he'
    exact ⟨e', past', hs, hg⟩

/-! ### Every run -/

/-- No user is verified, and there are no verification tokens. -/
structure Db.Unverified (d : Db) : Prop where
  users : ∀ u ∈ d.users, u.emailVerifiedAt = none
  tokens : d.emailVerificationTokens = []

/-- **A verified user has proved an address**: a token was presented whose mails all
went to the address that the request which made it had read in the user's row.  While
the address has not been changed since that reading, it is the user's. -/
theorem verified_address {d : Db} (hd : d.Unverified) {c : AuthConfig}
    (h : (authMachine D).Reachable (StartsFrom d) c) {x : Uuid}
    (hv : userRow x c.state.world = some v) (hver : v.emailVerifiedAt ≠ none) :
    ∃ raw address,
      (∃ e ∈ c.state.hist, e.req = .verifyEmail ⟨raw⟩) ∧
      (∀ m ∈ c.state.world.outbox, ∀ ttlHours, m.body = .emailVerification raw ttlHours →
        m.recipient = address) ∧
      ∃ later load past, c.state.hist = later ++ load :: past ∧
        userValue .email x load.before = some address ∧
        (∃ e ∈ later, e.tid = load.tid ∧ Gives (tokenNames D .emailVerification) (raw, x) e) ∧
        ((∀ e ∈ later, userValue .email x e.after = userValue .email x e.before) →
          v.email = address) := by
  obtain ⟨_, rfl, hworld, hu⟩ := Contract.legal_of_reachable (M := authMachine D)
    (fun _ q s _ => meets_handle_users (D := D) q s) h
  obtain ⟨_, rfl, _, hl⟩ := Contract.legal_of_reachable (M := authMachine D)
    (fun _ q _ hs => wp_handle_verify (D := D) q hs) h
  rw [hworld] at hv ⊢
  generalize c.state.hist = hist at hv hu hl
  -- the save, and the token it was made with
  obtain ⟨es, ps, u, ⟨raw⟩, hss, hsaved, rfl, hreq⟩ :=
    verified_by rfl hd.users hu hist v (List.suffix_refl _) hv hver
  obtain ⟨⟨tx, r, ha⟩, _⟩ := savedUser_eq hsaved
  obtain ⟨er, her, t, hread, ht⟩ := (hl.obeys hss).pre ha ⟨raw⟩ hreq
  obtain ⟨pr, hsr⟩ := exists_past (mem_of_mem_own her).1
  have hsr' := hsr.trans ((List.suffix_cons es ps).trans hss)
  obtain ⟨ec, pc, hsc, hg⟩ := made_of_found hd.tokens (hl.suffix hsr') hread
  have hsc' := hsc.trans ((List.suffix_cons er pr).trans hsr')
  rw [ht] at hg
  -- the row that the request which made it had read
  obtain ⟨w, ⟨⟨tx', hload⟩, hno⟩, hw⟩ := loaded_of_gives (hl.suffix hsc') hg
  obtain ⟨el, hel, id, hal⟩ := exists_load hload
  obtain ⟨hel, htid⟩ := mem_of_mem_own hel
  obtain ⟨later, past, rfl⟩ := List.append_of_mem hel
  have hsl : (el :: past) <:+ hist :=
    ((List.suffix_append later _).trans (List.suffix_cons ec _)).trans hsc'
  have hno' : NoUserWrite (own el.tid past) :=
    hno.mono (htid ▸ own_subset ((List.suffix_cons el past).trans (List.suffix_append later _)))
  obtain ⟨hrow, hread⟩ := userRow_of_load (hl.suffix hsl) rfl hno' hal
  have hvalue : userValue .email u.id el.before = some w.email := by rw [userValue, ← hw, hrow]; rfl
  obtain ⟨after, rfl⟩ := hsc'
  refine ⟨raw, w.email, ⟨es, hss.mem List.mem_cons_self, hreq⟩, fun m hm ttlHours hbody => ?_,
    after ++ ec :: later, el, past, by simp, hvalue, ⟨ec, by simp, htid.symm, hg⟩, fun hsame => ?_⟩
  · -- the mail was made with the same token, and so by the same request
    obtain ⟨e, pe, r, hs, ha⟩ := sent_of_mem_outbox hl rfl hm
    obtain ⟨later', e₁, rest, w₁, hown, hg₁, ⟨⟨tx₁, hload₁⟩, _⟩, hrec⟩ :=
      (hl.obeys hs).pre ha raw ttlHours hbody
    obtain ⟨past₁, hs₁, hrest⟩ := exists_past_of_own hown
    have hmem₁ : e₁ ∈ own e.tid pe := by rw [show own e.tid pe = _ from hown]; simp
    have htid₁ : e₁.tid = e.tid := (mem_of_mem_own hmem₁).2
    obtain ⟨rfl, rfl⟩ := List.cons.inj (gives_once verifyPre_new hl
      (hs₁.trans ((List.suffix_cons e pe).trans hs)) (List.suffix_append after _) hg₁ hg rfl)
    rw [← hrest, ← htid₁, hload] at hload₁
    cases hload₁
    exact hrec
  · have hlegal : LegalHistory D (verifyPre D) (World.init d)
        ((after ++ ec :: later) ++ el :: past) := by simpa using hl
    have hkept := hlegal.unchanged (f := userValue .email u.id) hsame
    have hlast : userValue .email u.id (worldAfter (World.init d)
        ((after ++ ec :: later) ++ el :: past)) = some v.email := by
      rw [userValue, List.append_assoc, List.cons_append, hv]
      rfl
    rw [hlast, worldAfter, hread, hvalue] at hkept
    exact Option.some.inj hkept

theorem sampleDb_unverified : sampleDb.Unverified := by
  refine ⟨fun u hu => ?_, rfl⟩
  rw [List.mem_singleton.mp hu]

def verifyAnn : Request := .verifyEmail ⟨.drawn 0 0⟩

/-- A token is requested and presented. -/
def verification : List (Label Input Request) :=
  [.spawn (.requestEmailVerification (.seed 1)), .spawn verifyAnn] ++ steps 0 8 ++ steps 1 5

theorem verified_address_verifyAnn :
    ∃ c : AuthConfig, runFrom sampleDeps sampleDb verification = some c ∧
      c.state.world.outbox = [⟨"ann@x.io", .emailVerification (.drawn 0 0) 24⟩] ∧
      ∃ raw address, (∃ e ∈ c.state.hist, e.req = .verifyEmail ⟨raw⟩) ∧
        ∀ m ∈ c.state.world.outbox, ∀ ttlHours, m.body = .emailVerification raw ttlHours →
          m.recipient = address := by
  have hrun : (runFrom sampleDeps sampleDb verification).map (fun c =>
      (userRow (.seed 1) c.state.world, c.state.world.outbox)) =
        some (some ⟨.seed 1, "ann@x.io", "ann", ⟨"pw", .seed 0⟩, true, some 0⟩,
          [⟨"ann@x.io", .emailVerification (.drawn 0 0) 24⟩]) := by
    decide +kernel
  obtain ⟨c, hc, hval⟩ := Option.map_eq_some_iff.mp hrun
  obtain ⟨hrow, hout⟩ := Prod.mk.inj hval
  have hstart : StartsFrom sampleDb (World.init sampleDb) := rfl
  obtain ⟨raw, address, hreq, hmail, _⟩ := verified_address sampleDb_unverified
    (Machine.reachable_of_run hstart hc) hrow (by simp)
  exact ⟨c, hc, hout, raw, address, hreq, hmail⟩

/-- **Verified at an address nobody has proved**: the address is changed after the
token was presented, and nothing was ever mailed to the new one. -/
theorem verified_other_address :
    ∃ c ∈ runFrom sampleDeps sampleDb (verification ++
        [.spawn (.updateProfile ⟨.seed 1, some "bob@x.io", none, none, none⟩)] ++ steps 2 3),
      userValue .email (.seed 1) c.state.world = some "bob@x.io" ∧
      userValue .emailVerifiedAt (.seed 1) c.state.world = some (some 0) ∧
      ∀ m ∈ c.state.world.outbox, m.recipient ≠ "bob@x.io" := by
  decide +kernel

end LakiraBackend.Auth
