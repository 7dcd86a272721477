import LakiraBackend.Auth.Guards
import LakiraBackend.Concurrency.Redemption

/-!
# An invite admits once

`AcceptInvite` checks that its invite is not accepted, creates the membership, and
marks the invite accepted, in three calls.  Only the unique index on memberships
stands between two of them, and removing the member takes that away: an invite whose
mark has failed admits the removed member again (`removed_member_readmitted`).

An invite admits twice in no other way than on a check that is out of date
(`acceptInvite_once_iff`).
-/

namespace LakiraBackend.Auth

open LakiraBackend.Concurrency
open scoped List

/-- The event finds the invite, not accepted, by the token its request presents. -/
def findsInvite (v : Uuid) (e : AuthEvent) : Bool :=
  match e.req, e.act with
  | .acceptInvite input, .call (.call (.read false (.findInviteByTokenHash h))) (.ok (some x)) =>
    h = .sha256 input.rawToken && x.id = v && !x.isAccepted
  | _, _ => false

/-- The event adds a membership, for a request that accepts an invite. -/
def admitsMember (e : AuthEvent) : Bool :=
  match e.req, e.act with
  | .acceptInvite _, .call (.call (.write false (.createMembership m))) _ =>
    e.after.store.db.memberships = e.before.store.db.memberships ++ [m]
  | _, _ => false

/-- The event marks the invite accepted, and with effect. -/
def marksInvite (v : Uuid) (e : AuthEvent) : Bool :=
  match e.act with
  | .call (.call (.write _ (.acceptInvite id _))) _ =>
    id = v && e.after.store.db.invites.all fun x => x.id ≠ v || x.isAccepted
  | _ => false

/-- An invite, as the `AcceptInvite` calls redeem it: the row is found, the membership
is created, the row is marked. -/
def inviteRedemption (v : Uuid) : Redemption Op Op.Answer Err World Request where
  checks := findsInvite v
  acts := fun e past => admitsMember e && (own e.tid past).any (findsInvite v)
  marks := marksInvite v

/-- The invites, by their ids. -/
def inviteNames (D : Deps) : RandomNaming D Unit where
  names := fun d => d.invites.map fun v => (v.id, ())
  gives := fun wr => match wr with
    | .createInvite v => some (v.id, ())
    | _ => none
  names_of_gives := by
    intro wr n d h
    cases wr with
    | createInvite v =>
      cases h
      exact List.map_append
    | _ => cases h
  names_of_keeps := by
    intro wr d h
    have hmap : ∀ f : OrganizationInvite → OrganizationInvite, (∀ v, (f v).id = v.id) →
        (d.invites.map f).map (fun v => (v.id, ())) <+ d.invites.map fun v => (v.id, ()) := by
      intro f hf
      rw [List.map_map, List.map_congr_left fun v _ => by rw [Function.comp_apply, hf v]]
    cases wr with
    | createInvite v => cases h
    | replaceInviteTokenHash id hash => exact hmap _ fun v => by split <;> rfl
    | acceptInvite id now => exact hmap _ fun v => by split <;> rfl
    | deleteInvite id => exact List.filter_sublist.map _
    | deleteExpiredInvites email org now => exact List.filter_sublist.map _
    | _ => exact List.Sublist.refl _
  updates_keep := by
    rintro ⟨tx, u, ids⟩
    cases u <;> rfl

/-- The request has found the invite. -/
def FoundInvite (v : Uuid) (l : List AuthEvent) : Prop := l.any (findsInvite v) = true

/-- An invite is created under a new id; it is marked, and a member admitted, by a request
that has found an invite. -/
def invitePre (D : Deps) : Precondition := fun i q op s => match op with
  | .call (.write _ (.createInvite v)) => NewName (inviteNames D) i v.id s
  | .call (.write _ (.acceptInvite id _)) => FoundInvite id (own i s.hist)
  | .call (.write _ (.createMembership _)) =>
      ∀ input, q = .acceptInvite input → ∃ v, FoundInvite v (own i s.hist)
  | _ => True

variable {D : Deps} {init : World → Prop} {i : Nat} {q : Request} {s : AuthState} {w₀ : World}
  {hist past : List AuthEvent} {e : AuthEvent} {v : Uuid}

theorem invitePre_new : AsksNew (inviteNames D) (invitePre D) := by
  intro i q tx wr n s hn hpre
  cases wr with
  | createInvite v => cases hn; exact hpre
  | _ => cases hn

theorem invitePre_free (hq : ∀ input, q ≠ .acceptInvite input) (op : Op) (s : AuthState)
    (h : op.table ≠ some .invites) : invitePre D i q op s := by
  cases op with
  | call c =>
    cases c with
    | write tx wr =>
      cases wr with
      | createInvite v => exact absurd rfl h
      | acceptInvite id now => exact absurd rfl h
      | createMembership m => exact fun input hi => absurd hi (hq input)
      | _ => trivial
    | _ => trivial
  | _ => trivial

/-! ### The use cases meet the contract -/

theorem FoundInvite.cons (e : AuthEvent) (l : List AuthEvent) (h : FoundInvite v l) :
    FoundInvite v (e :: l) := by
  rw [FoundInvite, List.any_cons, h, Bool.or_true]

/-- A call that needs nothing. -/
theorem wp_keepFound {op : Op} (hfree : ∀ t, invitePre D i q op t)
    (hs : FoundInvite v (own i s.hist)) :
    (guard D init (invitePre D)).wp i q (Prog.await op) (fun _ t => FoundInvite v (own i t.hist))
      (fun _ _ => True) s :=
  wp_keepOwn FoundInvite.cons hs (fun t _ => hfree t) fun _ _ => trivial

theorem wp_markAccepted (hs : FoundInvite v (own i s.hist)) :
    (guard D init (invitePre D)).wp i q
      (newDate.bind fun now => OrganizationInviteRepository.markAccepted v now)
      (fun _ _ => True) (fun _ _ => True) s :=
  Contract.wp_seq (wp_keepFound (fun _ => trivial) hs) (fun _ _ h => h) fun _ _ ht =>
    wp_keep_true (Contract.stable_own (FoundInvite v)) ht fun _ _ h => h

theorem wp_acceptInvite {input : AcceptInviteInput} :
    (guard D init (invitePre D)).wp i (.acceptInvite input) (acceptInvite D input)
      (fun _ _ => True) (fun _ _ => True) s := by
  refine Contract.wp_seq (Contract.wp_call rfl fun _ _ _ => trivial) (fun _ _ _ => trivial)
    fun a s hown => ?_
  split
  · trivial
  · rename_i invite
    split
    · trivial
    · rename_i hnot
      have hs : FoundInvite invite.id (own i s.hist) := by
        obtain ⟨w, w', hown⟩ := hown
        rw [hown]
        simp [FoundInvite, findsInvite, hnot]
      refine Contract.wp_seq (wp_keepFound (fun _ => trivial) hs) (fun _ _ h => h)
        fun now s hs => ?_
      split
      · trivial
      · refine Contract.wp_seq (wp_keepFound (fun _ => trivial) hs) (fun _ _ h => h)
          fun a s hs => ?_
        split
        · trivial
        · split
          · trivial
          · refine Contract.wp_seq (wp_keepFound (fun _ => trivial) hs) (fun _ _ h => h)
              fun a s hs => ?_
            split
            · exact wp_markAccepted hs
            · have hcreate : ∀ m t, FoundInvite invite.id (own i t.hist) →
                  (guard D init (invitePre D)).wp i (.acceptInvite input)
                    (await (.write false (.createMembership m)))
                    (fun _ t => FoundInvite invite.id (own i t.hist)) (fun _ _ => True) t :=
                fun m t ht => wp_keepOwn FoundInvite.cons ht (fun _ h _ _ => ⟨_, h⟩)
                  fun _ _ => trivial
              refine Contract.wp_seq (Q := fun _ t => FoundInvite invite.id (own i t.hist)) ?_
                (fun _ _ h => h) fun _ s hs => wp_markAccepted hs
              refine Contract.wp_seq (wp_keepFound (fun _ => trivial) hs) (fun _ _ h => h)
                fun id s hs => ?_
              refine Contract.wp_seq (wp_keepFound (fun _ => trivial) hs) (fun _ _ h => h)
                fun joinedAt s hs => ?_
              exact Contract.wp_seq (hcreate _ s hs) (fun _ _ h => h) fun _ _ h => h

/-- An invite is created under the id that was drawn for it. -/
theorem meets_saveInvite {org : Uuid} {email : String} {role : InviteRole} {h : TokenHash}
    {t : Time} {tx : Bool} : (guard D init (invitePre D)).Meets i q
      (OrganizationInviteRepository.save org email role h t tx) := by
  refine fun s => Contract.wp_seq (wp_drawName invitePre_new (fun _ => trivial)
    (Contract.Stable.true i) trivial fun _ _ _ _ => trivial) (fun _ _ h => h) fun id s hs => ?_
  have hwrite : ∀ {v : OrganizationInvite}, v.id = id → (guard D init (invitePre D)).wp i q
      (await (.write tx (.createInvite v))) (fun _ _ => True) (fun _ _ => True) s := by
    rintro v rfl
    exact wp_keep_true (stable_newName invitePre_new) hs.2 fun _ _ hn => hn
  refine Contract.wp_seq (Q := fun _ _ => True) (F := fun _ _ => True) ?_ (fun _ _ h => h)
    fun _ _ _ => trivial
  refine Contract.wp_handle.mpr (Contract.wp_mono (fun _ _ h => h) (fun e t _ => ?_) (hwrite rfl))
  split <;> trivial

theorem meets_sendInviteInTransaction {inviteId : Uuid} :
    (guard D init (invitePre D)).Meets i q (sendInviteInTransaction D inviteId) := by
  unfold sendInviteInTransaction
  refine .bind (.await fun _ => trivial) fun v => ?_
  split
  · exact .done
  · split
    · exact .done
    · refine .bind (.await fun _ => trivial) fun now => ?_
      split
      · exact .done
      · refine .bind (.await fun _ => trivial) fun org => ?_
        split
        · exact .done
        · exact .bind (.bind (.await fun _ => trivial) fun _ => .done) fun _ =>
            .bind (.await fun _ => trivial) fun _ => .await fun _ => trivial

theorem meets_inviteJob (hq : ∀ input, q ≠ .acceptInvite input) {inviteId : Uuid}
    {messageId : JsonValue} {queue : String} : (guard D init (invitePre D)).Meets i q
      (runOnce D messageId queue none (sendInviteInTransaction D inviteId)) := by
  refine meets_runOnce (fun op t hop => invitePre_free hq op t fun h => ?_)
    meets_sendInviteInTransaction
  simpa using hop _ h

theorem meets_inviteUserToOrganization {input : InviteUserToOrganizationInput} :
    (guard D init (invitePre D)).Meets i (.inviteUserToOrganization input)
      (inviteUserToOrganization D input) := by
  have hfree : ∀ op t, op.table = none →
      invitePre D i (.inviteUserToOrganization input) op t :=
    fun op t hop => invitePre_free (by simp) op t (by simp [hop])
  unfold inviteUserToOrganization
  split
  · exact .fail
  · refine .bind (.await fun _ => trivial) fun org => ?_
    split
    · exact .fail
    · refine .bind (.await fun _ => trivial) fun now => .bind (.await fun _ => trivial) fun _ =>
        .bind (.bind (.await fun _ => trivial) fun _ => .await fun _ => trivial) fun pending => ?_
      split
      · exact .fail
      · refine .bind (.bind (.await fun _ => trivial) fun _ => .done) fun ⟨rawToken, tokenHash⟩ => ?_
        dsimp only
        split
        · exact .bind (meets_runInTransaction hfree (.bind meets_saveInvite fun _ =>
            .await fun _ => trivial)) fun _ => .done
        · refine .bind meets_saveInvite fun v => .bind (.await fun _ => trivial) fun id =>
            .bind (.handle (.bind (.await fun _ => trivial) fun _ => .done) fun _ => .done)
              fun published => ?_
          split
          · exact .done
          · exact .bind (.handle (meets_inviteJob (by simp)) fun _ =>
              .bind (.await fun _ => trivial) fun _ => .fail) fun _ => .done

theorem meets_handle_invite (q : Request) : (guard D init (invitePre D)).Meets i q (handle D q) := by
  cases q with
  | acceptInvite input => exact .bind (fun _ => wp_acceptInvite) fun _ => .done
  | inviteUserToOrganization input => exact .bind meets_inviteUserToOrganization fun _ => .done
  | sendInviteEmail msg queue =>
    refine .bind ?_ fun _ => .done
    unfold sendInviteEmail handleIdJob
    split
    · exact .fail
    · exact meets_inviteJob (by simp)
  | _ => exact meets_untouched (invitePre_free (by simp)) (by simp [Request.footprint]) (uses_handle _)

/-! ### An invite stays accepted -/

/-- The invite is not among those whose creation is not committed. -/
def NotPending (D : Deps) (v : Uuid) (s : AuthStore) : Prop :=
  ∀ p ∈ s.pending, (inviteNames D).gives p.2 ≠ some (v, ())

/-- Every row of the invite is accepted. -/
def Accepted (v : Uuid) (d : Db) : Prop := ∀ x ∈ d.invites, x.id = v → x.isAccepted = true

theorem gives_statement (st : Statement) (n : Uuid × Unit) :
    (inviteNames D).gives st.write ≠ some n := by
  rw [(inviteNames D).updates_keep st]
  exact fun h => nomatch h

theorem NotPending.step {op : Op} {s s' : AuthStore} (h : StoreStep D i s op s')
    (hop : ∀ tx wr, op = .call (.write tx wr) → (inviteNames D).gives wr ≠ some (v, ()))
    (hs : NotPending D v s) : NotPending D v s' := by
  intro p hp
  rcases h.pending_cases hp with hp | rfl | ⟨st, hst⟩
  · exact hs p hp
  · exact hop true p.2 rfl
  · rw [hst]
    exact gives_statement st _

theorem Accepted.apply {wr : Write} {d : Db} (h : Accepted v d)
    (hwr : (inviteNames D).gives wr ≠ some (v, ())) : Accepted v (wr.apply D d) := by
  have hmap : ∀ f : OrganizationInvite → OrganizationInvite, (∀ x, (f x).id = x.id) →
      (∀ x, x.isAccepted = true → (f x).isAccepted = true) →
      ∀ x ∈ d.invites.map f, x.id = v → x.isAccepted = true := by
    intro f hid hf x hx hv
    obtain ⟨y, hy, rfl⟩ := List.mem_map.mp hx
    exact hf y (h y hy ((hid y).symm.trans hv))
  cases wr with
  | createInvite u =>
    intro x hx hv
    rcases List.mem_append.mp hx with hx | hx
    · exact h x hx hv
    · rw [List.mem_singleton.mp hx] at hv
      exact absurd (by rw [← hv]; rfl) hwr
  | replaceInviteTokenHash id hash =>
    exact hmap _ (fun x => by split <;> rfl) fun x hx => by split <;> exact hx
  | acceptInvite id now =>
    exact hmap _ (fun x => by split <;> rfl) fun x hx => by split <;> first | rfl | exact hx
  | deleteInvite id => exact fun x hx => h x (List.mem_of_mem_filter hx)
  | deleteExpiredInvites email org now => exact fun x hx => h x (List.mem_of_mem_filter hx)
  | _ => exact h

theorem Accepted.step {op : Op} {s s' : AuthStore} (h : StoreStep D i s op s')
    (hop : ∀ tx wr, op = .call (.write tx wr) → (inviteNames D).gives wr ≠ some (v, ()))
    (hs : NotPending D v s) (ha : Accepted v s.db) : Accepted v s'.db := by
  rcases h.db_cases with hdb | ⟨wr, rfl, _, hdb⟩ | ⟨st, _, _, _, _, hdb⟩ | ⟨_, rfl⟩
  · exact hdb ▸ ha
  · exact hdb ▸ ha.apply (hop false wr rfl)
  · exact hdb ▸ ha.apply (gives_statement st _)
  · have hfold : ∀ (ws : List Write) (d : Db), Accepted v d →
        (∀ wr ∈ ws, (inviteNames D).gives wr ≠ some (v, ())) →
        Accepted v (ws.foldl (fun d wr => (schema D).apply wr d) d) := by
      intro ws
      induction ws with
      | nil => exact fun d hd _ => hd
      | cons wr ws ih =>
        intro d hd hws
        exact ih _ (hd.apply (hws wr List.mem_cons_self))
          fun wr' h => hws wr' (List.mem_cons_of_mem _ h)
    exact hfold _ _ ha fun wr hwr => hs _ (s.mem_pendingOf.mp hwr)

theorem checks_eq (h : findsInvite v e = true) :
    ∃ hash x, Reads (.findInviteByTokenHash hash) (some x) e ∧ x.id = v ∧ x.isAccepted = false := by
  unfold findsInvite at h
  split at h
  · rename_i input hash x _ ha
    simp only [Bool.and_eq_true, decide_eq_true_eq, Bool.not_eq_true'] at h
    exact ⟨hash, x, ha, h.1.2, h.2⟩
  · cases h

/-- An invite that has been found is committed. -/
theorem mem_of_checks {Pre : Precondition} (h : LegalHistory D Pre w₀ (e :: past))
    (hc : findsInvite v e = true) :
    ∃ x ∈ (worldAfter w₀ past).store.db.invites, x.id = v ∧ x.isAccepted = false := by
  obtain ⟨hash, x, hr, hid, hnot⟩ := checks_eq hc
  have hfind : some x = e.before.store.db.invites.find? fun y => y.tokenHash = hash :=
    (hr.eval h.2.1).1
  exact ⟨x, h.1 ▸ List.mem_of_find?_eq_some hfind.symm, hid, hnot⟩

/-! ### Every run -/

/-- Where every invite has an id of its own, and nothing is under way. -/
def InvitesSeeded (w : World) : Prop :=
  ∃ d : Db, w = World.init d ∧ (d.invites.map fun v => v.id).Nodup ∧
    ∀ v ∈ d.invites, ∃ k, v.id = .seed k

theorem seeded_of_invitesSeeded {w : World} (h : InvitesSeeded w) : Seeded (inviteNames D) w := by
  obtain ⟨d, rfl, hnd, hseed⟩ := h
  have hids : ((inviteNames D).names d).map Prod.fst = d.invites.map fun v => v.id :=
    List.map_map
  refine seeded_of_init (hids ▸ hnd) fun n hn => ?_
  obtain ⟨v, hv, rfl⟩ := List.mem_map.mp hn
  exact hseed v hv

/-- Nobody gives the name of an invite again. -/
theorem not_gives_again (hw₀ : InvitesSeeded w₀) (h : LegalHistory D (invitePre D) w₀ (e :: past))
    (hn : Named (inviteNames D) w₀ past (v, ())) {op : Op} {r : Except Err op.Answer}
    (ha : e.act = .call op r) :
    ∀ tx wr, op = .call (.write tx wr) → (inviteNames D).gives wr ≠ some (v, ()) := by
  rintro tx wr rfl hg
  have hnew : NewName (inviteNames D) e.tid v ⟨e.before, past⟩ :=
    newName_of_gives invitePre_new h.2.1 ⟨tx, wr, r, ha, hg⟩
  exact ne_of_named (seeded_of_invitesSeeded hw₀) hnew hn rfl

/-- The invite of a committed row is nowhere under way, ever after. -/
theorem notPending_of_mem (hw₀ : InvitesSeeded w₀) (h : LegalHistory D (invitePre D) w₀ hist)
    (hs : past <:+ hist) (hmem : ∃ x ∈ (worldAfter w₀ past).store.db.invites, x.id = v) :
    Named (inviteNames D) w₀ past (v, ()) ∧ NotPending D v (worldAfter w₀ hist).store := by
  obtain ⟨x, hx, rfl⟩ := hmem
  have hin : (x.id, ()) ∈ (inviteNames D).names (worldAfter w₀ past).store.db :=
    List.mem_map_of_mem (f := fun v : OrganizationInvite => (v.id, ())) hx
  have hnamed := named_of_known (h.suffix hs) (.inl hin)
  refine ⟨hnamed, ?_⟩
  induction hist with
  | nil =>
    rw [List.suffix_nil.mp hs] at hin
    have hd := (seeded_of_invitesSeeded (D := D) hw₀).1
    exact fun p hp hg => hd.pending_new p hp _ hg _ hin rfl
  | cons e hist ih =>
    rcases List.suffix_cons_iff.mp hs with rfl | hs'
    · have hd := distinct_of_legal invitePre_new (seeded_of_invitesSeeded hw₀) h
      exact fun p hp hg => hd.pending_new p hp _ hg _ hin rfl
    · have hbefore : NotPending D x.id e.before.store := h.1 ▸ ih h.2.2 hs'
      rcases store_of_obeys h.2.1 with ⟨op, r, ha, hstep⟩ | ⟨_, hdrop⟩
      · exact hbefore.step hstep (not_gives_again hw₀ h (hnamed.mono hs') ha)
      · have hstore : (worldAfter w₀ (e :: hist)).store = e.before.store.drop e.tid := hdrop
        rw [hstore]
        exact fun p hp => hbefore p (List.mem_of_mem_filter hp)

/-- An invite that is marked stays accepted. -/
theorem accepted_of_marks (hw₀ : InvitesSeeded w₀) (h : LegalHistory D (invitePre D) w₀ hist)
    (hs : (e :: past) <:+ hist) (hm : marksInvite v e = true) :
    Accepted v (worldAfter w₀ hist).store.db := by
  have hmark : (∃ tx now r, e.act = .call (.call (.write tx (.acceptInvite v now))) r) ∧
      Accepted v e.after.store.db := by
    unfold marksInvite at hm
    split at hm
    · rename_i tx id now r ha
      simp only [Bool.and_eq_true, decide_eq_true_eq, List.all_eq_true, Bool.or_eq_true] at hm
      obtain ⟨rfl, hall⟩ := hm
      exact ⟨⟨tx, now, r, ha⟩, fun x hx hid => (hall x hx).resolve_left fun hne => hne hid⟩
    · cases hm
  obtain ⟨⟨tx, now, r, ha⟩, haccepted⟩ := hmark
  -- the request that marks it has found it committed
  have hfound : FoundInvite v (own e.tid past) := (h.obeys hs).pre ha
  obtain ⟨r, hr, hc⟩ := List.any_eq_true.mp hfound
  obtain ⟨past', hs'⟩ := exists_past (mem_of_mem_own hr).1
  have hmem := mem_of_checks (h.suffix (hs'.trans ((List.suffix_cons e past).trans hs))) hc
  have hsuffix : past' <:+ past := (List.suffix_cons r past').trans hs'
  have hrow : ∃ x ∈ (worldAfter w₀ past').store.db.invites, x.id = v :=
    hmem.imp fun x hx => ⟨hx.1, hx.2.1⟩
  clear hr hc hs' hmem hm ha hfound
  induction hist with
  | nil => cases List.suffix_nil.mp hs
  | cons e' hist ih =>
    rcases List.suffix_cons_iff.mp hs with heq | hs'
    · obtain ⟨rfl, rfl⟩ := List.cons.inj heq
      exact haccepted
    · have hbefore : Accepted v e'.before.store.db := h.1 ▸ ih h.2.2 hs'
      have hpast : past' <:+ hist := hsuffix.trans ((List.suffix_cons e past).trans hs')
      obtain ⟨hnamed, hnot⟩ := notPending_of_mem hw₀ h.2.2 hpast hrow
      rcases store_of_obeys h.2.1 with ⟨op, r, ha, hstep⟩ | ⟨_, hdrop⟩
      · exact hbefore.step hstep (not_gives_again hw₀ h (hnamed.mono hpast) ha) (h.1 ▸ hnot)
      · have hstore : (worldAfter w₀ (e' :: hist)).store = e'.before.store.drop e'.tid := hdrop
        rw [hstore]
        exact hbefore

/-- **An invite admits at most once**, exactly when no request admits a member on a
reading of the invite that is out of date. -/
theorem acceptInvite_once_iff {c : AuthConfig} (h : (authMachine D).Reachable InvitesSeeded c)
    (v : Uuid) :
    (inviteRedemption v).actions c.state.hist ≤ 1 ↔
      Throughout (fun e past => ¬ (inviteRedemption v).Stale e past) c.state.hist := by
  obtain ⟨w₀, hw₀, _, hl⟩ := Contract.legal_of_reachable (M := authMachine D)
    (fun _ q s _ => meets_handle_invite (D := D) q s) h
  refine Redemption.actions_le_one_iff (fun e past hs ha => ?_) fun r past hs hc m hm => ?_
  · obtain ⟨r, hr, hc⟩ := List.any_eq_true.mp (Bool.and_eq_true_iff.mp ha).2
    exact ⟨r, (mem_of_mem_own hr).1, (mem_of_mem_own hr).2, hc⟩
  · by_contra hmarks
    have hmarks : marksInvite v m = true := by simpa [inviteRedemption] using hmarks
    obtain ⟨x, hx, hid, hnot⟩ := mem_of_checks (hl.suffix hs) hc
    rcases List.mem_cons.mp hm with rfl | hm
    · obtain ⟨hash, y, hr, _⟩ := checks_eq hc
      simp only [Reads] at hr
      simp [marksInvite, hr] at hmarks
    · obtain ⟨past', hs'⟩ := exists_past hm
      have haccepted := accepted_of_marks hw₀ (hl.suffix hs).2.2 hs' hmarks x hx hid
      rw [hnot] at haccepted
      cases haccepted

/-- An organization, and an invite to it. -/
def inviteDb : Db :=
  { sampleDb with
    users := sampleDb.users ++ [⟨.seed 4, "bob@x.io", "bob", ⟨"pw", .seed 0⟩, true, none⟩]
    invites := [⟨.seed 9, .seed 2, "bob@x.io", .member, .sha256 (.seed 10), 1000, none⟩] }

theorem inviteDb_seeded : InvitesSeeded (World.init inviteDb) := by
  refine ⟨inviteDb, rfl, by decide, fun v hv => ?_⟩
  rw [List.mem_singleton.mp hv]
  exact ⟨9, rfl⟩

/-- Bob accepts. -/
def acceptBob : Request := .acceptInvite ⟨.seed 10, .seed 4⟩

/-- Ann removes the first member Bob has become. -/
def removeBob : Request := .removeMembership ⟨.drawn 0 0, .seed 2, "owner", .seed 1⟩

/-- An accepted invite is refused after the member's removal. -/
theorem acceptInvite_once_removed :
    ∃ c : AuthConfig, runFrom sampleDeps inviteDb
        ([.spawn acceptBob, .spawn removeBob, .spawn acceptBob] ++ steps 0 9 ++ steps 1 2 ++
          steps 2 1) = some c ∧
      c.state.hist.length = 12 ∧ (inviteRedemption (.seed 9)).actions c.state.hist ≤ 1 := by
  have hrun : (runFrom sampleDeps inviteDb
      ([.spawn acceptBob, .spawn removeBob, .spawn acceptBob] ++ steps 0 9 ++ steps 1 2 ++
        steps 2 1)).map (fun c => (c.state.hist.length, decide (Throughout (fun e past =>
          ¬ (inviteRedemption (.seed 9)).Stale e past) c.state.hist))) = some (12, true) := by
    decide +kernel
  obtain ⟨c, hc, hval⟩ := Option.map_eq_some_iff.mp hrun
  obtain ⟨hlen, hno⟩ := Prod.mk.inj hval
  exact ⟨c, hc, hlen, (acceptInvite_once_iff (Machine.reachable_of_run inviteDb_seeded hc)
    (.seed 9)).mpr (of_decide_eq_true hno)⟩

/-- **A removed member is admitted again** by the invite they have accepted, when
marking it has failed. -/
theorem removed_member_readmitted :
    ∃ c ∈ runFrom sampleDeps inviteDb
        ([.spawn acceptBob, .spawn removeBob, .spawn acceptBob] ++ steps 0 8 ++
          [.step 0 ⟨.failed, 0, 0⟩] ++ steps 1 2 ++ steps 2 9),
      (inviteRedemption (.seed 9)).actions c.state.hist = 2 := by
  decide +kernel

end LakiraBackend.Auth
