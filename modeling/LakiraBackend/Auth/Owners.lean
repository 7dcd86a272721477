import LakiraBackend.Auth.Guards

/-!
# The owners of an organization

`ChangeMemberRole` and `RemoveMembership` count the owners before they take one,
and write in another statement: two of them that count before either writes can
take the last two owners (`lastOwners_demoted`).

When the owners do not change between a request's count, or its reading of a
membership that is not an owner's, and its write, an organization that has an
owner keeps one (`organization_keeps_owner`).
-/

namespace LakiraBackend.Auth

open LakiraBackend.Concurrency

/-- The active owner memberships of an organization. -/
def owners (org : Uuid) (w : World) : List Membership :=
  w.store.db.memberships.filter fun m => m.organizationId = org && m.role = .owner && m.isActive

/-- The event takes an owner from the organization. -/
def TakesOwner (org : Uuid) (e : AuthEvent) : Prop :=
  ∃ m ∈ owners org e.before, m ∉ owners org e.after

/-- The event takes an owner, and the owners have changed since the call before it of
the same request. -/
def Races (org : Uuid) (e : AuthEvent) (past : List AuthEvent) : Prop :=
  TakesOwner org e ∧ ∃ e' ∈ past.takeWhile fun e' => e'.tid ≠ e.tid,
    owners org e'.after ≠ owners org e'.before

instance (org : Uuid) (e : AuthEvent) (past : List AuthEvent) : Decidable (Races org e past) :=
  inferInstanceAs (Decidable ((∃ _ ∈ _, _) ∧ _))

/-! ### What the use cases have read when they write -/

/-- The event read a membership. -/
def ReadsMembership (m : Membership) (e : AuthEvent) : Prop :=
  ∃ id, Reads (.findMembershipById id) (some m) e

/-- What a request has done last that takes a membership: it counted two owners at
least, or the membership it read is not an owner's. -/
def MembershipGuard (id : Uuid) : List AuthEvent → Prop
  | [] => False
  | r :: rest =>
    (∃ m, ReadsMembership m r ∧ m.id = id ∧ m.isOwner = false) ∨
    ∃ n, 2 ≤ n ∧ ∃ r' ∈ rest, ∃ m, ReadsMembership m r' ∧ m.id = id ∧
      Reads (.countByOrgAndRole m.organizationId .owner) n r

/-- The memberships, by their ids; a membership stays in its organization. -/
def membershipNames (D : Deps) : RandomNaming D Uuid where
  names := fun d => d.memberships.map fun m => (m.id, m.organizationId)
  gives := fun wr => match wr with
    | .createMembership m => some (m.id, m.organizationId)
    | _ => none
  names_of_gives := by
    intro wr n d h
    cases wr with
    | createMembership m =>
      cases h
      exact List.map_append
    | _ => cases h
  names_of_keeps := by
    intro wr d h
    cases wr with
    | createMembership m => cases h
    | saveMembership id role =>
      have hsame : (d.memberships.map fun m => if m.id = id then m.changeRole role else m).map
          (fun m => (m.id, m.organizationId)) =
            d.memberships.map fun m => (m.id, m.organizationId) := by
        refine List.map_map.trans (List.map_congr_left fun m _ => ?_)
        by_cases hm : m.id = id <;> simp [hm, Membership.changeRole]
      exact hsame ▸ List.Sublist.refl _
    | deleteMembership id => exact List.filter_sublist.map _
    | _ => exact List.Sublist.refl _
  updates_keep := by
    rintro ⟨tx, u, ids⟩
    cases u <;> rfl

/-- A membership is created under a new id, or it is changed by a request that has
read it and counted. -/
def ownerPre (D : Deps) : Precondition := fun i _ op s => match op with
  | .call (.write tx wr) => wr.table = .memberships →
      (∃ m, wr = .createMembership m ∧ NewName (membershipNames D) i m.id s) ∨
      (tx = false ∧ ∃ id, (wr = .deleteMembership id ∨ ∃ role, wr = .saveMembership id role) ∧
        MembershipGuard id (own i s.hist))
  | _ => True

variable {D : Deps} {init : World → Prop} {i : Nat} {q : Request} {s : AuthState} {w₀ : World}
  {hist past : List AuthEvent} {e : AuthEvent} {org : Uuid}

theorem ownerPre_free (i : Nat) (q : Request) (op : Op) (s : AuthState)
    (h : op.table ≠ some .memberships) : ownerPre D i q op s := by
  cases op with
  | call c =>
    cases c with
    | write tx wr => exact fun ht => absurd (congrArg some ht) h
    | _ => trivial
  | _ => trivial

theorem ownerPre_new : AsksNew (membershipNames D) (ownerPre D) := by
  intro i q tx wr n s hn hpre
  cases wr with
  | createMembership m =>
    cases hn
    rcases hpre rfl with ⟨m', hm, hnew⟩ | ⟨_, id, h | ⟨role, h⟩, _⟩
    · cases hm
      exact hnew
    · cases h
    · cases h
  | _ => cases hn

/-! ### The use cases meet the contract -/

theorem wp_requireAnotherOwner {m : Membership} {org : Uuid} {message : String}
    {r : AuthEvent} {rest : List AuthEvent} (hown : own i s.hist = r :: rest)
    (hr : ReadsMembership m r) (horg : m.organizationId = org) :
    (guard D init (ownerPre D)).wp i q (requireAnotherOwner m org message)
      (fun _ t => MembershipGuard m.id (own i t.hist)) (fun _ _ => True) s := by
  subst horg
  unfold requireAnotherOwner
  split
  · refine Contract.wp_bind.mpr (Contract.wp_mono (fun n t ht => ?_) (fun _ _ _ => trivial)
      (Contract.wp_call hown fun _ _ _ => trivial))
    obtain ⟨w, w', ht⟩ := ht
    split
    · trivial
    · rename_i hn
      change MembershipGuard m.id (own i t.hist)
      rw [ht]
      exact .inr ⟨n, by omega, r, List.mem_cons_self, m, hr, rfl, rfl⟩
  · rename_i howner
    change MembershipGuard m.id (own i s.hist)
    rw [hown]
    exact .inl ⟨m, hr, rfl, by simpa using howner⟩

/-- A write of a membership that the request has read and counted. -/
theorem wp_writeMembership {id : Uuid} {wr : Write}
    (hw : wr = .deleteMembership id ∨ ∃ role, wr = .saveMembership id role)
    (h : MembershipGuard id (own i s.hist)) :
    (guard D init (ownerPre D)).wp i q (await (.write false wr)) (fun _ _ => True)
      (fun _ _ => True) s :=
  wp_keep_true (Contract.stable_own (MembershipGuard id)) h
    fun _ _ hg _ => .inr ⟨rfl, id, hw, hg⟩

theorem meets_changeMemberRole {input : ChangeMemberRoleInput} :
    (guard D init (ownerPre D)).Meets i q (changeMemberRole input) := by
  unfold changeMemberRole
  split
  · exact .fail
  · refine fun s => Contract.wp_seq (Contract.wp_call rfl fun _ _ _ => trivial)
      (fun _ _ _ => trivial) fun a t ⟨w, w', hown⟩ => ?_
    split
    · trivial
    · split
      · trivial
      · rename_i m horg
        split
        · trivial
        · refine Contract.wp_seq (wp_requireAnotherOwner hown ⟨_, rfl⟩ (by simpa using horg))
            (fun _ _ h => h) fun _ t ht => Contract.wp_bind.mpr ?_
          exact Contract.wp_seq (wp_writeMembership (.inr ⟨_, rfl⟩) ht) (fun _ _ h => h)
            fun _ _ _ => trivial

theorem meets_removeMembership {input : RemoveMembershipInput} :
    (guard D init (ownerPre D)).Meets i q (removeMembership input) := by
  unfold removeMembership
  split
  · exact .fail
  · refine fun s => Contract.wp_seq (Contract.wp_call rfl fun _ _ _ => trivial)
      (fun _ _ _ => trivial) fun a t ⟨w, w', hown⟩ => ?_
    split
    · trivial
    · split
      · trivial
      · rename_i m horg
        split
        · trivial
        · exact Contract.wp_seq (wp_requireAnotherOwner hown ⟨_, rfl⟩ (by simpa using horg))
            (fun _ _ h => h) fun _ t ht => wp_writeMembership (.inl rfl) ht

/-- A membership is created under the id that was drawn for it. -/
theorem meets_createMembership {userId org : Uuid} {role : MembershipRole}
    {status : Option MembershipStatus} {tx : Bool} :
    (guard D init (ownerPre D)).Meets i q
      (MembershipRepository.create userId org role status tx) := by
  refine fun s => Contract.wp_seq (wp_drawName ownerPre_new (fun _ => trivial)
    (Contract.Stable.true i) trivial fun _ _ _ _ => trivial) (fun _ _ h => h) fun id t ht => ?_
  refine Contract.wp_seq (wp_keep (stable_newName ownerPre_new) ht.2 (fun _ _ _ => trivial)
    fun t inp r w _ hn he => hn.push (exec_draws he) fun n hg => ?_) (fun _ _ _ => trivial)
    fun now t ht => ?_
  · exact absurd hg (not_gives_of_op fun _ _ h => nomatch h)
  · have hwrite : ∀ {m : Membership}, m.id = id → (guard D init (ownerPre D)).wp i q
        (await (.write tx (.createMembership m))) (fun _ _ => True) (fun _ _ => True) t := by
      rintro m rfl
      exact wp_keep_true (stable_newName ownerPre_new) ht fun _ _ hn _ => .inl ⟨_, rfl, hn⟩
    exact Contract.wp_seq (hwrite rfl) (fun _ _ h => h) fun _ _ _ => trivial

theorem meets_acceptInvite {input : AcceptInviteInput} :
    (guard D init (ownerPre D)).Meets i q (acceptInvite D input) := by
  have hno : ∀ {α : Type} {p : Async α}, Uses [.invites] p → (guard D init (ownerPre D)).Meets i q p :=
    meets_untouched (ownerPre_free i q) (by simp)
  have hmark : ∀ id : Uuid, (guard D init (ownerPre D)).Meets i q
      (newDate.bind fun now => OrganizationInviteRepository.markAccepted id now) :=
    fun id => hno (.bind uses_newDate fun _ => uses_write (by simp [Write.table]))
  unfold acceptInvite
  refine .bind (hno uses_read) fun v => ?_
  split
  · exact .fail
  · split
    · exact .fail
    · refine .bind (hno uses_newDate) fun now => ?_
      split
      · exact .fail
      · refine .bind (hno uses_read) fun u => ?_
        split
        · exact .fail
        · split
          · exact .fail
          · refine .bind (hno uses_read) fun m => ?_
            split
            · exact hmark _
            · exact .bind meets_createMembership fun _ => hmark _

theorem meets_registerUser {input : RegisterInput} :
    (guard D init (ownerPre D)).Meets i q (registerUser D input) := by
  have hno : ∀ {α : Type} {p : Async α}, Uses [.users, .organizations, .refreshTokens] p →
      (guard D init (ownerPre D)).Meets i q p := meets_untouched (ownerPre_free i q) (by simp)
  unfold registerUser
  split
  · exact .fail
  · refine .bind (hno uses_read) fun b => ?_
    split
    · exact .fail
    · refine .bind (hno uses_read) fun b => ?_
      split
      · exact .fail
      · refine .bind (hno uses_hash) fun h => .bind (meets_runInTransaction
          (fun op t hop => ownerPre_free i q op t (by simp [hop])) ?_) fun _ =>
          .bind (hno uses_sign) fun _ => .done
        exact .bind (hno (uses_createUser (by simp))) fun _ =>
          .bind (hno (uses_createOrganization (by simp))) fun _ =>
            .bind meets_createMembership fun _ =>
              .bind (hno (uses_issueRefreshToken (by simp))) fun _ => .done

theorem meets_handle_owner (q : Request) : (guard D init (ownerPre D)).Meets i q (handle D q) := by
  cases q with
  | registerUser input => exact .bind meets_registerUser fun _ => .done
  | changeMemberRole input => exact .bind meets_changeMemberRole fun _ => .done
  | removeMembership input => exact .bind meets_removeMembership fun _ => .done
  | acceptInvite input => exact .bind meets_acceptInvite fun _ => .done
  | _ => exact meets_untouched (ownerPre_free i _) (by simp [Request.footprint]) (uses_handle _)

/-! ### What a write does to the owners -/

/-- Where every organization has its owners, and nothing is under way. -/
def Founded (w : World) : Prop :=
  ∃ d : Db, w = World.init d ∧ (d.memberships.map fun m => m.id).Nodup ∧
    ∀ m ∈ d.memberships, ∃ k, m.id = .seed k

theorem seeded_of_founded {w : World} (h : Founded w) : Seeded (membershipNames D) w := by
  obtain ⟨d, rfl, hnd, hseed⟩ := h
  have hids : ((membershipNames D).names d).map Prod.fst = d.memberships.map fun m => m.id :=
    List.map_map
  refine seeded_of_init (hids ▸ hnd) fun n hn => ?_
  obtain ⟨m, hm, rfl⟩ := List.mem_map.mp hn
  exact hseed m hm

/-- A membership is named by its id, and its organization goes with it. -/
theorem known_of_mem {w : World} {m : Membership} (h : m ∈ w.store.db.memberships) :
    (membershipNames D).Known w.store (m.id, m.organizationId) :=
  .inl (List.mem_map_of_mem h)

theorem mem_owners {w : World} {m : Membership} :
    m ∈ owners org w ↔ m ∈ w.store.db.memberships ∧ m.organizationId = org ∧ m.role = .owner ∧
      m.isActive = true := by
  simp [owners, and_assoc]

/-- A write of one membership leaves the others their owners. -/
theorem mem_owners_of_ne {w w' : World} {wr : Write} {id : Uuid}
    (hw : wr = .deleteMembership id ∨ ∃ role, wr = .saveMembership id role)
    (h : w'.store.db.memberships = wr.onMemberships w.store.db.memberships) {m : Membership}
    (hm : m ∈ owners org w) (hne : m.id ≠ id) : m ∈ owners org w' := by
  obtain ⟨hmem, hrest⟩ := mem_owners.mp hm
  refine mem_owners.mpr ⟨?_, hrest⟩
  rw [h]
  rcases hw with rfl | ⟨role, rfl⟩
  · exact List.mem_filter.mpr ⟨hmem, by simpa using hne⟩
  · exact List.mem_map.mpr ⟨m, hmem, if_neg hne⟩

/-- The memberships a transaction creates are added to those there are. -/
theorem memberships_foldl {ws : List Write} (hws : ∀ wr ∈ ws, wr.table = .memberships →
    ∃ m, wr = .createMembership m) (d : Db) :
    d.memberships ⊆ (ws.foldl (fun d wr => (schema D).apply wr d) d).memberships := by
  induction ws generalizing d with
  | nil => exact fun _ h => h
  | cons wr ws ih =>
    intro m hm
    refine ih (fun wr' h => hws wr' (List.mem_cons_of_mem _ h)) _ ?_
    change m ∈ wr.onMemberships d.memberships
    by_cases ht : wr.table = .memberships
    · obtain ⟨m', rfl⟩ := hws wr List.mem_cons_self ht
      exact List.mem_append_left _ hm
    · rw [Write.onMemberships_of_table ht]
      exact hm

/-- **An owner is taken by one write of their membership**, which was guarded. -/
theorem guard_of_takesOwner (hw₀ : Founded w₀) (h : LegalHistory D (ownerPre D) w₀ (e :: past))
    {m : Membership} (hm : m ∈ owners org e.before) (hno : m ∉ owners org e.after) :
    MembershipGuard m.id (own e.tid past) ∧
      ∀ m' ∈ owners org e.before, m'.id ≠ m.id → m' ∈ owners org e.after := by
  have hkept : e.after.store.db.memberships ⊇ e.before.store.db.memberships → False := by
    intro hsub
    obtain ⟨hmem, hrest⟩ := mem_owners.mp hm
    exact hno (mem_owners.mpr ⟨hsub hmem, hrest⟩)
  rcases store_of_obeys h.2.1 with ⟨op, r, ha, hstep⟩ | ⟨_, hdrop⟩
  · rcases hstep.db_cases with hdb | ⟨wr, rfl, _, hdb⟩ | ⟨st, rfl, _, _, _, hdb⟩ | ⟨rfl, hs⟩
    · exact (hkept (by rw [hdb]; exact fun _ h => h)).elim
    · have hms : e.after.store.db.memberships = wr.onMemberships e.before.store.db.memberships :=
        congrArg Db.memberships hdb
      by_cases ht : wr.table = .memberships
      · rcases h.2.1.pre ha ht with ⟨m', rfl, _⟩ | ⟨_, id, hw, hg⟩
        · exact (hkept (by rw [hms]; exact fun _ h => List.mem_append_left _ h)).elim
        · have hid : m.id = id := by
            by_contra hne
            exact hno (mem_owners_of_ne hw hms hm hne)
          subst hid
          exact ⟨hg, fun m' hm' hne => mem_owners_of_ne hw hms hm' hne⟩
      · exact (hkept (by rw [hms, Write.onMemberships_of_table ht]; exact fun _ h => h)).elim
    · have hms : e.after.store.db.memberships = st.write.onMemberships e.before.store.db.memberships :=
        congrArg Db.memberships hdb
      have ht : st.write.table ≠ .memberships := by
        rw [statement_write_table]
        cases st.update <;> simp [Update.table]
      exact (hkept (by rw [hms, Write.onMemberships_of_table ht]; exact fun _ h => h)).elim
    · refine (hkept ?_).elim
      rw [hs]
      refine memberships_foldl (fun wr hwr ht => ?_) _
      -- a transaction only creates memberships
      have hpend := pending_of_legal (P := fun wr => wr.table = .memberships →
          ∃ m, wr = .createMembership m) ?_ ?_ ?_ h.2.2
      · exact hpend _ (h.1 ▸ e.before.store.mem_pendingOf.mp hwr) ht
      · obtain ⟨d, rfl, _⟩ := hw₀
        intro l hl
        cases hl
      · rintro i q wr s hpre ht
        rcases hpre ht with ⟨m', hm', _⟩ | ⟨hf, _⟩
        · exact ⟨m', hm'⟩
        · cases hf
      · intro st ht
        rw [statement_write_table] at ht
        cases hu : st.update <;> rw [hu] at ht <;> cases ht
  · exact (hkept (by rw [hdrop]; exact fun _ h => h)).elim

/-! ### Every run -/

theorem exists_other {α β : Type} {f : α → β} {l : List α} (hnd : (l.map f).Nodup)
    (h : 2 ≤ l.length) (x : β) : ∃ a ∈ l, f a ≠ x := by
  match l, h with
  | a :: b :: rest, _ =>
    by_cases ha : f a = x
    · refine ⟨b, by simp, fun hb => ?_⟩
      rw [List.map_cons, List.map_cons, ha, hb] at hnd
      simp at hnd
    · exact ⟨a, by simp, ha⟩

theorem ids_nodup (hw₀ : Founded w₀) (h : LegalHistory D (ownerPre D) w₀ hist) :
    ((worldAfter w₀ hist).store.db.memberships.map fun m => m.id).Nodup := by
  have hd := (distinct_of_legal ownerPre_new (seeded_of_founded hw₀) h).committed
  have hids : ((membershipNames D).names (worldAfter w₀ hist).store.db).map Prod.fst =
      (worldAfter w₀ hist).store.db.memberships.map fun m => m.id := List.map_map
  rwa [hids] at hd

/-- A membership never moves to another organization. -/
theorem organization_eq (hw₀ : Founded w₀) (h : LegalHistory D (ownerPre D) w₀ hist)
    {r : AuthEvent} (hr : r ∈ hist) {m m' : Membership} (hread : ReadsMembership m r)
    (hm' : m' ∈ (worldAfter w₀ hist).store.db.memberships) (hid : m.id = m'.id) :
    m.organizationId = m'.organizationId := by
  obtain ⟨past, hs⟩ := exists_past hr
  obtain ⟨id, hread⟩ := hread
  have hm : m ∈ r.before.store.db.memberships :=
    List.mem_of_find?_eq_some (hread.eval (h.obeys hs)).1.symm
  have hnamed : Named (membershipNames D) w₀ hist (m.id, m.organizationId) := by
    refine (named_of_known (h.suffix hs).2.2 ?_).mono ((List.suffix_cons r past).trans hs)
    exact known_of_mem (h.before hs ▸ hm)
  have hstart : ∀ n n', (membershipNames D).Known w₀.store n → (membershipNames D).Known w₀.store n' →
      n.1 = n'.1 → n = n' := by
    have hnd := (seeded_of_founded (D := D) hw₀).1.committed
    obtain ⟨d, rfl, _⟩ := hw₀
    rintro n n' (hn | ⟨_, hn, _⟩) (hn' | ⟨_, hn', _⟩) hnn
    · exact List.inj_on_of_nodup_map hnd hn hn' hnn
    · cases hn'
    · cases hn
    · cases hn
  have heq := hnamed.unique ownerPre_new (seeded_of_founded hw₀) h
    (named_of_known h (known_of_mem hm')) hid hstart
  exact (Prod.mk.inj heq).2

/-- **Unless it races, a step leaves an owner.** -/
theorem owners_step (hw₀ : Founded w₀) (h : LegalHistory D (ownerPre D) w₀ (e :: past))
    (hno : ¬ Races org e past) (hne : owners org e.before ≠ []) : owners org e.after ≠ [] := by
  intro hempty
  obtain ⟨m, hm⟩ := List.exists_mem_of_ne_nil _ hne
  have htaken : m ∉ owners org e.after := by rw [hempty]; exact List.not_mem_nil
  obtain ⟨hg, hothers⟩ := guard_of_takesOwner hw₀ h hm htaken
  -- the owners are as they were when the request made its last call
  have hown : ∃ r rest, own e.tid past = r :: rest := by
    cases hl : own e.tid past with
    | nil => rw [hl] at hg; exact hg.elim
    | cons r rest => exact ⟨r, rest, rfl⟩
  obtain ⟨r, rest, hrest⟩ := hown
  rw [hrest] at hg
  obtain ⟨since, past', rfl, htake, hpast'⟩ := exists_since hrest
  have hsame : owners org e.before = owners org r.after := by
    rw [h.1]
    refine h.2.2.unchanged (f := owners org) fun e' he' => ?_
    by_contra hch
    rw [← htake] at he'
    exact hno ⟨⟨m, hm, htaken⟩, e', he', hch⟩
  have hsuffix : (r :: past') <:+ since ++ r :: past' := List.suffix_append _ _
  have hlr := h.2.2.suffix hsuffix
  have hall : ∀ m' ∈ owners org r.after, m'.id = m.id := by
    intro m' hm'
    by_contra hne'
    have := hothers m' (hsame ▸ hm') hne'
    rw [hempty] at this
    cases this
  have hnd : (r.after.store.db.memberships.map fun m => m.id).Nodup := ids_nodup hw₀ hlr
  rcases hg with ⟨m₀, ⟨id, hread⟩, hid, hnot⟩ | ⟨n, hn, r', hr', m₀, hread, hid, hcount⟩
  · -- the membership that was read is the owner's that is taken
    obtain ⟨heval, hafter⟩ := hread.eval hlr.2.1
    have hm₀ : m₀ ∈ r.after.store.db.memberships := by
      rw [hafter]
      exact List.mem_of_find?_eq_some heval.symm
    obtain ⟨hmem, _, hrole, _⟩ := mem_owners.mp (hsame ▸ hm)
    obtain rfl := List.inj_on_of_nodup_map hnd hm₀ hmem hid
    simp [Membership.isOwner, hrole] at hnot
  · -- at least two owners were counted, and they have different ids
    have hr'mem : r' ∈ since ++ r :: past' := by
      have := (mem_of_mem_own (hpast' ▸ hr')).1
      exact List.mem_append_right _ (List.mem_cons_of_mem _ this)
    obtain ⟨hmem, horg, _⟩ := mem_owners.mp hm
    have horg₀ : m₀.organizationId = org :=
      (organization_eq hw₀ h.2.2 hr'mem hread (h.1 ▸ hmem) hid).trans horg
    obtain ⟨heval, hafter⟩ := hcount.eval hlr.2.1
    have hlen : 2 ≤ (owners org r.after).length := by
      rw [heval, Read.eval, List.countP_eq_length_filter, horg₀, ← hafter] at hn
      exact hn
    obtain ⟨m', hm', hne'⟩ := exists_other
      (hnd.sublist (List.filter_sublist.map fun m => m.id)) hlen m.id
    exact hne' (hall m' hm')

/-- **The last owner.**  In a run in which no request takes an owner after the owners
have changed behind its back, an organization that has an owner keeps one. -/
theorem organization_keeps_owner {c : AuthConfig} (h : (authMachine D).Reachable Founded c)
    (hno : Throughout (fun e past => ¬ Races org e past) c.state.hist) :
    ∀ e ∈ c.state.hist, owners org e.before ≠ [] → owners org c.state.world ≠ [] := by
  obtain ⟨w₀, hw₀, hworld, hl⟩ :=
    Contract.legal_of_reachable (M := authMachine D) (fun _ q s _ => meets_handle_owner (D := D) q s) h
  rw [hworld]
  generalize c.state.hist = hist at hno hl
  induction hist with
  | nil => intro e he; cases he
  | cons e past ih =>
    intro e' he' hne
    have hbefore : owners org e.before ≠ [] := by
      rcases List.mem_cons.mp he' with rfl | he'
      · exact hne
      · rw [hl.1]
        exact ih hno.2 hl.2.2 e' he' hne
    exact owners_step hw₀ hl hno.1 hbefore

/-- An organization with two owners. -/
def twoOwnersDb : Db :=
  { sampleDb with
    users := sampleDb.users ++ [⟨.seed 4, "bob@x.io", "bob", ⟨"pw", .seed 0⟩, true, none⟩]
    memberships := sampleDb.memberships ++ [⟨.seed 5, .seed 4, .seed 2, .owner, .active, 0⟩] }

theorem twoOwnersDb_founded : Founded (World.init twoOwnersDb) := by
  refine ⟨twoOwnersDb, rfl, by decide, fun m hm => ?_⟩
  simp only [twoOwnersDb, sampleDb, List.mem_append, List.mem_singleton] at hm
  rcases hm with rfl | rfl <;> exact ⟨_, rfl⟩

/-- Ann demotes Bob. -/
def demoteBob : Request := .changeMemberRole ⟨.seed 5, .seed 2, .member, "owner"⟩

/-- Bob demotes Ann. -/
def demoteAnn : Request := .changeMemberRole ⟨.seed 3, .seed 2, .member, "owner"⟩

/-- One after the other. -/
theorem organization_keeps_owner_demotions :
    ∃ c : AuthConfig, runFrom sampleDeps twoOwnersDb
        ([.spawn demoteBob, .spawn demoteAnn] ++ steps 0 3 ++ steps 1 2) = some c ∧
      c.state.hist.length = 5 ∧ owners (.seed 2) c.state.world ≠ [] := by
  have hrun : (runFrom sampleDeps twoOwnersDb
      ([.spawn demoteBob, .spawn demoteAnn] ++ steps 0 3 ++ steps 1 2)).map (fun c =>
        (c.state.hist.length, decide (Throughout (fun e past => ¬ Races (.seed 2) e past) c.state.hist),
          decide (∃ e ∈ c.state.hist, owners (.seed 2) e.before ≠ []))) = some (5, true, true) := by
    decide +kernel
  obtain ⟨c, hc, hval⟩ := Option.map_eq_some_iff.mp hrun
  obtain ⟨hlen, hval⟩ := Prod.mk.inj hval
  obtain ⟨hno, hex⟩ := Prod.mk.inj hval
  obtain ⟨e, he, hne⟩ := of_decide_eq_true hex
  exact ⟨c, hc, hlen, organization_keeps_owner (Machine.reachable_of_run twoOwnersDb_founded hc)
    (of_decide_eq_true hno) e he hne⟩

/-- **Two owners who demote each other at once leave none.** -/
theorem lastOwners_demoted :
    owners (.seed 2) (World.init twoOwnersDb) ≠ [] ∧
      ∃ c ∈ runFrom sampleDeps twoOwnersDb
        ([.spawn demoteBob, .spawn demoteAnn] ++ steps 0 2 ++ steps 1 2 ++ steps 0 1 ++ steps 1 1),
      owners (.seed 2) c.state.world = [] := by
  decide +kernel

end LakiraBackend.Auth
