import LakiraBackend.Auth.Owners
import LakiraBackend.Auth.Trust

/-!
# Who changes a member or a user

A membership changes, or goes, only in a request of an owner of its organization
(`members_changed_by_owner`), and a user's row only in a request of the user, or of one who
presents an unused token of theirs (`users_changed_by_themselves`).
-/

namespace LakiraBackend.Auth.Routes

open LakiraBackend.Concurrency

variable {D : Deps} {jwtVerify : JwtVerify} {d₀ : Db} {log past : List ServerEvent}
  {e : ServerEvent} {i : Nat}

/-! ### Rows that change -/

/-- The write may change a membership or a user there is. -/
def isChange : Write → Bool
  | .saveMembership _ _ => true
  | .deleteMembership _ => true
  | .saveUser _ => true
  | _ => false

/-- A transaction holds none of these writes. -/
def NoPendingChange (op : Op) : Prop := ∀ wr, op = .call (.write true wr) → isChange wr = false

theorem noPendingChange_of_permitted {q : HttpRequest} {op : Op} {s : AuthState}
    (h : accessPre D jwtVerify i q op s) : NoPendingChange op := by
  intro wr hop
  subst hop
  cases wr with
  | saveMembership id role => cases h.1
  | deleteMembership id => cases h.1
  | saveUser u => cases h.1
  | _ => rfl

theorem memberships_kept {wr : Write} {d : Db} {m : Membership} (h : isChange wr = false)
    (hm : m ∈ d.memberships) : m ∈ (wr.apply D d).memberships := by
  cases wr with
  | createMembership n => exact List.mem_append_left _ hm
  | saveMembership id role => cases h
  | deleteMembership id => cases h
  | _ => exact hm

theorem pending_no_change (h : AccessLegal D jwtVerify (World.init d₀) log) :
    ∀ l ∈ (worldAfter (World.init d₀) log).store.pending, isChange l.2 = false := by
  have hl : LegalHistory D (fun _ _ op _ => NoPendingChange op) _ (calls log) :=
    h.relabel sameCalls fun _ _ _ _ hpre => noPendingChange_of_permitted hpre
  have hpending := pending_of_legal (P := fun wr => isChange wr = false) (List.forall_mem_nil _)
    (fun _ _ wr _ hpre => hpre wr rfl) ?_ hl
  · rwa [calls, worldAfter_relabel] at hpending
  · rintro ⟨tx, u, ids⟩
    cases u <;> rfl

/-- **A row goes, or becomes another, by a write outside any transaction.** -/
theorem changed_by_write {α : Type} {rows : Db → List α} {x : α}
    (hrows : ∀ wr d, isChange wr = false → x ∈ rows d → x ∈ rows (wr.apply D d))
    (h : AccessLegal D jwtVerify (World.init d₀) log) (hs : (e :: past) <:+ log)
    (hx : x ∈ rows e.before.store.db) (hno : x ∉ rows e.after.store.db) :
    ∃ wr r, e.act = .call (.call (.write false wr)) r ∧ isChange wr = true ∧
      e.after.store.db = wr.apply D e.before.store.db := by
  rcases store_of_obeys (h.calls.obeys (suffix_relabel (f := forget) hs)) with
    ⟨op, r, ha, hstep⟩ | ⟨_, hdrop⟩
  · rcases hstep.db_cases with hsame | ⟨wr, rfl, _, happ⟩ | ⟨st, _, _, _, _, happ⟩ | ⟨_, hc⟩
    · exact absurd (hsame ▸ hx) hno
    · refine ⟨wr, r, ha, ?_, happ⟩
      by_contra hkeeps
      exact hno (happ ▸ hrows wr _ (by simpa using hkeeps) hx)
    · refine absurd (happ ▸ hrows st.write _ ?_ hx) hno
      obtain ⟨tx, u, ids⟩ := st
      cases u <;> rfl
    · refine absurd ?_ hno
      have hkept : x ∈ rows (e.before.store.commit (schema D) e.tid).db :=
        kept_foldl (W := fun wr => isChange wr = false) hrows (fun wr hwr => ?_) hx
      · exact hc ▸ hkept
      · have hpast : AccessLegal D jwtVerify _ past := (h.suffix hs).2.2
        exact pending_no_change hpast _ (h.before hs ▸ e.before.store.mem_pendingOf.mp hwr)
  · have hafter : e.after.store = e.before.store.drop e.tid := hdrop
    rw [hafter] at hno
    exact absurd hx hno

/-- The request acts as the membership: its token names the user and the organization, and an
earlier call of its thread saw the membership, active. -/
def ActedAs (jwtVerify : JwtVerify) (a : Membership) (e : ServerEvent) (past : List ServerEvent) :
    Prop :=
  Bears jwtVerify e.req a.userId (some a.organizationId) (deeds e.tid past) ∧ a.isActive = true ∧
    ∃ r ∈ own e.tid past, a ∈ r.before.store.db.memberships

theorem ActsAs.acted {a : Membership} {w₀ : World} (hl : AccessLegal D jwtVerify w₀ past)
    (h : ActsAs jwtVerify e.req a (deeds e.tid past)) : ActedAs jwtVerify a e past := by
  obtain ⟨r, _, _, hr, _, heval⟩ := exists_of_found hl h.membership
  exact ⟨h.token, h.active, r, hr, List.mem_of_find?_eq_some heval.symm⟩

/-- **A user's row changes only in a request of the user**, or in one that presents an unused token
of theirs. -/
theorem users_changed_by_themselves {c : ServerConfig}
    (h : (serverMachine D jwtVerify).Reachable (StartsFrom d₀) c) (hs : (e :: past) <:+ c.state.hist)
    {u : AuthUser} (hu : u ∈ e.before.store.db.users) (hno : u ∉ e.after.store.db.users) :
    (∃ a, ActedAs jwtVerify a e past ∧ a.userId = u.id) ∨
      ∃ kind rawToken, presented e.req = some (kind, rawToken) ∧ ∃ r ∈ own e.tid past,
        ∃ t ∈ r.before.store.db.tokens kind, t.tokenHash = .sha256 rawToken ∧ t.userId = u.id ∧
          t.isUsed = false := by
  obtain ⟨w₀, rfl, _, hl⟩ := accessLegal_of_reachable h
  have hpast : AccessLegal D jwtVerify _ past := (hl.suffix hs).2.2
  have hrows : ∀ (wr : Write) d, isChange wr = false → u ∈ d.users → u ∈ (wr.apply D d).users := by
    intro wr d hw hx
    cases wr with
    | createUser v => exact List.mem_append_left _ hx
    | saveUser v => cases hw
    | _ => exact hx
  obtain ⟨wr, r, ha, hchange, happ⟩ := changed_by_write hrows hl hs hu hno
  have hpre := hl.permitted hs ha
  have husers : e.after.store.db.users = wr.onUsers e.before.store.db.users :=
    congrArg Db.users happ
  cases wr with
  | saveUser u' =>
    have hid : u.id = u'.id := by
      by_contra hne
      exact hno (husers ▸ List.mem_map.mpr ⟨u, hu, if_neg hne⟩)
    rcases hpre.2 with ⟨a, hacts, huser⟩ | ⟨kind, rawToken, hq, t, huser, hused, hf⟩
    · exact .inl ⟨a, hacts.acted hpast, huser.trans hid.symm⟩
    · obtain ⟨r', _, _, hr', _, heval⟩ := exists_of_found hpast hf
      have hhash : t.tokenHash = .sha256 rawToken := by simpa using List.find?_some heval.symm
      exact .inr ⟨kind, rawToken, hq, r', hr', t, List.mem_of_find?_eq_some heval.symm, hhash,
        huser.trans hid.symm, hused⟩
  | saveMembership id role => exact absurd (husers ▸ hu) hno
  | deleteMembership id => exact absurd (husers ▸ hu) hno
  | _ => cases hchange

/-- The last call of a run changes a row. -/
def changesLast {α : Type} [DecidableEq α] (rows : Db → List α) (c : ServerConfig) : Bool :=
  c.state.hist.head?.any fun (e : ServerEvent) =>
    decide (∃ x ∈ rows e.before.store.db, x ∉ rows e.after.store.db)

theorem exists_of_changesLast {c : ServerConfig} {α : Type} [DecidableEq α] {rows : Db → List α}
    (h : changesLast rows c = true) :
    ∃ e past x, (e :: past) <:+ c.state.hist ∧ x ∈ rows e.before.store.db ∧
      x ∉ rows e.after.store.db := by
  unfold changesLast at h
  cases hhist : c.state.hist with
  | nil => simp [hhist] at h
  | cons e past =>
    rw [hhist] at h
    obtain ⟨x, hx, hno⟩ := of_decide_eq_true h
    exact ⟨e, past, x, List.suffix_refl _, hx, hno⟩

/-- Ann gives herself another name. -/
theorem users_changed_by_themselves_renamed :
    ∃ c e past u, serve sampleDeps sampleVerify twoOrganizationsDb renameAnn = some c ∧
      (e :: past) <:+ c.state.hist ∧ u ∈ e.before.store.db.users ∧ u ∉ e.after.store.db.users ∧
      ((∃ a, ActedAs sampleVerify a e past ∧ a.userId = u.id) ∨
        ∃ kind rawToken, presented e.req = some (kind, rawToken) ∧ ∃ r ∈ own e.tid past,
          ∃ t ∈ r.before.store.db.tokens kind, t.tokenHash = .sha256 rawToken ∧ t.userId = u.id ∧
            t.isUsed = false) := by
  have hrun : (serve sampleDeps sampleVerify twoOrganizationsDb renameAnn).map
      (changesLast Db.users) = some true := by
    decide +kernel
  obtain ⟨c, hc, hval⟩ := Option.map_eq_some_iff.mp hrun
  obtain ⟨e, past, u, hs, hu, hno⟩ := exists_of_changesLast hval
  exact ⟨c, e, past, u, hc, hs, hu, hno,
    users_changed_by_themselves (reachable_of_serve hc) hs hu hno⟩

/-! ### The members change by their owners -/

theorem meets_authMiddleware {K : Contract (authMachine D)} {q : Request}
    (hfree : ∀ op t, op.table = none → K.Pre i q op t) {authorization : Option String} :
    K.Meets i q (authMiddleware jwtVerify authorization) := by
  have hread : ∀ {rd : Read}, K.Meets i q (await (.read false rd)) := .await fun t => hfree _ t rfl
  unfold authMiddleware
  split
  · exact .fail
  · refine .bind (.handle (.bind (.await fun t => hfree _ t rfl) fun now => ?_) fun e => ?_)
      fun claims => ?_
    · split
      · exact .fail
      · split
        · exact .done
        · exact .fail
    · split <;> exact .fail
    · refine .bind hread fun authUser => ?_
      split
      · exact .fail
      · split
        · exact .fail
        · refine .bind hread fun membership => ?_
          split
          · exact .fail
          · split
            · exact .fail
            · exact .done

theorem meets_assertHasOrgRole {K : Contract (authMachine D)} {q : Request}
    {req : AuthenticatedRequest} {roles : List MembershipRole} :
    K.Meets i q (assertHasOrgRole req roles) := by
  unfold assertHasOrgRole
  split
  · exact .done
  · exact .fail

/-- Every route reads a membership, and counts, before it takes an owner. -/
theorem meets_respond_owner {init : World → Prop} {q : Request} {q' : HttpRequest} :
    (guard D init (ownerPre D)).Meets i q (respond D jwtVerify q') := by
  have hroute : ∀ {authorization : Option String} {f : AuthenticatedRequest → Async Reply},
      (∀ req, (guard D init (ownerPre D)).Meets i q (f req)) →
      (guard D init (ownerPre D)).Meets i q ((authMiddleware jwtVerify authorization).bind f) :=
    fun hf => .bind (meets_authMiddleware fun op t hop => ownerPre_free i q op t (by simp [hop])) hf
  have hno : ∀ {α : Type} {Ts : List Table} {p : Async α}, .memberships ∉ Ts → Uses Ts p →
      (guard D init (ownerPre D)).Meets i q p := fun hT hp =>
    meets_untouched (ownerPre_free i q) hT hp
  cases q' with
  | direct r =>
    change (guard D init (ownerPre D)).Meets i q (handle D r)
    cases r with
    | registerUser input => exact .bind meets_registerUser fun _ => .done
    | changeMemberRole input => exact .bind meets_changeMemberRole fun _ => .done
    | removeMembership input => exact .bind meets_removeMembership fun _ => .done
    | acceptInvite input => exact .bind meets_acceptInvite fun _ => .done
    | _ => exact meets_untouched (ownerPre_free i q) (by simp [Request.footprint]) (uses_handle _)
  | getProfile authorization =>
    refine hroute fun req => .bind (.bind (.await fun _ => trivial) fun user => ?_) fun _ => .done
    cases user with
    | none => exact .fail
    | some user => exact .done
  | updateProfile authorization email username password isPublicProfile =>
    exact hroute fun req => .bind (hno (by simp) (uses_updateProfile _)) fun _ => .done
  | resendVerification authorization => exact hroute fun _ => .done
  | switchOrg authorization organizationId client =>
    exact hroute fun req => .bind (hno (by simp) (uses_switchOrganization _)) fun _ => .done
  | createInvite authorization organizationId email role =>
    refine hroute fun req => .bind ?_ fun _ => .done
    unfold createInvite
    split
    · exact .fail
    · exact .bind meets_assertHasOrgRole fun _ =>
        hno (by simp) (uses_inviteUserToOrganization _)
  | acceptInvite authorization token =>
    exact hroute fun req => .bind meets_acceptInvite fun _ => .done
  | removeMembership authorization membershipId =>
    exact hroute fun req => .bind (.bind meets_assertHasOrgRole fun _ => meets_removeMembership)
      fun _ => .done
  | changeMemberRole authorization membershipId role =>
    exact hroute fun req => .bind (.bind meets_assertHasOrgRole fun _ => meets_changeMemberRole)
      fun _ => .done
  | adminPing authorization => exact hroute fun req => .bind meets_assertHasOrgRole fun _ => .done

theorem legal_calls_owner {c : ServerConfig}
    (h : (serverMachine D jwtVerify).Reachable (StartsFrom d₀) c) :
    LegalHistory D (ownerPre D) (World.init d₀) (calls c.state.hist) := by
  obtain ⟨w₀, rfl, _, hl⟩ := (Contract.legal_by_request (f := forget) (R := fun _ _ _ => True)
    sameCalls (agree_same (ownerPre D)) (fun i q t _ _ => meets_respond_owner t) h).1
  exact hl.relabel sameCalls fun _ _ _ _ hpre => hpre

/-- **A membership changes, or goes, only in a request of an owner**: one whose token names the
organization of the membership, and a user that the thread found an active owner of it. -/
theorem members_changed_by_owner (hd₀ : Founded (World.init d₀)) {c : ServerConfig}
    (h : (serverMachine D jwtVerify).Reachable (StartsFrom d₀) c) (hs : (e :: past) <:+ c.state.hist)
    {m : Membership} (hm : m ∈ e.before.store.db.memberships)
    (hno : m ∉ e.after.store.db.memberships) :
    ∃ a, ActedAs jwtVerify a e past ∧ a.organizationId = m.organizationId ∧ a.role = .owner := by
  have howner : LegalHistory D (ownerPre D) _ (e.relabel forget :: calls past) :=
    (legal_calls_owner h).suffix (suffix_relabel hs)
  obtain ⟨w₀, rfl, _, hl⟩ := accessLegal_of_reachable h
  have hpast : AccessLegal D jwtVerify _ past := (hl.suffix hs).2.2
  obtain ⟨wr, r, ha, hchange, happ⟩ :=
    changed_by_write (fun _ _ => memberships_kept) hl hs hm hno
  have hpre := hl.permitted hs ha
  have hmembers : e.after.store.db.memberships = wr.onMemberships e.before.store.db.memberships :=
    congrArg Db.memberships happ
  have hmanaged : Manages jwtVerify e.req m.id (deeds e.tid past) := by
    have hid : ∀ id, (wr = .deleteMembership id ∨ ∃ role, wr = .saveMembership id role) →
        m.id = id := by
      rintro id hw
      by_contra hne
      refine hno ?_
      rw [hmembers]
      rcases hw with rfl | ⟨role, rfl⟩
      · exact List.mem_filter.mpr ⟨hm, by simpa using hne⟩
      · exact List.mem_map.mpr ⟨m, hm, if_neg hne⟩
    cases wr with
    | saveMembership id role => exact hid id (.inr ⟨role, rfl⟩) ▸ hpre.2.2
    | deleteMembership id => exact hid id (.inl rfl) ▸ hpre.2
    | saveUser u => exact absurd (hmembers ▸ hm) hno
    | _ => cases hchange
  obtain ⟨a, hacts, hrole, target, htarget, horg, id', hf⟩ := hmanaged
  -- the membership found under the id is of the organization the row is of
  have hsame : target.organizationId = m.organizationId := by
    obtain ⟨r', hr', hact⟩ := List.mem_map.mp hf
    have hread : ReadsMembership target (r'.relabel forget) := ⟨id', hact⟩
    refine organization_eq hd₀ howner.2.2 (List.mem_map_of_mem (mem_of_mem_own hr').1) hread ?_
      htarget
    rw [← howner.1]
    exact hm
  exact ⟨a, hacts.acted hpast, horg.symm.trans hsame, hrole⟩

/-- Ann makes Bob, who owns the organization with her, a member. -/
theorem members_changed_by_owner_demoted :
    ∃ c e past m, serve sampleDeps sampleVerify twoOwnersDb demoteBob = some c ∧
      (e :: past) <:+ c.state.hist ∧ m ∈ e.before.store.db.memberships ∧
      m ∉ e.after.store.db.memberships ∧
      ∃ a, ActedAs sampleVerify a e past ∧ a.organizationId = m.organizationId ∧
        a.role = .owner := by
  have hrun : (serve sampleDeps sampleVerify twoOwnersDb demoteBob).map
      (changesLast Db.memberships) = some true := by
    decide +kernel
  obtain ⟨c, hc, hval⟩ := Option.map_eq_some_iff.mp hrun
  obtain ⟨e, past, m, hs, hm, hno⟩ := exists_of_changesLast hval
  exact ⟨c, e, past, m, hc, hs, hm, hno,
    members_changed_by_owner twoOwnersDb_founded (reachable_of_serve hc) hs hm hno⟩

end LakiraBackend.Auth.Routes
