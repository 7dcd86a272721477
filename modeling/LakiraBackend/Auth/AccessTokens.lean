import LakiraBackend.Auth.RowChanges

/-!
# Who is given an access token

An access token names a user and an organization, and lets its bearer act there.  The server gives
one to a request only after that has shown to be the user's, by a password, a refresh token, a
bearer token or a registration, and after the committed data had the user as an active member of
the organization, whom somebody had let in (`tokens_earned`).
-/

namespace LakiraBackend.Auth.Routes

open LakiraBackend.Concurrency

/-- The payload of the access token in a reply. -/
def granted : Reply → Option TokenPayload
  | .login r => some r.token
  | .session s => some s.accessToken
  | _ => none

section

variable (D : Deps) (jwtVerify : JwtVerify) (q : HttpRequest)

/-- How a thread that answers `q`, and has done `l`, knows that the request is the user's. -/
inductive Authenticated (userId : Uuid) (l : List Deed) : Prop
  | password {input : LoginInput} {u : AuthUser} (hq : q = .direct (.loginUser input))
      (huser : u.id = userId) (hpassword : u.passwordHash.password = input.password)
      (hfound : found (.findUserByEmail (D.toLowerCase (D.trim input.email))) (some u) ∈ l)
  | refreshToken {input : RotateRefreshTokenInput} {t : RefreshToken} {now : Time}
      (hq : q = .direct (.rotateRefreshToken input)) (huser : t.userId = userId)
      (hlocked : Act.call (.call (.findRefreshTokenForUpdate (.sha256 input.rawToken)))
        (.ok (some t)) ∈ l)
      (hrevoked : t.isRevoked = false) (hnow : Act.call .now (.ok now) ∈ l)
      (hexpired : t.isExpired now = false)
  | bearer {a : Membership} (hacts : ActsAs jwtVerify q a l) (huser : a.userId = userId)
  | registration {input : RegisterInput} {u : AuthUser} (hq : q = .direct (.registerUser input))
      (huser : u.id = userId) (hmade : Made (.createUser u) l)

/-- It has found an active membership of the user in the organization. -/
def FoundSeat (userId org : Uuid) (l : List Deed) : Prop :=
  ∃ m : Membership, m.userId = userId ∧ m.organizationId = org ∧ m.isActive = true ∧
    (found (.findMembershipByUserAndOrg userId org) (some m) ∈ l ∨
      found (.findDefaultMembershipByUser userId) (some m) ∈ l)

/-- It has committed a transaction that makes the user an active member. -/
def MadeSeat {Req : Type} (userId org : Uuid) (l : List (Event Op Op.Answer Err World Req)) :
    Prop :=
  ∃ e ∈ l, e.act = .call (.call .commit) (.ok ()) ∧ ∃ m : Membership,
    (e.tid, .createMembership m) ∈ e.before.store.pending ∧ m.userId = userId ∧
      m.organizationId = org ∧ m.isActive = true

/-- What a thread has done for a token of the payload. -/
def Grants (p : TokenPayload) (l : List AuthEvent) : Prop :=
  Authenticated D jwtVerify q p.id (l.map (·.act)) ∧
    (FoundSeat p.id p.organizationId (l.map (·.act)) ∨ MadeSeat p.id p.organizationId l)

end

variable {D : Deps} {jwtVerify : JwtVerify} {init : World → Prop} {i : Nat} {q : HttpRequest}
  {r₀ : Request} {s : AuthState} {α : Type} {userId org : Uuid} {fs : List Deed}

theorem Authenticated.cons {l : List Deed} (a : Deed) (h : Authenticated D jwtVerify q userId l) :
    Authenticated D jwtVerify q userId (a :: l) := by
  cases h with
  | password hq huser hpassword hfound =>
    exact .password hq huser hpassword (List.mem_cons_of_mem a hfound)
  | refreshToken hq huser hlocked hrevoked hnow hexpired =>
    exact .refreshToken hq huser (List.mem_cons_of_mem a hlocked) hrevoked
      (List.mem_cons_of_mem a hnow) hexpired
  | bearer hacts huser => exact .bearer (hacts.cons a l) huser
  | registration hq huser hmade => exact .registration hq huser (hmade.cons a l)

theorem MadeSeat.cons (e : AuthEvent) (l : List AuthEvent) (h : MadeSeat userId org l) :
    MadeSeat userId org (e :: l) :=
  h.imp fun _ he => ⟨List.mem_cons_of_mem e he.1, he.2⟩

theorem Grants.cons {p : TokenPayload} {l : List AuthEvent} (e : AuthEvent)
    (h : Grants D jwtVerify q p l) : Grants D jwtVerify q p (e :: l) := by
  refine ⟨h.1.cons e.act, h.2.imp ?_ ?_⟩
  · rintro ⟨m, huser, horg, hactive, hf⟩
    exact ⟨m, huser, horg, hactive,
      hf.imp (List.mem_cons_of_mem e.act) (List.mem_cons_of_mem e.act)⟩
  · exact fun hmade => hmade.cons e l

/-! ### Calls -/

/-- The contract that asks nothing of a call. -/
abbrev anyCalls (D : Deps) (init : World → Prop) (i : Nat) (q : HttpRequest) :
    Contract (authMachine D) :=
  guard D init (heldTo (fun _ _ _ _ => True) i q)

theorem letsAsk_any : LetsAsk fun _ _ _ _ => True := fun _ _ _ => ⟨trivial, fun _ => trivial⟩

theorem meets_any {p : Async α} : (anyCalls D init i q).Meets i r₀ p :=
  Contract.Meets.free (fun _ _ _ => trivial) p

/-- What a thread has done it has done, whatever else is known at the end. -/
theorem wp_withOwn {p : Async α} {Q : α → AuthState → Prop} {P : List AuthEvent → Prop}
    (hP : ∀ e l, P l → P (e :: l)) (hs : P (own i s.hist))
    (hp : (anyCalls D init i q).wp i r₀ p Q (fun _ _ => True) s) :
    (anyCalls D init i q).wp i r₀ p (fun a t => Q a t ∧ P (own i t.hist)) (fun _ _ => True) s := by
  refine Contract.wp_mono (fun _ _ h => h) (fun _ _ _ => trivial)
    (Contract.wp_frame (Contract.stable_own P) (fun op t inp r w ht _ => ?_) hp hs)
  rw [own_push]
  exact hP _ _ ht

theorem wp_withDeeds {p : Async α} {Q : α → AuthState → Prop} {P : List Deed → Prop}
    (hP : ∀ a l, P l → P (a :: l)) (hs : P (deeds i s.hist))
    (hp : (anyCalls D init i q).wp i r₀ p Q (fun _ _ => True) s) :
    (anyCalls D init i q).wp i r₀ p (fun a t => Q a t ∧ P (deeds i t.hist)) (fun _ _ => True) s :=
  wp_withOwn (P := fun l => P (l.map fun e : AuthEvent => e.act)) (fun e _ h => hP e.act _ h) hs hp

theorem wp_remembers {p : Async α} (hs : fs ⊆ deeds i s.hist) :
    (anyCalls D init i q).wp i r₀ p (fun _ t => fs ⊆ deeds i t.hist) (fun _ _ => True) s :=
  Contract.wp_mono (fun _ _ h => h.2) (fun _ _ _ => trivial)
    (wp_withDeeds (P := fun l => fs ⊆ l) (fun _ _ h => List.subset_cons_of_subset _ h) hs
      (meets_any s))

theorem wp_looks {rd : Read} (hs : fs ⊆ deeds i s.hist) :
    (anyCalls D init i q).wp i r₀ (await (.read false rd))
      (fun a t => found rd a :: fs ⊆ deeds i t.hist ∧ ∃ d, a = rd.eval D d) (fun _ _ => True) s := by
  refine Contract.wp_mono (fun a t ht => ?_) (fun _ _ _ => trivial)
    (wp_asks (P := fun l => fs ⊆ l) letsAsk_any (fun _ _ h => List.subset_cons_of_subset _ h) hs)
  exact ⟨List.cons_subset.mpr ⟨ht.2.1, ht.1⟩, ht.2.2⟩

theorem wp_calls {op : Op} (hs : fs ⊆ deeds i s.hist) :
    (anyCalls D init i q).wp i r₀ (Prog.await op)
      (fun a t => Act.call op (.ok a) :: fs ⊆ deeds i t.hist ∧
        ∃ inp w w', exec D i inp op w = some (.ok a, w')) (fun _ _ => True) s := by
  refine Contract.wp_mono (fun a t ht => ?_) (fun _ _ _ => trivial)
    (wp_does (P := fun l => fs ⊆ l) (fun _ _ h => List.subset_cons_of_subset _ h) hs
      fun _ _ => trivial)
  exact ⟨List.cons_subset.mpr ⟨ht.2.1, ht.1⟩, ht.2.2⟩

/-- A token is signed over the payload that is asked for. -/
theorem wp_sign {payload : TokenPayload} (hs : fs ⊆ deeds i s.hist) :
    (anyCalls D init i q).wp i r₀ (await (.sign payload))
      (fun p t => p = payload ∧ fs ⊆ deeds i t.hist) (fun _ _ => True) s := by
  refine Contract.wp_mono (fun p t ht => ?_) (fun _ _ _ => trivial) (wp_calls hs)
  obtain ⟨hsub, inp, w, w', he⟩ := ht
  obtain ⟨hp, _⟩ := Prod.mk.inj (Option.some.inj (exec_call_ok he))
  exact ⟨(Except.ok.inj hp).symm, List.Subset.trans (List.subset_cons_self _ _) hsub⟩

/-! ### Logging in -/

theorem mem_of_firstJoined {ms : List Membership} {m : Membership}
    (h : firstJoined D ms = some m) : m ∈ ms := by
  induction ms generalizing m with
  | nil => cases h
  | cons n ms ih =>
    simp only [firstJoined] at h
    split at h
    · cases h
      exact List.mem_cons_self
    · rename_i k hk
      split at h
      · cases h
        exact List.mem_cons_of_mem n (ih hk)
      · cases h
        exact List.mem_cons_self

theorem eval_defaultMembership {m : Membership} {d : Db}
    (h : some m = (Read.findDefaultMembershipByUser userId).eval D d) :
    m.userId = userId ∧ m.isActive = true := by
  have hm := List.mem_filter.mp (mem_of_firstJoined h.symm)
  simpa using hm.2

theorem wp_loginUser {input : LoginInput} (hq : q = .direct (.loginUser input)) :
    (anyCalls D init i q).wp i r₀ (loginUser D input)
      (fun r t => Grants D jwtVerify q r.token (own i t.hist)) (fun _ _ => True) s := by
  have hrefuse : ∀ t, (anyCalls D init i q).wp i r₀ (refuseLogin input.email)
      (fun r t => Grants D jwtVerify q r.token (own i t.hist)) (fun _ _ => True) t :=
    fun t => Contract.wp_seq (meets_any t) (fun _ _ h => h) fun _ _ _ => trivial
  refine Contract.wp_seq (wp_looks (List.nil_subset _)) (fun _ _ h => h) fun user t ht => ?_
  split
  · exact hrefuse t
  · rename_i u
    refine Contract.wp_seq (wp_calls ht.1) (fun _ _ h => h) fun valid t hvalid => ?_
    split
    · exact hrefuse t
    · rename_i hcompare
      obtain ⟨hsub, inp, w, w', he⟩ := hvalid
      have hpassword : u.passwordHash.password = input.password := by
        obtain ⟨hanswer, _⟩ := Prod.mk.inj (Option.some.inj (exec_call_ok he))
        simpa [← Except.ok.inj hanswer] using hcompare
      refine Contract.wp_seq (wp_looks hsub) (fun _ _ h => h) fun membership t ht => ?_
      split
      · trivial
      · rename_i m
        obtain ⟨hsub, d, heval⟩ := ht
        obtain ⟨huser, hactive⟩ := eval_defaultMembership heval
        refine Contract.wp_seq (wp_sign hsub) (fun _ _ h => h) fun p t ht => ?_
        obtain ⟨rfl, hsub⟩ := ht
        refine Contract.wp_seq (wp_remembers hsub) (fun _ _ h => h) fun _ t hsub =>
          Contract.wp_seq (wp_remembers hsub) (fun _ _ h => h) fun _ t hsub => ?_
        exact ⟨.password hq rfl hpassword (hsub (by simp)),
          .inl ⟨m, huser, rfl, hactive, .inr (hsub (by simp))⟩⟩

/-! ### Switching organization -/

theorem wp_switchOrganization {input : SwitchOrganizationInput} {a : Membership}
    (hacts : ActsAs jwtVerify q a (deeds i s.hist)) (huser : a.userId = input.userId) :
    (anyCalls D init i q).wp i r₀ (switchOrganization D input)
      (fun r t => Grants D jwtVerify q r.accessToken (own i t.hist)) (fun _ _ => True) s := by
  refine Contract.wp_seq (wp_looks (List.Subset.refl _)) (fun _ _ h => h) fun membership t ht => ?_
  split
  · trivial
  · rename_i m hm
    obtain ⟨hsub, d, heval⟩ := ht
    obtain rfl := Option.eq_some_of_filter_eq_some hm
    obtain ⟨hmuser, hmorg, hactive⟩ := eval_membership heval
    refine Contract.wp_seq (wp_looks hsub) (fun _ _ h => h) fun user t ht => ?_
    split
    · trivial
    · rename_i u
      obtain ⟨hsub, d, heval⟩ := ht
      have hid : u.id = input.userId := eval_user heval
      refine Contract.wp_seq (wp_remembers hsub) (fun _ _ h => h) fun tokens t hsub =>
        Contract.wp_seq (wp_remembers hsub) (fun _ _ h => h) fun _ t hsub =>
          Contract.wp_seq (wp_sign hsub) (fun _ _ h => h) fun p t ht => ?_
      obtain ⟨rfl, hsub⟩ := ht
      refine Contract.wp_seq (wp_remembers hsub) (fun _ _ h => h) fun _ t hsub => ?_
      refine ⟨.bearer (hacts.mono fun d hd => hsub (by simp [hd])) (huser.trans hid.symm),
        .inl ⟨m, hmuser.trans hid.symm, hmorg, hactive, .inl ?_⟩⟩
      rw [hid]
      exact hsub (by simp)

/-! ### Refreshing -/

/-- **A transaction** that is committed. -/
theorem wp_transacted {p : Async α} {Q Q' : α → AuthState → Prop}
    (hQ : ∀ a, (anyCalls D init i q).Stable i (Q a))
    (hcommit : ∀ a t inp w, Q a t → exec D i inp (.call .commit) t.world = some (.ok (), w) →
      Q' a (t.push i r₀ (.call (.call .commit) (.ok ())) w))
    (hp : ∀ t, (anyCalls D init i q).wp i r₀ p Q (fun _ _ => True) t) :
    (anyCalls D init i q).wp i r₀ (runInTransaction p) Q' (fun _ _ => True) s := by
  refine Contract.wp_handle.mpr (Contract.wp_mono (fun _ _ h => h) (fun e t _ => ?_)
    (Contract.wp_seq (meets_any s) (fun _ _ h => h) fun _ t _ =>
      Contract.wp_seq (hp t) (fun _ _ h => h) fun a t ht => ?_))
  · exact Contract.wp_seq (meets_any t) (fun _ _ h => h) fun _ _ _ => trivial
  · exact Contract.wp_seq (Q := fun _ => Q' a) (Contract.wp_await (hQ a) ht (fun _ _ _ _ => trivial)
      (fun t inp b w _ ht he => hcommit a t inp w ht he) fun _ _ _ _ _ _ _ => trivial)
        (fun _ _ h => h) fun _ _ h => h

theorem wp_organizationOf {existing : RefreshToken} (hs : fs ⊆ deeds i s.hist) :
    (anyCalls D init i q).wp i r₀ (organizationOf existing)
      (fun org t => fs ⊆ deeds i t.hist ∧ FoundSeat existing.userId org (deeds i t.hist))
      (fun _ _ => True) s := by
  unfold organizationOf
  split
  · refine Contract.wp_seq (wp_looks hs) (fun _ _ h => h) fun membership t ht => ?_
    split
    · trivial
    · rename_i m
      split
      · obtain ⟨hsub, d, heval⟩ := ht
        obtain ⟨huser, horg, hactive⟩ := eval_membership heval
        exact ⟨List.Subset.trans (List.subset_cons_self _ _) hsub, m, huser, horg, hactive,
          .inl (hsub List.mem_cons_self)⟩
      · trivial
  · refine Contract.wp_seq (wp_looks hs) (fun _ _ h => h) fun membership t ht => ?_
    split
    · trivial
    · rename_i m
      obtain ⟨hsub, d, heval⟩ := ht
      obtain ⟨huser, hactive⟩ := eval_defaultMembership heval
      exact ⟨List.Subset.trans (List.subset_cons_self _ _) hsub, m, huser, rfl, hactive,
        .inr (hsub List.mem_cons_self)⟩

/-- What the transaction of a rotation has done for the token that it returns. -/
def GrantsRotated (D : Deps) (jwtVerify : JwtVerify) (q : HttpRequest) (r : RotateResult)
    (l : List AuthEvent) : Prop :=
  ∀ session, r = .rotated session → Grants D jwtVerify q session.accessToken l

theorem wp_rotateInTransaction {input : RotateRefreshTokenInput}
    (hq : q = .direct (.rotateRefreshToken input)) :
    (anyCalls D init i q).wp i r₀ (rotateInTransaction D input.rawToken input.client)
      (fun r t => GrantsRotated D jwtVerify q r (own i t.hist)) (fun _ _ => True) s := by
  refine Contract.wp_seq (wp_calls (List.nil_subset _)) (fun _ _ h => h) fun existing t ht => ?_
  split
  · trivial
  · rename_i token
    split
    · exact fun _ h => by cases h
    · rename_i hrevoked
      refine Contract.wp_seq (wp_calls ht.1) (fun _ _ h => h) fun now t ht => ?_
      split
      · exact fun _ h => by cases h
      · rename_i hexpired
        refine Contract.wp_seq (wp_looks ht.1) (fun _ _ h => h) fun user t ht => ?_
        split
        · trivial
        · rename_i u
          obtain ⟨hsub, d, heval⟩ := ht
          have hid : u.id = token.userId := eval_user heval
          refine Contract.wp_seq (wp_organizationOf hsub) (fun _ _ h => h) fun org t ht => ?_
          refine Contract.wp_seq (wp_remembers (List.Subset.refl _)) (fun _ _ h => h)
            fun _ t' hmore => Contract.wp_seq (wp_sign hmore) (fun _ _ h => h) fun p t'' hp => ?_
          obtain ⟨rfl, hmore⟩ := hp
          intro session hsession
          cases hsession
          have hall := List.Subset.trans ht.1 hmore
          obtain ⟨m, huser, horg, hactive, hfound⟩ := ht.2
          have hnow : Act.call .now (.ok now) ∈ deeds i t''.hist := hall (by simp)
          refine ⟨.refreshToken hq hid.symm (hall (by simp)) (by simpa using hrevoked) hnow
            (by simpa using hexpired), .inl ?_⟩
          exact ⟨m, huser.trans hid.symm, horg, hactive, by
            rw [hid]
            exact hfound.imp (fun h => hmore h) fun h => hmore h⟩

theorem wp_rotateRefreshToken {input : RotateRefreshTokenInput}
    (hq : q = .direct (.rotateRefreshToken input)) :
    (anyCalls D init i q).wp i r₀ (rotateRefreshToken D input)
      (fun r t => Grants D jwtVerify q r.accessToken (own i t.hist)) (fun _ _ => True) s := by
  have hrotated : (anyCalls D init i q).wp i r₀
      (runInTransaction (rotateInTransaction D input.rawToken input.client))
      (fun r t => GrantsRotated D jwtVerify q r (own i t.hist)) (fun _ _ => True) s := by
    refine wp_transacted (fun r => Contract.stable_own (GrantsRotated D jwtVerify q r))
      (fun r t inp w ht _ session hsession => ?_) fun t => wp_rotateInTransaction hq
    rw [own_push]
    exact (ht session hsession).cons _
  refine Contract.wp_seq hrotated (fun _ _ h => h) fun r t ht => ?_
  split
  · exact ht _ rfl
  · exact Contract.wp_seq (meets_any t) (fun _ _ h => h) fun _ _ _ => trivial

/-! ### Registering -/

/-- The transaction has made the membership, and not ended. -/
def Enrolling (i : Nat) (m : Membership) (s : AuthState) : Prop :=
  (i, .createMembership m) ∈ s.world.store.pending

theorem stable_enrolling {m : Membership} : (anyCalls D init i q).Stable i (Enrolling i m) := by
  intro s t h hs
  cases h with
  | @call j r op inp a w hj _ _ he =>
    have he' : exec D j inp op s.world = some (a, w) := he
    have hmem := s.world.store.mem_pendingOf.mpr hs
    rw [← (exec_store he').pendingOf_ne (Ne.symm hj)] at hmem
    exact w.store.mem_pendingOf.mp hmem
  | @crash j _ hj _ =>
    have hmem := s.world.store.mem_pendingOf.mpr hs
    rw [← s.world.store.pendingOf_rollback_ne (Ne.symm hj)] at hmem
    exact (s.world.store.drop j).mem_pendingOf.mp hmem

theorem Enrolling.push {m : Membership} {op : Op} {inp : Input} {r : Except Err op.Answer}
    {w : World} (h : Enrolling i m s) (he : exec D i inp op s.world = some (r, w))
    (hop : op.ends = false) : Enrolling i m (s.push i r₀ (.call op r) w) := by
  have hmem := s.world.store.mem_pendingOf.mpr h
  refine w.store.mem_pendingOf.mp ?_
  rcases (exec_store he).pendingOf_self with ⟨_, hp⟩ | ⟨wr, _, hp⟩ | ⟨st, _, _, hp⟩ | ⟨hends, _⟩
  · exact hp ▸ hmem
  · exact hp ▸ List.mem_append_left _ hmem
  · exact hp ▸ List.mem_append_left _ hmem
  · rw [hop] at hends
    cases hends

/-- A part of the transaction that does not end it. -/
theorem wp_enrolling {m : Membership} {p : Async α} (hp : p.Calls fun op => op.ends = false)
    (hs : Enrolling i m s) :
    (anyCalls D init i q).wp i r₀ p (fun _ t => Enrolling i m t) (fun _ _ => True) s :=
  Contract.wp_mono (fun _ _ h => h) (fun _ _ _ => trivial)
    (Contract.wp_of_calls stable_enrolling (fun _ _ _ _ _ _ => trivial)
      (fun _ _ _ _ _ hop _ ht he => ht.push he hop) hp hs)

theorem goesOn_issueRefreshToken {userId org : Uuid} {client : Client} {tx : Bool} :
    (issueRefreshToken D ⟨userId, none, some org, client⟩ tx).Calls fun op => op.ends = false :=
  .bind (.await rfl) fun _ => .bind (.bind (.await rfl) fun _ => .bind (.await rfl) fun _ =>
    .bind (.await rfl) fun _ => .done) fun _ => .bind (.await rfl) fun _ => .done

/-- What a registration has done before it commits. -/
def Registering (i : Nat) (user : AuthUser) (org : Organization) (s : AuthState) : Prop :=
  (∃ m : Membership, Enrolling i m s ∧ m.userId = user.id ∧ m.organizationId = org.id ∧
    m.isActive = true) ∧ Made (.createUser user) (deeds i s.hist)

theorem stable_registering {user : AuthUser} {org : Organization} :
    (anyCalls D init i q).Stable i (Registering i user org) := by
  rintro s t hstep ⟨⟨m, hm, hfacts⟩, hmade⟩
  exact ⟨⟨m, stable_enrolling hstep hm, hfacts⟩, stable_deeds (Made _) hstep hmade⟩

theorem wp_registering {email username : String} {passwordHash : PasswordHash}
    {isPublicProfile : Bool} {client : Client} :
    (anyCalls D init i q).wp i r₀
      (registerInTransaction D email username passwordHash isPublicProfile client)
      (fun r t => Registering i r.1 r.2.1 t) (fun _ _ => True) s := by
  refine Contract.wp_seq (Q := fun u t => Made (.createUser u) (deeds i t.hist))
    (F := fun _ _ => True) ?_ (fun _ _ h => h) fun user t huser => ?_
  · refine Contract.wp_seq (meets_any s) (fun _ _ h => h) fun id t _ => Contract.wp_seq
      (wp_calls (List.nil_subset _)) (fun _ _ h => h) fun _ _ ht => ?_
    exact ⟨true, .ok (), ht.1 List.mem_cons_self⟩
  refine Contract.wp_seq (wp_withDeeds Made.cons huser (meets_any t)) (fun _ _ h => h)
    fun org t horg => ?_
  refine Contract.wp_seq (Q := fun m t => (Enrolling i m t ∧ m.userId = user.id ∧
    m.organizationId = org.id ∧ m.isActive = true) ∧ Made (.createUser user) (deeds i t.hist))
    (F := fun _ _ => True) (wp_withDeeds Made.cons horg.2 ?_) (fun _ _ h => h)
    fun m t hm => ?_
  · refine Contract.wp_seq (meets_any t) (fun _ _ h => h) fun id t _ =>
      Contract.wp_seq (meets_any t) (fun _ _ h => h) fun joinedAt t _ => ?_
    refine Contract.wp_seq (Q := fun _ t => Enrolling i
      ⟨id, user.id, org.id, .owner, .active, joinedAt⟩ t) (F := fun _ _ => True)
      (Contract.wp_await (Contract.Stable.true i) trivial (fun _ _ _ _ => trivial)
        (fun t inp a w _ _ he => ?_) fun _ _ _ _ _ _ _ => trivial) (fun _ _ h => h)
        fun _ _ h => ⟨h, rfl, rfl, rfl⟩
    obtain ⟨_, rfl⟩ := exec_write_ok he
    exact List.mem_append_right _ List.mem_cons_self
  · refine Contract.wp_seq (wp_withDeeds Made.cons hm.2
      (wp_enrolling goesOn_issueRefreshToken hm.1.1)) (fun _ _ h => h) fun _ _ ht => ?_
    exact ⟨⟨m, ht.1, hm.1.2⟩, ht.2⟩

theorem wp_registerUser {input : RegisterInput} (hq : q = .direct (.registerUser input)) :
    (anyCalls D init i q).wp i r₀ (registerUser D input)
      (fun r t => Grants D jwtVerify q r.token (own i t.hist)) (fun _ _ => True) s := by
  unfold registerUser
  split
  · trivial
  refine Contract.wp_seq (meets_any s) (fun _ _ h => h) fun b t _ => ?_
  split
  · trivial
  refine Contract.wp_seq (meets_any t) (fun _ _ h => h) fun b t _ => ?_
  split
  · trivial
  refine Contract.wp_seq (meets_any t) (fun _ _ h => h) fun h t _ => ?_
  have hcommitted : (anyCalls D init i q).wp i r₀ (runInTransaction (registerInTransaction D
      (D.toLowerCase (D.trim input.email)) (D.trim input.username) h
      (input.isPublicProfile.getD true) input.client))
      (fun r t => MadeSeat r.1.id r.2.1.id (own i t.hist) ∧
        Made (.createUser r.1) (deeds i t.hist)) (fun _ _ => True) t := by
    refine wp_transacted (fun r => stable_registering) (fun r t inp w ht he => ?_)
      fun t => wp_registering
    obtain ⟨⟨m, hm, hfacts⟩, hmade⟩ := ht
    rw [own_push, deeds_push]
    exact ⟨⟨_, List.mem_cons_self, rfl, m, hm, hfacts⟩, hmade.cons _ _⟩
  refine Contract.wp_seq hcommitted (fun _ _ h => h) fun r t ht => ?_
  obtain ⟨user, org, raw⟩ := r
  refine Contract.wp_seq (wp_withOwn MadeSeat.cons ht.1 (wp_withDeeds Made.cons ht.2
    (wp_sign (List.nil_subset _)))) (fun _ _ h => h) fun p t hp => ?_
  obtain ⟨⟨⟨rfl, _⟩, hmade⟩, hseat⟩ := hp
  exact ⟨.registration hq rfl hmade, .inr hseat⟩

/-! ### Replies -/

/-- A request that grants no token. -/
theorem wp_grantsNone {p : Async α} {f : α → Reply} (hf : ∀ a, granted (f a) = none) :
    (anyCalls D init i q).wp i r₀ (p.bind fun a => pure (f a))
      (fun a t => ∀ payload, granted a = some payload → Grants D jwtVerify q payload (own i t.hist))
      (fun _ _ => True) s := by
  refine Contract.wp_seq (meets_any s) (fun _ _ h => h) fun a t _ payload hp => ?_
  rw [hf a] at hp
  cases hp

/-- A request that grants the token of its answer. -/
theorem wp_grants {p : Async α} {f : α → Reply} {token : α → TokenPayload}
    (hf : ∀ a, granted (f a) = some (token a))
    (hp : (anyCalls D init i q).wp i r₀ p
      (fun a t => Grants D jwtVerify q (token a) (own i t.hist)) (fun _ _ => True) s) :
    (anyCalls D init i q).wp i r₀ (p.bind fun a => pure (f a))
      (fun a t => ∀ payload, granted a = some payload → Grants D jwtVerify q payload (own i t.hist))
      (fun _ _ => True) s := by
  refine Contract.wp_seq hp (fun _ _ h => h) fun a t ht payload hpayload => ?_
  rw [hf a] at hpayload
  cases hpayload
  exact ht

/-- **Every reply grants what its request has earned.** -/
theorem wp_respond (hq : ∀ r, q = .direct r → isDirect r = true) :
    (anyCalls D init i q).wp i r₀ (respond D jwtVerify q)
      (fun a t => ∀ payload, granted a = some payload → Grants D jwtVerify q payload (own i t.hist))
      (fun _ _ => True) s := by
  have hunit : ∀ {p : AuthenticatedRequest → Async Unit} {authorization : Option String},
      (anyCalls D init i q).wp i r₀ ((authMiddleware jwtVerify authorization).bind fun req =>
        (p req).bind fun _ => pure .unit) (fun a t => ∀ payload, granted a = some payload →
          Grants D jwtVerify q payload (own i t.hist)) (fun _ _ => True) s :=
    Contract.wp_seq (meets_any s) (fun _ _ h => h) fun _ _ _ => wp_grantsNone fun _ => rfl
  cases q with
  | direct r =>
    cases r with
    | registerUser input => exact wp_grants (fun _ => rfl) (wp_registerUser rfl)
    | loginUser input => exact wp_grants (fun _ => rfl) (wp_loginUser rfl)
    | rotateRefreshToken input => exact wp_grants (fun _ => rfl) (wp_rotateRefreshToken rfl)
    | switchOrganization input => cases hq _ rfl
    | _ => exact wp_grantsNone fun _ => rfl
  | switchOrg authorization organizationId client =>
    exact Contract.wp_seq (wp_authMiddleware letsAsk_any rfl) (fun _ _ h => h) fun req t ht =>
      wp_grants (fun _ => rfl) (wp_switchOrganization ht.1 ht.2)
  | getProfile authorization =>
    exact Contract.wp_seq (meets_any s) (fun _ _ h => h) fun _ _ _ => wp_grantsNone fun _ => rfl
  | updateProfile authorization email username password isPublicProfile =>
    exact Contract.wp_seq (meets_any s) (fun _ _ h => h) fun _ _ _ => wp_grantsNone fun _ => rfl
  | createInvite authorization organizationId email role =>
    exact Contract.wp_seq (meets_any s) (fun _ _ h => h) fun _ _ _ => wp_grantsNone fun _ => rfl
  | resendVerification authorization => exact wp_grantsNone fun _ => rfl
  | _ => exact hunit

/-! ### Runs -/

/-- What a thread that is over has done for the token in its reply. -/
theorem grants_of_reachable {c : ServerConfig} (h : (serverMachine D jwtVerify).Reachable init c)
    {reply : Reply} {payload : TokenPayload} (ht : c.threads[i]? = some (q, .done reply))
    (hreply : granted reply = some payload) :
    Grants D jwtVerify q payload (own i (calls c.state.hist)) :=
  (Contract.legal_by_request (f := forget) (R := fun q reply l => ∀ payload,
    granted reply = some payload → Grants D jwtVerify q payload l) sameCalls (agree_heldTo _)
    (fun i q t ha _ => wp_respond fun r hr => by subst hr; exact ha) h).2 i q reply ht payload hreply

/-- The committed data had the user as an active member, before or after a call of the thread. -/
def Seated (userId org : Uuid) (l : List ServerEvent) : Prop :=
  ∃ e ∈ l, ∃ m : Membership,
    (m ∈ e.before.store.db.memberships ∨ m ∈ e.after.store.db.memberships) ∧
      m.userId = userId ∧ m.organizationId = org ∧ m.isActive = true

/-- A membership that a transaction makes is there when it is committed. -/
theorem mem_memberships_foldl {ws : List Write} {m : Membership} {d : Db}
    (hws : ∀ wr ∈ ws, isChange wr = false) (hm : .createMembership m ∈ ws) :
    m ∈ (ws.foldl (fun d wr => wr.apply D d) d).memberships := by
  induction ws generalizing d with
  | nil => cases hm
  | cons wr ws ih =>
    have hrest : ∀ wr' ∈ ws, isChange wr' = false := fun wr' h => hws wr' (List.mem_cons_of_mem wr h)
    rw [List.foldl_cons]
    rcases List.mem_cons.mp hm with rfl | hm
    · exact kept_foldl (P := fun d => m ∈ d.memberships) (fun _ _ => memberships_kept) hrest
        (List.mem_append_right _ List.mem_cons_self)
    · exact ih hrest hm

section

variable {d₀ : Db} {log : List ServerEvent}

theorem seated_of_found (h : AccessLegal D jwtVerify (World.init d₀) log)
    (hseat : FoundSeat userId org (deeds i log)) : Seated userId org (own i log) := by
  obtain ⟨m, huser, horg, hactive, hf | hf⟩ := hseat
  · obtain ⟨r, _, _, hr, _, heval⟩ := exists_of_found h hf
    exact ⟨r, hr, m, .inl (List.mem_of_find?_eq_some heval.symm), huser, horg, hactive⟩
  · obtain ⟨r, _, _, hr, _, heval⟩ := exists_of_found h hf
    exact ⟨r, hr, m, .inl (List.mem_of_mem_filter (mem_of_firstJoined heval.symm)), huser, horg,
      hactive⟩

theorem seated_of_made (h : AccessLegal D jwtVerify (World.init d₀) log)
    (hseat : MadeSeat userId org (own i (calls log))) : Seated userId org (own i log) := by
  obtain ⟨_, he, hact, m, hm, hfacts⟩ := hseat
  rw [calls, own_relabel] at he
  obtain ⟨r, hr, rfl⟩ := List.mem_map.mp he
  obtain ⟨before, hs⟩ := exists_past (mem_of_mem_own hr).1
  have hbefore : AccessLegal D jwtVerify _ before := (h.suffix hs).2.2
  obtain ⟨inp, he⟩ := (h.obeys hs).exec hact
  have he' : exec D r.tid inp (.call .commit) r.before = some (.ok (), r.after) := he
  obtain ⟨_, hafter⟩ := Prod.mk.inj (Option.some.inj (exec_call_ok he'))
  refine ⟨r, hr, m, .inr ?_, hfacts⟩
  rw [← hafter]
  refine mem_memberships_foldl (fun wr hwr => ?_) (r.before.store.mem_pendingOf.mpr hm)
  exact pending_no_change hbefore _ (h.before hs ▸ r.before.store.mem_pendingOf.mp hwr)

/-- **An access token is earned.**  Whatever token the server answers a request with, the request
has shown to be the user's, the committed data had the user as an active member of the
organization while it was answered, and the user was let in there. -/
theorem tokens_earned {c : ServerConfig}
    (h : (serverMachine D jwtVerify).Reachable (StartsFrom d₀) c) {reply : Reply}
    {payload : TokenPayload} (ht : c.threads[i]? = some (q, .done reply))
    (hreply : granted reply = some payload) :
    Authenticated D jwtVerify q payload.id (deeds i c.state.hist) ∧
      Seated payload.id payload.organizationId (own i c.state.hist) ∧
      Trusted D jwtVerify d₀ c.state.hist payload.id payload.organizationId := by
  obtain ⟨w₀, rfl, _, hl, hall⟩ := allTrusted_of_reachable h
  obtain ⟨hauth, hseat⟩ := grants_of_reachable h ht hreply
  have hdeeds : (own i (calls c.state.hist)).map (·.act) = deeds i c.state.hist :=
    deeds_calls i c.state.hist
  rw [hdeeds] at hauth hseat
  have hseated : Seated payload.id payload.organizationId (own i c.state.hist) :=
    hseat.elim (seated_of_found hl) (seated_of_made hl)
  refine ⟨hauth, hseated, ?_⟩
  obtain ⟨e, he, m, hm, huser, horg, _⟩ := hseated
  obtain ⟨before, hs⟩ := exists_past (mem_of_mem_own he).1
  rw [← huser, ← horg]
  rcases hm with hm | hm
  · exact (hall before ((List.suffix_cons e before).trans hs)).members m (hl.before hs ▸ hm)
  · exact (hall (e :: before) hs).members m hm

end

/-- The payload of the token that thread `i` was answered with. -/
def grantedTo (i : Nat) (c : ServerConfig) : Option TokenPayload :=
  c.threads[i]?.bind fun p => match p.2 with
    | .done reply => granted reply
    | _ => none

theorem exists_of_grantedTo {c : ServerConfig} {payload : TokenPayload}
    (h : grantedTo i c = some payload) :
    ∃ q reply, c.threads[i]? = some (q, .done reply) ∧ granted reply = some payload := by
  obtain ⟨⟨q, p⟩, ht, hp⟩ := Option.bind_eq_some_iff.mp h
  cases p with
  | done reply => exact ⟨q, reply, ht, hp⟩
  | _ => cases hp

/-- Eve is given a token for the organization that she has founded. -/
theorem tokens_earned_registered :
    ∃ c q payload, serve sampleDeps sampleVerify twoOrganizationsDb registerEve = some c ∧
      grantedTo 0 c = some payload ∧
      Authenticated sampleDeps sampleVerify q payload.id (deeds 0 c.state.hist) ∧
      Seated payload.id payload.organizationId (own 0 c.state.hist) ∧
      Trusted sampleDeps sampleVerify twoOrganizationsDb c.state.hist payload.id
        payload.organizationId := by
  have hrun : ((serve sampleDeps sampleVerify twoOrganizationsDb registerEve).bind
      (grantedTo 0)).isSome = true := by
    decide +kernel
  obtain ⟨payload, hval⟩ := Option.isSome_iff_exists.mp hrun
  obtain ⟨c, hc, hgranted⟩ := Option.bind_eq_some_iff.mp hval
  obtain ⟨q, reply, ht, hreply⟩ := exists_of_grantedTo hgranted
  exact ⟨c, q, payload, hc, hgranted, tokens_earned (reachable_of_serve hc) ht hreply⟩

end LakiraBackend.Auth.Routes
