import LakiraBackend.Auth.Guards
import LakiraBackend.Auth.Routes
import LakiraBackend.Concurrency.Relabel

/-!
# What a request has to have found before it writes

`Permitted` says of each write on the members, the invites and the users what its thread has to
have done before: it has been let in by the middleware on an active membership, and that
membership, the invite or the one-time token it found gives it the right to the write.
`meets_respond` is that every route keeps to it, whatever the header and the other requests.
-/

namespace LakiraBackend.Auth.Routes

open LakiraBackend.Concurrency

/-- What a thread has done, apart from whom for: a call with its answer, or its end. -/
abbrev Deed : Type := Act Op Op.Answer Err

/-- A query outside any transaction, with its answer. -/
def found (rd : Read) (a : rd.Answer) : Deed := .call (.call (.read false rd)) (.ok a)

/-- What thread `i` has done, newest first. -/
def deeds {Req : Type} (i : Nat) (hist : List (Event Op Op.Answer Err World Req)) : List Deed :=
  (own i hist).map (·.act)

/-- The write has been made, whatever came of it. -/
def Made (wr : Write) (l : List Deed) : Prop := ∃ tx r, Act.call (.call (.write tx wr)) r ∈ l

/-- The header of a request that goes through the middleware. -/
def header : HttpRequest → Option String
  | .direct _ => none
  | .getProfile authorization => authorization
  | .updateProfile authorization _ _ _ _ => authorization
  | .resendVerification authorization => authorization
  | .switchOrg authorization _ _ => authorization
  | .createInvite authorization _ _ _ => authorization
  | .acceptInvite authorization _ => authorization
  | .removeMembership authorization _ => authorization
  | .changeMemberRole authorization _ _ => authorization
  | .adminPing authorization => authorization

/-- The one-time token a request presents. -/
def presented : HttpRequest → Option (TokenKind × Uuid)
  | .direct (.resetPassword input) => some (.passwordReset, input.token)
  | .direct (.verifyEmail input) => some (.emailVerification, input.token)
  | _ => none

/-- It found an unused token of the user, by the raw one. -/
def HoldsToken (kind : TokenKind) (rawToken userId : Uuid) (l : List Deed) : Prop :=
  ∃ t, t.userId = userId ∧ t.isUsed = false ∧
    found (.findTokenByTokenHash kind (.sha256 rawToken)) (some t) ∈ l

/-- It has created the user and the organization, and the membership is their owner's. -/
structure Founds (m : Membership) (l : List Deed) : Prop where
  user : ∃ u : AuthUser, u.id = m.userId ∧ Made (.createUser u) l
  organization : ∃ o : Organization, o.id = m.organizationId ∧ Made (.createOrganization o) l
  role : m.role = .owner

section Permitted

variable (D : Deps) (jwtVerify : JwtVerify) (q : HttpRequest)

/-- The token of its header names the user and the organization, at a time that it read. -/
def Bears (userId : Uuid) (org : Option Uuid) (l : List Deed) : Prop :=
  ∃ token now decoded, bearerToken (header q) = some token ∧ Act.call .now (.ok now) ∈ l ∧
    jwtVerify token now = some decoded ∧ decoded.id = some userId ∧ decoded.organizationId = org

/-- The thread was let in on this membership: its token names the user and the organization, and
it found the membership, active. -/
structure ActsAs (a : Membership) (l : List Deed) : Prop where
  token : Bears jwtVerify q a.userId (some a.organizationId) l
  active : a.isActive = true
  membership : found (.findMembershipByUserAndOrg a.userId a.organizationId) (some a) ∈ l

/-- It acts as an owner of the organization of a membership that it found. -/
def Manages (id : Uuid) (l : List Deed) : Prop :=
  ∃ a, ActsAs jwtVerify q a l ∧ a.role = .owner ∧ ∃ m, m.id = id ∧
    m.organizationId = a.organizationId ∧ ∃ id', found (.findMembershipById id') (some m) ∈ l

/-- It acts as an owner or an admin of the organization. -/
def Invites (a : Membership) (org : Uuid) (l : List Deed) : Prop :=
  ActsAs jwtVerify q a l ∧ a.organizationId = org ∧ a.role ≠ .member

/-- It acts as the user of the membership, found an open invite by its token, and the invite is
for the user's address and for this organization and role. -/
structure Redeems (rawToken : Uuid) (m : Membership) (v : OrganizationInvite) (l : List Deed) :
    Prop where
  actor : ∃ a, ActsAs jwtVerify q a l ∧ a.userId = m.userId
  invite : found (.findInviteByTokenHash (.sha256 rawToken)) (some v) ∈ l
  pending : v.isAccepted = false
  user : ∃ u : AuthUser, u.id = m.userId ∧ D.toLowerCase u.email = D.toLowerCase v.email ∧
    found (.findUserById u.id) (some u) ∈ l
  organization : m.organizationId = v.organizationId
  role : m.role = v.role.toMembershipRole

/-- It acts as the user, or its request presents an unused token of theirs. -/
def MaySave (userId : Uuid) (l : List Deed) : Prop :=
  (∃ a, ActsAs jwtVerify q a l ∧ a.userId = userId) ∨
    ∃ kind rawToken, presented q = some (kind, rawToken) ∧ HoldsToken kind rawToken userId l

/-- What a thread that answers `q`, and has done `l`, may write; `tx` says whether in its
transaction. -/
def Permitted (l : List Deed) (tx : Bool) : Write → Prop
  | .createMembership m =>
    (∃ input, q = .direct (.registerUser input) ∧ Founds m l) ∨
      ∃ authorization token, q = .acceptInvite authorization token ∧
        ∃ v, Redeems D jwtVerify q token m v l
  | .saveMembership id role => tx = false ∧ role ≠ .owner ∧ Manages jwtVerify q id l
  | .deleteMembership id => tx = false ∧ Manages jwtVerify q id l
  | .createInvite v => ∃ a, Invites jwtVerify q a v.organizationId l
  | .saveUser u => tx = false ∧ MaySave jwtVerify q u.id l
  | _ => True

end Permitted

/-- The write needs no permission. -/
def isFree : Write → Bool
  | .createMembership _ => false
  | .saveMembership _ _ => false
  | .deleteMembership _ => false
  | .createInvite _ => false
  | .saveUser _ => false
  | _ => true

/-- What a write has before it. -/
def accessPre (D : Deps) (jwtVerify : JwtVerify) (i : Nat) (q : HttpRequest) (op : Op)
    (s : AuthState) : Prop :=
  match op with
  | .call (.write tx wr) => Permitted D jwtVerify q (deeds i s.hist) tx wr
  | _ => True

/-- The contract of thread `i` when it answers `q`. -/
abbrev access (D : Deps) (jwtVerify : JwtVerify) (init : World → Prop) (i : Nat)
    (q : HttpRequest) : Contract (authMachine D) :=
  guard D init (heldTo (accessPre D jwtVerify) i q)

variable {D : Deps} {jwtVerify : JwtVerify} {init : World → Prop} {i : Nat} {q : HttpRequest}
  {r₀ : Request} {s : AuthState} {l : List Deed} {a m : Membership} {org : Uuid}

theorem permitted_of_free {tx : Bool} {wr : Write} (h : isFree wr = true) :
    Permitted D jwtVerify q l tx wr := by
  cases wr <;> trivial

theorem accessPre_of_write {op : Op} (h : ∀ tx wr, op = .call (.write tx wr) → isFree wr = true) :
    accessPre D jwtVerify i q op s := by
  cases op with
  | call c =>
    cases c with
    | write tx wr => exact permitted_of_free (h tx wr rfl)
    | _ => trivial
  | _ => trivial

/-- The tables whose rows are anybody's to write. -/
theorem accessPre_of_table {op : Op}
    (h : ∀ T ∈ [Table.memberships, .invites, .users], op.table ≠ some T) :
    accessPre D jwtVerify i q op s := by
  refine accessPre_of_write fun tx wr hop => ?_
  subst hop
  cases wr <;> first | rfl | exact absurd rfl (h _ (by simp [Write.table]))

theorem meets_untouchedBy {α : Type} {Ts : List Table}
    (hT : ∀ T ∈ [Table.memberships, .invites, .users], T ∉ Ts) {p : Async α} (hp : Uses Ts p) :
    (access D jwtVerify init i q).Meets i r₀ p :=
  fun _ => Contract.wp_of_calls (Contract.Stable.true i)
    (fun _ _ hw _ _ _ => accessPre_of_table fun T hmem ht => hT T hmem (hw T ht))
    (fun _ _ _ _ _ _ _ _ _ => trivial) hp trivial

theorem meets_issueRefreshToken {input : IssueRefreshTokenInput} {tx : Bool} :
    (access D jwtVerify init i q).Meets i r₀ (issueRefreshToken D input tx) := by
  have hissues : Uses [.refreshTokens] (issueRefreshToken D input tx) :=
    uses_issueRefreshToken (by simp)
  exact meets_untouchedBy (by simp) hissues

theorem deeds_push {op : Op} {r : Except Err op.Answer} {w : World} :
    deeds i (s.push i r₀ (.call op r) w).hist = .call op r :: deeds i s.hist :=
  congrArg _ own_push

theorem stable_deeds {K : Contract (authMachine D)} (P : List Deed → Prop) :
    K.Stable i fun s => P (deeds i s.hist) :=
  Contract.stable_own fun l => P (l.map (·.act))

/-! ### Facts that stay -/

theorem Bears.mono {userId : Uuid} {org : Option Uuid} {l' : List Deed} (hl : l ⊆ l')
    (h : Bears jwtVerify q userId org l) : Bears jwtVerify q userId org l' := by
  obtain ⟨token, now, decoded, htoken, hnow, hnames⟩ := h
  exact ⟨token, now, decoded, htoken, hl hnow, hnames⟩

theorem ActsAs.mono {l' : List Deed} (hl : l ⊆ l') (h : ActsAs jwtVerify q a l) :
    ActsAs jwtVerify q a l' :=
  ⟨h.token.mono hl, h.active, hl h.membership⟩

theorem Bears.cons {userId : Uuid} {org : Option Uuid} (e : Deed) (l : List Deed)
    (h : Bears jwtVerify q userId org l) : Bears jwtVerify q userId org (e :: l) :=
  h.mono (List.subset_cons_self e l)

theorem ActsAs.cons (e : Deed) (l : List Deed) (h : ActsAs jwtVerify q a l) :
    ActsAs jwtVerify q a (e :: l) :=
  h.mono (List.subset_cons_self e l)

theorem Manages.cons {id : Uuid} (e : Deed) (l : List Deed) (h : Manages jwtVerify q id l) :
    Manages jwtVerify q id (e :: l) := by
  obtain ⟨a, hacts, howner, m, hm, horg, id', hf⟩ := h
  exact ⟨a, hacts.cons e l, howner, m, hm, horg, id', List.mem_cons_of_mem e hf⟩

theorem Invites.cons (e : Deed) (l : List Deed) (h : Invites jwtVerify q a org l) :
    Invites jwtVerify q a org (e :: l) :=
  ⟨h.1.cons e l, h.2⟩

section

variable {T : Nat → HttpRequest → Op → AuthState → Prop}

/-- **One call**, of which is kept that it was made, and what its answer is. -/
theorem wp_does {op : Op} {P : List Deed → Prop} (hP : ∀ e l, P l → P (e :: l))
    (hs : P (deeds i s.hist)) (hpre : ∀ t, P (deeds i t.hist) → T i q op t) :
    (guard D init (heldTo T i q)).wp i r₀ (Prog.await op)
      (fun a t => P (deeds i t.hist) ∧ Act.call op (.ok a) ∈ deeds i t.hist ∧
        ∃ inp w w', exec D i inp op w = some (.ok a, w'))
      (fun _ _ => True) s := by
  refine Contract.wp_await (stable_deeds P) hs (fun t _ ht _ => hpre t ht)
    (fun t inp a w _ ht he => ?_) fun _ _ _ _ _ _ _ => trivial
  rw [deeds_push]
  exact ⟨hP _ _ ht, List.mem_cons_self, inp, t.world, w, he⟩

/-- To ask needs no permission. -/
def LetsAsk (T : Nat → HttpRequest → Op → AuthState → Prop) : Prop :=
  ∀ i q s, T i q .now s ∧ ∀ rd, T i q (.call (.read false rd)) s

/-- **One query**, of which is kept that it was made, and what its answer is. -/
theorem wp_asks (hT : LetsAsk T) {rd : Read} {P : List Deed → Prop} (hP : ∀ e l, P l → P (e :: l))
    (hs : P (deeds i s.hist)) :
    (guard D init (heldTo T i q)).wp i r₀ (await (.read false rd))
      (fun a t => P (deeds i t.hist) ∧ found rd a ∈ deeds i t.hist ∧ ∃ d, a = rd.eval D d)
      (fun _ _ => True) s := by
  refine Contract.wp_mono (fun a t => ?_) (fun _ _ _ => trivial)
    (wp_does hP hs fun t _ => (hT i q t).2 rd)
  rintro ⟨ht, hmade, inp, w, w', he⟩
  exact ⟨ht, hmade, w.store.db, (exec_read_ok he).1⟩

end

theorem letsAsk_access : LetsAsk (accessPre D jwtVerify) := fun _ _ _ => ⟨trivial, fun _ => trivial⟩

theorem wp_finds {rd : Read} {P : List Deed → Prop} (hP : ∀ e l, P l → P (e :: l))
    (hs : P (deeds i s.hist)) :
    (access D jwtVerify init i q).wp i r₀ (await (.read false rd))
      (fun a t => P (deeds i t.hist) ∧ found rd a ∈ deeds i t.hist ∧ ∃ d, a = rd.eval D d)
      (fun _ _ => True) s := wp_asks letsAsk_access hP hs

/-- A call that needs no permission. -/
theorem wp_keeps {op : Op} {P : List Deed → Prop} (hP : ∀ e l, P l → P (e :: l))
    (hs : P (deeds i s.hist)) (hfree : ∀ t, accessPre D jwtVerify i q op t) :
    (access D jwtVerify init i q).wp i r₀ (Prog.await op) (fun _ t => P (deeds i t.hist))
      (fun _ _ => True) s :=
  Contract.wp_mono (fun _ _ h => h.1) (fun _ _ h => h) (wp_does hP hs fun t _ => hfree t)

/-- A write that what is known permits. -/
theorem wp_permitted {tx : Bool} {wr : Write} {P : List Deed → Prop}
    (hs : P (deeds i s.hist)) (hperm : ∀ l : List Deed, P l → Permitted D jwtVerify q l tx wr) :
    (access D jwtVerify init i q).wp i r₀ (await (.write tx wr)) (fun _ _ => True)
      (fun _ _ => True) s :=
  wp_keep_true (stable_deeds P) hs fun t _ ht _ => hperm (deeds i t.hist) ht

/-! ### The middleware -/

theorem eval_membership {userId org : Uuid} {d : Db}
    (h : some m = (Read.findMembershipByUserAndOrg userId org).eval D d) :
    m.userId = userId ∧ m.organizationId = org ∧ m.isActive = true := by
  have hp := List.find?_some h.symm
  simpa [and_assoc] using hp

theorem eval_user {id : Uuid} {u : AuthUser} {d : Db}
    (h : some u = (Read.findUserById id).eval D d) : u.id = id := by
  simpa using List.find?_some h.symm

section

variable {T : Nat → HttpRequest → Op → AuthState → Prop}

/-- **Who verifies a token bears it.** -/
theorem wp_verify (hT : LetsAsk T) {token : String}
    (htoken : bearerToken (header q) = some token) :
    (guard D init (heldTo T i q)).wp i r₀ (verify jwtVerify token)
      (fun claims t => Bears jwtVerify q claims.userId claims.organizationId (deeds i t.hist))
      (fun _ _ => True) s := by
  refine Contract.wp_seq (wp_does (P := fun _ => True) (fun _ _ h => h) trivial
    fun t _ => (hT i q t).1)
    (fun _ _ h => h) fun now t ht => ?_
  split
  · trivial
  · rename_i decoded hdecoded
    split
    · rename_i userId _ hid _
      exact ⟨token, now, decoded, htoken, ht.2.1, hdecoded, hid, rfl⟩
    · trivial

/-- **Who gets past the middleware acts as an active member.** -/
theorem wp_authMiddleware (hT : LetsAsk T) {authorization : Option String}
    (hq : header q = authorization) :
    (guard D init (heldTo T i q)).wp i r₀ (authMiddleware jwtVerify authorization)
      (fun req t => ActsAs jwtVerify q req.membership (deeds i t.hist) ∧
        req.membership.userId = req.user.id)
      (fun _ _ => True) s := by
  unfold authMiddleware
  split
  · trivial
  · rename_i token htoken
    refine Contract.wp_seq (Q := fun (claims : TokenClaims) t => Bears jwtVerify q claims.userId
      claims.organizationId (deeds i t.hist)) (F := fun _ _ => True) ?_ (fun _ _ _ => trivial)
      fun claims t hbears => ?_
    · refine Contract.wp_handle.mpr (Contract.wp_mono (fun _ _ h => h) (fun e t _ => ?_)
        (wp_verify hT (hq ▸ htoken)))
      split <;> trivial
    · refine Contract.wp_seq (wp_asks hT Bears.cons hbears) (fun _ _ h => h)
        fun authUser t ht => ?_
      obtain ⟨hbears, _, d, heval⟩ := ht
      split
      · trivial
      · rename_i user _
        have hid : user.id = claims.userId := eval_user heval
        split
        · trivial
        · rename_i org horg
          refine Contract.wp_seq (wp_asks hT Bears.cons hbears) (fun _ _ h => h)
            fun membership t ht => ?_
          split
          · trivial
          · split
            · trivial
            · obtain ⟨hbears, hf, d, heval⟩ := ht
              obtain ⟨huser, horg', hactive⟩ := eval_membership heval
              refine ⟨⟨?_, hactive, ?_⟩, huser⟩
              · rw [huser, horg', hid, ← horg]
                exact hbears
              · rw [huser, horg']
                exact hf

end

/-! ### The members -/

theorem keeps_requireAnotherOwner {P : List Deed → Prop} (hP : ∀ e l, P l → P (e :: l))
    {message : String} (hs : P (deeds i s.hist)) :
    (access D jwtVerify init i q).wp i r₀ (requireAnotherOwner m org message)
      (fun _ t => P (deeds i t.hist)) (fun _ _ => True) s := by
  unfold requireAnotherOwner
  split
  · refine Contract.wp_seq (wp_keeps hP hs fun _ => trivial) (fun _ _ h => h) fun n t ht => ?_
    split
    · trivial
    · exact ht
  · exact hs

/-- What an owner knows of a membership of the organization. -/
theorem manages_of_found {id : Uuid} (hacts : ActsAs jwtVerify q a l) (howner : a.role = .owner)
    (hm : m.organizationId = a.organizationId)
    (hf : found (.findMembershipById id) (some m) ∈ l) : Manages jwtVerify q m.id l :=
  ⟨a, hacts, howner, m, rfl, hm, id, hf⟩

theorem wp_changeMemberRole {input : ChangeMemberRoleInput}
    (hs : ActsAs jwtVerify q a (deeds i s.hist)) (howner : a.role = .owner)
    (horg : input.organizationId = a.organizationId) (hrole : input.newRole ≠ .owner) :
    (access D jwtVerify init i q).wp i r₀ (Auth.changeMemberRole input) (fun _ _ => True)
      (fun _ _ => True) s := by
  unfold Auth.changeMemberRole
  split
  · trivial
  · refine Contract.wp_seq (wp_finds ActsAs.cons hs) (fun _ _ h => h) fun membership t ht => ?_
    split
    · trivial
    · rename_i m
      split
      · trivial
      · rename_i hm
        split
        · trivial
        · have hmanages : Manages jwtVerify q m.id (deeds i t.hist) :=
            manages_of_found ht.1 howner ((not_not.mp hm).trans horg) ht.2.1
          refine Contract.wp_seq (keeps_requireAnotherOwner Manages.cons hmanages) (fun _ _ h => h)
            fun _ t ht => Contract.wp_bind.mpr ?_
          exact Contract.wp_seq (wp_permitted ht fun _ h => ⟨rfl, hrole, h⟩) (fun _ _ h => h)
            fun _ _ _ => trivial

theorem wp_removeMembership {input : RemoveMembershipInput}
    (hs : ActsAs jwtVerify q a (deeds i s.hist)) (howner : a.role = .owner)
    (horg : input.organizationId = a.organizationId) :
    (access D jwtVerify init i q).wp i r₀ (Auth.removeMembership input) (fun _ _ => True)
      (fun _ _ => True) s := by
  unfold Auth.removeMembership
  split
  · trivial
  · refine Contract.wp_seq (wp_finds ActsAs.cons hs) (fun _ _ h => h) fun membership t ht => ?_
    split
    · trivial
    · rename_i m
      split
      · trivial
      · rename_i hm
        split
        · trivial
        · have hmanages : Manages jwtVerify q m.id (deeds i t.hist) :=
            manages_of_found ht.1 howner ((not_not.mp hm).trans horg) ht.2.1
          exact Contract.wp_seq (keeps_requireAnotherOwner Manages.cons hmanages) (fun _ _ h => h)
            fun _ _ ht => wp_permitted ht fun _ h => ⟨rfl, h⟩

/-! ### The invites -/

/-- A call of the mailing of an invite needs no permission. -/
theorem accessPre_of_mails {op : Op} (h : MailsInvite op) : accessPre D jwtVerify i q op s := by
  refine accessPre_of_write fun tx wr hop => ?_
  subst hop
  cases wr <;> first | rfl | exact h.elim

theorem meets_mailInvite {inviteId : Uuid} :
    (access D jwtVerify init i q).Meets i r₀ (sendInviteInTransaction D inviteId) :=
  fun _ => Contract.wp_of_calls (Contract.Stable.true i)
    (fun _ _ hop _ _ _ => accessPre_of_mails hop) (fun _ _ _ _ _ _ _ _ _ => trivial)
    (strict_sendInvite inviteId).calls trivial

theorem meets_inviteJob {inviteId : Uuid} {messageId : JsonValue} {queue : String} :
    (access D jwtVerify init i q).Meets i r₀
      (runOnce D messageId queue none (sendInviteInTransaction D inviteId)) := by
  refine meets_runOnce (fun op t hop _ => accessPre_of_table fun T hT h => ?_)
    meets_mailInvite
  have hp : T = .processedMessages := by simpa using hop T h
  simp [hp] at hT

theorem wp_saveInvite {email : String} {role : InviteRole} {h : TokenHash} {expiresAt : Time}
    {tx : Bool} (hs : Invites jwtVerify q a org (deeds i s.hist)) :
    (access D jwtVerify init i q).wp i r₀
      (OrganizationInviteRepository.save org email role h expiresAt tx) (fun _ _ => True)
      (fun _ _ => True) s := by
  refine Contract.wp_seq (wp_keeps Invites.cons hs fun _ => trivial) (fun _ _ h => h)
    fun id t ht => Contract.wp_seq (Q := fun _ _ => True) (F := fun _ _ => True) ?_
      (fun _ _ h => h) fun _ _ _ => trivial
  refine Contract.wp_handle.mpr (Contract.wp_mono (fun _ _ h => h) (fun e _ _ => ?_)
    (wp_permitted ht fun _ h => ⟨a, h⟩))
  split <;> trivial

theorem wp_inviteUserToOrganization {input : InviteUserToOrganizationInput}
    (hs : Invites jwtVerify q a input.organizationId (deeds i s.hist)) :
    (access D jwtVerify init i q).wp i r₀ (inviteUserToOrganization D input) (fun _ _ => True)
      (fun _ _ => True) s := by
  have hcall : ∀ {op : Op} {t : AuthState}, (∀ t, accessPre D jwtVerify i q op t) →
      Invites jwtVerify q a input.organizationId (deeds i t.hist) →
      (access D jwtVerify init i q).wp i r₀ (Prog.await op)
        (fun _ t => Invites jwtVerify q a input.organizationId (deeds i t.hist))
        (fun _ _ => True) t :=
    fun hfree ht => wp_keeps Invites.cons ht hfree
  have hpending : ∀ {email : String} {t : AuthState},
      Invites jwtVerify q a input.organizationId (deeds i t.hist) →
      (access D jwtVerify init i q).wp i r₀
        (OrganizationInviteRepository.findPendingByEmailAndOrg email input.organizationId)
        (fun _ t => Invites jwtVerify q a input.organizationId (deeds i t.hist))
        (fun _ _ => True) t := by
    intro email t ht
    exact Contract.wp_seq (hcall (fun _ => trivial) ht) (fun _ _ h => h)
      fun _ t ht => hcall (fun _ => trivial) ht
  unfold inviteUserToOrganization
  split
  · trivial
  · refine Contract.wp_seq (hcall (fun _ => trivial) hs) (fun _ _ h => h) fun org t ht => ?_
    split
    · trivial
    · refine Contract.wp_seq (hcall (fun _ => trivial) ht) (fun _ _ h => h) fun now t ht => ?_
      refine Contract.wp_seq (hcall (fun _ => trivial) ht) (fun _ _ h => h) fun _ t ht => ?_
      refine Contract.wp_seq (hpending ht) (fun _ _ h => h) fun pending t ht => ?_
      split
      · trivial
      · refine Contract.wp_bind.mpr (Contract.wp_seq (hcall (fun _ => trivial) ht)
          (fun _ _ h => h) fun rawToken t ht => ?_)
        change (access D jwtVerify init i q).wp i r₀ (ite _ _ _) _ _ t
        split
        · refine Contract.wp_seq (wp_inTransaction (stable_deeds (Invites jwtVerify q a
            input.organizationId)) ht (fun op t hop _ => accessPre_of_table (by simp [hop]))
            (fun t inp r w ht _ => ?_) fun t ht => ?_) (fun _ _ h => h) fun _ _ _ => trivial
          · rw [deeds_push]
            exact ht.cons _ _
          · exact Contract.wp_seq (wp_saveInvite ht) (fun _ _ h => h)
              fun _ _ _ => Contract.Meets.await (fun _ _ => trivial) _
        · refine Contract.wp_seq (wp_saveInvite ht) (fun _ _ h => h) fun v t _ => ?_
          refine Contract.Meets.bind (.await fun _ _ => trivial) (fun id =>
            .bind (.handle (.bind (.await fun _ _ => trivial) fun _ => .done) fun _ => .done)
              fun published => ?_) t
          split
          · exact .done
          · exact .bind (.handle meets_inviteJob fun _ =>
              .bind (.await fun _ _ => trivial) fun _ => .fail) fun _ => .done

/-- What a request that accepts an invite knows once it has found it. -/
def FoundOpen (jwtVerify : JwtVerify) (q : HttpRequest) (a : Membership) (rawToken : Uuid)
    (v : OrganizationInvite) (l : List Deed) : Prop :=
  ActsAs jwtVerify q a l ∧ found (.findInviteByTokenHash (.sha256 rawToken)) (some v) ∈ l

theorem FoundOpen.cons {rawToken : Uuid} {v : OrganizationInvite} (e : Deed) (l : List Deed)
    (h : FoundOpen jwtVerify q a rawToken v l) : FoundOpen jwtVerify q a rawToken v (e :: l) :=
  ⟨h.1.cons e l, List.mem_cons_of_mem e h.2⟩

/-- And once it has found the user as well. -/
def FoundFor (jwtVerify : JwtVerify) (q : HttpRequest) (a : Membership) (rawToken : Uuid)
    (v : OrganizationInvite) (u : AuthUser) (l : List Deed) : Prop :=
  FoundOpen jwtVerify q a rawToken v l ∧ found (.findUserById u.id) (some u) ∈ l

theorem FoundFor.cons {rawToken : Uuid} {v : OrganizationInvite} {u : AuthUser} (e : Deed)
    (l : List Deed) (h : FoundFor jwtVerify q a rawToken v u l) :
    FoundFor jwtVerify q a rawToken v u (e :: l) :=
  ⟨h.1.cons e l, List.mem_cons_of_mem e h.2⟩

theorem meets_markAccepted {id : Uuid} : (access D jwtVerify init i q).Meets i r₀
    (newDate.bind fun now => OrganizationInviteRepository.markAccepted id now) :=
  .bind (.await fun _ _ => trivial) fun _ => .await fun _ _ => trivial

theorem wp_acceptsInvite {input : AcceptInviteInput} {authorization : Option String}
    (hq : q = .acceptInvite authorization input.rawToken)
    (hs : ActsAs jwtVerify q a (deeds i s.hist)) (huser : a.userId = input.userId) :
    (access D jwtVerify init i q).wp i r₀ (Auth.acceptInvite D input) (fun _ _ => True)
      (fun _ _ => True) s := by
  refine Contract.wp_seq (wp_finds ActsAs.cons hs) (fun _ _ h => h) fun invite t ht => ?_
  split
  · trivial
  · rename_i v
    split
    · trivial
    · rename_i hpending
      have hopen : FoundOpen jwtVerify q a input.rawToken v (deeds i t.hist) := ⟨ht.1, ht.2.1⟩
      refine Contract.wp_seq (wp_keeps FoundOpen.cons hopen fun _ => trivial) (fun _ _ h => h)
        fun now t hopen => ?_
      split
      · trivial
      · refine Contract.wp_seq (wp_finds FoundOpen.cons hopen) (fun _ _ h => h)
          fun found t ht => ?_
        split
        · trivial
        · rename_i u
          split
          · trivial
          · rename_i hemail
            obtain ⟨hopen, hf, d, heval⟩ := ht
            have hid := eval_user heval
            have hfor : FoundFor jwtVerify q a input.rawToken v u (deeds i t.hist) :=
              ⟨hopen, by rw [hid]; exact hf⟩
            refine Contract.wp_seq (wp_finds FoundFor.cons hfor) (fun _ _ h => h)
              fun existing t ht => ?_
            split
            · exact meets_markAccepted t
            · refine Contract.wp_seq (Q := fun _ _ => True) (F := fun _ _ => True) ?_
                (fun _ _ h => h) fun _ t _ => meets_markAccepted t
              refine Contract.wp_seq (wp_keeps FoundFor.cons ht.1 fun _ => trivial)
                (fun _ _ h => h) fun id t ht => ?_
              refine Contract.wp_seq (wp_keeps FoundFor.cons ht fun _ => trivial)
                (fun _ _ h => h) fun joinedAt t ht => ?_
              refine Contract.wp_seq (wp_permitted ht fun l hl => .inr ⟨authorization, _, hq, v, ?_⟩)
                (fun _ _ h => h) fun _ _ _ => trivial
              exact {
                actor := ⟨a, hl.1.1, huser.trans hid.symm⟩
                invite := hl.1.2
                pending := by simpa using hpending
                user := ⟨u, rfl, not_not.mp hemail, hl.2⟩
                organization := rfl
                role := rfl }

/-! ### Registering -/

theorem Made.cons {wr : Write} (e : Deed) (l : List Deed) (h : Made wr l) :
    Made wr (e :: l) :=
  h.imp fun _ h => h.imp fun _ h => List.mem_cons_of_mem e h

/-- It has made both. -/
def MadeBoth (wr wr' : Write) (l : List Deed) : Prop := Made wr l ∧ Made wr' l

theorem MadeBoth.cons {wr wr' : Write} (e : Deed) (l : List Deed)
    (h : MadeBoth wr wr' l) : MadeBoth wr wr' (e :: l) :=
  ⟨h.1.cons e l, h.2.cons e l⟩

/-- A write that is made, and needs no permission. -/
theorem wp_writes {tx : Bool} {wr : Write} {P : List Deed → Prop}
    (hP : ∀ e l, P l → P (e :: l)) (hs : P (deeds i s.hist)) (hfree : isFree wr = true) :
    (access D jwtVerify init i q).wp i r₀ (await (.write tx wr))
      (fun _ t => P (deeds i t.hist) ∧ Made wr (deeds i t.hist)) (fun _ _ => True) s := by
  refine Contract.wp_mono (fun _ t => ?_) (fun _ _ h => h)
    (wp_does hP hs fun t _ => accessPre_of_write fun _ _ h => by cases h; exact hfree)
  rintro ⟨ht, hmade, _⟩
  exact ⟨ht, tx, _, hmade⟩

/-- **A registration founds what its first member owns.** -/
theorem wp_registerInTransaction {input : RegisterInput} {email username : String}
    {passwordHash : PasswordHash} {isPublicProfile : Bool} {client : Client}
    (hq : q = .direct (.registerUser input)) :
    (access D jwtVerify init i q).wp i r₀
      (registerInTransaction D email username passwordHash isPublicProfile client)
      (fun _ _ => True) (fun _ _ => True) s := by
  refine Contract.wp_seq (Q := fun u t => Made (.createUser u) (deeds i t.hist))
    (F := fun _ _ => True) ?_ (fun _ _ h => h) fun user t huser => ?_
  · refine Contract.wp_seq (wp_keeps (P := fun _ => True) (fun _ _ h => h) trivial fun _ => trivial)
      (fun _ _ h => h) fun id t _ => ?_
    exact Contract.wp_seq (wp_writes (P := fun _ => True) (fun _ _ h => h) trivial rfl)
      (fun _ _ h => h) fun _ _ ht => ht.2
  · refine Contract.wp_seq (Q := fun o t =>
      MadeBoth (.createUser user) (.createOrganization o) (deeds i t.hist)) (F := fun _ _ => True)
      ?_ (fun _ _ h => h) fun org t horg => ?_
    · refine Contract.wp_seq (wp_keeps Made.cons huser fun _ => trivial) (fun _ _ h => h)
        fun id t huser => ?_
      exact Contract.wp_seq (wp_writes Made.cons huser rfl) (fun _ _ h => h) fun _ _ ht => ht
    · refine Contract.wp_seq (Q := fun _ _ => True) (F := fun _ _ => True) ?_ (fun _ _ h => h)
        fun _ t _ => Contract.Meets.bind meets_issueRefreshToken (fun _ => .done) t
      refine Contract.wp_seq (wp_keeps MadeBoth.cons horg fun _ => trivial) (fun _ _ h => h)
        fun id t horg => ?_
      refine Contract.wp_seq (wp_keeps MadeBoth.cons horg fun _ => trivial) (fun _ _ h => h)
        fun joinedAt t horg => ?_
      refine Contract.wp_seq (wp_permitted horg fun l hl => .inl ⟨input, hq, ?_⟩)
        (fun _ _ h => h) fun _ _ _ => trivial
      exact ⟨⟨user, rfl, hl.1⟩, ⟨org, rfl, hl.2⟩, rfl⟩

theorem meets_registers {input : RegisterInput} (hq : q = .direct (.registerUser input)) :
    (access D jwtVerify init i q).Meets i r₀ (registerUser D input) := by
  unfold registerUser
  split
  · exact .fail
  · refine .bind (.await fun _ _ => trivial) fun b => ?_
    split
    · exact .fail
    · refine .bind (.await fun _ _ => trivial) fun b => ?_
      split
      · exact .fail
      · refine .bind (.await fun _ _ => trivial) fun h => .bind ?_ fun _ =>
          .bind (.await fun _ _ => trivial) fun _ => .done
        exact meets_runInTransaction (fun op t hop _ => accessPre_of_table (by simp [hop]))
          fun _ => wp_registerInTransaction hq

/-! ### The users -/

theorem ends_updateEmail (u : AuthUser) (email : Option String) :
    (updateEmail D u email).Ends fun u' => u'.id = u.id := by
  unfold updateEmail
  split
  · rfl
  · split
    · rfl
    · refine .bind fun b => ?_
      split
      · trivial
      · split
        · trivial
        · rename_i u' hu
          dsimp only [AuthUser.changeEmail] at hu
          split at hu
          · cases hu
          · cases hu
            rfl

theorem ends_updateUsername (u : AuthUser) (username : Option String) :
    (updateUsername D u username).Ends fun u' => u'.id = u.id := by
  unfold updateUsername
  split
  · rfl
  · split
    · rfl
    · refine .bind fun b => ?_
      split
      · trivial
      · split
        · trivial
        · rename_i u' hu
          dsimp only [AuthUser.changeUsername] at hu
          split at hu
          · cases hu
          · cases hu
            rfl

theorem ends_updatePassword (u : AuthUser) (password : Option String) :
    (updatePassword u password).Ends fun u' => u'.id = u.id := by
  unfold updatePassword
  split
  · rfl
  · exact .bind fun _ => rfl

/-- A call that leaves the users alone, but for the row of one. -/
def SavesOnly (userId : Uuid) (op : Op) : Prop :=
  ∀ tx wr, op = .call (.write tx wr) → tx = false ∧ ∃ u, wr = .saveUser u ∧ u.id = userId

theorem savesOnly_of_free {userId : Uuid} {op : Op} (h : ∀ tx wr, op ≠ .call (.write tx wr)) :
    SavesOnly userId op :=
  fun tx wr hop => absurd hop (h tx wr)

theorem calls_updateEmail {userId : Uuid} {u : AuthUser} {email : Option String} :
    (updateEmail D u email).Calls (SavesOnly userId) := by
  unfold updateEmail
  split
  · trivial
  · split
    · trivial
    · refine .bind (.await (savesOnly_of_free (by simp))) fun b => ?_
      split
      · trivial
      · split <;> trivial

theorem calls_updateUsername {userId : Uuid} {u : AuthUser} {username : Option String} :
    (updateUsername D u username).Calls (SavesOnly userId) := by
  unfold updateUsername
  split
  · trivial
  · split
    · trivial
    · refine .bind (.await (savesOnly_of_free (by simp))) fun b => ?_
      split
      · trivial
      · split <;> trivial

theorem calls_updatePassword {userId : Uuid} {u : AuthUser} {password : Option String} :
    (updatePassword u password).Calls (SavesOnly userId) := by
  unfold updatePassword
  split
  · trivial
  · exact .bind (.await (savesOnly_of_free (by simp))) fun _ => trivial

theorem calls_saveUser {userId : Uuid} {u : AuthUser} (h : u.id = userId) :
    (UserRepository.save u).Calls (SavesOnly userId) :=
  .bind (.await fun _ _ hop => by cases hop; exact ⟨rfl, u, rfl, h⟩) fun _ => trivial

theorem wp_updateProfile {input : UpdateProfileInput} (hs : ActsAs jwtVerify q a (deeds i s.hist))
    (huser : a.userId = input.userId) :
    (access D jwtVerify init i q).wp i r₀ (Auth.updateProfile D input) (fun _ _ => True)
      (fun _ _ => True) s := by
  refine Contract.wp_seq (wp_finds ActsAs.cons hs) (fun _ _ h => h) fun found t ht => ?_
  split
  · trivial
  · rename_i user
    obtain ⟨hacts, _, d, heval⟩ := ht
    have hid : user.id = a.userId := (eval_user heval).trans huser.symm
    refine Contract.wp_mono (fun _ _ _ => trivial) (fun _ _ _ => trivial) (Contract.wp_of_calls
      (S := SavesOnly a.userId) (stable_deeds (ActsAs jwtVerify q a)) (fun op t hop _ ht _ => ?_)
      (fun op t inp r w _ _ ht _ => ?_) ?_ hacts)
    · cases op with
      | call c =>
        cases c with
        | write tx wr =>
          obtain ⟨htx, u, rfl, hu⟩ := hop tx wr rfl
          exact ⟨htx, .inl ⟨a, ht, hu.symm⟩⟩
        | _ => trivial
      | _ => trivial
    · rw [deeds_push]
      exact ht.cons _ _
    · refine .bind_ends calls_updateEmail (ends_updateEmail user _) fun u₁ h₁ =>
        .bind_ends calls_updateUsername (ends_updateUsername u₁ _) fun u₂ h₂ =>
          .bind_ends calls_updatePassword (ends_updatePassword _ _) fun u₃ h₃ => calls_saveUser ?_
      have htoggle : u₃.id = u₂.id := by
        rw [h₃]
        split <;> rfl
      exact htoggle.trans (h₂.trans (h₁.trans hid))

/-- The write of a user whose unused token was presented. -/
theorem wp_saveByToken {kind : TokenKind} {rawToken : Uuid} {t : OneTimeToken} {u : AuthUser}
    (hq : presented q = some (kind, rawToken)) (hu : u.id = t.userId) (hused : t.isUsed = false)
    (hs : found (.findTokenByTokenHash kind (.sha256 rawToken)) (some t) ∈ deeds i s.hist) :
    (access D jwtVerify init i q).wp i r₀ (UserRepository.save u) (fun _ _ => True)
      (fun _ _ => True) s :=
  Contract.wp_seq (wp_permitted hs fun _ h =>
    ⟨rfl, .inr ⟨kind, rawToken, hq, t, hu.symm, hused, h⟩⟩) (fun _ _ h => h) fun _ _ _ => trivial

/-- What a request has found by the token it presents. -/
def FoundToken (kind : TokenKind) (rawToken : Uuid) (t : OneTimeToken) (l : List Deed) : Prop :=
  found (.findTokenByTokenHash kind (.sha256 rawToken)) (some t) ∈ l

theorem FoundToken.cons {kind : TokenKind} {rawToken : Uuid} {t : OneTimeToken} (e : Deed)
    (l : List Deed) (h : FoundToken kind rawToken t l) :
    FoundToken kind rawToken t (e :: l) :=
  List.mem_cons_of_mem e h

theorem meets_resetsPassword {input : ResetPasswordInput}
    (hq : q = .direct (.resetPassword input)) :
    (access D jwtVerify init i q).Meets i r₀ (resetPassword input) := by
  subst hq
  unfold resetPassword
  split
  · exact .fail
  · refine .bind (.await fun _ _ => trivial) fun now s => ?_
    refine Contract.wp_seq (wp_finds (P := fun _ => True) (fun _ _ h => h) trivial)
      (fun _ _ h => h) fun found s ht => ?_
    split
    · trivial
    · rename_i t
      split
      · trivial
      · rename_i husable
        have hfound : FoundToken .passwordReset input.token t (deeds i s.hist) := ht.2.1
        refine Contract.wp_seq (wp_finds FoundToken.cons hfound) (fun _ _ h => h)
          fun user s ht => ?_
        split
        · trivial
        · rename_i u
          obtain ⟨hfound, _, d, heval⟩ := ht
          refine Contract.wp_seq (wp_keeps FoundToken.cons hfound fun _ => trivial) (fun _ _ h => h)
            fun h s hfound => ?_
          have hused : t.isUsed = false := by
            cases hu : t.isUsed
            · rfl
            · simp [hu] at husable
          have hid : u.id = t.userId := eval_user heval
          exact Contract.wp_seq (wp_saveByToken rfl hid hused hfound) (fun _ _ h => h)
            fun _ s _ => Contract.Meets.await (fun _ _ => trivial) s

theorem meets_verifiesEmail {input : VerifyEmailInput} (hq : q = .direct (.verifyEmail input)) :
    (access D jwtVerify init i q).Meets i r₀ (verifyEmail input) := by
  subst hq
  unfold verifyEmail
  refine .bind (.await fun _ _ => trivial) fun now s => ?_
  refine Contract.wp_seq (wp_finds (P := fun _ => True) (fun _ _ h => h) trivial)
    (fun _ _ h => h) fun found s ht => ?_
  split
  · trivial
  · rename_i t
    split
    · trivial
    · rename_i husable
      have hfound : FoundToken .emailVerification input.token t (deeds i s.hist) := ht.2.1
      refine Contract.wp_seq (wp_finds FoundToken.cons hfound) (fun _ _ h => h)
        fun user s ht => ?_
      split
      · trivial
      · rename_i u
        obtain ⟨hfound, _, d, heval⟩ := ht
        have hused : t.isUsed = false := by
          cases hu : t.isUsed
          · rfl
          · simp [OneTimeToken.isUsable, hu] at husable
        have hid : u.id = t.userId := eval_user heval
        exact Contract.wp_seq (wp_saveByToken rfl hid hused hfound) (fun _ _ h => h)
          fun _ s _ => Contract.Meets.await (fun _ _ => trivial) s

/-! ### Every route -/

/-- What comes without the middleware. -/
theorem meets_direct {r : Request} (h : isDirect r = true) :
    (access D jwtVerify init i (.direct r)).Meets i r₀ (handle D r) := by
  cases r with
  | registerUser input => exact .bind (meets_registers rfl) fun _ => .done
  | resetPassword input => exact .bind (meets_resetsPassword rfl) fun _ => .done
  | verifyEmail input => exact .bind (meets_verifiesEmail rfl) fun _ => .done
  | sendInviteEmail msg queue =>
    refine .bind ?_ fun _ => .done
    unfold sendInviteEmail handleIdJob
    split
    · exact .fail
    · exact meets_inviteJob
  | switchOrganization input => cases h
  | changeMemberRole input => cases h
  | removeMembership input => cases h
  | acceptInvite input => cases h
  | inviteUserToOrganization input => cases h
  | updateProfile input => cases h
  | _ => exact meets_untouchedBy (by simp [Request.footprint]) (uses_handle _)

theorem wp_assertHasOrgRole {req : AuthenticatedRequest} {roles : List MembershipRole}
    {P : AuthState → Prop} (hs : P s) :
    (access D jwtVerify init i q).wp i r₀ (assertHasOrgRole req roles)
      (fun _ t => req.membership.role ∈ roles ∧ P t) (fun _ _ => True) s := by
  unfold assertHasOrgRole
  split
  · rename_i h
    exact ⟨h, hs⟩
  · trivial

/-- What a controller starts from. -/
theorem wp_routed {α : Type} {authorization : Option String} {f : AuthenticatedRequest → Async α}
    (hq : header q = authorization)
    (hf : ∀ req t, ActsAs jwtVerify q req.membership (deeds i t.hist) →
      req.membership.userId = req.user.id →
      (access D jwtVerify init i q).wp i r₀ (f req) (fun _ _ => True) (fun _ _ => True) t) :
    (access D jwtVerify init i q).Meets i r₀ ((authMiddleware jwtVerify authorization).bind f) :=
  fun _ => Contract.wp_seq (wp_authMiddleware letsAsk_access hq) (fun _ _ h => h)
    fun req t ht => hf req t ht.1 ht.2

/-- **Every route keeps to what it has found.** -/
theorem meets_respond (hq : ∀ r, q = .direct r → isDirect r = true) :
    (access D jwtVerify init i q).Meets i r₀ (respond D jwtVerify q) := by
  cases q with
  | direct r => exact meets_direct (hq r rfl)
  | getProfile authorization =>
    refine wp_routed rfl fun req t _ _ => Contract.Meets.bind (.bind (.await fun _ _ => trivial)
      fun user => ?_) (fun _ => .done) t
    cases user with
    | none => exact .fail
    | some user => exact .done
  | updateProfile authorization email username password isPublicProfile =>
    exact wp_routed rfl fun req t hacts huser =>
      Contract.wp_seq (wp_updateProfile hacts huser) (fun _ _ h => h) fun _ _ _ => trivial
  | resendVerification authorization => exact wp_routed rfl fun _ _ _ _ => trivial
  | switchOrg authorization organizationId client =>
    exact wp_routed rfl fun req t _ _ => Contract.Meets.bind
      (meets_untouchedBy (by simp) (uses_switchOrganization _)) (fun _ => .done) t
  | createInvite authorization organizationId email role =>
    refine wp_routed rfl fun req t hacts _ => Contract.wp_bind.mpr ?_
    unfold createInvite
    split
    · trivial
    · rename_i horg
      refine Contract.wp_seq (wp_assertHasOrgRole (P := fun t => ActsAs jwtVerify _ req.membership
        (deeds i t.hist)) hacts) (fun _ _ h => h) fun _ t ht => ?_
      refine Contract.wp_mono (fun _ _ _ => trivial) (fun _ _ _ => trivial)
        (wp_inviteUserToOrganization ⟨ht.2, not_not.mp horg, fun hm => ?_⟩)
      simp [hm] at ht
  | acceptInvite authorization token =>
    exact wp_routed rfl fun req t hacts huser =>
      Contract.wp_seq (wp_acceptsInvite rfl hacts huser) (fun _ _ h => h) fun _ _ _ => trivial
  | removeMembership authorization membershipId =>
    refine wp_routed rfl fun req t hacts _ => Contract.wp_bind.mpr (Contract.wp_seq
      (wp_assertHasOrgRole (P := fun t => ActsAs jwtVerify _ req.membership (deeds i t.hist)) hacts)
      (fun _ _ h => h) fun _ t ht => ?_)
    exact Contract.wp_mono (fun _ _ _ => trivial) (fun _ _ _ => trivial)
      (wp_removeMembership ht.2 (List.mem_singleton.mp ht.1) rfl)
  | changeMemberRole authorization membershipId role =>
    refine wp_routed rfl fun req t hacts _ => Contract.wp_bind.mpr (Contract.wp_seq
      (wp_assertHasOrgRole (P := fun t => ActsAs jwtVerify _ req.membership (deeds i t.hist)) hacts)
      (fun _ _ h => h) fun _ t ht => ?_)
    refine Contract.wp_mono (fun _ _ _ => trivial) (fun _ _ _ => trivial)
      (wp_changeMemberRole ht.2 (List.mem_singleton.mp ht.1) rfl ?_)
    cases role <;> simp [InviteRole.toMembershipRole]
  | adminPing authorization =>
    refine wp_routed rfl fun req t _ _ => Contract.wp_seq (wp_assertHasOrgRole (P := fun _ => True)
      trivial) (fun _ _ h => h) fun _ _ _ => trivial

end LakiraBackend.Auth.Routes
