import LakiraBackend.Auth.Steps

/-!
# Which tables each use case writes

`Within Ts` is the calls that write no table outside `Ts`, and every use case gets
its footprint.  An invariant of some tables then only has to look at the use
cases that write them.
-/

namespace LakiraBackend.Auth

open LakiraBackend.Concurrency

/-- The table an UPDATE over many rows writes. -/
def Update.table : Update → Table
  | .revokeFamily _ _ => .refreshTokens
  | .useAllForUser kind _ _ => .tokens kind

theorem statement_write_table (st : Statement) : st.write.table = st.update.table := by
  obtain ⟨tx, u, ids⟩ := st
  cases u <;> rfl

/-- The table of the token that a mail carries. -/
def MailBody.table : MailBody → Table
  | .passwordReset _ _ => .tokens .passwordReset
  | .emailVerification _ _ => .tokens .emailVerification
  | .organizationInvite _ _ _ => .invites

/-- The table a call writes, or locks a row of; a mail counts with its token's. -/
def Op.table : Op → Option Table
  | .call (.send m) => some m.body.table
  | .call (.write _ w) => some w.table
  | .call (.startUpdate _ u) => some u.table
  | .call (.finishUpdate _ u) => some u.table
  | .call (.findRefreshTokenForUpdate _) => some .refreshTokens
  | _ => none

def Within (Ts : List Table) (op : Op) : Prop := ∀ T, op.table = some T → T ∈ Ts

theorem within_of_none {Ts : List Table} {op : Op} (h : op.table = none) : Within Ts op := by
  intro T hT
  rw [h] at hT
  cases hT

theorem within_of_table {Ts : List Table} {op : Op} {T : Table} (h : op.table = some T)
    (hT : T ∈ Ts) : Within Ts op := by
  intro T' hT'
  cases h.symm.trans hT'
  exact hT

/-- What a program does with the tables `Ts` alone. -/
abbrev Uses {α : Type} (Ts : List Table) (p : Async α) : Prop := p.Calls (Within Ts)

variable {D : Deps} {Ts : List Table} {α : Type}

theorem uses_call {c : Call} (h : Within Ts (.call c)) : Uses Ts (await c) := Prog.Calls.await h

theorem uses_read {tx : Bool} {q : Read} : Uses Ts (await (.read tx q)) :=
  uses_call (within_of_none rfl)

theorem uses_write {tx : Bool} {w : Write} (h : w.table ∈ Ts) : Uses Ts (await (.write tx w)) :=
  uses_call (within_of_table rfl h)

theorem uses_newDate : Uses Ts newDate := Prog.Calls.await (within_of_none rfl)

theorem uses_randomUUID : Uses Ts randomUUID := Prog.Calls.await (within_of_none rfl)

theorem uses_randomBytes : Uses Ts randomBytes := Prog.Calls.await (within_of_none rfl)

theorem uses_anyOf : Uses Ts anyOf := Prog.Calls.await (within_of_none rfl)

theorem uses_send {m : EmailMessage} (h : m.body.table ∈ Ts) : Uses Ts (await (.send m)) :=
  uses_call (within_of_table rfl h)

theorem uses_sign {t : TokenPayload} : Uses Ts (await (.sign t)) := uses_call (within_of_none rfl)

theorem uses_hash {s : String} : Uses Ts (await (.hash s)) := uses_call (within_of_none rfl)

theorem uses_update {tx : Bool} {u : Update} (h : u.table ∈ Ts) : Uses Ts (update u tx) :=
  .bind (uses_call (within_of_table rfl h)) fun _ => uses_call (within_of_table rfl h)

theorem uses_attempt {p : Async α} (h : Uses Ts p) : Uses Ts (attempt p) :=
  .handle (.bind h fun _ => trivial) fun _ => trivial

theorem uses_runInTransaction {body : Async α} (h : Uses Ts body) :
    Uses Ts (runInTransaction body) := by
  refine .handle (.bind (uses_call (within_of_none rfl)) fun _ => .bind h fun _ =>
    .bind (uses_call (within_of_none rfl)) fun _ => trivial) fun _ => ?_
  exact .bind (.handle (uses_call (within_of_none rfl)) fun _ => trivial) fun _ => trivial

theorem uses_claimMessage {p : ProcessedMessage} (h : .processedMessages ∈ Ts) :
    Uses Ts (claimMessage p) := by
  refine .handle (uses_write h) fun e => ?_
  cases e <;> trivial

theorem uses_runOnce {messageId : JsonValue} {queue : String} {org : Option Uuid}
    {work : Async Unit} (hp : .processedMessages ∈ Ts) (hw : Uses Ts work) :
    Uses Ts (runOnce D messageId queue org work) := by
  unfold runOnce
  split
  · trivial
  · refine .handle (.bind (uses_runInTransaction (.bind (uses_claimMessage hp) fun _ => hw))
      fun _ => trivial) fun e => ?_
    cases e <;> trivial

theorem calls_promiseAll {S : Op → Prop} (hpick : S .pick) {fuel : Nat} {ps : List (Async Unit)}
    {err : Option Err} (h : ∀ p ∈ ps, p.Calls S) : (promiseAll fuel ps err).Calls S := by
  induction fuel generalizing ps err with
  | zero => cases err <;> trivial
  | succ fuel ih =>
    refine .bind (.await hpick) fun k => ?_
    split
    · exact ih fun p hp => nomatch hp
    · exact ih fun p hp => h p (List.mem_of_mem_eraseIdx hp)
    · exact ih fun p hp => h p (List.mem_of_mem_eraseIdx hp)
    · rename_i op next hn
      obtain ⟨hop, hk⟩ := h _ (List.mem_of_getElem? hn)
      refine ⟨hop, fun r => ih fun p hp => ?_⟩
      rcases List.mem_or_eq_of_mem_set hp with hp | rfl
      · exact h p hp
      · exact hk r

/-! ### Memberships and invites -/

theorem uses_requireAnotherOwner {m : Membership} {org : Uuid} {message : String} :
    Uses Ts (requireAnotherOwner m org message) := by
  unfold requireAnotherOwner
  split
  · refine .bind uses_read fun n => ?_
    split <;> trivial
  · trivial

theorem uses_changeMemberRole (input : ChangeMemberRoleInput) :
    Uses [.memberships] (changeMemberRole input) := by
  unfold changeMemberRole
  split
  · trivial
  · refine .bind uses_read fun m => ?_
    split
    · trivial
    · split
      · trivial
      · split
        · trivial
        · exact .bind uses_requireAnotherOwner fun _ => .bind
            (.bind (uses_write (List.mem_singleton_self _)) fun _ => trivial) fun _ => trivial

theorem uses_removeMembership (input : RemoveMembershipInput) :
    Uses [.memberships] (removeMembership input) := by
  unfold removeMembership
  split
  · trivial
  · refine .bind uses_read fun m => ?_
    split
    · trivial
    · split
      · trivial
      · split
        · trivial
        · exact .bind uses_requireAnotherOwner fun _ => uses_write (List.mem_singleton_self _)

theorem uses_createMembership {userId org : Uuid} {role : MembershipRole}
    {status : Option MembershipStatus} {tx : Bool} (h : .memberships ∈ Ts) :
    Uses Ts (MembershipRepository.create userId org role status tx) :=
  .bind uses_randomUUID fun _ => .bind uses_newDate fun _ => .bind (uses_write h) fun _ => trivial

theorem uses_acceptInvite (input : AcceptInviteInput) :
    Uses [.memberships, .invites] (acceptInvite D input) := by
  unfold acceptInvite
  refine .bind uses_read fun v => ?_
  split
  · trivial
  · split
    · trivial
    · refine .bind uses_newDate fun now => ?_
      split
      · trivial
      · refine .bind uses_read fun u => ?_
        split
        · trivial
        · split
          · trivial
          · refine .bind uses_read fun m => ?_
            split
            · exact .bind uses_newDate fun _ => uses_write (by simp [Write.table])
            · exact .bind (uses_createMembership (by simp)) fun _ =>
                .bind uses_newDate fun _ => uses_write (by simp [Write.table])

theorem uses_mintToken : Uses Ts mintToken := .bind uses_randomBytes fun _ => trivial

/-- A call of the mailing of an invite: what is read, the hash of a new token, and the mail. -/
def MailsInvite : Op → Prop
  | .call (.read _ _) => True
  | .call (.write tx (.replaceInviteTokenHash _ _)) => tx = true
  | .call (.send m) => m.body.table = .invites
  | .call _ => False
  | _ => True

/-- **The mailing of an invite handles no error**, and throws none of its own. -/
theorem strict_sendInvite (inviteId : Uuid) :
    (sendInviteInTransaction D inviteId).Strict MailsInvite fun _ => False := by
  refine .bind (.await trivial) fun invite => ?_
  cases invite with
  | none => exact .done
  | some invite =>
    dsimp only
    split
    · exact .done
    · refine .bind (.await trivial) fun now => ?_
      split
      · exact .done
      · refine .bind (.await trivial) fun org => ?_
        cases org with
        | none => exact .done
        | some org =>
          exact .bind (.bind (.await trivial) fun _ => .done) fun _ =>
            .bind (.await rfl) fun _ => .await rfl

theorem MailsInvite.within {op : Op} (h : MailsInvite op) (hT : .invites ∈ Ts) : Within Ts op := by
  cases op with
  | call c =>
    cases c with
    | write tx wr =>
      cases wr with
      | replaceInviteTokenHash id tokenHash => exact within_of_table rfl hT
      | _ => exact h.elim
    | send m => exact within_of_table (congrArg some h) hT
    | read tx q => exact within_of_none rfl
    | _ => exact h.elim
  | _ => exact within_of_none rfl

theorem uses_sendInviteInTransaction (inviteId : Uuid) (h : .invites ∈ Ts) :
    Uses Ts (sendInviteInTransaction D inviteId) :=
  (strict_sendInvite inviteId).calls.mono fun _ hop => hop.within h

theorem uses_saveInvite {org : Uuid} {email : String} {role : InviteRole} {h : TokenHash}
    {t : Time} {tx : Bool} (hT : .invites ∈ Ts) :
    Uses Ts (OrganizationInviteRepository.save org email role h t tx) := by
  refine .bind uses_randomUUID fun _ => .bind (.handle (uses_write hT) fun e => ?_) fun _ => trivial
  split <;> trivial

theorem uses_inviteUserToOrganization (input : InviteUserToOrganizationInput) :
    Uses [.invites, .processedMessages] (inviteUserToOrganization D input) := by
  have hT : .invites ∈ [Table.invites, .processedMessages] := by simp
  unfold inviteUserToOrganization
  split
  · trivial
  · refine .bind uses_read fun o => ?_
    split
    · trivial
    · refine .bind uses_newDate fun now => .bind (uses_write hT) fun _ =>
        .bind (.bind uses_newDate fun _ => uses_read) fun v => ?_
      split
      · trivial
      · refine .bind uses_mintToken fun ⟨rawToken, tokenHash⟩ => ?_
        dsimp only
        split
        · exact .bind (uses_runInTransaction (.bind (uses_saveInvite hT) fun _ => uses_send hT))
            fun _ => trivial
        · refine .bind (uses_saveInvite hT) fun v => .bind uses_randomUUID fun id =>
            .bind (uses_attempt (uses_call (within_of_none rfl))) fun r => ?_
          split
          · trivial
          · refine .bind (.handle (uses_runOnce (by simp) (uses_sendInviteInTransaction _ hT))
              fun _ => .bind (uses_write hT) fun _ => trivial) fun _ => trivial

/-! ### The users row and its tokens -/

theorem uses_updateProfile (input : UpdateProfileInput) :
    Uses [.users] (updateProfile D input) := by
  have hemail : ∀ u, Uses [.users] (updateEmail D u input.email) := by
    intro u
    unfold updateEmail
    split
    · trivial
    · split
      · trivial
      · refine .bind uses_read fun b => ?_
        split
        · trivial
        · split <;> trivial
  have hname : ∀ u, Uses [.users] (updateUsername D u input.username) := by
    intro u
    unfold updateUsername
    split
    · trivial
    · split
      · trivial
      · refine .bind uses_read fun b => ?_
        split
        · trivial
        · split <;> trivial
  have hpassword : ∀ u, Uses [.users] (updatePassword u input.password) := by
    intro u
    unfold updatePassword
    split
    · trivial
    · exact .bind uses_hash fun _ => trivial
  unfold updateProfile
  refine .bind uses_read fun u => ?_
  split
  · trivial
  · exact .bind (hemail _) fun _ => .bind (hname _) fun _ => .bind (hpassword _) fun _ =>
      .bind (uses_write (by simp [Write.table])) fun _ => trivial

theorem uses_resetPassword (input : ResetPasswordInput) :
    Uses [.users, .tokens .passwordReset] (resetPassword input) := by
  unfold resetPassword
  split
  · trivial
  · refine .bind uses_newDate fun now => .bind uses_read fun t => ?_
    split
    · trivial
    · split
      · trivial
      · refine .bind uses_read fun u => ?_
        split
        · trivial
        · exact .bind uses_hash fun _ => .bind
            (.bind (uses_write (by simp [Write.table])) fun _ => trivial) fun _ =>
            uses_write (by simp [Write.table])

theorem uses_verifyEmail (input : VerifyEmailInput) :
    Uses [.users, .tokens .emailVerification] (verifyEmail input) := by
  unfold verifyEmail
  refine .bind uses_newDate fun now => .bind uses_read fun t => ?_
  split
  · trivial
  · split
    · trivial
    · refine .bind uses_read fun u => ?_
      split
      · trivial
      · exact .bind (.bind (uses_write (by simp [Write.table])) fun _ => trivial) fun _ =>
          uses_write (by simp [Write.table])

theorem uses_createToken {kind : TokenKind} {userId : Uuid} {h : TokenHash} {t : Time} {tx : Bool}
    (hT : .tokens kind ∈ Ts) : Uses Ts (OneTimeTokenRepository.create kind userId h t tx) :=
  .bind uses_randomUUID fun _ => .bind (uses_write hT) fun _ => trivial

theorem uses_issueResetToken {user : AuthUser} {tx : Bool} (h : .tokens .passwordReset ∈ Ts) :
    Uses Ts (issueResetToken D user tx) :=
  .bind uses_newDate fun _ => .bind (uses_update h) fun _ => .bind uses_randomBytes fun _ =>
    .bind (uses_createToken h) fun _ => trivial

theorem ends_issueResetToken {user : AuthUser} {tx : Bool} :
    (issueResetToken D user tx).Ends fun m => m.body.table = .tokens .passwordReset :=
  .bind fun _ => .bind fun _ => .bind fun _ => .bind fun _ => rfl

theorem uses_sendPasswordResetInTransaction (userId : Uuid) (h : .tokens .passwordReset ∈ Ts) :
    Uses Ts (sendPasswordResetInTransaction D userId) := by
  unfold sendPasswordResetInTransaction
  refine .bind uses_read fun u => ?_
  split
  · trivial
  · exact .bind_ends (uses_issueResetToken h) ends_issueResetToken
      fun _ hm => uses_send (hm ▸ h)

theorem uses_requestPasswordReset (input : RequestPasswordResetInput) :
    Uses [.tokens .passwordReset, .processedMessages] (requestPasswordReset D input) := by
  unfold requestPasswordReset
  refine .bind uses_read fun u => ?_
  split
  · trivial
  · split
    · refine .bind uses_randomUUID fun id =>
        .bind (uses_attempt (uses_call (within_of_none rfl))) fun r => ?_
      split
      · trivial
      · exact .handle (.bind (uses_runOnce (by simp)
          (uses_sendPasswordResetInTransaction _ (by simp))) fun _ => trivial) fun _ => trivial
    · exact .bind (.bind_ends (uses_issueResetToken (by simp)) ends_issueResetToken fun _ hm =>
        .handle (uses_send (by simp [hm])) fun _ => trivial) fun _ => trivial

theorem uses_issueVerificationToken {userId : Uuid} {tx : Bool}
    (h : .tokens .emailVerification ∈ Ts) : Uses Ts (issueVerificationToken D userId tx) := by
  unfold issueVerificationToken
  refine .bind uses_read fun u => ?_
  split
  · trivial
  · split
    · trivial
    · exact .bind uses_newDate fun _ => .bind (uses_update h) fun _ => .bind uses_randomBytes
        fun _ => .bind (uses_createToken h) fun _ => trivial

theorem ends_issueVerificationToken {userId : Uuid} {tx : Bool} :
    (issueVerificationToken D userId tx).Ends
      fun m => ∀ email, m = some email → email.body.table = .tokens .emailVerification := by
  refine .bind fun u => ?_
  split
  · exact fun _ h => nomatch h
  · split
    · exact fun _ h => nomatch h
    · refine .bind fun _ => .bind fun _ => .bind fun _ => .bind fun _ => ?_
      rintro _ ⟨⟩
      rfl

theorem uses_requestEmailVerification (userId : Uuid) :
    Uses [.tokens .emailVerification] (requestEmailVerification D userId) := by
  unfold requestEmailVerification
  refine .bind_ends (uses_issueVerificationToken (by simp)) ends_issueVerificationToken fun m hm => ?_
  split
  · trivial
  · exact .handle (uses_send (by simp [hm _ rfl])) fun _ => trivial

theorem uses_sendVerificationInTransaction (userId : Uuid) (h : .tokens .emailVerification ∈ Ts) :
    Uses Ts (sendVerificationInTransaction D userId) := by
  unfold sendVerificationInTransaction
  refine .bind_ends (uses_issueVerificationToken h) ends_issueVerificationToken fun m hm => ?_
  split
  · trivial
  · exact uses_send (hm _ rfl ▸ h)

/-! ### Jobs -/

theorem uses_handleIdJob {name message queue : String} {work : Uuid → Async Unit}
    {msg : IncomingMessage} (hp : .processedMessages ∈ Ts) (hw : ∀ id, Uses Ts (work id)) :
    Uses Ts (handleIdJob D name message work msg queue) := by
  unfold handleIdJob
  split
  · trivial
  · exact uses_runOnce hp (hw _)

theorem uses_verificationJob (userId messageId : Uuid) :
    Uses [.tokens .emailVerification, .processedMessages]
      (sendVerificationJobInProcess D userId messageId) :=
  uses_runOnce (by simp) (uses_sendVerificationInTransaction _ (by simp))

theorem uses_sendPasswordResetEmail (msg : IncomingMessage) (queue : String) :
    Uses [.tokens .passwordReset, .processedMessages] (sendPasswordResetEmail D msg queue) :=
  uses_handleIdJob (by simp) fun _ => uses_sendPasswordResetInTransaction _ (by simp)

theorem uses_sendVerificationEmail (msg : IncomingMessage) (queue : String) :
    Uses [.tokens .emailVerification, .processedMessages] (sendVerificationEmail D msg queue) :=
  uses_handleIdJob (by simp) fun _ => uses_sendVerificationInTransaction _ (by simp)

theorem uses_sendInviteEmail (msg : IncomingMessage) (queue : String) :
    Uses [.invites, .processedMessages] (sendInviteEmail D msg queue) :=
  uses_handleIdJob (by simp) fun _ => uses_sendInviteInTransaction _ (by simp)

theorem uses_createMetricLog {metricId org : Uuid} {value : Int} {t : Time} {type : LogType}
    {tx : Bool} (h : .metricLogs ∈ Ts) :
    Uses Ts (MetricLogRepository.create metricId org value t type tx) :=
  .bind uses_randomUUID fun _ => .bind (uses_write h) fun _ => trivial

theorem uses_createDummyLogs {job : DummyLogsJob} {n : Nat} (h : .metricLogs ∈ Ts) :
    Uses Ts (createDummyLogs job n) := by
  induction n with
  | zero => trivial
  | succ n ih =>
    exact .bind uses_anyOf fun _ => .bind uses_newDate fun _ => .bind uses_anyOf fun _ =>
      .bind uses_anyOf fun _ => .bind (uses_createMetricLog h) fun _ => ih

theorem uses_ensureMetricOwnership {userId org metricId : Uuid} :
    Uses Ts (ensureMetricOwnership userId org metricId) := by
  refine .bind uses_read fun m => ?_
  split
  · trivial
  · split <;> trivial

theorem uses_generateDummyMetricLogs (msg : IncomingMessage) (queue : String) :
    Uses [.metricLogs, .processedMessages] (generateDummyMetricLogs D msg queue) := by
  unfold generateDummyMetricLogs
  split
  · trivial
  · refine .bind (.handle uses_ensureMetricOwnership fun e => ?_) fun _ =>
      .bind (uses_runOnce (by simp) (uses_createDummyLogs (by simp))) fun _ =>
        .bind ?_ fun _ => trivial
    · unfold terminalIfRefused
      split
      · split <;> trivial
      · trivial
    · unfold invalidateCache
      split
      · exact uses_call (within_of_none rfl)
      · trivial

/-! ### Sessions -/

theorem uses_issueRefreshToken {input : IssueRefreshTokenInput} {tx : Bool}
    (h : .refreshTokens ∈ Ts) : Uses Ts (issueRefreshToken D input tx) := by
  refine .bind uses_randomBytes fun raw => .bind ?_ fun t => .bind (uses_write h) fun _ => trivial
  refine .bind uses_newDate fun now => .bind uses_randomUUID fun id => ?_
  cases input.familyId with
  | none => exact .bind uses_randomUUID fun f => trivial
  | some f => trivial

theorem uses_organizationOf {t : RefreshToken} : Uses Ts (organizationOf t) := by
  unfold organizationOf
  split
  · refine .bind uses_read fun m => ?_
    split
    · trivial
    · split <;> trivial
  · refine .bind uses_read fun m => ?_
    split <;> trivial

theorem uses_rotateInTransaction {raw : Uuid} {client : Client} (h : .refreshTokens ∈ Ts) :
    Uses Ts (rotateInTransaction D raw client) := by
  unfold rotateInTransaction
  refine .bind (uses_call (within_of_table rfl h)) fun t => ?_
  split
  · trivial
  · split
    · trivial
    · refine .bind uses_newDate fun now => ?_
      split
      · trivial
      · refine .bind uses_read fun u => ?_
        split
        · trivial
        · refine .bind uses_organizationOf fun org => .bind ?_ fun raw' =>
            .bind uses_sign fun _ => trivial
          refine .bind uses_newDate fun now => .bind (uses_issueRefreshToken h) fun r => ?_
          dsimp only
          split
          · trivial
          · exact .bind (uses_write h) fun _ => trivial

theorem uses_revokeFamily {f : Uuid} (h : .refreshTokens ∈ Ts) :
    Uses Ts (RefreshTokenRepository.revokeFamily f) :=
  .bind uses_newDate fun _ => uses_update h

theorem uses_rotateRefreshToken (input : RotateRefreshTokenInput) :
    Uses [.refreshTokens] (rotateRefreshToken D input) := by
  refine .bind (uses_runInTransaction (uses_rotateInTransaction (by simp))) fun r => ?_
  split
  · trivial
  · exact .bind (uses_revokeFamily (by simp)) fun _ => trivial

theorem uses_revokeRefreshTokenFamily (raw : Uuid) :
    Uses [.refreshTokens] (revokeRefreshTokenFamily raw) := by
  refine .bind uses_read fun t => ?_
  split
  · trivial
  · exact uses_revokeFamily (by simp)

theorem uses_switchOrganization (input : SwitchOrganizationInput) :
    Uses [.refreshTokens] (switchOrganization D input) := by
  refine .bind uses_read fun m => ?_
  split
  · trivial
  · refine .bind uses_read fun u => ?_
    split
    · trivial
    · refine .bind (.bind uses_newDate fun _ => uses_read) fun ts => .bind ?_ fun _ =>
        .bind uses_sign fun _ => .bind (uses_issueRefreshToken (by simp)) fun _ => trivial
      refine calls_promiseAll (within_of_none rfl) fun p hp => ?_
      obtain ⟨f, _, rfl⟩ := List.mem_map.mp hp
      exact uses_revokeFamily (by simp)

theorem uses_refuseLogin {email : String} : Uses Ts (refuseLogin email) :=
  .bind (uses_call (within_of_none rfl)) fun _ => trivial

theorem uses_loginUser (input : LoginInput) : Uses [.refreshTokens] (loginUser D input) := by
  refine .bind uses_read fun u => ?_
  split
  · exact uses_refuseLogin
  · refine .bind (uses_call (within_of_none rfl)) fun v => ?_
    split
    · exact uses_refuseLogin
    · refine .bind uses_read fun m => ?_
      split
      · trivial
      · exact .bind uses_sign fun _ => .bind (uses_issueRefreshToken (by simp)) fun _ =>
          .bind (uses_call (within_of_none rfl)) fun _ => trivial

theorem uses_createUser {email username : String} {h : PasswordHash} {pub tx : Bool}
    (hT : .users ∈ Ts) : Uses Ts (UserRepository.create email username h pub tx) :=
  .bind uses_randomUUID fun _ => .bind (uses_write hT) fun _ => trivial

theorem uses_createOrganization {name slug : String} {tx : Bool} (hT : .organizations ∈ Ts) :
    Uses Ts (OrganizationRepository.create name slug tx) :=
  .bind uses_randomUUID fun _ => .bind (uses_write hT) fun _ => trivial

theorem uses_registerUser (input : RegisterInput) :
    Uses [.users, .organizations, .memberships, .refreshTokens] (registerUser D input) := by
  unfold registerUser
  split
  · trivial
  · refine .bind uses_read fun b => ?_
    split
    · trivial
    · refine .bind uses_read fun b => ?_
      split
      · trivial
      · refine .bind uses_hash fun h => .bind (uses_runInTransaction ?_) fun _ =>
          .bind uses_sign fun _ => trivial
        exact .bind (uses_createUser (by simp)) fun _ =>
          .bind (uses_createOrganization (by simp)) fun _ =>
            .bind (uses_createMembership (by simp)) fun _ =>
              .bind (uses_issueRefreshToken (by simp)) fun _ => trivial

/-! ### Every request -/

/-- The tables a request may write. -/
def Request.footprint : Request → List Table
  | .registerUser _ => [.users, .organizations, .memberships, .refreshTokens]
  | .loginUser _ => [.refreshTokens]
  | .rotateRefreshToken _ => [.refreshTokens]
  | .revokeRefreshTokenFamily _ => [.refreshTokens]
  | .switchOrganization _ => [.refreshTokens]
  | .changeMemberRole _ => [.memberships]
  | .removeMembership _ => [.memberships]
  | .acceptInvite _ => [.memberships, .invites]
  | .inviteUserToOrganization _ => [.invites, .processedMessages]
  | .updateProfile _ => [.users]
  | .requestPasswordReset _ => [.tokens .passwordReset, .processedMessages]
  | .resetPassword _ => [.users, .tokens .passwordReset]
  | .requestEmailVerification _ => [.tokens .emailVerification]
  | .verificationJob _ _ => [.tokens .emailVerification, .processedMessages]
  | .verifyEmail _ => [.users, .tokens .emailVerification]
  | .sendPasswordResetEmail _ _ => [.tokens .passwordReset, .processedMessages]
  | .sendVerificationEmail _ _ => [.tokens .emailVerification, .processedMessages]
  | .sendInviteEmail _ _ => [.invites, .processedMessages]
  | .generateDummyMetricLogs _ _ => [.metricLogs, .processedMessages]

/-- **A request writes no other table.** -/
theorem uses_handle (q : Request) : Uses q.footprint (handle D q) := by
  cases q with
  | registerUser input => exact .bind (uses_registerUser input) fun _ => trivial
  | loginUser input => exact .bind (uses_loginUser input) fun _ => trivial
  | rotateRefreshToken input => exact .bind (uses_rotateRefreshToken input) fun _ => trivial
  | revokeRefreshTokenFamily raw => exact .bind (uses_revokeRefreshTokenFamily raw) fun _ => trivial
  | switchOrganization input => exact .bind (uses_switchOrganization input) fun _ => trivial
  | changeMemberRole input => exact .bind (uses_changeMemberRole input) fun _ => trivial
  | removeMembership input => exact .bind (uses_removeMembership input) fun _ => trivial
  | acceptInvite input => exact .bind (uses_acceptInvite input) fun _ => trivial
  | inviteUserToOrganization input =>
    exact .bind (uses_inviteUserToOrganization input) fun _ => trivial
  | updateProfile input => exact .bind (uses_updateProfile input) fun _ => trivial
  | requestPasswordReset input => exact .bind (uses_requestPasswordReset input) fun _ => trivial
  | resetPassword input => exact .bind (uses_resetPassword input) fun _ => trivial
  | requestEmailVerification userId =>
    exact .bind (uses_requestEmailVerification userId) fun _ => trivial
  | verificationJob userId messageId =>
    exact .bind (uses_verificationJob userId messageId) fun _ => trivial
  | verifyEmail input => exact .bind (uses_verifyEmail input) fun _ => trivial
  | sendPasswordResetEmail msg queue =>
    exact .bind (uses_sendPasswordResetEmail msg queue) fun _ => trivial
  | sendVerificationEmail msg queue =>
    exact .bind (uses_sendVerificationEmail msg queue) fun _ => trivial
  | sendInviteEmail msg queue => exact .bind (uses_sendInviteEmail msg queue) fun _ => trivial
  | generateDummyMetricLogs msg queue =>
    exact .bind (uses_generateDummyMetricLogs msg queue) fun _ => trivial

end LakiraBackend.Auth
