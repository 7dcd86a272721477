import LakiraBackend.Auth.Repositories

/-!
# Use cases on memberships and invites
-/

namespace LakiraBackend.Auth

open LakiraBackend.Concurrency

structure ChangeMemberRoleInput : Type where
  membershipId : Uuid
  organizationId : Uuid
  newRole : MembershipRole
  actorRole : String

/-- An owner is demoted or removed only while another is counted. -/
def requireAnotherOwner (membership : Membership) (organizationId : Uuid) (message : String) :
    Async Unit := do
  if membership.isOwner then
    let ownerCount ← MembershipRepository.countByOrgAndRole organizationId .owner
    if ownerCount ≤ 1 then throw (validationError message) else pure ()
  else pure ()

/-- `ChangeMemberRole.execute`. -/
def changeMemberRole (input : ChangeMemberRoleInput) : Async Unit := do
  if input.actorRole ≠ "owner" then
    throw (forbiddenError "Forbidden: only owner can change member roles")
  else do
    let membership ← MembershipRepository.findById input.membershipId
    match membership with
    | none => throw (notFoundError "Membership not found")
    | some membership =>
      if membership.organizationId ≠ input.organizationId then
        throw (notFoundError "Membership not found")
      else if membership.role = input.newRole then pure ()
      else do
        requireAnotherOwner membership input.organizationId
          "Cannot demote the last owner of the organization"
        let _ ← MembershipRepository.save (membership.changeRole input.newRole)
        pure ()

structure RemoveMembershipInput : Type where
  membershipId : Uuid
  organizationId : Uuid
  actorRole : String
  actorUserId : Uuid

/-- `RemoveMembership.execute`. -/
def removeMembership (input : RemoveMembershipInput) : Async Unit := do
  if input.actorRole ≠ "owner" then
    throw (forbiddenError "Forbidden: only owner can remove members")
  else do
    let membership ← MembershipRepository.findById input.membershipId
    match membership with
    | none => throw (notFoundError "Membership not found")
    | some membership =>
      if membership.organizationId ≠ input.organizationId then
        throw (notFoundError "Membership not found")
      else if membership.userId = input.actorUserId then
        throw (validationError "Cannot remove yourself from the organization")
      else do
        requireAnotherOwner membership input.organizationId
          "Cannot remove the last owner of the organization"
        MembershipRepository.delete membership.id

/-! ### Accepting an invite -/

structure AcceptInviteInput : Type where
  rawToken : Uuid
  userId : Uuid

def GENERIC_ERROR : String := "Invalid or expired invitation"

/-- `AcceptInvite.execute`. -/
def acceptInvite (D : Deps) (input : AcceptInviteInput) : Async Unit := do
  let invite ← OrganizationInviteRepository.findByTokenHash (.sha256 input.rawToken)
  match invite with
  | none => throw (validationError GENERIC_ERROR)
  | some invite =>
    if invite.isAccepted then throw (validationError GENERIC_ERROR)
    else do
      let now ← newDate
      if invite.isExpired now then throw (validationError GENERIC_ERROR)
      else do
        let user ← UserRepository.findById input.userId false
        match user with
        | none => throw (notFoundError "User not found")
        | some user =>
          if D.toLowerCase user.email ≠ D.toLowerCase invite.email then
            throw (validationError GENERIC_ERROR)
          else do
            let existingMembership ←
              MembershipRepository.findByUserAndOrg user.id invite.organizationId
            match existingMembership with
            | some _ => do
              let now ← newDate
              OrganizationInviteRepository.markAccepted invite.id now
            | none => do
              let _ ← MembershipRepository.create user.id invite.organizationId
                invite.role.toMembershipRole (some .active) false
              let now ← newDate
              OrganizationInviteRepository.markAccepted invite.id now

/-! ### Inviting -/

def QUEUE_SEND_INVITE_EMAIL (D : Deps) : String := D.appShortName ++ ".auth.send-invite-email"

def ROUTING_KEY_SEND_INVITE_EMAIL : String := "auth.send-invite-email"

structure InviteUserToOrganizationInput : Type where
  organizationId : Uuid
  email : String
  role : InviteRole
  inviterUserId : Uuid
  inviterRole : String

def inviteTtlDays (D : Deps) : Int := D.inviteTtlDays.getD 7

/-- `mintToken`: a random token; its hash is what is stored. -/
def mintToken : Async (Uuid × TokenHash) := do
  let rawToken ← randomBytes
  pure (rawToken, .sha256 rawToken)

/-- `message`. -/
def inviteMessage (D : Deps) (recipient organizationName : String) (rawToken : Uuid) :
    EmailMessage :=
  ⟨recipient, .organizationInvite rawToken organizationName (inviteTtlDays D)⟩

/-- `sendFor`: replaces the invite's token with one minted here, then sends its link. -/
def sendInvite (D : Deps) (invite : OrganizationInvite) (organizationName : String) (tx : Bool) :
    Async Unit := do
  let (rawToken, tokenHash) ← mintToken
  OrganizationInviteRepository.replaceTokenHash invite.id tokenHash tx
  await (.send (inviteMessage D invite.email organizationName rawToken))

/-- `InviteUserToOrganization.executeInTransaction`, for the queued job. -/
def sendInviteInTransaction (D : Deps) (inviteId : Uuid) : Async Unit := do
  let invite ← OrganizationInviteRepository.findById inviteId true
  match invite with
  | none => pure ()
  | some invite =>
    if invite.isAccepted then pure ()
    else do
      let now ← newDate
      if invite.isExpired now then pure ()
      else do
        let org ← OrganizationRepository.findById invite.organizationId true
        match org with
        | none => pure ()
        | some org => sendInvite D invite org.name true

/-- The job run in the request, after a publish that failed. -/
def sendInviteInRequest (D : Deps) (inviteId messageId : Uuid) : Async IdempotencyOutcome :=
  tryCatch
    (runOnce D (.uuid messageId) (QUEUE_SEND_INVITE_EMAIL D) none
      (sendInviteInTransaction D inviteId))
    fun e => do
      -- Nobody received it, so it must not answer 409 on the retry.
      OrganizationInviteRepository.deleteById inviteId
      throw e

/-- `InviteUserToOrganization.execute`; answers what became of the job it ran itself,
which the source logs. -/
def inviteUserToOrganization (D : Deps) (input : InviteUserToOrganizationInput) :
    Async (Option IdempotencyOutcome) := do
  if input.inviterRole ≠ "owner" ∧ input.inviterRole ≠ "admin" then
    throw (forbiddenError "Forbidden: only owner or admin can invite members")
  else do
    let org ← OrganizationRepository.findById input.organizationId false
    match org with
    | none => throw (notFoundError "Organization not found")
    | some org => do
      let email := D.toLowerCase (D.trim input.email)
      let now ← newDate
      OrganizationInviteRepository.deleteExpiredPendingByEmailAndOrg email input.organizationId now
      let pendingInvite ←
        OrganizationInviteRepository.findPendingByEmailAndOrg email input.organizationId
      if pendingInvite.isSome then throw (conflictError PENDING_INVITE_EXISTS_MESSAGE)
      else do
        let (rawToken, tokenHash) ← mintToken
        let expiresAt := now + inviteTtlDays D * day
        if !D.queueEnabled then do
          runInTransaction do
            let _ ← OrganizationInviteRepository.save input.organizationId email input.role
              tokenHash expiresAt true
            await (.send (inviteMessage D email org.name rawToken))
          pure none
        else do
          let invite ← OrganizationInviteRepository.save input.organizationId email input.role
            tokenHash expiresAt false
          let messageId ← randomUUID
          let published ← attempt (await
            (.publish ROUTING_KEY_SEND_INVITE_EMAIL (.ofUuid messageId) (.inviteEmail invite.id)))
          match published with
          | .ok () => pure none
          | .error _ => do
            let outcome ← sendInviteInRequest D invite.id messageId
            pure (some outcome)

end LakiraBackend.Auth
