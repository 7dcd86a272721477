import LakiraBackend.Auth.Repositories

/-!
# Use cases on sessions

Registering, logging in, refreshing, switching organization and logging out: the
use cases that write `refresh_tokens`.
-/

namespace LakiraBackend.Auth

open LakiraBackend.Concurrency

/-- Where a request came from. -/
structure Client : Type where
  userAgent : Option String
  ip : Option String
  deriving DecidableEq, Repr

/-- `RefreshToken.issue`. -/
def RefreshToken.issue (userId : Uuid) (tokenHash : TokenHash) (familyId organizationId : Option Uuid)
    (ttlDays : Option Int) (client : Client) : Async RefreshToken := do
  let now ← newDate
  let id ← randomUUID
  let familyId ← match familyId with
    | some f => pure f
    | none => randomUUID
  pure {
    id, userId, organizationId, familyId, tokenHash
    issuedAt := now
    expiresAt := now + ttlDays.getD 30 * day
    revokedAt := none
    replacedById := none
    userAgent := client.userAgent
    ip := client.ip }

structure IssueRefreshTokenInput : Type where
  userId : Uuid
  familyId : Option Uuid
  organizationId : Option Uuid
  client : Client

/-- `IssueRefreshToken.execute`, and `executeInTransaction` when `tx`: the raw token,
and the row it is saved in. -/
def issueRefreshToken (D : Deps) (input : IssueRefreshTokenInput) (tx : Bool) :
    Async (Uuid × RefreshToken) := do
  let rawToken ← randomBytes
  let refreshToken ← RefreshToken.issue input.userId (.sha256 rawToken) input.familyId
    input.organizationId (some D.refreshTokenTtlDays) input.client
  RefreshTokenRepository.save refreshToken tx
  pure (rawToken, refreshToken)

/-- What a request that signs a user in answers. -/
structure Session : Type where
  accessToken : TokenPayload
  rawRefreshToken : Uuid
  deriving DecidableEq, Repr

/-! ### Refreshing -/

inductive RevokeReason : Type
  | reuse
  | expired
  deriving DecidableEq, Repr

/-- What the transaction of a rotation returns. -/
inductive RotateResult : Type
  | rotated (s : Session)
  | revoke (familyId : Uuid) (reason : RevokeReason)

/-- The organization the next token is for. -/
def organizationOf (existing : RefreshToken) : Async Uuid :=
  match existing.organizationId with
  | some organizationId => do
    let membership ← MembershipRepository.findByUserAndOrg existing.userId organizationId
    match membership with
    | none => throw (unauthorizedError "Unauthorized: Organization membership inactive")
    | some membership =>
      if membership.isActive then pure organizationId
      else throw (unauthorizedError "Unauthorized: Organization membership inactive")
  | none => do
    let membership ← MembershipRepository.findDefaultByUser existing.userId
    match membership with
    | none => throw (unauthorizedError "Unauthorized: No organization membership")
    | some membership => pure membership.organizationId

/-- The successor of a token, and the token marked revoked and replaced by it. -/
def replaceRefreshToken (D : Deps) (existing : RefreshToken) (organizationId : Uuid)
    (client : Client) : Async Uuid := do
  let now ← newDate
  let existing := existing.markRevoked now
  let (newRawToken, newRefreshToken) ← issueRefreshToken D
    ⟨existing.userId, some existing.familyId, some organizationId, client⟩ true
  match existing.replaceWith newRefreshToken.id with
  | .error e => throw e
  | .ok existing => do
    RefreshTokenRepository.save existing true
    pure newRawToken

/-- The body of the transaction of a rotation. -/
def rotateInTransaction (D : Deps) (rawToken : Uuid) (client : Client) : Async RotateResult := do
  let existing ← RefreshTokenRepository.findByTokenHashForUpdate (.sha256 rawToken)
  match existing with
  | none => throw (unauthorizedError "Unauthorized: Invalid refresh token")
  | some existing => do
    if existing.isRevoked then pure (.revoke existing.familyId .reuse)
    else do
      let now ← newDate
      if existing.isExpired now then pure (.revoke existing.familyId .expired)
      else do
        let user ← UserRepository.findById existing.userId false
        match user with
        | none => throw (unauthorizedError "Unauthorized: User not found")
        | some user => do
          let organizationId ← organizationOf existing
          let newRawToken ← replaceRefreshToken D existing organizationId client
          let accessToken ← await (.sign ⟨user.id, user.email, user.username, organizationId⟩)
          pure (.rotated ⟨accessToken, newRawToken⟩)

structure RotateRefreshTokenInput : Type where
  rawToken : Uuid
  client : Client

/-- `RotateRefreshToken.execute`. -/
def rotateRefreshToken (D : Deps) (input : RotateRefreshTokenInput) : Async Session := do
  let result ← runInTransaction (rotateInTransaction D input.rawToken input.client)
  match result with
  | .rotated s => pure s
  | .revoke familyId _ => do
    RefreshTokenRepository.revokeFamily familyId
    throw (unauthorizedError "Unauthorized: Invalid refresh token")

/-! ### Logging out -/

/-- `RevokeRefreshTokenFamily.execute`. -/
def revokeRefreshTokenFamily (rawToken : Uuid) : Async Unit := do
  let existing ← RefreshTokenRepository.findByTokenHash (.sha256 rawToken)
  match existing with
  | none => throw (unauthorizedError "Unauthorized: Invalid refresh token")
  | some existing => RefreshTokenRepository.revokeFamily existing.familyId

/-! ### Switching organization -/

structure SwitchOrganizationInput : Type where
  userId : Uuid
  organizationId : Uuid
  client : Client

/-- The calls of `revokeFamily`, and one step to see that they are over. -/
def revokeFamilySteps : Nat := 4

/-- `SwitchOrganization.execute`. -/
def switchOrganization (D : Deps) (input : SwitchOrganizationInput) : Async Session := do
  let membership ← MembershipRepository.findByUserAndOrg input.userId input.organizationId
  match membership.filter (·.isActive) with
  | none => throw (forbiddenError "Forbidden: No active membership in this organization")
  | some _ => do
    let user ← UserRepository.findById input.userId false
    match user with
    | none => throw (unauthorizedError "Unauthorized: User not found")
    | some user => do
      let activeTokens ← RefreshTokenRepository.findActiveByUser input.userId
      let familyIds := (activeTokens.map (·.familyId)).eraseDups
      promiseAll (revokeFamilySteps * familyIds.length)
        (familyIds.map RefreshTokenRepository.revokeFamily) none
      let accessToken ← await (.sign ⟨user.id, user.email, user.username, input.organizationId⟩)
      let (rawToken, _) ← issueRefreshToken D
        ⟨user.id, none, some input.organizationId, input.client⟩ false
      pure ⟨accessToken, rawToken⟩

/-! ### Logging in -/

structure LoginInput : Type where
  email : String
  password : String
  client : Client

structure LoginResult : Type where
  user : AuthUser
  token : TokenPayload
  rawRefreshToken : Uuid

/-- A wrong email or password counts toward the lockout. -/
def refuseLogin (email : String) : Async LoginResult := do
  await (.recordFailure email)
  throw (unauthorizedError "Invalid email or password")

/-- `LoginUser.execute`. -/
def loginUser (D : Deps) (input : LoginInput) : Async LoginResult := do
  let normalized := D.toLowerCase (D.trim input.email)
  let user ← UserRepository.findByEmail normalized
  match user with
  | none => refuseLogin input.email
  | some user => do
    let valid ← await (.compare input.password user.passwordHash)
    if !valid then refuseLogin input.email
    else do
      let membership ← MembershipRepository.findDefaultByUser user.id
      match membership with
      | none => throw (forbiddenError "No active organization membership")
      | some membership => do
        let token ← await (.sign ⟨user.id, user.email, user.username, membership.organizationId⟩)
        let (rawToken, _) ← issueRefreshToken D
          ⟨user.id, none, some membership.organizationId, input.client⟩ false
        await (.resetFailures input.email)
        pure ⟨user, token, rawToken⟩

/-! ### Registering -/

structure RegisterInput : Type where
  email : String
  password : String
  passwordConfirmation : String
  username : String
  isPublicProfile : Option Bool
  client : Client

/-- `.replace(/[^a-z0-9]+/g, "-")`. -/
def hyphenate : Bool → List Char → List Char
  | _, [] => []
  | run, c :: cs =>
    if ('a' ≤ c ∧ c ≤ 'z') ∨ ('0' ≤ c ∧ c ≤ '9') then c :: hyphenate false cs
    else if run then hyphenate true cs
    else '-' :: hyphenate true cs

def slugOf (D : Deps) (username : String) (userId : Uuid) : String :=
  String.ofList ((hyphenate false (D.toLowerCase username).toList).take 91) ++ "-" ++
    String.ofList ((D.uuidText userId).toList.take 8)

/-- A registration is one unit of work: the user, their organization, the owning
membership, and the refresh token that starts their session. -/
def registerInTransaction (D : Deps) (email username : String) (passwordHash : PasswordHash)
    (isPublicProfile : Bool) (client : Client) : Async (AuthUser × Organization × Uuid) := do
  let user ← UserRepository.create email username passwordHash isPublicProfile true
  let org ← OrganizationRepository.create username (slugOf D username user.id) true
  let _ ← MembershipRepository.create user.id org.id .owner (some .active) true
  let (rawToken, _) ← issueRefreshToken D ⟨user.id, none, some org.id, client⟩ true
  pure (user, org, rawToken)

/-- `RegisterUser.execute`. -/
def registerUser (D : Deps) (input : RegisterInput) : Async LoginResult := do
  if input.password ≠ input.passwordConfirmation then
    throw (validationError "Passwords do not match")
  else do
    let email := D.toLowerCase (D.trim input.email)
    let username := D.trim input.username
    if ← UserRepository.existsByEmail email then throw (conflictError "Email already in use")
    else if ← UserRepository.existsByUsername username then
      throw (conflictError "Username already in use")
    else do
      let passwordHash ← await (.hash input.password)
      let (user, org, rawRefreshToken) ← runInTransaction
        (registerInTransaction D email username passwordHash (input.isPublicProfile.getD true)
          input.client)
      let token ← await (.sign ⟨user.id, user.email, user.username, org.id⟩)
      pure ⟨user, token, rawRefreshToken⟩

end LakiraBackend.Auth
