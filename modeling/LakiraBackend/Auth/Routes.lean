import LakiraBackend.Auth.System

/-!
# The routes, and who may use them

A use case takes the acting user and their role from its input.  The routes put them there: the
middleware reads the bearer token, then the user's row, then their membership in the token's
organization, and a controller hands the use case what it read.  `serverMachine` admits requests
to the routes, with any header, and interleaves their calls as `authMachine` does.

What the server answers is left at what the use case answers.  The limiters and the schemas
before a controller make no call; what a schema lets through is the type of a request's fields.
-/

namespace LakiraBackend.Auth.Routes

open LakiraBackend.Concurrency

/-! ### The bearer token -/

/-- What `jwt.verify` gives back of a token, as far as the provider reads it. -/
structure Decoded : Type where
  id : Option Uuid
  email : Option String
  organizationId : Option Uuid
  deriving DecidableEq, Repr

/-- `jwt.verify` with the server's secret, at a time; `none` where it throws. -/
abbrev JwtVerify : Type := String → Time → Option Decoded

structure TokenClaims : Type where
  userId : Uuid
  email : String
  organizationId : Option Uuid
  deriving DecidableEq, Repr

/-- `JwtTokenProvider.verify`. -/
def verify (jwtVerify : JwtVerify) (token : String) : Async TokenClaims := do
  let now ← newDate
  match jwtVerify token now with
  | none => throw (unauthorizedError "Unauthorized: Invalid token")
  | some decoded => match decoded.id, truthy decoded.email with
    | some userId, some email => pure ⟨userId, email, decoded.organizationId⟩
    | _, _ => throw (unauthorizedError "Unauthorized: Invalid token")

/-- `authHeader.split(" ")[1]`, of a header that starts with `"Bearer "`. -/
def bearerToken (authorization : Option String) : Option String :=
  (authorization.map String.toList).bind fun header =>
    if "Bearer ".toList.isPrefixOf header then
      some (String.ofList ((header.splitOn ' ')[1]?.getD []))
    else none

/-- `req.user`, `req.organizationId` and `req.membership`. -/
structure AuthenticatedRequest : Type where
  user : AuthUser
  membership : Membership
  deriving DecidableEq, Repr

/-- `makeAuthMiddleware`. -/
def authMiddleware (jwtVerify : JwtVerify) (authorization : Option String) :
    Async AuthenticatedRequest :=
  match bearerToken authorization with
  | none => throw (.app "Unauthorized: No token provided" 401)
  | some token => do
    let claims ← tryCatch (verify jwtVerify token) fun e => match e with
      | .domain .unauthorized _ => throw (.app "Unauthorized: Invalid token" 401)
      | e => throw e
    let authUser ← UserRepository.findById claims.userId false
    match authUser with
    | none => throw (.app "Unauthorized: User not found" 401)
    | some authUser => match claims.organizationId with
      | none => throw (.app "Unauthorized: Token missing organization context" 401)
      | some organizationId => do
        let membership ← MembershipRepository.findByUserAndOrg authUser.id organizationId
        match membership with
        | none => throw (.app "Unauthorized: Organization membership inactive" 401)
        | some membership =>
          if !membership.isActive then
            throw (.app "Unauthorized: Organization membership inactive" 401)
          else pure ⟨authUser, membership⟩

/-- `assertHasOrgRole`. -/
def assertHasOrgRole (req : AuthenticatedRequest) (roles : List MembershipRole) : Async Unit :=
  if req.membership.role ∈ roles then pure ()
  else throw (.app "Forbidden: insufficient organization role" 403)

/-- A role, as the use cases compare it. -/
def roleText : MembershipRole → String
  | .owner => "owner"
  | .admin => "admin"
  | .member => "member"

/-! ### The controllers -/

section Controllers

variable (D : Deps) (req : AuthenticatedRequest)

/-- `getProfile`, with `GetProfile.execute`. -/
def getProfile : Async AuthUser := do
  let user ← UserRepository.findById req.user.id false
  match user with
  | none => throw (notFoundError "User not found")
  | some user => pure user

def updateProfile (email username password : Option String) (isPublicProfile : Option Bool) :
    Async AuthUser :=
  Auth.updateProfile D ⟨req.user.id, email, username, password, isPublicProfile⟩

def switchOrg (organizationId : Uuid) (client : Client) : Async Session :=
  switchOrganization D ⟨req.user.id, organizationId, client⟩

def createInvite (organizationId : Uuid) (email : String) (role : InviteRole) :
    Async (Option IdempotencyOutcome) := do
  if req.membership.organizationId ≠ organizationId then
    throw (.app "Forbidden: not a member of this organization" 403)
  else do
    assertHasOrgRole req [.owner, .admin]
    inviteUserToOrganization D
      ⟨organizationId, email, role, req.user.id, roleText req.membership.role⟩

def acceptInvite (token : Uuid) : Async Unit :=
  Auth.acceptInvite D ⟨token, req.user.id⟩

def removeMembership (membershipId : Uuid) : Async Unit := do
  assertHasOrgRole req [.owner]
  Auth.removeMembership ⟨membershipId, req.membership.organizationId,
    roleText req.membership.role, req.user.id⟩

def changeMemberRole (membershipId : Uuid) (role : InviteRole) : Async Unit := do
  assertHasOrgRole req [.owner]
  Auth.changeMemberRole ⟨membershipId, req.membership.organizationId, role.toMembershipRole,
    roleText req.membership.role⟩

end Controllers

/-! ### The server -/

/-- What the server is asked.  `direct` is what comes without the middleware: the open routes,
the work after a response, and the messages of the queue. -/
inductive HttpRequest : Type
  | direct (q : Request)
  | getProfile (authorization : Option String)
  | updateProfile (authorization : Option String) (email username password : Option String)
      (isPublicProfile : Option Bool)
  | resendVerification (authorization : Option String)
  | switchOrg (authorization : Option String) (organizationId : Uuid) (client : Client)
  | createInvite (authorization : Option String) (organizationId : Uuid) (email : String)
      (role : InviteRole)
  | acceptInvite (authorization : Option String) (token : Uuid)
  | removeMembership (authorization : Option String) (membershipId : Uuid)
  | changeMemberRole (authorization : Option String) (membershipId : Uuid) (role : InviteRole)
  | adminPing (authorization : Option String)

/-- The requests that go past the middleware. -/
def isDirect : Request → Bool
  | .switchOrganization _ => false
  | .changeMemberRole _ => false
  | .removeMembership _ => false
  | .acceptInvite _ => false
  | .inviteUserToOrganization _ => false
  | .updateProfile _ => false
  | _ => true

/-- The route's handlers, in order. -/
def respond (D : Deps) (jwtVerify : JwtVerify) : HttpRequest → Async Reply
  | .direct q => handle D q
  | .getProfile authorization => do
    let req ← authMiddleware jwtVerify authorization
    let user ← getProfile req
    pure (.user user)
  | .updateProfile authorization email username password isPublicProfile => do
    let req ← authMiddleware jwtVerify authorization
    let user ← updateProfile D req email username password isPublicProfile
    pure (.user user)
  -- the mail itself is `direct`
  | .resendVerification authorization => do
    let _ ← authMiddleware jwtVerify authorization
    pure .unit
  | .switchOrg authorization organizationId client => do
    let req ← authMiddleware jwtVerify authorization
    let session ← switchOrg D req organizationId client
    pure (.session session)
  | .createInvite authorization organizationId email role => do
    let req ← authMiddleware jwtVerify authorization
    let outcome ← createInvite D req organizationId email role
    pure (.job outcome)
  | .acceptInvite authorization token => do
    let req ← authMiddleware jwtVerify authorization
    acceptInvite D req token
    pure .unit
  | .removeMembership authorization membershipId => do
    let req ← authMiddleware jwtVerify authorization
    removeMembership req membershipId
    pure .unit
  | .changeMemberRole authorization membershipId role => do
    let req ← authMiddleware jwtVerify authorization
    changeMemberRole req membershipId role
    pure .unit
  | .adminPing authorization => do
    let req ← authMiddleware jwtVerify authorization
    assertHasOrgRole req [.admin, .owner]
    pure .unit

def serverMachine (D : Deps) (jwtVerify : JwtVerify) :
    Machine Op Op.Answer Err World Input HttpRequest Reply where
  exec := exec D
  crash := fun i w => { w with store := w.store.drop i }
  crashed := .crashed
  prog := respond D jwtVerify
  admits := fun q _ => match q with
    | .direct q => isDirect q
    | _ => true

abbrev ServerState : Type := State Op Op.Answer Err World HttpRequest

abbrev ServerConfig : Type := Config Op Op.Answer Err World HttpRequest Reply

abbrev ServerEvent : Type := Event Op Op.Answer Err World HttpRequest

/-! ### A small world

What the runs that show a behaviour start from: two users, who own an organization each. -/

/-- What a schedule makes of a database. -/
def serve (D : Deps) (jwtVerify : JwtVerify) (d : Db) (ls : List (Label Input HttpRequest)) :
    Option ServerConfig :=
  (serverMachine D jwtVerify).run (Machine.boot (World.init d)) ls

theorem reachable_of_serve {D : Deps} {jwtVerify : JwtVerify} {d : Db}
    {ls : List (Label Input HttpRequest)} {c : ServerConfig} (h : serve D jwtVerify d ls = some c) :
    (serverMachine D jwtVerify).Reachable (StartsFrom d) c :=
  Machine.reachable_of_run (show StartsFrom d (World.init d) from rfl) h

/-- Two tokens, by the names of their users. -/
def sampleVerify : JwtVerify := fun token _ =>
  if token = "ann" then some ⟨some (.seed 1), some "ann@x.io", some (.seed 2)⟩
  else if token = "bob" then some ⟨some (.seed 4), some "bob@x.io", some (.seed 6)⟩
  else none

def twoOrganizationsDb : Db :=
  { sampleDb with
    users := sampleDb.users ++ [⟨.seed 4, "bob@x.io", "bob", ⟨"pw", .seed 0⟩, true, none⟩]
    organizations := sampleDb.organizations ++ [⟨.seed 6, "bob", "bob-1"⟩]
    memberships := sampleDb.memberships ++ [⟨.seed 5, .seed 4, .seed 6, .owner, .active, 0⟩] }

/-- The next `n` calls of thread `i`, all done. -/
def serverSteps (i n : Nat) : List (Label Input HttpRequest) :=
  List.replicate n (.step i ⟨.ok, 0, 0⟩)

/-- Ann invites Bob to her organization, and he accepts. -/
def inviteBob : List (Label Input HttpRequest) :=
  [.spawn (.createInvite (some "Bearer ann") (.seed 2) "bob@x.io" .member)] ++ serverSteps 0 14 ++
    [.spawn (.acceptInvite (some "Bearer bob") (.drawn 0 0))] ++ serverSteps 1 12

/-- Eve registers. -/
def registerEve : List (Label Input HttpRequest) :=
  [.spawn (.direct (.registerUser ⟨"eve@x.io", "pw", "pw", "eve", none, sampleClient⟩))] ++
    serverSteps 0 18

/-- Ann gives herself another name. -/
def renameAnn : List (Label Input HttpRequest) :=
  [.spawn (.updateProfile (some "Bearer ann") none (some "anna") none none)] ++ serverSteps 0 6

/-- Ann makes Bob a member of her organization. -/
def demoteBob : List (Label Input HttpRequest) :=
  [.spawn (.changeMemberRole (some "Bearer ann") (.seed 5) .member)] ++ serverSteps 0 6

end LakiraBackend.Auth.Routes
