import LakiraBackend.Auth.Entities
import LakiraBackend.Concurrency.ReadCommitted

/-!
# The tables, and what the repositories' statements do to them

`Db` has a list for each table, in insertion order.  A `Write` is one statement
that changes rows; `Write.on…` is its effect on one table, and `Write.apply` puts
them together, so what a write does to a table can be said without the others.
`Read.eval` is what a query answers.

`Deps` holds what the feature is built with and what JavaScript's strings do:
`String.prototype.trim` and `toLowerCase`, what the users' model takes for an
address, the text of a UUID, the time-to-live of each token, the app's name, and
whether the queue and the cache are on.
-/

namespace LakiraBackend.Auth

open LakiraBackend.Concurrency

structure Deps : Type where
  trim : String → String
  toLowerCase : String → String
  /-- `validate: { isEmail: true }`. -/
  isEmail : String → Bool
  /-- The text of a UUID, by which the database orders it. -/
  uuidText : Uuid → String
  refreshTokenTtlDays : Int
  resetTtlMinutes : Option Int
  verificationTtlSec : Option Int
  inviteTtlDays : Option Int
  /-- `APP_SHORT_NAME`, which the queues and the cookie are named after. -/
  appShortName : String
  queueEnabled : Bool
  cacheEnabled : Bool

structure Db : Type where
  users : List AuthUser
  organizations : List Organization
  memberships : List Membership
  invites : List OrganizationInvite
  refreshTokens : List RefreshToken
  passwordResetTokens : List PasswordResetToken
  emailVerificationTokens : List EmailVerificationToken
  processedMessages : List ProcessedMessage
  metrics : List Metric
  metricLogs : List MetricLog
  deriving DecidableEq

def Db.empty : Db := ⟨[], [], [], [], [], [], [], [], [], []⟩

/-- The table of one kind of one-time token. -/
def Db.tokens (d : Db) : TokenKind → List OneTimeToken
  | .passwordReset => d.passwordResetTokens
  | .emailVerification => d.emailVerificationTokens

inductive Table : Type
  | users
  | organizations
  | memberships
  | invites
  | refreshTokens
  | tokens (kind : TokenKind)
  | processedMessages
  | metricLogs
  deriving DecidableEq, Repr

/-- A row, named by its table and its primary key. -/
structure Key : Type where
  table : Table
  id : Uuid
  deriving DecidableEq, Repr

inductive Write : Type
  | createUser (u : AuthUser)
  /-- `UPDATE users SET email, username, password, is_public_profile, email_verified_at`. -/
  | saveUser (u : AuthUser)
  | createOrganization (o : Organization)
  | createMembership (m : Membership)
  | saveMembership (id : Uuid) (role : MembershipRole)
  | deleteMembership (id : Uuid)
  | createInvite (v : OrganizationInvite)
  | replaceInviteTokenHash (id : Uuid) (tokenHash : TokenHash)
  | acceptInvite (id : Uuid) (now : Time)
  | deleteInvite (id : Uuid)
  | deleteExpiredInvites (email : String) (organizationId : Uuid) (now : Time)
  | upsertRefreshToken (t : RefreshToken)
  /-- `UPDATE refresh_tokens` over the rows of a family in a snapshot. -/
  | revokeRefreshTokens (familyId : Uuid) (now : Time) (ids : List Uuid)
  | createToken (kind : TokenKind) (t : OneTimeToken)
  | markTokenUsed (kind : TokenKind) (id : Uuid) (usedAt : Time)
  /-- `UPDATE` of a user's unused tokens over the rows of a snapshot. -/
  | useTokens (kind : TokenKind) (userId : Uuid) (now : Time) (ids : List Uuid)
  | createProcessedMessage (p : ProcessedMessage)
  | createMetricLog (l : MetricLog)
  deriving DecidableEq, Repr

/-! ### The effect of a write -/

/-- Whether an invite is pending, expired, and in this organization for this address. -/
def expiredPending (D : Deps) (email : String) (organizationId : Uuid) (now : Time)
    (v : OrganizationInvite) : Bool :=
  D.toLowerCase v.email = D.toLowerCase email && v.organizationId = organizationId &&
    v.acceptedAt = none && decide (v.expiresAt ≤ now)

namespace Write

/-- The table a write changes. -/
def table : Write → Table
  | createUser _ => .users
  | saveUser _ => .users
  | createOrganization _ => .organizations
  | createMembership _ => .memberships
  | saveMembership _ _ => .memberships
  | deleteMembership _ => .memberships
  | createInvite _ => .invites
  | replaceInviteTokenHash _ _ => .invites
  | acceptInvite _ _ => .invites
  | deleteInvite _ => .invites
  | deleteExpiredInvites _ _ _ => .invites
  | upsertRefreshToken _ => .refreshTokens
  | revokeRefreshTokens _ _ _ => .refreshTokens
  | createToken kind _ => .tokens kind
  | markTokenUsed kind _ _ => .tokens kind
  | useTokens kind _ _ _ => .tokens kind
  | createProcessedMessage _ => .processedMessages
  | createMetricLog _ => .metricLogs

def onUsers : Write → List AuthUser → List AuthUser
  | createUser u, us => us ++ [u]
  | saveUser u, us => us.map fun v => if v.id = u.id then u else v
  | _, us => us

def onOrganizations : Write → List Organization → List Organization
  | createOrganization o, os => os ++ [o]
  | _, os => os

def onMemberships : Write → List Membership → List Membership
  | createMembership m, ms => ms ++ [m]
  | saveMembership id role, ms => ms.map fun m => if m.id = id then m.changeRole role else m
  | deleteMembership id, ms => ms.filter fun m => m.id ≠ id
  | _, ms => ms

def onInvites (D : Deps) : Write → List OrganizationInvite → List OrganizationInvite
  | createInvite v, vs => vs ++ [v]
  | replaceInviteTokenHash id h, vs =>
    vs.map fun v => if v.id = id then { v with tokenHash := h } else v
  | acceptInvite id now, vs =>
    vs.map fun v => if v.id = id then { v with acceptedAt := some now } else v
  | deleteInvite id, vs => vs.filter fun v => v.id ≠ id
  | deleteExpiredInvites email org now, vs => vs.filter fun v => !expiredPending D email org now v
  | _, vs => vs

def onRefreshTokens : Write → List RefreshToken → List RefreshToken
  | upsertRefreshToken t, ts =>
    if ts.any fun s => s.id = t.id then ts.map fun s => if s.id = t.id then t else s
    else ts ++ [t]
  | revokeRefreshTokens familyId now ids, ts =>
    ts.map fun t =>
      if t.id ∈ ids ∧ t.familyId = familyId ∧ t.revokedAt = none then t.markRevoked now else t
  | _, ts => ts

def onTokens (kind : TokenKind) : Write → List OneTimeToken → List OneTimeToken
  | createToken k t, ts => if k = kind then ts ++ [t] else ts
  | markTokenUsed k id usedAt, ts =>
    if k = kind then ts.map fun t => if t.id = id then { t with usedAt := some usedAt } else t
    else ts
  | useTokens k userId now ids, ts =>
    if k = kind then ts.map fun t =>
      if t.id ∈ ids ∧ t.userId = userId ∧ t.usedAt = none then { t with usedAt := some now } else t
    else ts
  | _, ts => ts

def onProcessedMessages : Write → List ProcessedMessage → List ProcessedMessage
  | createProcessedMessage p, ps => ps ++ [p]
  | _, ps => ps

def onMetricLogs : Write → List MetricLog → List MetricLog
  | createMetricLog l, ls => ls ++ [l]
  | _, ls => ls

def apply (D : Deps) (w : Write) (d : Db) : Db where
  users := w.onUsers d.users
  organizations := w.onOrganizations d.organizations
  memberships := w.onMemberships d.memberships
  invites := w.onInvites D d.invites
  refreshTokens := w.onRefreshTokens d.refreshTokens
  passwordResetTokens := w.onTokens .passwordReset d.passwordResetTokens
  emailVerificationTokens := w.onTokens .emailVerification d.emailVerificationTokens
  processedMessages := w.onProcessedMessages d.processedMessages
  metrics := d.metrics
  metricLogs := w.onMetricLogs d.metricLogs

theorem onUsers_of_table {w : Write} (h : w.table ≠ .users) (us : List AuthUser) :
    w.onUsers us = us := by
  cases w <;> first | rfl | exact absurd rfl h

theorem onMemberships_of_table {w : Write} (h : w.table ≠ .memberships) (ms : List Membership) :
    w.onMemberships ms = ms := by
  cases w <;> first | rfl | exact absurd rfl h

theorem onRefreshTokens_of_table {w : Write} (h : w.table ≠ .refreshTokens)
    (ts : List RefreshToken) : w.onRefreshTokens ts = ts := by
  cases w <;> first | rfl | exact absurd rfl h

theorem apply_tokens (D : Deps) (w : Write) (d : Db) (kind : TokenKind) :
    (w.apply D d).tokens kind = w.onTokens kind (d.tokens kind) := by
  cases kind <;> rfl

/-- The rows there already that a write changes. -/
def rows (D : Deps) : Write → Db → List Key
  | saveUser u, _ => [⟨.users, u.id⟩]
  | saveMembership id _, _ => [⟨.memberships, id⟩]
  | deleteMembership id, _ => [⟨.memberships, id⟩]
  | replaceInviteTokenHash id _, _ => [⟨.invites, id⟩]
  | acceptInvite id _, _ => [⟨.invites, id⟩]
  | deleteInvite id, _ => [⟨.invites, id⟩]
  | deleteExpiredInvites email org now, d =>
    (d.invites.filter (expiredPending D email org now)).map fun v => ⟨.invites, v.id⟩
  | upsertRefreshToken t, d =>
    if d.refreshTokens.any fun s => s.id = t.id then [⟨.refreshTokens, t.id⟩] else []
  | revokeRefreshTokens _ _ ids, _ => ids.map fun id => ⟨.refreshTokens, id⟩
  | markTokenUsed kind id _, _ => [⟨.tokens kind, id⟩]
  | useTokens kind _ _ ids, _ => ids.map fun id => ⟨.tokens kind, id⟩
  | _, _ => []

/-- Whether a column of 255 characters takes a text. -/
def fitsColumn (s : String) : Bool := s.length ≤ 255 && s.toList.all fun c => c.toNat ≠ 0

/-- Why the model, or a column, refuses the name and the address of a user, where they are
not the old row's. -/
def refuseColumns (D : Deps) (old : Option AuthUser) (u : AuthUser) : Option Err :=
  let newEmail := old.all fun v => v.email ≠ u.email
  let newUsername := old.all fun v => v.username ≠ u.username
  if newEmail && !D.isEmail u.email then
    some (.plain "Validation error: Validation isEmail on email failed")
  else if newEmail && !fitsColumn u.email || newUsername && !fitsColumn u.username then
    some (.plain "value too long for type character varying(255)")
  else none

/-- Why the database, or the repository around it, refuses a write. -/
def refuse (D : Deps) : Write → Db → Option Err
  | createUser u, d =>
    refuseColumns D none u <|>
      if d.users.any fun v => v.username = u.username then
        some (.uniqueConstraint "users_username")
      else if d.users.any fun v => v.email = u.email then some (.uniqueConstraint "users_email")
      else none
  | saveUser u, d =>
    if !d.users.any fun v => v.id = u.id then some (.plain "User not found")
    else refuseColumns D (d.users.find? fun v => v.id = u.id) u <|>
      if d.users.any fun v => v.id ≠ u.id && v.username = u.username then
        some (.uniqueConstraint "users_username")
      else if d.users.any fun v => v.id ≠ u.id && v.email = u.email then
        some (.uniqueConstraint "users_email")
      else none
  | createOrganization o, d =>
    if d.organizations.any fun p => p.slug = o.slug then
      some (.uniqueConstraint "organizations_slug")
    else none
  | createMembership m, d =>
    if d.memberships.any fun n => n.userId = m.userId && n.organizationId = m.organizationId then
      some (.uniqueConstraint "uq_memberships_user_organization")
    else none
  | saveMembership id _, d =>
    if d.memberships.any fun m => m.id = id then none else some (.plain "Membership not found")
  | deleteMembership id, d =>
    if d.memberships.any fun m => m.id = id then none else some (.plain "Membership not found")
  | createInvite v, d =>
    if d.invites.any fun u => u.tokenHash = v.tokenHash then
      some (.uniqueConstraint "organization_invites_token_hash")
    else if d.invites.any fun u => u.organizationId = v.organizationId &&
        D.toLowerCase u.email = D.toLowerCase v.email && u.acceptedAt = none then
      some (.uniqueConstraint "uq_organization_invites_pending_email")
    else none
  | replaceInviteTokenHash id h, d =>
    if d.invites.any fun u => u.id ≠ id && u.tokenHash = h then
      some (.uniqueConstraint "organization_invites_token_hash")
    else none
  | upsertRefreshToken t, d =>
    if d.refreshTokens.any fun s => s.id ≠ t.id && s.tokenHash = t.tokenHash then
      some (.uniqueConstraint "refresh_tokens_token_hash")
    else none
  | createToken kind t, d =>
    if (d.tokens kind).any fun s => s.tokenHash = t.tokenHash then
      some (.uniqueConstraint "token_hash")
    else none
  | createProcessedMessage p, d =>
    if d.processedMessages.any fun q => q.messageId = p.messageId && q.queue = p.queue then
      some (.uniqueConstraint "processed_messages_pkey")
    else none
  | _, _ => none

theorem refuseColumns_cases {D : Deps} {old : Option AuthUser} {u : AuthUser} {e : Err}
    (h : refuseColumns D old u = some e) : ∃ message, e = .plain message := by
  dsimp only [refuseColumns] at h
  split at h
  · exact ⟨_, (Option.some.inj h).symm⟩
  · split at h
    · exact ⟨_, (Option.some.inj h).symm⟩
    · cases h

end Write

def schema (D : Deps) : Schema Db Write Key Err where
  apply := Write.apply D
  rows := Write.rows D
  refuse := Write.refuse D

/-! ### Queries -/

inductive Read : Type
  | existsByEmail (email : String)
  | existsByUsername (username : String)
  | findUserById (id : Uuid)
  | findUserByEmail (email : String)
  | findOrganizationById (id : Uuid)
  | findMembershipById (id : Uuid)
  | findMembershipByUserAndOrg (userId organizationId : Uuid)
  | findDefaultMembershipByUser (userId : Uuid)
  | countByOrgAndRole (organizationId : Uuid) (role : MembershipRole)
  | findInviteById (id : Uuid)
  | findInviteByTokenHash (tokenHash : TokenHash)
  | findPendingByEmailAndOrg (email : String) (organizationId : Uuid) (now : Time)
  | findRefreshTokenByTokenHash (tokenHash : TokenHash)
  | findActiveRefreshTokensByUser (userId : Uuid) (now : Time)
  | findTokenByTokenHash (kind : TokenKind) (tokenHash : TokenHash)
  | findMetric (id organizationId : Uuid)
  deriving DecidableEq, Repr

abbrev Read.Answer : Read → Type
  | .existsByEmail _ => Bool
  | .existsByUsername _ => Bool
  | .findUserById _ => Option AuthUser
  | .findUserByEmail _ => Option AuthUser
  | .findOrganizationById _ => Option Organization
  | .findMembershipById _ => Option Membership
  | .findMembershipByUserAndOrg _ _ => Option Membership
  | .findDefaultMembershipByUser _ => Option Membership
  | .countByOrgAndRole _ _ => Nat
  | .findInviteById _ => Option OrganizationInvite
  | .findInviteByTokenHash _ => Option OrganizationInvite
  | .findPendingByEmailAndOrg _ _ _ => Option OrganizationInvite
  | .findRefreshTokenByTokenHash _ => Option RefreshToken
  | .findActiveRefreshTokensByUser _ _ => List RefreshToken
  | .findTokenByTokenHash _ _ => Option OneTimeToken
  | .findMetric _ _ => Option Metric

/-- `ORDER BY joined_at ASC, id ASC`. -/
def joinedBefore (D : Deps) (m n : Membership) : Bool :=
  m.joinedAt < n.joinedAt || (m.joinedAt = n.joinedAt && D.uuidText m.id < D.uuidText n.id)

/-- The first of some memberships in that order. -/
def firstJoined (D : Deps) : List Membership → Option Membership
  | [] => none
  | m :: ms => match firstJoined D ms with
    | none => some m
    | some n => if joinedBefore D n m then some n else some m

def Read.eval (D : Deps) : (q : Read) → Db → q.Answer
  | .existsByEmail email, d => d.users.any fun u => u.email = email
  | .existsByUsername username, d => d.users.any fun u => u.username = username
  | .findUserById id, d => d.users.find? fun u => u.id = id
  | .findUserByEmail email, d => d.users.find? fun u => u.email = email
  | .findOrganizationById id, d => d.organizations.find? fun o => o.id = id
  | .findMembershipById id, d => d.memberships.find? fun m => m.id = id
  | .findMembershipByUserAndOrg userId org, d =>
    d.memberships.find? fun m => m.userId = userId && m.organizationId = org && m.isActive
  | .findDefaultMembershipByUser userId, d =>
    firstJoined D (d.memberships.filter fun m => m.userId = userId && m.isActive)
  | .countByOrgAndRole org role, d =>
    d.memberships.countP fun m => m.organizationId = org && m.role = role && m.isActive
  | .findInviteById id, d => d.invites.find? fun v => v.id = id
  | .findInviteByTokenHash h, d => d.invites.find? fun v => v.tokenHash = h
  | .findPendingByEmailAndOrg email org now, d =>
    d.invites.find? fun v => v.email = email && v.organizationId = org && v.acceptedAt = none &&
      decide (now < v.expiresAt)
  | .findRefreshTokenByTokenHash h, d => d.refreshTokens.find? fun t => t.tokenHash = h
  | .findActiveRefreshTokensByUser userId now, d =>
    d.refreshTokens.filter fun t => t.userId = userId && t.revokedAt = none &&
      decide (now < t.expiresAt)
  | .findTokenByTokenHash kind h, d => (d.tokens kind).find? fun t => t.tokenHash = h
  | .findMetric id org, d => d.metrics.find? fun m => m.id = id && m.organizationId = org

end LakiraBackend.Auth
