import Mathlib.Algebra.Ring.Nat
import Mathlib.Tactic.Common

/-!
# The entities of the auth feature

The rows the auth feature keeps, with the methods their entity classes have.
A row and its entity are one type here: the mappers copy field by field, and the
fields no use case reads (`createdAt`, `updatedAt`, `deletedAt`) are left out.

A random value is written with the thread that drew it and a serial number, so
two draws never agree; `seed` stands for any value that was there before.  A hash
is written with what was hashed, so two inputs with one SHA-256 never occur.
-/

namespace LakiraBackend.Auth

/-- `randomUUID()`, or the text of `randomBytes`. -/
inductive Uuid : Type
  | seed (n : Nat)
  | drawn (thread serial : Nat)
  deriving DecidableEq, Repr

/-- Milliseconds, as `Date.getTime` has them. -/
abbrev Time : Type := Int

/-- `createHash("sha256").update(raw).digest("hex")`. -/
structure TokenHash : Type where
  sha256 ::
  raw : Uuid
  deriving DecidableEq, Repr

/-- `bcrypt.hash(password, salt)`. -/
structure PasswordHash : Type where
  password : String
  salt : Uuid
  deriving DecidableEq, Repr

/-! ### Errors -/

inductive DomainErrorKind : Type
  | validation
  | unauthorized
  | forbidden
  | notFound
  | conflict
  deriving DecidableEq, Repr

/-- What a call or a use case throws. -/
inductive Err : Type
  | domain (kind : DomainErrorKind) (message : String)
  | app (message : String) (statusCode : Nat)
  | terminal (message : String)
  | plain (message : String)
  | uniqueConstraint (constraint : String)
  | duplicateMessage
  /-- A call that failed, or whose answer was lost. -/
  | repository
  /-- The process died. -/
  | crashed
  deriving DecidableEq, Repr

def validationError (message : String) : Err := .domain .validation message

def unauthorizedError (message : String) : Err := .domain .unauthorized message

def forbiddenError (message : String) : Err := .domain .forbidden message

def notFoundError (message : String) : Err := .domain .notFound message

def conflictError (message : String) : Err := .domain .conflict message

/-! ### Users -/

structure AuthUser : Type where
  id : Uuid
  email : String
  username : String
  passwordHash : PasswordHash
  isPublicProfile : Bool
  emailVerifiedAt : Option Time
  deriving DecidableEq, Repr

namespace AuthUser

def setEmailVerifiedAt (u : AuthUser) (date : Time) : AuthUser :=
  { u with emailVerifiedAt := some date }

def changeEmail (trim toLowerCase : String → String) (u : AuthUser) (next : String) :
    Except Err AuthUser :=
  let trimmed := toLowerCase (trim next)
  if trimmed = "" then .error (.plain "Email cannot be empty")
  else .ok { u with email := trimmed }

def changeUsername (trim : String → String) (u : AuthUser) (next : String) :
    Except Err AuthUser :=
  let trimmed := trim next
  if trimmed = "" then .error (.plain "Username cannot be empty")
  else .ok { u with username := trimmed }

def togglePublicProfile (u : AuthUser) (value : Bool) : AuthUser :=
  { u with isPublicProfile := value }

def setPasswordHash (u : AuthUser) (hash : PasswordHash) : AuthUser :=
  { u with passwordHash := hash }

end AuthUser

/-! ### Organizations and memberships -/

structure Organization : Type where
  id : Uuid
  name : String
  slug : String
  deriving DecidableEq, Repr

inductive MembershipRole : Type
  | owner
  | admin
  | member
  deriving DecidableEq, Repr

inductive MembershipStatus : Type
  | active
  | invited
  | removed
  deriving DecidableEq, Repr

structure Membership : Type where
  id : Uuid
  userId : Uuid
  organizationId : Uuid
  role : MembershipRole
  status : MembershipStatus
  joinedAt : Time
  deriving DecidableEq, Repr

namespace Membership

def changeRole (m : Membership) (role : MembershipRole) : Membership := { m with role := role }

def isActive (m : Membership) : Bool := m.status = .active

def isOwner (m : Membership) : Bool := m.role = .owner

end Membership

/-! ### Invites -/

inductive InviteRole : Type
  | admin
  | member
  deriving DecidableEq, Repr

def InviteRole.toMembershipRole : InviteRole → MembershipRole
  | .admin => .admin
  | .member => .member

structure OrganizationInvite : Type where
  id : Uuid
  organizationId : Uuid
  email : String
  role : InviteRole
  tokenHash : TokenHash
  expiresAt : Time
  acceptedAt : Option Time
  deriving DecidableEq, Repr

namespace OrganizationInvite

def isExpired (v : OrganizationInvite) (now : Time) : Bool := v.expiresAt ≤ now

def isAccepted (v : OrganizationInvite) : Bool := v.acceptedAt.isSome

end OrganizationInvite

/-! ### Refresh tokens -/

structure RefreshToken : Type where
  id : Uuid
  userId : Uuid
  organizationId : Option Uuid
  familyId : Uuid
  tokenHash : TokenHash
  issuedAt : Time
  expiresAt : Time
  revokedAt : Option Time
  replacedById : Option Uuid
  userAgent : Option String
  ip : Option String
  deriving DecidableEq, Repr

namespace RefreshToken

def isRevoked (t : RefreshToken) : Bool := t.revokedAt.isSome

def isExpired (t : RefreshToken) (now : Time) : Bool := t.expiresAt ≤ now

def markRevoked (t : RefreshToken) (now : Time) : RefreshToken := { t with revokedAt := some now }

def replaceWith (t : RefreshToken) (newId : Uuid) : Except Err RefreshToken :=
  if t.replacedById ≠ none then .error (.plain "RefreshToken already replaced")
  else .ok { t with replacedById := some newId }

end RefreshToken

/-! ### Password-reset and e-mail-verification tokens

The two tables have the same columns and their two entity classes the same
methods, so there is one row type and a name for each table. -/

inductive TokenKind : Type
  | passwordReset
  | emailVerification
  deriving DecidableEq, Repr

structure OneTimeToken : Type where
  id : Uuid
  userId : Uuid
  tokenHash : TokenHash
  expiresAt : Time
  usedAt : Option Time
  deriving DecidableEq, Repr

abbrev PasswordResetToken : Type := OneTimeToken

abbrev EmailVerificationToken : Type := OneTimeToken

namespace OneTimeToken

def isUsed (t : OneTimeToken) : Bool := t.usedAt.isSome

def isExpired (t : OneTimeToken) (now : Time) : Bool := t.expiresAt ≤ now

def isUsable (t : OneTimeToken) (now : Time) : Bool := !t.isUsed && !t.isExpired now

end OneTimeToken

/-! ### The rows of the background jobs -/

/-- The id a message is recorded under. -/
inductive MessageId : Type
  | ofUuid (u : Uuid)
  | ofString (s : String)
  deriving DecidableEq, Repr

structure ProcessedMessage : Type where
  messageId : MessageId
  queue : String
  organizationId : Option Uuid
  deriving DecidableEq, Repr

structure Metric : Type where
  id : Uuid
  userId : Uuid
  organizationId : Uuid
  deriving DecidableEq, Repr

inductive LogType : Type
  | manual
  | automatic
  deriving DecidableEq, Repr

structure MetricLog : Type where
  id : Uuid
  metricId : Uuid
  organizationId : Uuid
  logValue : Int
  type : LogType
  loggedAt : Time
  deriving DecidableEq, Repr

/-- One day, in milliseconds. -/
def day : Time := 24 * 60 * 60 * 1000

end LakiraBackend.Auth
