import LakiraBackend.Auth.Calls

/-!
# Repositories, transactions and idempotent jobs

The repositories' methods as programs over `Call`, under the names their classes
have, the transaction port, and `runOnce`.  `tx` says whether the method was
handed the caller's transaction.
-/

namespace LakiraBackend.Auth

open LakiraBackend.Concurrency

/-- What an `async` function of the feature is. -/
abbrev Async (α : Type) : Type := Prog Op Op.Answer Err α

def await (c : Call) : Async c.Answer := Prog.await (Op.call c)

def newDate : Async Time := Prog.await Op.now

def randomUUID : Async Uuid := Prog.await Op.random

def randomBytes : Async Uuid := Prog.await Op.random

def anyOf : Async Nat := Prog.await Op.pick

/-- A call's error as a value. -/
def attempt {α : Type} (p : Async α) : Async (Except Err α) :=
  (p.bind fun a => .done (.ok a)).handle fun e => .done (.error e)

/-- `Promise.all`: each step is the next call of any of the programs not over yet.
The others go on after one has failed, and then the first error is thrown.  `fuel`
bounds the steps. -/
def promiseAll : Nat → List (Async Unit) → Option Err → Async Unit
  | 0, _, none => .done ()
  | 0, _, some e => .fail e
  | fuel + 1, ps, err => anyOf.bind fun k =>
    match ps[k % ps.length]? with
    | none => promiseAll fuel [] err
    | some (.done _) => promiseAll fuel (ps.eraseIdx (k % ps.length)) err
    | some (.fail e) => promiseAll fuel (ps.eraseIdx (k % ps.length)) (err <|> some e)
    | some (.call op next) =>
      .call op fun r => promiseAll fuel (ps.set (k % ps.length) (next r)) err

/-! ### The transaction port -/

/-- `sequelize.transaction`: an error of the body, or of the COMMIT, rolls back and
is thrown again. -/
def runInTransaction {α : Type} (body : Async α) : Async α :=
  tryCatch
    (do
      await .begin
      let r ← body
      await .commit
      pure r)
    fun e => do
      tryCatch (await .rollback) fun _ => pure ()
      throw e

namespace UserRepository

def existsByEmail (email : String) : Async Bool := await (.read false (.existsByEmail email))

def existsByUsername (username : String) : Async Bool :=
  await (.read false (.existsByUsername username))

def findById (id : Uuid) (tx : Bool) : Async (Option AuthUser) :=
  await (.read tx (.findUserById id))

def findByEmail (email : String) : Async (Option AuthUser) :=
  await (.read false (.findUserByEmail email))

def create (email username : String) (passwordHash : PasswordHash) (isPublicProfile tx : Bool) :
    Async AuthUser := do
  let id ← randomUUID
  let created : AuthUser := ⟨id, email, username, passwordHash, isPublicProfile, none⟩
  await (.write tx (.createUser created))
  pure created

def save (user : AuthUser) : Async AuthUser := do
  await (.write false (.saveUser user))
  pure user

end UserRepository

namespace OrganizationRepository

def findById (id : Uuid) (tx : Bool) : Async (Option Organization) :=
  await (.read tx (.findOrganizationById id))

def create (name slug : String) (tx : Bool) : Async Organization := do
  let id ← randomUUID
  let created : Organization := ⟨id, name, slug⟩
  await (.write tx (.createOrganization created))
  pure created

end OrganizationRepository

namespace MembershipRepository

def findById (id : Uuid) : Async (Option Membership) := await (.read false (.findMembershipById id))

def findByUserAndOrg (userId organizationId : Uuid) : Async (Option Membership) :=
  await (.read false (.findMembershipByUserAndOrg userId organizationId))

def findDefaultByUser (userId : Uuid) : Async (Option Membership) :=
  await (.read false (.findDefaultMembershipByUser userId))

def create (userId organizationId : Uuid) (role : MembershipRole)
    (status : Option MembershipStatus) (tx : Bool) : Async Membership := do
  let id ← randomUUID
  let joinedAt ← newDate
  let created : Membership := ⟨id, userId, organizationId, role, status.getD .active, joinedAt⟩
  await (.write tx (.createMembership created))
  pure created

def save (membership : Membership) : Async Membership := do
  await (.write false (.saveMembership membership.id membership.role))
  pure membership

def countByOrgAndRole (organizationId : Uuid) (role : MembershipRole) : Async Nat :=
  await (.read false (.countByOrgAndRole organizationId role))

def delete (id : Uuid) : Async Unit := await (.write false (.deleteMembership id))

end MembershipRepository

/-- Also what the repository answers when the unique index refuses a second invite. -/
def PENDING_INVITE_EXISTS_MESSAGE : String := "An invitation is already pending for this email"

namespace OrganizationInviteRepository

def isPendingEmailConflict (e : Err) : Bool :=
  e = .uniqueConstraint "uq_organization_invites_pending_email"

def save (organizationId : Uuid) (email : String) (role : InviteRole) (tokenHash : TokenHash)
    (expiresAt : Time) (tx : Bool) : Async OrganizationInvite := do
  let id ← randomUUID
  let created : OrganizationInvite := ⟨id, organizationId, email, role, tokenHash, expiresAt, none⟩
  tryCatch (await (.write tx (.createInvite created))) fun e =>
    if isPendingEmailConflict e then throw (.app PENDING_INVITE_EXISTS_MESSAGE 409) else throw e
  pure created

def findById (id : Uuid) (tx : Bool) : Async (Option OrganizationInvite) :=
  await (.read tx (.findInviteById id))

def findByTokenHash (hash : TokenHash) : Async (Option OrganizationInvite) :=
  await (.read false (.findInviteByTokenHash hash))

def findPendingByEmailAndOrg (email : String) (organizationId : Uuid) :
    Async (Option OrganizationInvite) := do
  let now ← newDate
  await (.read false (.findPendingByEmailAndOrg email organizationId now))

def deleteExpiredPendingByEmailAndOrg (email : String) (organizationId : Uuid) (now : Time) :
    Async Unit :=
  await (.write false (.deleteExpiredInvites email organizationId now))

def replaceTokenHash (id : Uuid) (tokenHash : TokenHash) (tx : Bool) : Async Unit :=
  await (.write tx (.replaceInviteTokenHash id tokenHash))

def deleteById (id : Uuid) : Async Unit := await (.write false (.deleteInvite id))

def markAccepted (id : Uuid) (now : Time) : Async Unit :=
  await (.write false (.acceptInvite id now))

end OrganizationInviteRepository

/-- An UPDATE over many rows: its snapshot, then its writes. -/
def update (u : Update) (tx : Bool) : Async Unit := do
  await (.startUpdate tx u)
  await (.finishUpdate tx u)

namespace RefreshTokenRepository

def save (token : RefreshToken) (tx : Bool) : Async Unit :=
  await (.write tx (.upsertRefreshToken token))

def findByTokenHash (hash : TokenHash) : Async (Option RefreshToken) :=
  await (.read false (.findRefreshTokenByTokenHash hash))

def findByTokenHashForUpdate (hash : TokenHash) : Async (Option RefreshToken) :=
  await (.findRefreshTokenForUpdate hash)

def revokeFamily (familyId : Uuid) : Async Unit := do
  let now ← newDate
  update (.revokeFamily familyId now) false

def findActiveByUser (userId : Uuid) : Async (List RefreshToken) := do
  let now ← newDate
  await (.read false (.findActiveRefreshTokensByUser userId now))

end RefreshTokenRepository

/-! ### One-time tokens

The two repositories differ in their table, and in the names of their methods. -/

namespace OneTimeTokenRepository

variable (kind : TokenKind)

def findByTokenHash (hash : TokenHash) : Async (Option OneTimeToken) :=
  await (.read false (.findTokenByTokenHash kind hash))

def create (userId : Uuid) (tokenHash : TokenHash) (expiresAt : Time) (tx : Bool) :
    Async OneTimeToken := do
  let id ← randomUUID
  let created : OneTimeToken := ⟨id, userId, tokenHash, expiresAt, none⟩
  await (.write tx (.createToken kind created))
  pure created

def markUsed (id : Uuid) (usedAt : Time) : Async Unit :=
  await (.write false (.markTokenUsed kind id usedAt))

def useAllForUser (userId : Uuid) (now : Time) (tx : Bool) : Async Unit :=
  update (.useAllForUser kind userId now) tx

end OneTimeTokenRepository

namespace PasswordResetTokenRepository

def findByTokenHash : TokenHash → Async (Option PasswordResetToken) :=
  OneTimeTokenRepository.findByTokenHash .passwordReset

def create : Uuid → TokenHash → Time → Bool → Async PasswordResetToken :=
  OneTimeTokenRepository.create .passwordReset

def markUsed : Uuid → Time → Async Unit := OneTimeTokenRepository.markUsed .passwordReset

def invalidateAllForUser : Uuid → Time → Bool → Async Unit :=
  OneTimeTokenRepository.useAllForUser .passwordReset

end PasswordResetTokenRepository

namespace EmailVerificationTokenRepository

def save : Uuid → TokenHash → Time → Bool → Async EmailVerificationToken :=
  OneTimeTokenRepository.create .emailVerification

def findByTokenHash : TokenHash → Async (Option EmailVerificationToken) :=
  OneTimeTokenRepository.findByTokenHash .emailVerification

def revokeAllForUser : Uuid → Time → Bool → Async Unit :=
  OneTimeTokenRepository.useAllForUser .emailVerification

def markUsed : Uuid → Time → Async Unit := OneTimeTokenRepository.markUsed .emailVerification

end EmailVerificationTokenRepository

namespace MetricLogRepository

def create (metricId organizationId : Uuid) (logValue : Int) (loggedAt : Time) (type : LogType)
    (tx : Bool) : Async MetricLog := do
  let id ← randomUUID
  let created : MetricLog := ⟨id, metricId, organizationId, logValue, type, loggedAt⟩
  await (.write tx (.createMetricLog created))
  pure created

end MetricLogRepository

/-- `MetricAccessSequelize.ensureMetricOwnership`. -/
def ensureMetricOwnership (userId organizationId metricId : Uuid) : Async Unit := do
  let metric ← await (.read false (.findMetric metricId organizationId))
  match metric with
  | none => throw (notFoundError "Metric not found")
  | some metric =>
    if metric.userId ≠ userId then throw (forbiddenError "Unauthorized access to metric")
    else pure ()

/-! ### Jobs -/

/-- A value of a message, as far as a handler looks at it. -/
inductive JsonValue : Type
  | uuid (u : Uuid)
  /-- A string that is not a UUID. -/
  | string (s : String)
  | integer (n : Int)
  /-- Anything else, with the text `String(value)` gives. -/
  | other (text : String)
  deriving DecidableEq, Repr

/-- A message's content, as `JSON.parse` takes it. -/
inductive JobBody : Type
  | malformed
  | notObject
  | object (fields : List (String × JsonValue))
  deriving DecidableEq, Repr

structure IncomingMessage : Type where
  content : JobBody
  messageId : JsonValue
  deriving DecidableEq, Repr

def isUuid : JsonValue → Option Uuid
  | .uuid u => some u
  | _ => none

/-- A field of an object; `undefined` when it is not there. -/
def field (fields : List (String × JsonValue)) (name : String) : JsonValue :=
  (fields.lookup name).getD (.other "undefined")

def readJobBody : JobBody → Except Err (List (String × JsonValue))
  | .malformed => .error (.terminal "Refusing message with malformed JSON.")
  | .notObject => .error (.terminal "Refusing message that is not a JSON object.")
  | .object fields => .ok fields

def MAX_MESSAGE_ID_LENGTH : Nat := 36

/-- `String.prototype.length`: a character outside the first plane counts twice. -/
def utf16Length (s : String) : Nat := (s.toList.map fun c => if c.val < 0x10000 then 1 else 2).sum

/-- `String(value)`. -/
def JsonValue.text (D : Deps) : JsonValue → String
  | .uuid u => D.uuidText u
  | .string s => s
  | .integer n => toString n
  | .other text => text

/-- The id a message can be recorded under: a string of 1 to 36 characters. -/
def usableMessageId : JsonValue → Option MessageId
  | .uuid u => some (.ofUuid u)
  | .string s =>
    if utf16Length s = 0 ∨ MAX_MESSAGE_ID_LENGTH < utf16Length s then none else some (.ofString s)
  | _ => none

def invalidMessageIdError (D : Deps) (messageId : JsonValue) : Err :=
  .terminal ("Refusing message with unusable messageId (" ++ messageId.text D ++ "): " ++
    "idempotency requires a string of 1-" ++ toString MAX_MESSAGE_ID_LENGTH ++ " characters.")

inductive IdempotencyOutcome : Type
  | processed
  | duplicate
  deriving DecidableEq, Repr

/-- Record the message; only this insert may signal a duplicate. -/
def claimMessage (p : ProcessedMessage) : Async Unit :=
  tryCatch (await (.write true (.createProcessedMessage p))) fun e => match e with
    | .uniqueConstraint _ => throw .duplicateMessage
    | e => throw e

/-- `SequelizeMessageIdempotency.runOnce`. -/
def runOnce (D : Deps) (messageId : JsonValue) (queue : String) (organizationId : Option Uuid)
    (work : Async Unit) : Async IdempotencyOutcome :=
  match usableMessageId messageId with
  | none => throw (invalidMessageIdError D messageId)
  | some id =>
    tryCatch
      (do
        runInTransaction do
          claimMessage ⟨id, queue, organizationId⟩
          work
        pure .processed)
      fun e => match e with
        | .duplicateMessage => pure .duplicate
        | e => throw e

end LakiraBackend.Auth
