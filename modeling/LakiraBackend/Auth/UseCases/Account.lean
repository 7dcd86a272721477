import LakiraBackend.Auth.Repositories

/-!
# Use cases on the users row and its one-time tokens
-/

namespace LakiraBackend.Auth

open LakiraBackend.Concurrency

structure UpdateProfileInput : Type where
  userId : Uuid
  email : Option String
  username : Option String
  password : Option String
  isPublicProfile : Option Bool

/-- A string as a condition: the empty string is falsy. -/
def truthy (s : Option String) : Option String := s.filter (· ≠ "")

/-- The part of `UpdateProfile.execute` on the address. -/
def updateEmail (D : Deps) (user : AuthUser) (email : Option String) : Async AuthUser :=
  match truthy email with
  | none => pure user
  | some email =>
    if D.toLowerCase email = user.email then pure user
    else do
      if ← UserRepository.existsByEmail (D.toLowerCase email) then
        throw (conflictError "Email already in use")
      else match user.changeEmail D.trim D.toLowerCase email with
        | .error e => throw e
        | .ok user => pure user

/-- The part of `UpdateProfile.execute` on the name. -/
def updateUsername (D : Deps) (user : AuthUser) (username : Option String) : Async AuthUser :=
  match truthy username with
  | none => pure user
  | some username =>
    if username = user.username then pure user
    else do
      if ← UserRepository.existsByUsername username then
        throw (conflictError "Username already in use")
      else match user.changeUsername D.trim username with
        | .error e => throw e
        | .ok user => pure user

/-- The part of `UpdateProfile.execute` on the password. -/
def updatePassword (user : AuthUser) (password : Option String) : Async AuthUser :=
  match truthy password with
  | none => pure user
  | some password => do
    let passwordHash ← await (.hash password)
    pure (user.setPasswordHash passwordHash)

/-- `UpdateProfile.execute`. -/
def updateProfile (D : Deps) (input : UpdateProfileInput) : Async AuthUser := do
  let user ← UserRepository.findById input.userId false
  match user with
  | none => throw (notFoundError "User not found")
  | some user => do
    let user ← updateEmail D user input.email
    let user ← updateUsername D user input.username
    let user := match input.isPublicProfile with
      | some value => user.togglePublicProfile value
      | none => user
    let user ← updatePassword user input.password
    UserRepository.save user

/-! ### Password reset -/

def INVALID_RESET_TOKEN_MESSAGE : String := "Invalid or expired reset token"

structure ResetPasswordInput : Type where
  token : Uuid
  password : String
  passwordConfirmation : String

/-- `ResetPassword.execute`. -/
def resetPassword (input : ResetPasswordInput) : Async Unit := do
  if input.password ≠ input.passwordConfirmation then
    throw (validationError "Passwords do not match")
  else do
    let now ← newDate
    let token ← PasswordResetTokenRepository.findByTokenHash (.sha256 input.token)
    match token with
    | none => throw (validationError INVALID_RESET_TOKEN_MESSAGE)
    | some token =>
      if token.isUsed || token.isExpired now then
        throw (validationError INVALID_RESET_TOKEN_MESSAGE)
      else do
        let user ← UserRepository.findById token.userId false
        match user with
        | none => throw (validationError INVALID_RESET_TOKEN_MESSAGE)
        | some user => do
          let passwordHash ← await (.hash input.password)
          let _ ← UserRepository.save (user.setPasswordHash passwordHash)
          PasswordResetTokenRepository.markUsed token.id now

def RESET_TOKEN_TTL_MINUTES : Int := 15

def QUEUE_SEND_PASSWORD_RESET_EMAIL (D : Deps) : String :=
  D.appShortName ++ ".auth.send-password-reset-email"

def ROUTING_KEY_SEND_PASSWORD_RESET_EMAIL : String := "auth.send-password-reset-email"

/-- `RequestPasswordReset.issue`: invalidates the user's earlier tokens and mints one. -/
def issueResetToken (D : Deps) (user : AuthUser) (tx : Bool) : Async EmailMessage := do
  let now ← newDate
  let ttlMinutes := D.resetTtlMinutes.getD RESET_TOKEN_TTL_MINUTES
  PasswordResetTokenRepository.invalidateAllForUser user.id now tx
  let rawToken ← randomBytes
  let expiresAt := now + ttlMinutes * 60 * 1000
  let _ ← PasswordResetTokenRepository.create user.id (.sha256 rawToken) expiresAt tx
  pure ⟨user.email, .passwordReset rawToken ttlMinutes⟩

/-- `RequestPasswordReset.executeInTransaction`, for the queued job. -/
def sendPasswordResetInTransaction (D : Deps) (userId : Uuid) : Async Unit := do
  let user ← UserRepository.findById userId true
  match user with
  | none => pure ()
  | some user => do
    let message ← issueResetToken D user true
    await (.send message)

/-- `RequestPasswordReset.sendInRequest`: a failed send is logged, not retried. -/
def sendPasswordResetInRequest (D : Deps) (user : AuthUser) : Async Unit := do
  let message ← issueResetToken D user false
  tryCatch (await (.send message)) fun _ => pure ()

/-- `RequestPasswordReset.sendJobInRequest`: an error is logged. -/
def sendPasswordResetJobInRequest (D : Deps) (userId messageId : Uuid) :
    Async (Option IdempotencyOutcome) :=
  tryCatch
    (do
      let outcome ← runOnce D (.uuid messageId) (QUEUE_SEND_PASSWORD_RESET_EMAIL D) none
        (sendPasswordResetInTransaction D userId)
      pure (some outcome))
    fun _ => pure none

structure RequestPasswordResetInput : Type where
  email : String

/-- `RequestPasswordReset.execute`; answers what became of the job it ran itself,
which the source logs. -/
def requestPasswordReset (D : Deps) (input : RequestPasswordResetInput) :
    Async (Option IdempotencyOutcome) := do
  let email := D.toLowerCase (D.trim input.email)
  let user ← UserRepository.findByEmail email
  match user with
  | none => pure none
  | some user =>
    if D.queueEnabled then do
      let messageId ← randomUUID
      let published ← attempt (await (.publish ROUTING_KEY_SEND_PASSWORD_RESET_EMAIL
        (.ofUuid messageId) (.passwordResetEmail user.id)))
      match published with
      | .ok () => pure none
      | .error _ => sendPasswordResetJobInRequest D user.id messageId
    else do
      sendPasswordResetInRequest D user
      pure none

/-! ### E-mail verification -/

def INVALID_VERIFICATION_TOKEN_MESSAGE : String := "Verification link is invalid or has expired."

structure VerifyEmailInput : Type where
  token : Uuid

/-- `VerifyEmail.execute`. -/
def verifyEmail (input : VerifyEmailInput) : Async Unit := do
  let now ← newDate
  let token ← EmailVerificationTokenRepository.findByTokenHash (.sha256 input.token)
  match token with
  | none => throw (validationError INVALID_VERIFICATION_TOKEN_MESSAGE)
  | some token =>
    if !token.isUsable now then throw (validationError INVALID_VERIFICATION_TOKEN_MESSAGE)
    else do
      let user ← UserRepository.findById token.userId false
      match user with
      | none => throw (validationError INVALID_VERIFICATION_TOKEN_MESSAGE)
      | some user => do
        let _ ← UserRepository.save (user.setEmailVerifiedAt now)
        EmailVerificationTokenRepository.markUsed token.id now

def VERIFICATION_TOKEN_TTL_SEC : Int := 86400

def QUEUE_SEND_VERIFICATION_EMAIL (D : Deps) : String :=
  D.appShortName ++ ".auth.send-verification-email"

def ROUTING_KEY_SEND_VERIFICATION_EMAIL : String := "auth.send-verification-email"

/-- `RequestEmailVerification.issue`: revokes the user's earlier tokens and mints
one; `none` when no e-mail is owed. -/
def issueVerificationToken (D : Deps) (userId : Uuid) (tx : Bool) :
    Async (Option EmailMessage) := do
  let user ← UserRepository.findById userId tx
  match user with
  | none => pure none
  | some user =>
    if user.emailVerifiedAt ≠ none then pure none
    else do
      let now ← newDate
      let ttlSec := D.verificationTtlSec.getD VERIFICATION_TOKEN_TTL_SEC
      EmailVerificationTokenRepository.revokeAllForUser user.id now tx
      let rawToken ← randomBytes
      let expiresAt := now + ttlSec * 1000
      let _ ← EmailVerificationTokenRepository.save user.id (.sha256 rawToken) expiresAt tx
      -- `Math.round(ttlSec / 3600)`
      let ttlHours := (2 * ttlSec + 3600) / 7200
      pure (some ⟨user.email, .emailVerification rawToken ttlHours⟩)

/-- `RequestEmailVerification.execute`: a failed send is logged, not retried. -/
def requestEmailVerification (D : Deps) (userId : Uuid) : Async Unit := do
  let email ← issueVerificationToken D userId false
  match email with
  | none => pure ()
  | some email => tryCatch (await (.send email)) fun _ => pure ()

/-- `RequestEmailVerification.executeInTransaction`, for the queued job. -/
def sendVerificationInTransaction (D : Deps) (userId : Uuid) : Async Unit := do
  let email ← issueVerificationToken D userId true
  match email with
  | none => pure ()
  | some email => await (.send email)

/-- `sendJobInProcess`: the job run after the response, after a publish that failed. -/
def sendVerificationJobInProcess (D : Deps) (userId messageId : Uuid) :
    Async IdempotencyOutcome :=
  runOnce D (.uuid messageId) (QUEUE_SEND_VERIFICATION_EMAIL D) none
    (sendVerificationInTransaction D userId)

end LakiraBackend.Auth
