import LakiraBackend.Auth.UseCases.Jobs
import LakiraBackend.Auth.UseCases.Sessions

/-!
# The running feature

`authMachine` admits any number of requests to the server and messages to the
worker, each answered by its use case, and interleaves their calls on one
database.  What the server does after a response, it does for a request of its
own here (`requestEmailVerification`, `verificationJob`), made at any time.
-/

namespace LakiraBackend.Auth

open LakiraBackend.Concurrency

inductive Request : Type
  | registerUser (input : RegisterInput)
  | loginUser (input : LoginInput)
  | rotateRefreshToken (input : RotateRefreshTokenInput)
  | revokeRefreshTokenFamily (rawToken : Uuid)
  | switchOrganization (input : SwitchOrganizationInput)
  | changeMemberRole (input : ChangeMemberRoleInput)
  | removeMembership (input : RemoveMembershipInput)
  | acceptInvite (input : AcceptInviteInput)
  | inviteUserToOrganization (input : InviteUserToOrganizationInput)
  | updateProfile (input : UpdateProfileInput)
  | requestPasswordReset (input : RequestPasswordResetInput)
  | resetPassword (input : ResetPasswordInput)
  | requestEmailVerification (userId : Uuid)
  | verificationJob (userId messageId : Uuid)
  | verifyEmail (input : VerifyEmailInput)
  | sendPasswordResetEmail (msg : IncomingMessage) (queue : String)
  | sendVerificationEmail (msg : IncomingMessage) (queue : String)
  | sendInviteEmail (msg : IncomingMessage) (queue : String)
  | generateDummyMetricLogs (msg : IncomingMessage) (queue : String)

/-- What a request is answered with. -/
inductive Reply : Type
  | unit
  | user (u : AuthUser)
  | login (r : LoginResult)
  | session (s : Session)
  | job (outcome : Option IdempotencyOutcome)

/-- The use case that answers a request. -/
def handle (D : Deps) : Request → Async Reply
  | .registerUser input => (registerUser D input).bind fun r => pure (.login r)
  | .loginUser input => (loginUser D input).bind fun r => pure (.login r)
  | .rotateRefreshToken input => (rotateRefreshToken D input).bind fun s => pure (.session s)
  | .revokeRefreshTokenFamily rawToken =>
    (revokeRefreshTokenFamily rawToken).bind fun _ => pure .unit
  | .switchOrganization input => (switchOrganization D input).bind fun s => pure (.session s)
  | .changeMemberRole input => (changeMemberRole input).bind fun _ => pure .unit
  | .removeMembership input => (removeMembership input).bind fun _ => pure .unit
  | .acceptInvite input => (acceptInvite D input).bind fun _ => pure .unit
  | .inviteUserToOrganization input =>
    (inviteUserToOrganization D input).bind fun o => pure (.job o)
  | .updateProfile input => (updateProfile D input).bind fun u => pure (.user u)
  | .requestPasswordReset input => (requestPasswordReset D input).bind fun o => pure (.job o)
  | .resetPassword input => (resetPassword input).bind fun _ => pure .unit
  | .requestEmailVerification userId =>
    (requestEmailVerification D userId).bind fun _ => pure .unit
  | .verificationJob userId messageId =>
    (sendVerificationJobInProcess D userId messageId).bind fun o => pure (.job (some o))
  | .verifyEmail input => (verifyEmail input).bind fun _ => pure .unit
  | .sendPasswordResetEmail msg queue =>
    (sendPasswordResetEmail D msg queue).bind fun o => pure (.job (some o))
  | .sendVerificationEmail msg queue =>
    (sendVerificationEmail D msg queue).bind fun o => pure (.job (some o))
  | .sendInviteEmail msg queue => (sendInviteEmail D msg queue).bind fun o => pure (.job (some o))
  | .generateDummyMetricLogs msg queue =>
    (generateDummyMetricLogs D msg queue).bind fun o => pure (.job (some o))

def authMachine (D : Deps) : Machine Op Op.Answer Err World Input Request Reply where
  exec := exec D
  crash := fun i w => { w with store := w.store.drop i }
  crashed := .crashed
  prog := handle D
  admits := fun _ _ => true

abbrev AuthState : Type := State Op Op.Answer Err World Request

abbrev AuthConfig : Type := Config Op Op.Answer Err World Request Reply

abbrev AuthEvent : Type := Event Op Op.Answer Err World Request

/-- A run on the database `d` starts here. -/
def StartsFrom (d : Db) (w : World) : Prop := w = World.init d

/-! ### A small world

What the runs below that show a behaviour start from: one user, who owns one
organization. -/

def sampleDeps : Deps where
  trim := id
  toLowerCase := id
  isEmail := fun s => s.toList.contains '@'
  uuidText := fun u => match u with
    | .seed n => toString n
    | .drawn i n => toString i ++ "." ++ toString n
  refreshTokenTtlDays := 30
  resetTtlMinutes := none
  verificationTtlSec := none
  inviteTtlDays := none
  appShortName := "lakira"
  queueEnabled := false
  cacheEnabled := false

def sampleDb : Db :=
  { Db.empty with
    users := [⟨.seed 1, "ann@x.io", "ann", ⟨"pw", .seed 0⟩, true, none⟩]
    organizations := [⟨.seed 2, "ann", "ann-1"⟩]
    memberships := [⟨.seed 3, .seed 1, .seed 2, .owner, .active, 0⟩] }

def sampleClient : Client := ⟨none, none⟩

/-- The next `n` calls of thread `i`, all done. -/
def steps (i n : Nat) : List (Label Input Request) := List.replicate n (.step i ⟨.ok, 0, 0⟩)

/-- What a schedule makes of a database. -/
def runFrom (D : Deps) (d : Db) (ls : List (Label Input Request)) : Option AuthConfig :=
  (authMachine D).run (Machine.boot (World.init d)) ls

end LakiraBackend.Auth
