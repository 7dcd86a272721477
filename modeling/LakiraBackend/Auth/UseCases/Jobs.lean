import LakiraBackend.Auth.UseCases.Account
import LakiraBackend.Auth.UseCases.Members

/-!
# What the worker runs for a message

Each handler reads its job from the message, and runs its work once.  It answers
the outcome, which the source logs.
-/

namespace LakiraBackend.Auth

open LakiraBackend.Concurrency

/-- `parseJob` of a job whose body is one id. -/
def parseIdJob (name message : String) (content : JobBody) : Except Err Uuid :=
  match readJobBody content with
  | .error e => .error e
  | .ok fields => match isUuid (field fields name) with
    | none => .error (.terminal message)
    | some id => .ok id

/-- A handler whose work is named by the id in its message. -/
def handleIdJob (D : Deps) (name message : String) (work : Uuid → Async Unit)
    (msg : IncomingMessage) (queue : String) : Async IdempotencyOutcome :=
  match parseIdJob name message msg.content with
  | .error e => throw e
  | .ok id => runOnce D msg.messageId queue none (work id)

/-- `SendPasswordResetEmailHandler.handle`. -/
def sendPasswordResetEmail (D : Deps) : IncomingMessage → String → Async IdempotencyOutcome :=
  handleIdJob D "userId" "Refusing password-reset email job without a user id."
    (sendPasswordResetInTransaction D)

/-- `SendVerificationEmailHandler.handle`. -/
def sendVerificationEmail (D : Deps) : IncomingMessage → String → Async IdempotencyOutcome :=
  handleIdJob D "userId" "Refusing verification-email job without a user id."
    (sendVerificationInTransaction D)

/-- `SendInviteEmailHandler.handle`. -/
def sendInviteEmail (D : Deps) : IncomingMessage → String → Async IdempotencyOutcome :=
  handleIdJob D "inviteId" "Refusing invite email job without an invite id."
    (sendInviteInTransaction D)

/-! ### Dummy metric logs -/

def MAX_DUMMY_METRIC_LOGS : Nat := 1000

structure DummyLogsJob : Type where
  userId : Uuid
  organizationId : Uuid
  metricId : Uuid
  count : Nat

def countError : Err :=
  .terminal ("Refusing dummy-logs job whose count is not a whole number from 1 to " ++
    toString MAX_DUMMY_METRIC_LOGS ++ ".")

/-- `parseJob` of a dummy-logs job. -/
def parseDummyLogsJob (content : JobBody) : Except Err DummyLogsJob :=
  match readJobBody content with
  | .error e => .error e
  | .ok fields =>
    match isUuid (field fields "jobId"), isUuid (field fields "userId"),
      isUuid (field fields "organizationId"), isUuid (field fields "metricId") with
    | some _, some userId, some organizationId, some metricId =>
      match field fields "count" with
      | .integer count =>
        if count < 1 ∨ (MAX_DUMMY_METRIC_LOGS : Int) < count then .error countError
        else .ok ⟨userId, organizationId, metricId, count.toNat⟩
      | _ => .error countError
    | _, _, _, _ => .error (.terminal "Refusing dummy-logs job without its ids as UUIDs.")

/-- `TERMINAL_ACCESS_KINDS`: access rejections that will not change on retry. -/
def isTerminalAccessKind : DomainErrorKind → Bool
  | .unauthorized => true
  | .forbidden => true
  | .notFound => true
  | _ => false

/-- The logs of a dummy-logs job, one row at a time.  A value is in hundredths. -/
def createDummyLogs (job : DummyLogsJob) : Nat → Async Unit
  | 0 => pure ()
  | n + 1 => do
    let value ← anyOf
    let now ← newDate
    let days ← anyOf
    let type ← anyOf
    let _ ← MetricLogRepository.create job.metricId job.organizationId (value % 10001)
      (now - (days % 30 : Nat) * day) (if type % 2 = 0 then .manual else .automatic) true
    createDummyLogs job n

def terminalIfRefused (e : Err) : Async Unit :=
  match e with
  | .domain kind message =>
    if isTerminalAccessKind kind then throw (.terminal message) else throw e
  | e => throw e

def invalidateCache (D : Deps) (job : DummyLogsJob) : Async Unit :=
  if D.cacheEnabled then await (.invalidateCache job.userId job.organizationId job.metricId)
  else pure ()

/-- `GenerateDummyMetricLogsHandler.handle`. -/
def generateDummyMetricLogs (D : Deps) (msg : IncomingMessage) (queue : String) :
    Async IdempotencyOutcome :=
  match parseDummyLogsJob msg.content with
  | .error e => throw e
  | .ok job => do
    tryCatch (ensureMetricOwnership job.userId job.organizationId job.metricId) terminalIfRefused
    let outcome ← runOnce D msg.messageId queue (some job.organizationId)
      (createDummyLogs job job.count)
    invalidateCache D job
    pure outcome

end LakiraBackend.Auth
