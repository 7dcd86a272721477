import LakiraBackend.Auth.UseCases.Sessions
import LakiraBackend.Concurrency.Lowering
import LakiraBackend.Redis.Counters

/-!
# The lockout of logins

The controller looks at the counter of an address, then lets the use case compare the password,
which counts a failure and resets after a success.  Each of these is a call or several, to Redis
or to what `LoginUser` awaits; `lockoutMachine` interleaves them.  What the database and the
hasher answer is left to the scheduler.
-/

namespace LakiraBackend.Auth.Lockout

open LakiraBackend.Concurrency LakiraBackend.Redis

structure LockoutDeps : Type where
  auth : Deps
  /-- `createHash("sha256").update(text).digest("hex")`. -/
  sha256 : String → String

variable (D : LockoutDeps)

/-- `LOCKOUT_THRESHOLD`. -/
def threshold : Nat := 5

/-- `LOCKOUT_TTL_SECONDS`. -/
def ttlSeconds : Nat := 15 * 60

def hashEmail (email : String) : String := D.sha256 (D.auth.toLowerCase (D.auth.trim email))

def keyFor (email : String) : String := "auth:lockout:" ++ hashEmail D email

inductive Op : Type
  /-- `redis.isOpen`. -/
  | isOpen
  | redis (command : Command String)
  | auth (op : Auth.Op)
  /-- The clock passes the expiry of a key. -/
  | lapse (key : String)

abbrev Op.Answer : Op → Type
  | .isOpen => Bool
  | .redis command => command.Answer
  | .auth op => op.Answer
  | .lapse _ => Unit

abbrev Async (α : Type) : Type := Prog Op Op.Answer Err α

def redisIsOpen : Async Bool := Prog.await Op.isOpen

def redis (command : Command String) : Async command.Answer := Prog.await (Op.redis command)

/-! ### The counter -/

def checkLockout (email : String) : Async Unit := do
  let count ← tryCatch (do
    let isOpen ← redisIsOpen
    if !isOpen then pure none
    else do
      let raw ← redis (.get (keyFor D email))
      pure (some (raw.getD 0))) fun _ => pure none
  match count with
  | none => pure ()
  | some count =>
    if threshold ≤ count then
      throw (.app "Too many failed login attempts. Please try again later." 429)
    else pure ()

def recordFailedAttempt (email : String) : Async Unit :=
  tryCatch (do
    let isOpen ← redisIsOpen
    if !isOpen then pure ()
    else do
      let count ← redis (.incr (keyFor D email))
      if count = 1 then do
        let _ ← redis (.expire (keyFor D email) ttlSeconds)
        pure ()
      else pure ()) fun _ => pure ()

def resetLockout (email : String) : Async Unit :=
  tryCatch (do
    let isOpen ← redisIsOpen
    if !isOpen then pure ()
    else do
      let _ ← redis (.del (keyFor D email))
      pure ()) fun _ => pure ()

/-! ### The request -/

/-- What `LoginUser` awaits: the attempts are counted in Redis. -/
def loginAttempts : (op : Auth.Op) → Async op.Answer
  | .call (.recordFailure email) => recordFailedAttempt D email
  | .call (.resetFailures email) => resetLockout D email
  | op => Prog.await (Op.auth op)

/-- The controller's `login`. -/
def login (input : LoginInput) : Async LoginResult := do
  checkLockout D input.email
  (loginUser D.auth input).lower (loginAttempts D)

inductive Request : Type
  | login (input : LoginInput)
  | checkLockout (email : String)
  | recordFailedAttempt (email : String)
  | resetLockout (email : String)
  | clock (key : String)

def handle : Request → Async (Option LoginResult)
  | .login input => (login D input).bind fun r => pure (some r)
  | .checkLockout email => (checkLockout D email).bind fun _ => pure none
  | .recordFailedAttempt email => (recordFailedAttempt D email).bind fun _ => pure none
  | .resetLockout email => (resetLockout D email).bind fun _ => pure none
  | .clock key => (Prog.await (Op.lapse key)).bind fun _ => pure none

/-- What the scheduler decides when it lets a thread make a call. -/
structure Input : Type where
  isOpen : Bool
  /-- How a Redis command ends. -/
  outcome : Outcome
  /-- What the database, the hasher and the clock answer. -/
  answer : (op : Auth.Op) → Except Err op.Answer

abbrev World : Type := Counters String

def exec (inp : Input) : (op : Op) → World → Option (Except Err op.Answer × World)
  | .isOpen, w => some (.ok inp.isOpen, w)
  | .redis command, w => match inp.outcome with
    | .ok => some (.ok (w.apply command).1, (w.apply command).2)
    | .failed => some (.error .repository, w)
    | .lost => some (.error .repository, (w.apply command).2)
  | .auth op, w => some (inp.answer op, w)
  | .lapse key, w => some (.ok (), w.lapse key)

def lockoutMachine : Machine Op Op.Answer Err World Input Request (Option LoginResult) where
  exec _ inp op w := exec inp op w
  crash _ w := w
  crashed := .crashed
  prog := handle D
  admits _ _ := true

abbrev LockoutConfig : Type := Config Op Op.Answer Err World Request (Option LoginResult)

abbrev LockoutEvent : Type := Event Op Op.Answer Err World Request

/-- No failure has been counted. -/
def Fresh (w : World) : Prop := w = fun _ => none

end LakiraBackend.Auth.Lockout
