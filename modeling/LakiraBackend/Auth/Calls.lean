import LakiraBackend.Auth.Tables
import LakiraBackend.Concurrency.Machine

/-!
# What a use case awaits

`Call` has one constructor for each kind of call a use case awaits: a statement
on the database, a step of a transaction, and the calls to the mailer, the
queue, Redis and bcrypt.  `Op` adds what it computes at once and cannot fail:
the clock, the random values, and the choices `Math.random` makes.

The scheduler decides how each call ends (`Outcome`): it is done, it fails and
changes nothing, or it is done and its answer is lost.  A failed or lost COMMIT
or ROLLBACK ends the transaction all the same.

An UPDATE over many rows is two calls, `startUpdate` and `finishUpdate`, with
its snapshot in between; every other statement is one.  `save` and `delete` of a
row by its id read the row first, and are one call with that read.
-/

namespace LakiraBackend.Auth

open LakiraBackend.Concurrency

/-- The UPDATEs over many rows. -/
inductive Update : Type
  | revokeFamily (familyId : Uuid) (now : Time)
  | useAllForUser (kind : TokenKind) (userId : Uuid) (now : Time)
  deriving DecidableEq, Repr

/-- The rows the WHERE clause matches. -/
def Update.matching : Update → Db → List Uuid
  | .revokeFamily familyId _, d =>
    (d.refreshTokens.filter fun t => t.familyId = familyId && t.revokedAt = none).map (·.id)
  | .useAllForUser kind userId _, d =>
    ((d.tokens kind).filter fun t => t.userId = userId && t.usedAt = none).map (·.id)

/-- An UPDATE with the rows of its snapshot. -/
structure Statement : Type where
  tx : Bool
  update : Update
  ids : List Uuid
  deriving DecidableEq, Repr

/-- What an UPDATE writes: to each row of the snapshot that still matches. -/
def Statement.write (st : Statement) : Write :=
  match st.update with
  | .revokeFamily familyId now => .revokeRefreshTokens familyId now st.ids
  | .useAllForUser kind userId now => .useTokens kind userId now st.ids

/-- What a mail says, by its template and the values put in it. -/
inductive MailBody : Type
  | passwordReset (rawToken : Uuid) (ttlMinutes : Int)
  | emailVerification (rawToken : Uuid) (ttlHours : Int)
  | organizationInvite (rawToken : Uuid) (organizationName : String) (expiresInDays : Int)
  deriving DecidableEq, Repr

structure EmailMessage : Type where
  recipient : String
  body : MailBody
  deriving DecidableEq, Repr

/-- What a publisher hands to the queue. -/
inductive Job : Type
  | passwordResetEmail (userId : Uuid)
  | verificationEmail (userId : Uuid)
  | inviteEmail (inviteId : Uuid)
  deriving DecidableEq, Repr

/-- The claims an access token is signed over. -/
structure TokenPayload : Type where
  id : Uuid
  email : String
  username : String
  organizationId : Uuid
  deriving DecidableEq, Repr

inductive Call : Type
  | begin
  | commit
  | rollback
  | read (tx : Bool) (q : Read)
  /-- `SELECT … FOR UPDATE`, in a transaction. -/
  | findRefreshTokenForUpdate (tokenHash : TokenHash)
  | write (tx : Bool) (w : Write)
  | startUpdate (tx : Bool) (u : Update)
  | finishUpdate (tx : Bool) (u : Update)
  | hash (password : String)
  | compare (password : String) (hash : PasswordHash)
  | sign (payload : TokenPayload)
  | send (m : EmailMessage)
  | publish (routingKey : String) (messageId : MessageId) (job : Job)
  | recordFailure (email : String)
  | resetFailures (email : String)
  | invalidateCache (userId organizationId metricId : Uuid)
  deriving DecidableEq, Repr

abbrev Call.Answer : Call → Type
  | .read _ q => q.Answer
  | .findRefreshTokenForUpdate _ => Option RefreshToken
  | .hash _ => PasswordHash
  | .compare _ _ => Bool
  | .sign _ => TokenPayload
  | _ => Unit

inductive Op : Type
  /-- `new Date()`. -/
  | now
  /-- `randomUUID()`, `randomBytes(…)`. -/
  | random
  /-- `Math.random()`, or which of the calls awaited together is next. -/
  | pick
  | call (c : Call)
  deriving DecidableEq, Repr

abbrev Op.Answer : Op → Type
  | .now => Time
  | .random => Uuid
  | .pick => Nat
  | .call c => c.Answer

/-! ### The world -/

abbrev AuthStore : Type := Store Db Write Key Statement

structure World : Type where
  store : AuthStore
  /-- How many random values there have been. -/
  draws : Nat
  /-- The mails delivered, newest first. -/
  outbox : List EmailMessage

/-- A world in which nothing is under way. -/
def World.init (d : Db) : World := ⟨⟨d, [], [], []⟩, 0, []⟩

/-- How a call ends. -/
inductive Outcome : Type
  | ok
  | failed
  | lost
  deriving DecidableEq, Repr

/-- What the scheduler decides when it lets a thread make a call. -/
structure Input : Type where
  outcome : Outcome
  now : Time
  pick : Nat
  deriving DecidableEq, Repr

/-- The refresh token `SELECT … FOR UPDATE` finds: it waits for its row, and locks it. -/
def World.lockRefreshToken (D : Deps) (w : World) (i : Nat) (h : TokenHash) :
    Option (Option RefreshToken × World) :=
  match (w.store.view (schema D) i).refreshTokens.find? fun t => t.tokenHash = h with
  | none => some (none, w)
  | some t =>
    if w.store.heldByOther i ⟨.refreshTokens, t.id⟩ then none
    else some (some t, { w with store := w.store.lock i [⟨.refreshTokens, t.id⟩] })

/-- The UPDATE thread `i` has under way. -/
def World.underway (w : World) (i : Nat) (tx : Bool) (u : Update) : Option Statement :=
  (w.store.running.find? fun r => r.1 = i && r.2.tx = tx && r.2.update = u).map (·.2)

/-- A call that is done. -/
def perform (D : Deps) (i : Nat) : (c : Call) → World → Option (Except Err c.Answer × World)
  | .begin, w => some (.ok (), w)
  | .commit, w => some (.ok (), { w with store := w.store.commit (schema D) i })
  | .rollback, w => some (.ok (), { w with store := w.store.rollback i })
  | .read tx q, w => some (.ok (q.eval D (w.store.base (schema D) i tx)), w)
  | .findRefreshTokenForUpdate h, w =>
    (w.lockRefreshToken D i h).map fun (t, w') => (.ok t, w')
  | .write tx wr, w =>
    (w.store.write (schema D) i tx wr).map fun (r, s) => (r, { w with store := s })
  | .startUpdate tx u, w =>
    let st : Statement := ⟨tx, u, u.matching (w.store.base (schema D) i tx)⟩
    some (.ok (), { w with store := w.store.start i st })
  | .finishUpdate tx u, w =>
    (w.underway i tx u).bind fun st =>
      (w.store.write (schema D) i tx st.write).map fun (r, s) =>
        (r, { w with store := s.stop i st })
  | .hash password, w =>
    some (.ok ⟨password, .drawn i w.draws⟩, { w with draws := w.draws + 1 })
  | .compare password h, w => some (.ok (h.password = password), w)
  | .sign payload, w => some (.ok payload, w)
  | .send m, w => some (.ok (), { w with outbox := m :: w.outbox })
  | .publish _ _ _, w => some (.ok (), w)
  | .recordFailure _, w => some (.ok (), w)
  | .resetFailures _, w => some (.ok (), w)
  | .invalidateCache _ _ _, w => some (.ok (), w)

/-- What a call that fails leaves. -/
def World.abandon (w : World) (i : Nat) : Call → World
  | .commit => { w with store := w.store.rollback i }
  | .rollback => { w with store := w.store.rollback i }
  | .finishUpdate tx u => match w.underway i tx u with
    | some st => { w with store := w.store.stop i st }
    | none => w
  | _ => w

/-- What a call leaves whose answer is lost: `done` is what it leaves when it is done. -/
def World.afterLost (w done : World) : Call → World
  | .startUpdate _ _ => w
  | _ => done

/-- Thread `i` makes a call; `none` while it has to wait. -/
def exec (D : Deps) (i : Nat) (inp : Input) : (op : Op) → World →
    Option (Except Err op.Answer × World)
  | .now, w => some (.ok inp.now, w)
  | .random, w => some (.ok (.drawn i w.draws), { w with draws := w.draws + 1 })
  | .pick, w => some (.ok inp.pick, w)
  | .call c, w => match inp.outcome with
    | .ok => perform D i c w
    | .failed => some (.error .repository, w.abandon i c)
    | .lost => (perform D i c w).map fun (_, w') => (.error .repository, w.afterLost w' c)

end LakiraBackend.Auth
