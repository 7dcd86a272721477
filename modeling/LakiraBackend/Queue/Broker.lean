import LakiraBackend.Queue.RetryPolicy
import LakiraBackend.Concurrency.Machine

/-!
# The broker, its topology, and the calls of a worker

The broker holds messages, in queues and on channels whose consumer has not settled
them.  A channel that dies gives its messages back to their queue.  A message that is
refused without requeueing, or has waited its time in a queue, goes where its queue
dead-letters it.  A message published with `mandatory` that no queue is bound for is
returned, then confirmed.

`serial`, `copies`, `accepted` and `handled` are bookkeeping for the properties: no
program reads them.
-/

namespace LakiraBackend.Queue

open LakiraBackend.Concurrency

structure Message : Type where
  /-- Which of the messages there ever were this is. -/
  serial : Nat
  /-- `properties.messageId`; `none` where it is no string. -/
  messageId : Option String
  headers : Headers
  content : String
  deriving DecidableEq, Repr

/-- A consumer on one of its channels, with the publisher of its process. -/
structure Consumer : Type where
  queue : String
  channel : Nat
  publisher : Nat
  deriving DecidableEq, Repr

inductive Place : Type
  | queue (name : String)
  /-- Delivered on the consumer's channel to a call of its handler, and not settled. -/
  | unacked (c : Consumer) (thread : Nat)
  deriving DecidableEq, Repr

structure QueueDeclaration : Type where
  name : String
  messageTtl : Option Nat
  deadLetterExchange : Option String
  deadLetterRoutingKey : Option String
  deriving DecidableEq, Repr

/-! ### Topology -/

def EXCHANGES_PARKING (S : Settings) : String := S.appShortName ++ ".jobs.parking"

def QUEUES_PARKING (S : Settings) : String := S.appShortName ++ ".jobs.parking.queue"

/-- The work queues of `QUEUES`. -/
def workQueues (S : Settings) : List String :=
  [S.appShortName ++ ".metric-log.generate-dummy", S.appShortName ++ ".auth.send-verification-email",
    S.appShortName ++ ".auth.send-password-reset-email", S.appShortName ++ ".auth.send-invite-email"]

def retryQueueFor (queue : String) (delayMs : Nat) : String :=
  queue ++ ".retry." ++ toString delayMs

/-- What `assertRetryTier` declares. -/
def retryTier (queue : String) (delayMs : Nat) : QueueDeclaration :=
  ⟨retryQueueFor queue delayMs, some delayMs, some "", some queue⟩

/-- What `assertWorkQueue` declares. -/
def workQueue (S : Settings) (queue : String) : QueueDeclaration :=
  ⟨queue, none, some (EXCHANGES_PARKING S), none⟩

/-- What `assertTopology` declares. -/
def topology (S : Settings) : List QueueDeclaration :=
  (workQueues S).map (workQueue S) ++ [⟨QUEUES_PARKING S, none, none, none⟩]

/-! ### The world -/

inductive PublishStatus : Type
  /-- A queue has it. -/
  | routed
  /-- No queue is bound for it. -/
  | unroutable
  /-- The publisher has had it back. -/
  | returned
  /-- It has not reached the broker. -/
  | unsent
  deriving DecidableEq, Repr

/-- A publish that waits for its confirm. -/
structure Publish : Type where
  thread : Nat
  publisher : Nat
  messageId : String
  /-- The serial number of the message it is a copy of. -/
  original : Nat
  status : PublishStatus
  deriving DecidableEq, Repr

structure World : Type where
  declared : List QueueDeclaration
  messages : List (Place × Message)
  /-- The channels that have died. -/
  closed : List Nat
  /-- `RabbitMQPublisher.returned`, with whose set it is. -/
  returned : List (Nat × String)
  underway : List Publish
  /-- Publishes that were given up, and may come back. -/
  abandoned : List (Nat × String)
  /-- The next serial number. -/
  next : Nat
  /-- Which message is a copy of which. -/
  copies : List (Nat × Nat)
  accepted : List Nat
  handled : List Nat
  deriving DecidableEq, Repr

/-- A broker with the topology, and no message. -/
def World.init (S : Settings) : World := ⟨topology S, [], [], [], [], [], 0, [], [], []⟩

namespace World

variable (w : World)

def declares (name : String) : Bool := w.declared.any fun d => d.name = name

/-- The queue a queue's messages are dead-lettered to. -/
def deadLetterQueue (S : Settings) (name : String) : Option String :=
  match w.declared.find? fun d => d.name = name with
  | none => none
  | some d =>
    let target := match d.deadLetterExchange with
      | none => none
      | some exchange =>
        if exchange = "" then d.deadLetterRoutingKey
        else if exchange = EXCHANGES_PARKING S then some (QUEUES_PARKING S)
        else none
    target.filter w.declares

/-- Take a message from where it is, to a queue or away. -/
def move (p : Place × Message) (queue : Option String) : World :=
  { w with messages := w.messages.erase p ++ (queue.map fun name => (.queue name, p.2)).toList }

/-- A new message in a queue. -/
def add (name : String) (messageId : Option String) (headers : Headers) (content : String) : World :=
  { w with
    messages := w.messages ++ [(.queue name, ⟨w.next, messageId, headers, content⟩)]
    next := w.next + 1 }

/-- A channel dies: what is not settled on it goes back to its queue. -/
def close (channel : Nat) : World :=
  { w with
    closed := channel :: w.closed
    messages := w.messages.map fun p => match p.1 with
      | .unacked c _ => if c.channel = channel then (.queue c.queue, p.2) else p
      | .queue _ => p }

/-- Take a publisher's note of a returned message. -/
def takeReturned (publisher : Nat) (messageId : String) : World :=
  { w with returned := w.returned.filter fun r => r ≠ (publisher, messageId) }

/-- A process dies: it waits for no confirm, and its messages are left to its channels. -/
def crash (i : Nat) : World := { w with underway := w.underway.filter fun u => u.thread ≠ i }

end World

/-! ### Calls -/

inductive Op : Type
  /-- The consumer is given a message. -/
  | receive (c : Consumer)
  | handler (c : Consumer) (msg : Message)
  | ack (c : Consumer) (msg : Message)
  | nack (c : Consumer) (msg : Message) (requeue : Bool)
  | assertQueue (c : Consumer) (d : QueueDeclaration)
  /-- `publish` of a copy of the message hands it to the channel. -/
  | publish (c : Consumer) (msg : Message) (messageId routingKey : String) (headers : Headers)
      (content : String)
  /-- The channel's promise is settled, and `publish` goes on. -/
  | confirm (c : Consumer) (messageId : String)
  | accept (queue : String) (messageId : Option String) (headers : Headers) (content : String)
  | expire (queue : String)
  | basicReturn (thread : Nat)
  | lateReturn (publisher : Nat) (messageId : String)
  | close (channel : Nat)
  | deleteQueue (name : String)
  deriving DecidableEq, Repr

abbrev Op.Answer : Op → Type
  | .receive _ => Message
  | _ => Unit

inductive HandlerOutcome : Type
  | success
  | terminal
  | other
  deriving DecidableEq, Repr

/-- What the scheduler decides: whether a call gets through, and what a handler does. -/
structure Input : Type where
  ok : Bool
  handler : HandlerOutcome
  deriving DecidableEq, Repr

instance lawfulBEq_placed : LawfulBEq (Place × Message) := inferInstance

/-- A settlement: on a channel that is dead it throws, and a delivery that the channel does
not have closes it. -/
def settle (w : World) (c : Consumer) (i : Nat) (msg : Message) (queue : Option String) :
    Except QueueError Unit × World :=
  if c.channel ∈ w.closed then (.error .illegalOperation, w)
  else if (.unacked c i, msg) ∈ w.messages then (.ok (), w.move (.unacked c i, msg) queue)
  else (.ok (), w.close c.channel)

/-- A declaration: of a queue that is there with other arguments it closes the channel. -/
def declare (w : World) (c : Consumer) (d : QueueDeclaration) : Except QueueError Unit × World :=
  if c.channel ∈ w.closed then (.error .illegalOperation, w)
  else match w.declared.find? fun d' => d'.name = d.name with
    | some d' => if d' = d then (.ok (), w) else (.error .illegalOperation, w.close c.channel)
    | none => (.ok (), { w with declared := w.declared ++ [d] })

/-- The channel of a publisher takes a message; through the default exchange it goes to the
queue its routing key names. -/
def send (w : World) (i : Nat) (publisher : Nat) (msg : Message) (messageId routingKey : String)
    (headers : Headers) (content : String) (sent : Bool) : World :=
  let status := if !sent then .unsent else if w.declares routingKey then .routed else .unroutable
  let w := { w with underway := w.underway ++ [⟨i, publisher, messageId, msg.serial, status⟩] }
  if status = .routed then
    { w.add routingKey (some messageId) headers content with copies := w.copies ++ [(msg.serial, w.next)] }
  else w

/-- A publish ends: it was confirmed, when its return has been read before, or it failed.  Then
the publisher looks whether its message is among the returned. -/
def confirm (w : World) (i : Nat) (publisher : Nat) (messageId : String) (ok : Bool) :
    Option (Except QueueError Unit × World) :=
  match w.underway.find? fun u => u.thread = i with
  | none => none
  | some u =>
    let w' := { w with underway := w.underway.erase u }
    if ok then
      if u.status = .routed ∨ u.status = .returned then
        some (if (publisher, messageId) ∈ w.returned then .error .unroutable else .ok (),
          w'.takeReturned publisher messageId)
      else none
    else
      let w' := if u.status = .unroutable then
        { w' with abandoned := w.abandoned ++ [(publisher, messageId)] } else w'
      some (.error .publish, w'.takeReturned publisher messageId)

/-- What thread `i`'s call does; `none` while it has to wait. -/
def exec (S : Settings) (i : Nat) (inp : Input) :
    (op : Op) → World → Option (Except QueueError op.Answer × World)
  | .receive c, w =>
    -- a worker consumes the work queues
    if c.queue ∉ workQueues S ∨ c.channel ∈ w.closed then none
    else (w.messages.find? fun p => p.1 = .queue c.queue).map fun p =>
      (.ok p.2, { w with messages := w.messages.erase p ++ [(.unacked c i, p.2)] })
  | .handler _ msg, w =>
    match inp.handler with
    | .success => some (.ok (), { w with handled := msg.serial :: w.handled })
    | .terminal => some (.error .terminal, w)
    | .other => some (.error .other, w)
  | .ack c msg, w => some (settle w c i msg none)
  | .nack c msg requeue, w =>
    some (settle w c i msg (if requeue then some c.queue else w.deadLetterQueue S c.queue))
  | .assertQueue c d, w => if inp.ok then some (declare w c d) else some (.error .other, w)
  | .publish c msg messageId routingKey headers content, w =>
    some (.ok (), send w i c.publisher msg messageId routingKey headers content inp.ok)
  | .confirm c messageId, w => confirm w i c.publisher messageId inp.ok
  | .accept queue messageId headers content, w =>
    if queue ∈ workQueues S then
      some (.ok (), { w.add queue messageId headers content with accepted := w.next :: w.accepted })
    else none
  | .expire queue, w =>
    match w.declared.find? fun d => d.name = queue with
    | some ⟨_, some _, _, _⟩ =>
      (w.messages.find? fun p => p.1 = .queue queue).map fun p =>
        (.ok (), w.move p (w.deadLetterQueue S queue))
    | _ => none
  | .basicReturn thread, w =>
    (w.underway.find? fun u => u.thread = thread ∧ u.status = .unroutable).map fun u =>
      (.ok (), { w with
        underway := w.underway.map fun v => if v = u then { u with status := .returned } else v
        returned := (u.publisher, u.messageId) :: w.returned })
  | .lateReturn publisher messageId, w =>
    if (publisher, messageId) ∈ w.abandoned then
      some (.ok (), { w with
        abandoned := w.abandoned.erase (publisher, messageId)
        returned := (publisher, messageId) :: w.returned })
    else none
  | .close channel, w => some (.ok (), w.close channel)
  | .deleteQueue name, w =>
    -- an operator may delete an empty retry queue
    if name ∈ (topology S).map QueueDeclaration.name ∨ (w.messages.any fun p => p.1 = .queue name) then
      none
    else some (.ok (), { w with declared := w.declared.filter fun d => d.name ≠ name })

end LakiraBackend.Queue
