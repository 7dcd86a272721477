import LakiraBackend.Queue.Broker

/-!
# The worker's consumer

`RabbitMQConsumer` and `RabbitMQPublisher` as programs over the calls on the broker, and
the machine that runs any number of deliveries among what the broker does by itself.
-/

namespace LakiraBackend.Queue

open LakiraBackend.Concurrency

abbrev Async (α : Type) : Type := Prog Op Op.Answer QueueError α

def await (op : Op) : Async op.Answer := Prog.await op

/-- `RabbitMQPublisher.publish` of a copy of a message, through the default exchange. -/
def publish (c : Consumer) (msg : Message) (messageId routingKey : String) (headers : Headers)
    (content : String) : Async Unit := do
  await (.publish c msg messageId routingKey headers content)
  await (.confirm c messageId)

/-- `assertRetryTier`. -/
def assertRetryTier (c : Consumer) (queue : String) (delayMs : Nat) : Async Unit :=
  await (.assertQueue c (retryTier queue delayMs))

/-- What `onFailure` tries before it acknowledges: the tier, then the copy. -/
def publishRetry (S : Settings) (c : Consumer) (msg : Message) (messageId : String)
    (nextRetryCount : JavaScript.Whole) (delayMs : Nat) : Async Unit := do
  assertRetryTier c c.queue delayMs
  match S.reserialize msg.content with
  | none => throw .syntaxError
  | some content =>
    publish c msg messageId (retryQueueFor c.queue delayMs)
      (msg.headers.set RETRY_COUNT_HEADER (.number nextRetryCount)) content

/-- `RabbitMQConsumer.onFailure`. -/
def onFailure (S : Settings) (c : Consumer) (msg : Message) (retryCount : JavaScript.Whole)
    (error : QueueError) : Async Unit :=
  match decideOnFailure S error retryCount with
  | .park _ => await (.nack c msg false)
  | .retry nextRetryCount delayMs =>
    match msg.messageId with
    | none => await (.nack c msg false)
    | some messageId =>
      if messageId = "" then await (.nack c msg false)
      else do
        let published ← tryCatch
          (do
            publishRetry S c msg messageId nextRetryCount delayMs
            pure true)
          fun _ => pure false
        if published then await (.ack c msg)
        else
          -- Never requeue: headers cannot change on redelivery, so that would loop forever.
          await (.nack c msg false)

/-- `RabbitMQConsumer.handle`, once the count is read: an error of the last settlement is
logged. -/
def handle (S : Settings) (c : Consumer) (msg : Message) (retryCount : JavaScript.Whole) :
    Async Unit :=
  tryCatch
    (tryCatch
      (do
        await (.handler c msg)
        await (.ack c msg))
      fun error => onFailure S c msg retryCount error)
    fun _ => pure ()

/-- A delivery. -/
def consume (S : Settings) (c : Consumer) : Async Unit := do
  let msg : Message ← await (.receive c)
  match readRetryCount msg.headers with
  | none => throw .type
  | some retryCount => handle S c msg retryCount

/-! ### The system -/

inductive Request : Type
  | deliver (c : Consumer)
  | accept (queue : String) (messageId : Option String) (headers : Headers) (content : String)
  | expire (queue : String)
  | basicReturn (thread : Nat)
  | lateReturn (publisher : Nat) (messageId : String)
  | close (channel : Nat)
  | deleteQueue (name : String)

def Request.program (S : Settings) : Request → Async Unit
  | deliver c => consume S c
  | accept queue messageId headers content => await (.accept queue messageId headers content)
  | expire queue => await (.expire queue)
  | basicReturn thread => await (.basicReturn thread)
  | lateReturn publisher messageId => await (.lateReturn publisher messageId)
  | close channel => await (.close channel)
  | deleteQueue name => await (.deleteQueue name)

def queueMachine (S : Settings) : Machine Op Op.Answer QueueError World Input Request Unit where
  exec := exec S
  crash := fun i w => w.crash i
  crashed := .crashed
  prog := Request.program S
  admits := fun _ _ => true

abbrev QueueState : Type := State Op Op.Answer QueueError World Request

abbrev QueueConfig : Type := Config Op Op.Answer QueueError World Request Unit

abbrev QueueEvent : Type := Event Op Op.Answer QueueError World Request

end LakiraBackend.Queue
