import LakiraBackend.Queue.RetryPolicy
import LakiraBackend.Concurrency.EventSystem

/-!
# `RabbitMQConsumer`, from its setups to its close

The consumer as an event system: the channels it gets and their setups, what the broker does to
them, the deliveries and the handler runs, and calls of `cancel` and `close`.

A consumer that was stopped consumes nothing more, `close` returns when no run is unsettled or
its drain timed out, and `inFlight` is the number of unsettled runs: as long as every delivered
message has a retry count that can be read, and no call is made while the broker has yet to
handle the cancellation of an earlier one.  `handle` counts a delivery before it reads the
count, and a call that finds no tag to cancel does not wait for the call that took it.
-/

namespace LakiraBackend.Queue.ConsumerLifecycle

open LakiraBackend.Concurrency

/-! ### Channels and calls -/

/-- Where the `setup` of a channel is. -/
inductive Setup : Type
  | topology
  | prefetch
  /-- `consume` is sent. -/
  | consume
  /-- The broker has registered the consumer; its reply is on the way. -/
  | registering
  /-- The reply has come, and `setup` has not gone on. -/
  | consumed (consumerTag : String)
  /-- It waits for the cancellation of its own consumer. -/
  | cancelling
  /-- It has returned or failed. -/
  | finished
  deriving DecidableEq, Repr

/-- It may have a consumer by and by, whatever `stopping` is. -/
def Setup.isUnderway : Setup → Bool
  | topology => false
  | finished => false
  | _ => true

/-- The broker has not seen `consume`. -/
def Setup.isEarly : Setup → Bool
  | topology => true
  | prefetch => true
  | consume => true
  | _ => false

def Setup.isConsumed : Setup → Bool
  | consumed _ => true
  | _ => false

inductive Status : Type
  | opened
  /-- `close` is sent: no frame of the channel is read any more. -/
  | closing
  | closed
  deriving DecidableEq, Repr

/-- A `basic.cancel` of the channel's consumer. -/
inductive Cancel : Type
  | none
  | sent
  /-- The broker has cancelled it; its reply is on the way. -/
  | handled
  deriving DecidableEq, Repr

structure Channel : Type where
  status : Status
  setup : Setup
  /-- The broker has a consumer on the channel. -/
  registered : Bool
  /-- The client has a callback for its deliveries. -/
  callback : Bool
  cancel : Cancel
  deriving DecidableEq, Repr

/-- The connection ends, or the broker closes the channel: what waits for a reply fails. -/
def Channel.lost (ch : Channel) : Channel where
  status := .closed
  setup := if ch.setup.isConsumed then ch.setup else .finished
  registered := false
  callback := false
  cancel := .none

/-- `close` of the channel is sent. -/
def Channel.shut (ch : Channel) : Channel :=
  if ch.status = .opened then { ch with status := .closing } else ch

/-- Where a call of `cancel` or of `close` is. -/
inductive Phase : Type
  /-- Waiting for the reply to `ch.cancel`. -/
  | cancelling (channel : Nat)
  /-- `cancel` has returned to `close`, which has not gone on. -/
  | cancelled
  | draining
  /-- The drain is over, and `close` has not gone on. -/
  | drained
  /-- Waiting for `this.channel.close()`. -/
  | closing
  | returned
  deriving DecidableEq, Repr

def Phase.isCancelling : Phase → Bool
  | cancelling _ => true
  | _ => false

/-- A call.  `timedOut` and `pending` are bookkeeping for the properties: whether its drain
timed out, and the setups that were not finished when `cancel` returned. -/
structure Call : Type where
  close : Bool
  phase : Phase
  timedOut : Bool
  pending : List Nat
  deriving DecidableEq, Repr

/-- `cancel` returns. -/
def Call.cancelled (c : Call) (pending : List Nat) : Call :=
  { c with phase := if c.close then .cancelled else .returned, pending := pending }

structure State : Type where
  channels : List Channel
  consumerChannel : Option Nat
  consumerTag : Option String
  stopping : Bool
  inFlight : Int
  /-- The calls whose drains these resolve. -/
  drainResolvers : List Nat
  calls : List Call
  /-- The handler runs, and whether each has settled its message. -/
  runs : List Bool
  deriving DecidableEq, Repr

/-- The setups that are not finished. -/
def unfinished (channels : List Channel) : List Nat :=
  (List.range channels.length).filter fun i =>
    channels[i]?.any fun ch => ch.setup ≠ .finished

namespace State

variable (s : State)

def setChannel (i : Nat) (ch : Channel) : State := { s with channels := s.channels.set i ch }

def setCall (k : Nat) (c : Call) : State := { s with calls := s.calls.set k c }

def unsettled : Nat := s.runs.count false

/-- `cancel` returns in the calls that wait for the channel. -/
def cancelEnds (i : Nat) : State :=
  { s with calls := s.calls.map fun c =>
      if c.phase = .cancelling i then c.cancelled (unfinished s.channels) else c }

/-- `this.channel.close()`. -/
def closeChannel (k : Nat) (c : Call) : State :=
  { s.setCall k { c with phase := .closing } with channels := s.channels.map Channel.shut }

/-- A reply to `consume` has come, and its `setup` has not gone on. -/
def hasConsumed : Bool := s.channels.any fun ch => ch.setup.isConsumed

/-- A `close` has not gone on since its drain is over. -/
def hasDrained : Bool := s.calls.any fun c => c.phase = .drained

/-- `handle`, up to the call of the handler: reading the count may throw. -/
def handle (headers : Headers) : State :=
  let s := { s with inFlight := s.inFlight + 1 }
  match readRetryCount headers with
  | none => s
  | some _ => { s with runs := s.runs ++ [false] }

/-- The `finally` of `handle`. -/
def settle (r : Nat) : State :=
  let s := { s with inFlight := s.inFlight - 1, runs := s.runs.set r true }
  if s.inFlight = 0 then
    { s with
      calls := s.calls.mapIdx fun k c =>
        if k ∈ s.drainResolvers ∧ c.phase = .draining then { c with phase := .drained } else c
      drainResolvers := [] }
  else s

/-- `drain`, once `cancel` has returned. -/
def drain (k : Nat) (c : Call) : State :=
  if s.inFlight = 0 then s.closeChannel k c
  else
    { s.setCall k { c with phase := .draining } with drainResolvers := s.drainResolvers ++ [k] }

/-- `cancel`, up to where it waits. -/
def startCancel (close : Bool) : State :=
  let taken := { s with stopping := true, consumerChannel := none, consumerTag := none }
  let returned :=
    { taken with
      calls := s.calls ++ [Call.cancelled ⟨close, .returned, false, []⟩ (unfinished s.channels)] }
  match s.consumerChannel, s.consumerTag with
  | some i, some tag =>
    if tag = "" then returned
    else
      match s.channels[i]? with
      | some ch =>
        if ch.status = .opened then
          { taken.setChannel i { ch with cancel := .sent } with
            calls := s.calls ++ [⟨close, .cancelling i, false, []⟩] }
        -- it throws, and the error is caught
        else returned
      | none => returned
  | _, _ => returned

end State

/-! ### Events -/

inductive Event : Type
  /-- The wrapper has a new channel, and runs `setup` with it. -/
  | connect
  | topologyAsserted (i : Nat)
  | prefetched (i : Nat)
  | brokerRegisters (i : Nat)
  | consumeOk (i : Nat) (consumerTag : String)
  /-- `setup` goes on after the reply to `consume`. -/
  | setupGoesOn (i : Nat)
  /-- The broker ends the consumer by itself, as when its queue is deleted. -/
  | brokerCancels (i : Nat)
  | cancelNotified (i : Nat)
  | brokerHandlesCancel (i : Nat)
  | cancelOk (i : Nat)
  /-- The channel is closed: by the broker, with its connection, or as `close` asked. -/
  | lose (i : Nat)
  | call (close : Bool)
  /-- `close` goes on after `cancel`, or after `drain`. -/
  | closeGoesOn (k : Nat)
  | drainTimeout (k : Nat)
  | closed (k : Nat)
  | deliver (i : Nat) (headers : Headers)
  | settle (r : Nat)
  deriving DecidableEq, Repr

def onChannel (s : State) (i : Nat) (f : Channel → Option State) : Option State :=
  match s.channels[i]? with
  | some ch => f ch
  | none => none

def onCall (s : State) (k : Nat) (f : Call → Option State) : Option State :=
  match s.calls[k]? with
  | some c => f c
  | none => none

def step (s : State) : Event → Option State
  -- the last channel is gone, and its setup has had the reply there was
  | .connect =>
    if s.channels.all fun ch => ch.status = .closed ∧ ch.setup.isConsumed = false then
      some { s with channels := s.channels ++ [⟨.opened, .topology, false, false, .none⟩] }
    else none
  | .topologyAsserted i => onChannel s i fun ch =>
    if ch.status = .opened ∧ ch.setup = .topology then
      some (s.setChannel i { ch with setup := if s.stopping then .finished else .prefetch })
    else none
  | .prefetched i => onChannel s i fun ch =>
    if ch.status = .opened ∧ ch.setup = .prefetch then
      some (s.setChannel i { ch with setup := .consume })
    else none
  | .brokerRegisters i => onChannel s i fun ch =>
    if ch.status ≠ .closed ∧ ch.setup = .consume then
      some (s.setChannel i { ch with setup := .registering, registered := true })
    else none
  | .consumeOk i consumerTag => onChannel s i fun ch =>
    if ch.status = .opened ∧ ch.setup = .registering ∧ consumerTag ≠ "" then
      some (s.setChannel i { ch with setup := .consumed consumerTag, callback := true })
    else none
  | .setupGoesOn i => onChannel s i fun ch =>
    match ch.setup with
    | .consumed consumerTag =>
      if s.stopping then
        if ch.status = .opened then
          some (s.setChannel i { ch with setup := .cancelling, cancel := .sent })
        -- it throws, and `setup` fails
        else some (s.setChannel i { ch with setup := .finished })
      else
        some
          { s.setChannel i { ch with setup := .finished } with
            consumerChannel := some i
            consumerTag := some consumerTag }
    | _ => none
  | .brokerCancels i => onChannel s i fun ch =>
    if ch.registered then some (s.setChannel i { ch with registered := false }) else none
  | .cancelNotified i => onChannel s i fun ch =>
    if ch.status = .opened ∧ ch.registered = false then
      some (s.setChannel i { ch with callback := false })
    else none
  | .brokerHandlesCancel i => onChannel s i fun ch =>
    if ch.status ≠ .closed ∧ ch.cancel = .sent then
      some (s.setChannel i { ch with registered := false, cancel := .handled })
    else none
  | .cancelOk i => onChannel s i fun ch =>
    if ch.status = .opened ∧ ch.cancel = .handled then
      let setup := if ch.setup = .cancelling then .finished else ch.setup
      some ((s.setChannel i { ch with setup, callback := false, cancel := .none }).cancelEnds i)
    else none
  | .lose i => onChannel s i fun ch =>
    if ch.status ≠ .closed then some ((s.setChannel i ch.lost).cancelEnds i) else none
  | .call close => some (s.startCancel close)
  -- the reaction of a `setup` that has its reply comes first
  | .closeGoesOn k => onCall s k fun c =>
    if s.hasConsumed then none
    else
      match c.phase with
      | .cancelled => some (s.drain k c)
      | .drained => some (s.closeChannel k c)
      | _ => none
  | .drainTimeout k => onCall s k fun c =>
    if c.phase = .draining then some (s.setCall k { c with phase := .drained, timedOut := true })
    else none
  | .closed k => onCall s k fun c =>
    if c.phase = .closing then some (s.setCall k { c with phase := .returned }) else none
  -- no frame comes between the end of a drain and what `close` does then
  | .deliver i headers => onChannel s i fun ch =>
    if ch.status = .opened ∧ ch.callback ∧ s.hasDrained = false then some (s.handle headers)
    else none
  | .settle r => if s.runs[r]? = some false then some (s.settle r) else none

/-- A consumer that was just made. -/
def system : EventSystem State Event := ⟨⟨[], none, none, false, 0, [], [], []⟩, step⟩

/-! ### What it promises -/

structure Stops (s : State) : Prop where
  /-- Once `cancel` has returned and the setups of then are finished, no channel that is not
  closed has a consumer. -/
  cancelled : ∀ c ∈ s.calls, c.phase.isCancelling = false →
    (∀ i ∈ c.pending, ∀ ch, s.channels[i]? = some ch → ch.setup = .finished) →
    ∀ ch ∈ s.channels, ch.status ≠ .closed → ch.registered = false
  /-- A `close` that has returned has left no run, unless its drain timed out. -/
  drained : ∀ c ∈ s.calls, c.close = true → c.phase = .returned → c.timedOut = false →
    s.unsettled = 0
  counted : s.inFlight = s.unsettled
  nonneg : 0 ≤ s.inFlight

/-- The retry count of a delivered message can be read, and no call is made while the broker
has yet to cancel the consumer of an earlier one. -/
def InOrder (s : State) : Event → Prop
  | .deliver _ headers => readRetryCount headers ≠ none
  | .call _ => ∀ c ∈ s.calls, ∀ i, c.phase = .cancelling i → ∀ ch, s.channels[i]? = some ch →
    ch.status ≠ .closed → ch.registered = false
  | _ => True

end LakiraBackend.Queue.ConsumerLifecycle
