import LakiraBackend.Amqp.Broker
import LakiraBackend.Concurrency.EventSystem
import LakiraBackend.Config.AppName
import LakiraBackend.Queue.Names

/-!
# The processes of several apps on one broker

A process opens channels: its publisher's, and one for each of its consumers.  A channel declares
the topology of the process's app, one declaration after the other, before it is used.  A job is
published to the jobs exchange; a consumer acknowledges a message, parks it, or publishes it again
to a retry queue that it has declared.  Nobody deletes a queue.

In every run no declaration is refused, nothing that is published is returned or dropped, and a
message is only ever in the queues of its own app and job, or with a consumer of them
(`services_apart`).
-/

namespace LakiraBackend.Queue.Services

open LakiraBackend.Concurrency

/-- What a process runs with: its app is resolved, and its settings name it. -/
structure Service : Type where
  /-- `process.env.APP_NAME`. -/
  fromEnv : Option (List Char)
  packageName : Except String (List Char)
  app : Config.AppName
  resolved : Config.resolveAppName fromEnv packageName = .ok app
  settings : Settings
  named : settings.appShortName = app.APP_SHORT_NAME

theorem Service.no_dot (service : Service) : '.' ∉ service.settings.appShortName.toList := by
  rw [service.named]
  exact service.app.dot_not_mem_shortName

/-- Which process published a job, and which job it is. -/
structure Origin : Type where
  process : Nat
  job : Job
  deriving DecidableEq, Repr

structure Channel : Type where
  process : Nat
  /-- The job of a consumer; a publisher's channel has none. -/
  consumes : Option Job
  /-- What its setup has still to declare. -/
  pending : List Amqp.Declaration
  /-- The delays of the retry queues that it has declared. -/
  tiers : List Nat
  isOpen : Bool
  deriving DecidableEq, Repr

/-- `refused`, `published` and `returned` count. -/
structure State : Type where
  broker : Amqp.Broker Origin
  channels : List Channel
  refused : Nat
  published : Nat
  returned : Nat
  deriving DecidableEq, Repr

inductive Event : Type
  /-- A process opens a channel. -/
  | connect (process : Nat) (consumes : Option Job)
  /-- The setup of the channel comes to its next declaration. -/
  | declare (channel : Nat)
  | disconnect (channel : Nat)
  | publish (channel : Nat) (job : Job)
  | deliver (channel serial : Nat)
  | ack (channel serial : Nat)
  /-- `nack` without requeueing. -/
  | park (channel serial : Nat)
  | assertRetryTier (channel delayMs : Nat)
  /-- The message is published to a retry queue, on a channel of the process's publisher. -/
  | retry (channel serial publisher delayMs : Nat)
  /-- A message has waited its time. -/
  | expire (serial : Nat)
  deriving DecidableEq, Repr

namespace State

variable (s : State)

def open? (i : Nat) : Option Channel := s.channels[i]?.filter fun c => c.isOpen

/-- The channel, if its setup is over. -/
def ready? (i : Nat) : Option Channel := (s.open? i).filter fun c => c.pending = []

def message? (serial : Nat) (place : Amqp.Place) : Option (Amqp.Held Origin) :=
  s.broker.messages.find? fun m => m.serial = serial ∧ m.place = place

def queue? (name : String) : Option Amqp.Queue :=
  s.broker.topology.queues.find? fun q => q.name = name

/-- A declaration on the channel, which is then as given.  One that is refused closes it. -/
def declare (i : Nat) (d : Amqp.Declaration) (c : Channel) : State :=
  match s.broker.declare d with
  | some broker => { s with broker, channels := s.channels.set i c }
  | none =>
    { s with
      broker := s.broker.close i
      channels := s.channels.set i { c with isOpen := false }
      refused := s.refused + 1 }

/-- A `mandatory` publish. -/
def publish (exchange key : String) (body : Origin) : State :=
  { s with
    broker := s.broker.publish exchange key body
    published := s.published + 1
    returned := if s.broker.topology.route exchange key = [] then s.returned + 1 else s.returned }

end State

section System

variable (services : Nat → Service)

/-- The settings of a process. -/
def settings (process : Nat) : Settings := (services process).settings

/-- The work queue of a consumer's channel, with the job. -/
def consumer? (s : State) (i : Nat) : Option (Channel × Job × String) :=
  (s.ready? i).bind fun c =>
    c.consumes.map fun job => (c, job, QUEUES (settings services c.process) job)

def step (s : State) : Event → Option State
  | .connect process consumes =>
    let c : Channel := ⟨process, consumes, assertTopology (settings services process), [], true⟩
    some { s with channels := s.channels ++ [c] }
  | .declare i =>
    (s.open? i).bind fun c => match c.pending with
      | [] => none
      | d :: pending => some (s.declare i d { c with pending })
  | .disconnect i =>
    (s.open? i).map fun c =>
      { s with broker := s.broker.close i, channels := s.channels.set i { c with isOpen := false } }
  | .publish i job =>
    (s.ready? i).bind fun c =>
      if c.consumes = none then
        some (s.publish (EXCHANGES_JOBS (settings services c.process)) (ROUTING_KEYS job)
          ⟨c.process, job⟩)
      else none
  | .deliver i n =>
    (consumer? services s i).bind fun (_, _, queue) =>
      (s.message? n (.queue queue)).map fun _ =>
        { s with broker := s.broker.move n fun m => { m with place := .unacked i queue } }
  | .ack i n =>
    (consumer? services s i).bind fun (_, _, queue) =>
      (s.message? n (.unacked i queue)).map fun _ => { s with broker := s.broker.ack n }
  | .park i n =>
    (consumer? services s i).bind fun (_, _, queue) =>
      (s.message? n (.unacked i queue)).bind fun m =>
        (s.queue? queue).map fun q => { s with broker := s.broker.deadLetter m q }
  | .assertRetryTier i delayMs =>
    (consumer? services s i).map fun (c, _, queue) =>
      s.declare i (.queue (retryTier queue delayMs).toQueue) { c with tiers := delayMs :: c.tiers }
  | .retry i n j delayMs =>
    (consumer? services s i).bind fun (c, _, queue) =>
      (s.message? n (.unacked i queue)).bind fun m =>
        (s.ready? j).bind fun publisher =>
          if delayMs ∈ c.tiers ∧ publisher.consumes = none ∧ publisher.process = c.process then
            some (s.publish "" (retryQueueFor queue delayMs) m.body)
          else none
  | .expire n =>
    (s.broker.messages.find? fun m => m.serial = n).bind fun m => match m.place with
      | .unacked _ _ => none
      | .queue name =>
        (s.queue? name).bind fun q =>
          if q.messageTtl.isSome then some { s with broker := s.broker.deadLetter m q } else none

def init : State := ⟨.empty, [], 0, 0, 0⟩

/-- The processes, each of its service, and the broker. -/
def system : EventSystem State Event := ⟨init, step services⟩

/-! ### Where a message may be -/

/-- The queue is one where a message of the job may be. -/
def takes (job : Job) : QueueKind → Prop
  | .work job' => job' = job
  | .retry job' _ => job' = job
  | .parking => True

/-- Where the message is: in a queue for its job of the app that published it, or with a consumer of
its job, of a process that shares the app's short name. -/
inductive At (s : State) (m : Amqp.Held Origin) : Prop
  | waiting (k : QueueKind) (hplace : m.place = .queue (k.text (settings services m.body.process)))
      (htakes : takes m.body.job k)
      (hdeclared : k.queue (settings services m.body.process) ∈ s.broker.topology.queues)
  | delivered (i : Nat) (c : Channel)
      (hplace : m.place = .unacked i (QUEUES (settings services m.body.process) m.body.job))
      (hchannel : s.channels[i]? = some c) (hconsumes : c.consumes = some m.body.job)
      (hname : (settings services c.process).appShortName =
        (settings services m.body.process).appShortName)
      (hdeclared : (QueueKind.work m.body.job).queue (settings services m.body.process) ∈
        s.broker.topology.queues)

/-- What the processes do not get in each other's way of. -/
structure Apart (s : State) : Prop where
  refused : s.refused = 0
  returned : s.returned = 0
  dropped : s.broker.dropped = []
  /-- What is published is one message, which is held or was acknowledged. -/
  published : s.broker.next = s.published
  counted : s.broker.Counted
  held : ∀ m ∈ s.broker.messages, At services s m

/-! ### What is declared -/

variable {services} {s s' : State} {m : Amqp.Held Origin} {i p : Nat} {c c' : Channel}
  {T T' : Amqp.Topology} {d : Amqp.Declaration}

theorem no_dot (p : Nat) : '.' ∉ (settings services p).appShortName.toList := (services p).no_dot

/-- What is declared on the broker. -/
structure Known (services : Nat → Service) (T : Amqp.Topology) : Prop where
  distinct : T.Distinct
  queues : ∀ q ∈ T.queues, ∃ p, ∃ k : QueueKind, q = k.queue (settings services p)
  bindings : ∀ b ∈ T.bindings, ∃ p, (∃ job, b = jobBinding (settings services p) job) ∨
    b = parkingBinding (settings services p)
  tiers : ∀ p job delayMs, (QueueKind.retry job delayMs).queue (settings services p) ∈ T.queues →
    ∀ d ∈ assertTopology (settings services p), T.Has d

theorem known_empty : Known services .empty :=
  ⟨List.nodup_nil, fun _ h => absurd h List.not_mem_nil, fun _ h => absurd h List.not_mem_nil,
    fun _ _ _ h => absurd h List.not_mem_nil⟩

theorem Known.eq_of_name {q : Amqp.Queue} {k : QueueKind} (h : Known services T) (hq : q ∈ T.queues)
    (hname : q.name = k.text (settings services p)) : q = k.queue (settings services p) := by
  obtain ⟨p', k', rfl⟩ := h.queues q hq
  rw [← QueueKind.queue_name] at hname
  exact queue_eq_of_name (no_dot p') (no_dot p) hname

theorem Known.bound (h : Known services T) (p : Nat) : Bound (settings services p) T :=
  bound_of_bindings (no_dot p) fun b hb => by
    obtain ⟨p', hb⟩ := h.bindings b hb
    exact ⟨settings services p', no_dot p', hb⟩

/-- What a channel of the process may declare: what its setup does, and then retry queues. -/
inductive Declares (services : Nat → Service) (T : Amqp.Topology) (p : Nat) :
    Amqp.Declaration → Prop
  | setup {d : Amqp.Declaration} (hd : d ∈ assertTopology (settings services p)) :
      Declares services T p d
  | tier (job : Job) (delayMs : Nat) (hall : ∀ d ∈ assertTopology (settings services p), T.Has d) :
      Declares services T p (.queue ((QueueKind.retry job delayMs).queue (settings services p)))

theorem Declares.queue_kind {q : Amqp.Queue} (h : Declares services T p (.queue q)) :
    ∃ k : QueueKind, q = k.queue (settings services p) ∧ ∀ job delayMs, k = .retry job delayMs →
      ∀ d ∈ assertTopology (settings services p), T.Has d := by
  cases h with
  | setup hd =>
    rcases assertTopology_cases hd with h | h | ⟨job, h⟩ | ⟨job, h⟩ | h | h
    · cases h
    · cases h
    · obtain rfl := Amqp.Declaration.queue.inj h
      exact ⟨.work job, rfl, fun _ _ h => by cases h⟩
    · cases h
    · obtain rfl := Amqp.Declaration.queue.inj h
      exact ⟨.parking, rfl, fun _ _ h => by cases h⟩
    · cases h
  | tier job delayMs hall => exact ⟨.retry job delayMs, rfl, fun _ _ _ => hall⟩

theorem Declares.binding_kind {b : Amqp.Binding} (h : Declares services T p (.binding b)) :
    (∃ job, b = jobBinding (settings services p) job) ∨
      b = parkingBinding (settings services p) := by
  cases h with
  | setup hd =>
    rcases assertTopology_cases hd with h | h | ⟨job, h⟩ | ⟨job, h⟩ | h | h
    · cases h
    · cases h
    · cases h
    · exact .inl ⟨job, Amqp.Declaration.binding.inj h⟩
    · cases h
    · exact .inr (Amqp.Declaration.binding.inj h)

theorem Known.declare (h : Known services T) (hd : Declares services T p d)
    (hT : T.declare d = some T') : Known services T' := by
  have hgrows := Amqp.Topology.grows_of_declare hT
  refine ⟨h.distinct.declare hT, fun q hq => ?_, fun b hb => ?_, fun p' job delayMs hq d' hd' => ?_⟩
  · rcases hgrows.only (.queue q) hq with hold | rfl
    · exact h.queues q hold
    · obtain ⟨k, hk, _⟩ := hd.queue_kind
      exact ⟨p, k, hk⟩
  · rcases hgrows.only (.binding b) hb with hold | rfl
    · exact h.bindings b hold
    · exact ⟨p, hd.binding_kind⟩
  · rcases hgrows.only (.queue _) hq with hold | rfl
    · exact hgrows.keeps d' (h.tiers p' job delayMs hold d' hd')
    · obtain ⟨k, hk, hall⟩ := hd.queue_kind
      have htext := congrArg Amqp.Queue.name hk
      rw [QueueKind.queue_name, QueueKind.queue_name] at htext
      obtain ⟨hname, rfl⟩ := queueText_inj (no_dot p') (no_dot p) htext
      rw [assertTopology_congr hname] at hd'
      exact hgrows.keeps d' (hall job delayMs rfl d' hd')

/-- The broker does not refuse it. -/
theorem Known.accepts {before : List Amqp.Declaration} (h : Known services T)
    (hd : Declares services T p d) (hafter : Amqp.Topology.After before d)
    (hbefore : ∀ d' ∈ before, T.Has d') : ∃ T', T.declare d = some T' := by
  refine Amqp.Topology.declare_isSome hafter hbefore ?_
  rintro q rfl q' hq' hname
  obtain ⟨k, rfl, _⟩ := hd.queue_kind
  rw [QueueKind.queue_name] at hname
  exact h.eq_of_name hq' hname

/-! ### Channels -/

/-- What the channel has declared is there. -/
structure Prepared (services : Nat → Service) (T : Amqp.Topology) (c : Channel) : Prop where
  setup : ∃ before, before ++ c.pending = assertTopology (settings services c.process) ∧
    (∀ d ∈ before, T.Has d) ∧ Amqp.Topology.Ordered before c.pending
  tiers : ∀ job, c.consumes = some job → ∀ delayMs ∈ c.tiers,
    (QueueKind.retry job delayMs).queue (settings services c.process) ∈ T.queues

theorem Prepared.keeps (h : Prepared services T c) (hkeeps : ∀ d, T.Has d → T'.Has d) :
    Prepared services T' c := by
  obtain ⟨before, hall, hbefore, hordered⟩ := h.setup
  exact ⟨⟨before, hall, fun d hd => hkeeps d (hbefore d hd), hordered⟩,
    fun job hjob delayMs hdelay => hkeeps (.queue _) (h.tiers job hjob delayMs hdelay)⟩

/-- After its setup all of the topology is there. -/
theorem Prepared.has (h : Prepared services T c) (hready : c.pending = []) :
    ∀ d ∈ assertTopology (settings services c.process), T.Has d := by
  obtain ⟨before, hall, hbefore, _⟩ := h.setup
  rw [hready, List.append_nil] at hall
  exact hall ▸ hbefore

structure Inv (services : Nat → Service) (s : State) : Prop where
  known : Known services s.broker.topology
  prepared : ∀ (i : Nat) (c : Channel), s.channels[i]? = some c →
    Prepared services s.broker.topology c
  apart : Apart services s

theorem inv_init : Inv services init where
  known := known_empty
  prepared i c h := by simp [init] at h
  apart := ⟨rfl, rfl, rfl, rfl, Amqp.Broker.counted_empty, fun m h => absurd h List.not_mem_nil⟩

/-- What was declared is there, and each channel is as it was but for its setup. -/
structure Keeps (s s' : State) : Prop where
  has : ∀ d, s.broker.topology.Has d → s'.broker.topology.Has d
  channels : ∀ (i : Nat) (c : Channel), s.channels[i]? = some c → ∃ c', s'.channels[i]? = some c' ∧
    c'.process = c.process ∧ c'.consumes = c.consumes

theorem At.keeps (h : At services s m) (hkeeps : Keeps s s') : At services s' m := by
  cases h with
  | waiting k hplace htakes hdeclared =>
    exact .waiting k hplace htakes (hkeeps.has (.queue _) hdeclared)
  | delivered i c hplace hchannel hconsumes hname hdeclared =>
    obtain ⟨c', hchannel', hprocess, hsame⟩ := hkeeps.channels i c hchannel
    refine .delivered i c' hplace hchannel' (hsame.trans hconsumes) ?_
      (hkeeps.has (.queue _) hdeclared)
    rw [hprocess, hname]

theorem channels_set (hc : s.channels[i]? = some c) (hprocess : c'.process = c.process)
    (hconsumes : c'.consumes = c.consumes) : ∀ (j : Nat) (x : Channel), s.channels[j]? = some x →
      ∃ x', (s.channels.set i c')[j]? = some x' ∧ x'.process = x.process ∧
        x'.consumes = x.consumes := by
  intro j x hx
  rw [getElem?_set_of_some hc]
  by_cases hij : i = j
  · subst hij
    obtain rfl := Option.some.inj (hc.symm.trans hx)
    exact ⟨c', if_pos rfl, hprocess, hconsumes⟩
  · exact ⟨x, by rw [if_neg hij, hx], rfl, rfl⟩

theorem Keeps.of_channels (h : s'.broker.topology = s.broker.topology)
    (hc : s.channels[i]? = some c) (hs' : s'.channels = s.channels.set i c')
    (hprocess : c'.process = c.process) (hconsumes : c'.consumes = c.consumes) : Keeps s s' :=
  ⟨fun _ hd => h ▸ hd, hs' ▸ channels_set hc hprocess hconsumes⟩

theorem Keeps.of_broker (h : s'.broker.topology = s.broker.topology)
    (hs' : s'.channels = s.channels) : Keeps s s' :=
  ⟨fun _ hd => h ▸ hd, fun _ c hc => ⟨c, hs' ▸ hc, rfl, rfl⟩⟩

/-! ### The events -/

theorem of_open {i : Nat} (h : s.open? i = some c) : s.channels[i]? = some c :=
  (Option.filter_eq_some_iff.mp h).1

theorem of_ready {i : Nat} (h : s.ready? i = some c) :
    s.channels[i]? = some c ∧ c.pending = [] := by
  obtain ⟨hopen, hpending⟩ := Option.filter_eq_some_iff.mp h
  exact ⟨of_open hopen, of_decide_eq_true hpending⟩

/-- What a consumer's channel is. -/
theorem of_consumer {job : Job} {queue : String}
    (h : consumer? services s i = some (c, job, queue)) :
    s.channels[i]? = some c ∧ c.pending = [] ∧ c.consumes = some job ∧
      queue = QUEUES (settings services c.process) job := by
  obtain ⟨c', hready, hmap⟩ := Option.bind_eq_some_iff.mp h
  obtain ⟨job', hconsumes, heq⟩ := Option.map_eq_some_iff.mp hmap
  obtain ⟨hchannel, hpending⟩ := of_ready hready
  cases heq
  exact ⟨hchannel, hpending, hconsumes, rfl⟩

theorem of_message {n : Nat} {place : Amqp.Place} (h : s.message? n place = some m) :
    m ∈ s.broker.messages ∧ m.serial = n ∧ m.place = place := by
  have hp := List.find?_some h
  simp only [decide_eq_true_eq] at hp
  exact ⟨List.mem_of_find?_eq_some h, hp⟩

/-- A message that waits in the queue of the name. -/
theorem At.waits {k : QueueKind} (h : At services s m)
    (hplace : m.place = .queue (k.text (settings services p))) :
    (settings services p).appShortName = (settings services m.body.process).appShortName ∧
      takes m.body.job k ∧
      k.queue (settings services m.body.process) ∈ s.broker.topology.queues := by
  cases h with
  | waiting k' hplace' htakes hdeclared =>
    have htext := Amqp.Place.queue.inj (hplace.symm.trans hplace')
    obtain ⟨hname, rfl⟩ := queueText_inj (no_dot p) (no_dot _) htext
    exact ⟨hname, htakes, hdeclared⟩
  | delivered i c hplace' =>
    rw [hplace] at hplace'
    cases hplace'

/-- A message that is with a consumer. -/
theorem At.consumed {queue : String} (h : At services s m) (hc : s.channels[i]? = some c)
    (hplace : m.place = .unacked i queue) :
    c.consumes = some m.body.job ∧
      (settings services c.process).appShortName =
        (settings services m.body.process).appShortName ∧
      queue = QUEUES (settings services m.body.process) m.body.job ∧
      (QueueKind.work m.body.job).queue (settings services m.body.process) ∈
        s.broker.topology.queues := by
  cases h with
  | waiting k hplace' =>
    rw [hplace] at hplace'
    cases hplace'
  | delivered i' c' hplace' hchannel hconsumes hname hdeclared =>
    obtain ⟨rfl, hqueue⟩ := Amqp.Place.unacked.inj (hplace.symm.trans hplace')
    obtain rfl := Option.some.inj (hc.symm.trans hchannel)
    exact ⟨hconsumes, hname, hqueue, hdeclared⟩

/-- The messages that were there are where they were, or elsewhere where they may be. -/
theorem Inv.of_messages (h : Inv services s) {broker : Amqp.Broker Origin}
    (htopology : broker.topology = s.broker.topology) (hdropped : broker.dropped = s.broker.dropped)
    (hnext : broker.next = s.broker.next) (hcounted : broker.Counted)
    (hheld : ∀ m ∈ broker.messages, m ∈ s.broker.messages ∨ At services s m) :
    Inv services { s with broker } where
  known := htopology ▸ h.known
  prepared i c hc := htopology ▸ h.prepared i c hc
  apart :=
    { refused := h.apart.refused
      returned := h.apart.returned
      dropped := hdropped.trans h.apart.dropped
      published := hnext.trans h.apart.published
      counted := hcounted
      held := fun m hm => by
        have hkeeps : Keeps s { s with broker } := .of_broker htopology rfl
        rcases hheld m hm with hold | hnew
        · exact (h.apart.held m hold).keeps hkeeps
        · exact hnew.keeps hkeeps }

/-- One message is put where it may be. -/
theorem Inv.move (h : Inv services s) {f : Amqp.Held Origin → Amqp.Held Origin} {n : Nat}
    (hserial : ∀ m, (f m).serial = m.serial)
    (hf : ∀ m ∈ s.broker.messages, m.serial = n → At services s (f m)) :
    Inv services { s with broker := s.broker.move n f } := by
  refine h.of_messages rfl rfl rfl (h.apart.counted.move hserial) fun m hm => ?_
  rcases Amqp.Broker.mem_move hm with hold | ⟨x, hx, hn, rfl⟩
  · exact .inl hold
  · exact .inr (hf x hx hn)

theorem Inv.disconnect (h : Inv services s) (hc : s.channels[i]? = some c) :
    Inv services { s with
      broker := s.broker.close i
      channels := s.channels.set i { c with isOpen := false } } where
  known := h.known
  prepared j x hx := by
    rcases of_getElem?_set hc hx with ⟨rfl, rfl⟩ | ⟨_, hold⟩
    · exact ⟨(h.prepared _ c hc).setup, (h.prepared _ c hc).tiers⟩
    · exact h.prepared j x hold
  apart :=
    { refused := h.apart.refused
      returned := h.apart.returned
      dropped := h.apart.dropped
      published := h.apart.published
      counted := h.apart.counted.close i
      held := fun m hm => by
        have hkeeps : Keeps s { s with
            broker := s.broker.close i
            channels := s.channels.set i { c with isOpen := false } } :=
          .of_channels rfl hc rfl rfl rfl
        rcases Amqp.Broker.mem_close hm with hold | ⟨x, hx, j, queue, hplace, hback, hbody⟩
        · exact (h.apart.held m hold).keeps hkeeps
        · refine At.keeps ?_ hkeeps
          cases h.apart.held x hx with
          | waiting k hplace' =>
            rw [hplace] at hplace'
            cases hplace'
          | delivered i' c' hplace' hchannel hconsumes hname hdeclared =>
            obtain ⟨_, rfl⟩ := Amqp.Place.unacked.inj (hplace.symm.trans hplace')
            refine .waiting (.work m.body.job) ?_ rfl ?_
            · rw [hback, hbody]
              rfl
            · rw [hbody]
              exact hdeclared }

/-- A declaration is accepted. -/
theorem Inv.declare (h : Inv services s) (hc : s.channels[i]? = some c)
    (hd : Declares services s.broker.topology c.process d)
    (hT : s.broker.topology.declare d = some T') (hprocess : c'.process = c.process)
    (hconsumes : c'.consumes = c.consumes) (hc' : Prepared services T' c') :
    Inv services (s.declare i d c') := by
  have hgrows := Amqp.Topology.grows_of_declare hT
  have hbroker : s.broker.declare d = some { s.broker with topology := T' } :=
    Option.map_eq_some_iff.mpr ⟨T', hT, rfl⟩
  have hstate : s.declare i d c' =
      { s with broker := { s.broker with topology := T' }, channels := s.channels.set i c' } := by
    rw [State.declare, hbroker]
  have hkeeps : Keeps s (s.declare i d c') :=
    hstate ▸ ⟨hgrows.keeps, channels_set hc hprocess hconsumes⟩
  rw [hstate] at hkeeps ⊢
  refine ⟨h.known.declare hd hT, fun j x hx => ?_, ?_⟩
  · rcases of_getElem?_set hc hx with ⟨rfl, rfl⟩ | ⟨_, hold⟩
    · exact hc'
    · exact (h.prepared j x hold).keeps hgrows.keeps
  · exact ⟨h.apart.refused, h.apart.returned, h.apart.dropped, h.apart.published, h.apart.counted,
      fun m hm => (h.apart.held m hm).keeps hkeeps⟩

/-- The setup of a channel goes on. -/
theorem Inv.setup {pending : List Amqp.Declaration} (h : Inv services s)
    (hc : s.channels[i]? = some c) (hpending : c.pending = d :: pending) :
    Inv services (s.declare i d { c with pending }) := by
  have hprepared := h.prepared i c hc
  obtain ⟨before, hall, hbefore, hordered⟩ := hprepared.setup
  rw [hpending] at hall hordered
  have hd : Declares services s.broker.topology c.process d :=
    .setup (hall ▸ List.mem_append_right _ List.mem_cons_self)
  obtain ⟨T', hT⟩ := h.known.accepts hd hordered.1 hbefore
  have hgrows := Amqp.Topology.grows_of_declare hT
  refine h.declare hc hd hT rfl rfl ⟨⟨before ++ [d], ?_, ?_, hordered.2⟩, ?_⟩
  · rw [List.append_assoc]
    exact hall
  · intro d' hd'
    rcases List.mem_append.mp hd' with hold | hlast
    · exact hgrows.keeps d' (hbefore d' hold)
    · obtain rfl := List.mem_singleton.mp hlast
      exact hgrows.has
  · exact (hprepared.keeps hgrows.keeps).tiers

/-- A consumer declares a retry queue. -/
theorem Inv.assertRetryTier {job : Job} (h : Inv services s) (hc : s.channels[i]? = some c)
    (hready : c.pending = []) (hjob : c.consumes = some job) (delayMs : Nat) :
    Inv services (s.declare i
      (.queue (retryTier (QUEUES (settings services c.process) job) delayMs).toQueue)
      { c with tiers := delayMs :: c.tiers }) := by
  have hprepared := h.prepared i c hc
  have hd : Declares services s.broker.topology c.process
      (.queue ((QueueKind.retry job delayMs).queue (settings services c.process))) :=
    .tier job delayMs (hprepared.has hready)
  have hnone : ∀ d ∈ ([] : List Amqp.Declaration), s.broker.topology.Has d := fun _ h =>
    absurd h List.not_mem_nil
  obtain ⟨T', hT⟩ := h.known.accepts hd trivial hnone
  have hgrows := Amqp.Topology.grows_of_declare hT
  have hkept := hprepared.keeps hgrows.keeps
  refine h.declare hc hd hT rfl rfl ⟨hkept.setup, fun job' hjob' delayMs' hdelay => ?_⟩
  rcases List.mem_cons.mp hdelay with rfl | hold
  · obtain rfl := Option.some.inj (hjob.symm.trans hjob')
    exact hgrows.has
  · exact hkept.tiers job' hjob' delayMs' hold

/-- A publish that leads to a queue of the app, for a job that the queue takes. -/
theorem Inv.publish {exchange key : String} {body : Origin} {k : QueueKind} (h : Inv services s)
    (hroute : s.broker.topology.route exchange key = [k.queue (settings services body.process)])
    (htakes : takes body.job k)
    (hdeclared : k.queue (settings services body.process) ∈ s.broker.topology.queues) :
    Inv services (s.publish exchange key body) := by
  have hstate : s.publish exchange key body =
      { s with
        broker := s.broker.add key body (k.queue (settings services body.process))
        published := s.published + 1 } := by
    rw [State.publish, Amqp.Broker.publish_eq hroute, hroute, if_neg (List.cons_ne_nil _ _)]
  have hkeeps : Keeps s (s.publish exchange key body) := hstate ▸ .of_broker rfl rfl
  rw [hstate] at hkeeps ⊢
  refine ⟨h.known, h.prepared, h.apart.refused, h.apart.returned, h.apart.dropped,
    congrArg (· + 1) h.apart.published, h.apart.counted.add _ _ _, fun m hm => ?_⟩
  rcases Amqp.Broker.mem_add hm with hold | ⟨hplace, rfl⟩
  · exact (h.apart.held m hold).keeps hkeeps
  · exact .waiting k (by rw [hplace, QueueKind.queue_name]) htakes hdeclared

/-- A dead letter goes to a queue of the app, which takes the job. -/
theorem Inv.deadLetter {q : Amqp.Queue} {k : QueueKind} (h : Inv services s)
    (hm : m ∈ s.broker.messages)
    (hroute : s.broker.topology.deadLetters q m.routingKey =
      [k.queue (settings services m.body.process)])
    (htakes : takes m.body.job k)
    (hdeclared : k.queue (settings services m.body.process) ∈ s.broker.topology.queues) :
    Inv services { s with broker := s.broker.deadLetter m q } := by
  rw [Amqp.Broker.deadLetter_eq hroute]
  refine h.move (fun _ => rfl) fun x hx hserial => ?_
  obtain rfl := h.apart.counted.eq_of_serial hx hm hserial
  exact .waiting k (by rw [QueueKind.queue_name]) htakes hdeclared

theorem of_queue {name : String} {q : Amqp.Queue} (h : s.queue? name = some q) :
    q ∈ s.broker.topology.queues ∧ q.name = name :=
  ⟨List.mem_of_find?_eq_some h, by simpa using List.find?_some h⟩

/-- A request publishes a job. -/
theorem Inv.publishJob (h : Inv services s) (hc : s.channels[i]? = some c)
    (hready : c.pending = []) (job : Job) :
    Inv services (s.publish (EXCHANGES_JOBS (settings services c.process)) (ROUTING_KEYS job)
      ⟨c.process, job⟩) := by
  have hall := (h.prepared i c hc).has hready
  have hroute := (h.known.bound c.process).route_jobs h.known.distinct hall job
  exact h.publish (k := .work job) hroute rfl (hall _ (mem_assertTopology_queue job))

/-- A consumer publishes a message again. -/
theorem Inv.retry {job : Job} {delayMs : Nat} (h : Inv services s) (hc : s.channels[i]? = some c)
    (hjob : c.consumes = some job) (hdelay : delayMs ∈ c.tiers) (hm : At services s m)
    (hplace : m.place = .unacked i (QUEUES (settings services c.process) job)) :
    Inv services (s.publish ""
      (retryQueueFor (QUEUES (settings services c.process) job) delayMs) m.body) := by
  obtain ⟨hbody, hname, _, _⟩ := hm.consumed hc hplace
  obtain rfl := Option.some.inj (hjob.symm.trans hbody)
  have hdeclared := (h.prepared i c hc).tiers _ hjob delayMs hdelay
  rw [queue_congr hname] at hdeclared
  have hroute := Amqp.Topology.route_default h.known.distinct hdeclared
  rw [QueueKind.queue_name] at hroute
  rw [queues_congr hname]
  exact h.publish (k := .retry m.body.job delayMs) hroute rfl hdeclared

theorem Inv.deliver {job : Job} {n : Nat} (h : Inv services s) (hc : s.channels[i]? = some c)
    (hjob : c.consumes = some job) (hm : m ∈ s.broker.messages) (hserial : m.serial = n)
    (hplace : m.place = .queue (QUEUES (settings services c.process) job)) :
    Inv services { s with broker := s.broker.move n fun m =>
      { m with place := .unacked i (QUEUES (settings services c.process) job) } } := by
  obtain ⟨hname, htakes, hdeclared⟩ := At.waits (k := .work job) (h.apart.held m hm) hplace
  refine h.move (fun _ => rfl) fun x hx hn => ?_
  obtain rfl := h.apart.counted.eq_of_serial hx hm (hn.trans hserial.symm)
  obtain rfl : job = x.body.job := htakes
  exact .delivered i c (by rw [queues_congr hname]) hc hjob hname hdeclared

theorem Inv.ack (h : Inv services s) (hm : m ∈ s.broker.messages) :
    Inv services { s with broker := s.broker.ack m.serial } :=
  h.of_messages rfl rfl rfl (h.apart.counted.ack hm) fun _ hx => .inl (List.mem_filter.mp hx).1

theorem Inv.park {queue : String} {q : Amqp.Queue} (h : Inv services s)
    (hc : s.channels[i]? = some c) (hready : c.pending = []) (hm : m ∈ s.broker.messages)
    (hplace : m.place = .unacked i queue) (hq : s.queue? queue = some q) :
    Inv services { s with broker := s.broker.deadLetter m q } := by
  obtain ⟨_, hname, rfl, _⟩ := (h.apart.held m hm).consumed hc hplace
  obtain ⟨hmem, hqueue⟩ := of_queue hq
  obtain rfl := h.known.eq_of_name (k := .work m.body.job) hmem hqueue
  have hall := (h.prepared i c hc).has hready
  rw [assertTopology_congr hname] at hall
  have hroute := (h.known.bound m.body.process).route_parking h.known.distinct hall m.routingKey
  exact h.deadLetter (k := .parking) hm hroute trivial
    (hall _ (mem_assertTopology_parking _))

theorem Inv.expire {name : String} {q : Amqp.Queue} (h : Inv services s)
    (hm : m ∈ s.broker.messages) (hplace : m.place = .queue name) (hq : s.queue? name = some q)
    (httl : q.messageTtl.isSome = true) :
    Inv services { s with broker := s.broker.deadLetter m q } := by
  obtain ⟨hmem, hqueue⟩ := of_queue hq
  cases h.apart.held m hm with
  | waiting k hplace' htakes hdeclared =>
    obtain rfl := Amqp.Place.queue.inj (hplace.symm.trans hplace')
    obtain rfl := h.known.eq_of_name hmem hqueue
    cases k with
    | work job => cases httl
    | parking => cases httl
    | retry job delayMs =>
      have hall := h.known.tiers _ job delayMs hdeclared
      have hwork := hall _ (mem_assertTopology_queue job)
      exact h.deadLetter (k := .work job) hm (Amqp.Topology.route_default h.known.distinct hwork)
        htakes hwork
  | delivered i c hplace' =>
    rw [hplace] at hplace'
    cases hplace'

theorem Inv.connect (h : Inv services s) (process : Nat) (consumes : Option Job) :
    Inv services { s with channels := s.channels ++
      [⟨process, consumes, assertTopology (settings services process), [], true⟩] } where
  known := h.known
  prepared j x hx := by
    rcases of_getElem?_concat hx with hold | ⟨_, rfl⟩
    · exact h.prepared j x hold
    · exact ⟨⟨[], rfl, fun _ h => absurd h List.not_mem_nil, ordered_assertTopology _⟩,
        fun _ _ _ h => absurd h List.not_mem_nil⟩
  apart :=
    ⟨h.apart.refused, h.apart.returned, h.apart.dropped, h.apart.published, h.apart.counted,
      fun m hm => (h.apart.held m hm).keeps
        ⟨fun _ hd => hd, fun _ c hc => ⟨c, getElem?_concat_of_some hc _, rfl, rfl⟩⟩⟩

/-- **No event breaks the invariant.** -/
theorem inv_step {e : Event} (h : Inv services s) (hs : step services s e = some s') :
    Inv services s' := by
  cases e with
  | connect process consumes =>
    obtain rfl := Option.some.inj hs
    exact h.connect process consumes
  | declare i =>
    obtain ⟨c, hc, hs⟩ := Option.bind_eq_some_iff.mp hs
    cases hpending : c.pending with
    | nil =>
      rw [hpending] at hs
      cases hs
    | cons d pending =>
      rw [hpending] at hs
      obtain rfl := Option.some.inj hs
      exact h.setup (of_open hc) hpending
  | disconnect i =>
    obtain ⟨c, hc, rfl⟩ := Option.map_eq_some_iff.mp hs
    exact h.disconnect (of_open hc)
  | publish i job =>
    obtain ⟨c, hc, hs⟩ := Option.bind_eq_some_iff.mp hs
    obtain ⟨_, hs⟩ := Option.ite_none_right_eq_some.mp hs
    obtain rfl := Option.some.inj hs
    obtain ⟨hchannel, hready⟩ := of_ready hc
    exact h.publishJob hchannel hready job
  | deliver i n =>
    obtain ⟨⟨c, job, queue⟩, hc, hs⟩ := Option.bind_eq_some_iff.mp hs
    obtain ⟨m, hm, rfl⟩ := Option.map_eq_some_iff.mp hs
    obtain ⟨hchannel, _, hjob, rfl⟩ := of_consumer hc
    obtain ⟨hmem, hserial, hplace⟩ := of_message hm
    exact h.deliver hchannel hjob hmem hserial hplace
  | ack i n =>
    obtain ⟨⟨c, job, queue⟩, _, hs⟩ := Option.bind_eq_some_iff.mp hs
    obtain ⟨m, hm, rfl⟩ := Option.map_eq_some_iff.mp hs
    obtain ⟨hmem, rfl, _⟩ := of_message hm
    exact h.ack hmem
  | park i n =>
    obtain ⟨⟨c, job, queue⟩, hc, hs⟩ := Option.bind_eq_some_iff.mp hs
    obtain ⟨m, hm, hs⟩ := Option.bind_eq_some_iff.mp hs
    obtain ⟨q, hq, rfl⟩ := Option.map_eq_some_iff.mp hs
    obtain ⟨hchannel, hready, _, _⟩ := of_consumer hc
    obtain ⟨hmem, _, hplace⟩ := of_message hm
    exact h.park hchannel hready hmem hplace hq
  | assertRetryTier i delayMs =>
    obtain ⟨⟨c, job, queue⟩, hc, rfl⟩ := Option.map_eq_some_iff.mp hs
    obtain ⟨hchannel, hready, hjob, rfl⟩ := of_consumer hc
    exact h.assertRetryTier hchannel hready hjob delayMs
  | retry i n j delayMs =>
    obtain ⟨⟨c, job, queue⟩, hc, hs⟩ := Option.bind_eq_some_iff.mp hs
    obtain ⟨m, hm, hs⟩ := Option.bind_eq_some_iff.mp hs
    obtain ⟨publisher, _, hs⟩ := Option.bind_eq_some_iff.mp hs
    obtain ⟨⟨hdelay, _, _⟩, hs⟩ := Option.ite_none_right_eq_some.mp hs
    obtain rfl := Option.some.inj hs
    obtain ⟨hchannel, _, hjob, rfl⟩ := of_consumer hc
    obtain ⟨hmem, _, hplace⟩ := of_message hm
    exact h.retry hchannel hjob hdelay (h.apart.held m hmem) hplace
  | expire n =>
    obtain ⟨m, hm, hs⟩ := Option.bind_eq_some_iff.mp hs
    have hmem := List.mem_of_find?_eq_some hm
    cases hplace : m.place with
    | unacked i queue =>
      simp only [hplace] at hs
      cases hs
    | queue name =>
      simp only [hplace] at hs
      obtain ⟨q, hq, hs⟩ := Option.bind_eq_some_iff.mp hs
      obtain ⟨httl, hs⟩ := Option.ite_none_right_eq_some.mp hs
      obtain rfl := Option.some.inj hs
      exact h.expire hmem hplace hq httl

/-- **The apps on one broker stay apart**, in every run of any processes of theirs: nothing that
they declare is refused, what they publish is neither returned nor dropped, and a message is only
ever in the queues of its app for its job, or with a consumer of that job. -/
theorem services_apart (services : Nat → Service) (events : List Event) :
    (system services).Always (Apart services) events :=
  EventSystem.always inv_init (fun _ _ _ => inv_step) (fun _ h => h.apart) events

/-- Two apps set up their channels; a job of the first is tried twice. -/
example : ((system fun p => if p = 0 then ⟨some "lakira".toList, .error "no package",
      ⟨"lakira".toList, by decide +kernel⟩, Config.resolveAppName_text ⟨_, by decide +kernel⟩ _,
      lakira, by decide +kernel⟩
    else ⟨some "fork".toList, .error "no package", ⟨"fork".toList, by decide +kernel⟩,
      Config.resolveAppName_text ⟨_, by decide +kernel⟩ _, ⟨"fork", .nat 5, .nat 2000, some⟩,
      by decide +kernel⟩).run
    ([.connect 0 none, .connect 0 (some .authSendInviteEmail), .connect 1 none] ++
      (List.replicate 12 [.declare 0, .declare 1, .declare 2]).flatten ++
      [.publish 0 .authSendInviteEmail, .publish 2 .authSendInviteEmail, .deliver 1 0,
        .assertRetryTier 1 2000, .retry 1 0 0 2000, .ack 1 0, .expire 2, .deliver 1 2,
        .ack 1 2])).map (fun s => (s.broker.acked, s.broker.messages.map Amqp.Held.place)) =
    some ([2, 0], [.queue "fork.auth.send-invite-email"]) := by
  decide +kernel

end System

end LakiraBackend.Queue.Services
