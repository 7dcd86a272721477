import LakiraBackend.Amqp.Topology
import LakiraBackend.Queue.Accounting

/-!
# The names of exchanges and queues, and what is declared of them

`assertTopology` declares an app's exchanges, its work queues with their bindings, and parking
(`foldlM_assertTopology`).

A worker's broker is told where a message goes by the names of its queues (`World.deadLetterQueue`,
`send`).  That is where its exchanges and bindings lead (`routes_refined`).
-/

namespace LakiraBackend.Queue

/-- The jobs that are published. -/
inductive Job : Type
  | metricLogGenerateDummy
  | authSendVerificationEmail
  | authSendPasswordResetEmail
  | authSendInviteEmail
  deriving DecidableEq, Repr

def jobs : List Job :=
  [.metricLogGenerateDummy, .authSendVerificationEmail, .authSendPasswordResetEmail,
    .authSendInviteEmail]

theorem mem_jobs (job : Job) : job ∈ jobs := by cases job <;> decide

def ROUTING_KEYS : Job → String
  | .metricLogGenerateDummy => "metric-log.generate-dummy"
  | .authSendVerificationEmail => "auth.send-verification-email"
  | .authSendPasswordResetEmail => "auth.send-password-reset-email"
  | .authSendInviteEmail => "auth.send-invite-email"

section Names

variable (S : Settings)

def EXCHANGES_JOBS : String := S.appShortName ++ ".jobs"

def QUEUES : Job → String
  | .metricLogGenerateDummy => S.appShortName ++ ".metric-log.generate-dummy"
  | .authSendVerificationEmail => S.appShortName ++ ".auth.send-verification-email"
  | .authSendPasswordResetEmail => S.appShortName ++ ".auth.send-password-reset-email"
  | .authSendInviteEmail => S.appShortName ++ ".auth.send-invite-email"

def QueueDeclaration.toQueue (d : QueueDeclaration) : Amqp.Queue :=
  ⟨d.name, d.messageTtl, d.deadLetterExchange, d.deadLetterRoutingKey⟩

def parkingQueue : Amqp.Queue := ⟨QUEUES_PARKING S, none, none, none⟩

def jobBinding (job : Job) : Amqp.Binding := ⟨QUEUES S job, EXCHANGES_JOBS S, ROUTING_KEYS job⟩

def parkingBinding : Amqp.Binding := ⟨QUEUES_PARKING S, EXCHANGES_PARKING S, "#"⟩

/-- What `assertWorkQueue` declares for a job. -/
def assertWorkQueue (job : Job) : List Amqp.Declaration :=
  [.queue (workQueue S (QUEUES S job)).toQueue, .binding (jobBinding S job)]

/-- What `assertTopology` declares, in order. -/
def assertTopology : List Amqp.Declaration :=
  [.exchange (EXCHANGES_JOBS S), .exchange (EXCHANGES_PARKING S)] ++
    assertWorkQueue S .metricLogGenerateDummy ++
    assertWorkQueue S .authSendVerificationEmail ++
    assertWorkQueue S .authSendPasswordResetEmail ++
    assertWorkQueue S .authSendInviteEmail ++
    [.queue (parkingQueue S), .binding (parkingBinding S)]

end Names

/-! ### What is declared -/

section Declared

variable {S : Settings} {T : Amqp.Topology} {d : Amqp.Declaration}

theorem assertTopology_cases (h : d ∈ assertTopology S) :
    d = .exchange (EXCHANGES_JOBS S) ∨ d = .exchange (EXCHANGES_PARKING S) ∨
      (∃ job, d = .queue (workQueue S (QUEUES S job)).toQueue) ∨
      (∃ job, d = .binding (jobBinding S job)) ∨
      d = .queue (parkingQueue S) ∨ d = .binding (parkingBinding S) := by
  simp only [assertTopology, assertWorkQueue, List.mem_append, List.mem_cons, List.not_mem_nil,
    or_false] at h
  grind

theorem mem_assertTopology_queue (job : Job) :
    .queue (workQueue S (QUEUES S job)).toQueue ∈ assertTopology S := by
  cases job <;> simp [assertTopology, assertWorkQueue]

theorem mem_assertTopology_binding (job : Job) :
    .binding (jobBinding S job) ∈ assertTopology S := by
  cases job <;> simp [assertTopology, assertWorkQueue]

theorem mem_assertTopology_parking (S : Settings) :
    .queue (parkingQueue S) ∈ assertTopology S := by
  simp [assertTopology]

theorem exchange_ne (S : Settings) : EXCHANGES_JOBS S ≠ "" ∧ EXCHANGES_PARKING S ≠ "" := by
  simp [EXCHANGES_JOBS, EXCHANGES_PARKING]

theorem literal_key (job : Job) : Amqp.Literal (ROUTING_KEYS job) := by cases job <;> decide

theorem key_inj {job job' : Job} (h : ROUTING_KEYS job = ROUTING_KEYS job') : job = job' := by
  cases job <;> cases job' <;> first | rfl | exact absurd h (by decide)

/-- What is bound to the app's exchanges is what its topology binds. -/
structure Bound (S : Settings) (T : Amqp.Topology) : Prop where
  jobs : ∀ b ∈ T.bindings, b.exchange = EXCHANGES_JOBS S → ∃ job, b = jobBinding S job
  parking : ∀ b ∈ T.bindings, b.exchange = EXCHANGES_PARKING S → b = parkingBinding S

/-- **The exchange of the jobs leads to the job's queue.** -/
theorem Bound.route_jobs (h : Bound S T) (hT : T.Distinct) (hall : ∀ d ∈ assertTopology S, T.Has d)
    (job : Job) : T.route (EXCHANGES_JOBS S) (ROUTING_KEYS job) =
      [(workQueue S (QUEUES S job)).toQueue] := by
  have hexchange : T.Has (.exchange (EXCHANGES_JOBS S)) :=
    hall _ (by simp [assertTopology])
  have hq : T.Has (.queue (workQueue S (QUEUES S job)).toQueue) :=
    hall _ (mem_assertTopology_queue job)
  refine Amqp.Topology.route_topic hT hexchange (exchange_ne S).1 hq fun q' hq' => ?_
  constructor
  · rintro ⟨b, hb, hname, hexchange, hmatch⟩
    obtain ⟨job', rfl⟩ := h.jobs b hb hexchange
    obtain rfl := key_inj ((Amqp.topicMatches_iff (literal_key job')).mp hmatch)
    exact hT.eq_of_name hq' hq hname.symm
  · rintro rfl
    exact ⟨jobBinding S job, hall _ (mem_assertTopology_binding job), rfl, rfl,
      (Amqp.topicMatches_iff (literal_key job)).mpr rfl⟩

/-- **The exchange of parking leads to parking**, whatever the key. -/
theorem Bound.route_parking (h : Bound S T) (hT : T.Distinct)
    (hall : ∀ d ∈ assertTopology S, T.Has d) (key : String) :
    T.route (EXCHANGES_PARKING S) key = [parkingQueue S] := by
  have hexchange : T.Has (.exchange (EXCHANGES_PARKING S)) :=
    hall _ (by simp [assertTopology])
  have hq : T.Has (.queue (parkingQueue S)) := hall _ (mem_assertTopology_parking S)
  refine Amqp.Topology.route_topic hT hexchange (exchange_ne S).2 hq fun q' hq' => ?_
  constructor
  · rintro ⟨b, hb, hname, hexchange, hmatch⟩
    obtain rfl := h.parking b hb hexchange
    exact hT.eq_of_name hq' hq hname.symm
  · rintro rfl
    have hb : T.Has (.binding (parkingBinding S)) := hall _ (by simp [assertTopology])
    exact ⟨parkingBinding S, hb, rfl, rfl, Amqp.topicMatches_hash key⟩

end Declared

/-! ### The worker's broker -/

section Worker

variable {S : Settings} {w w' : World}

open LakiraBackend.Concurrency

/-- What a worker's broker has declared, with the exchanges and bindings of `assertTopology`. -/
def World.amqp (S : Settings) (w : World) : Amqp.Topology :=
  ⟨[EXCHANGES_JOBS S, EXCHANGES_PARKING S], w.declared.map QueueDeclaration.toQueue,
    jobs.map (jobBinding S) ++ [parkingBinding S]⟩

/-- It begins with what `assertTopology` declares. -/
theorem foldlM_assertTopology (S : Settings) :
    (assertTopology S).foldlM Amqp.Topology.declare .empty = some ((World.init S).amqp S) := by
  simp [assertTopology, assertWorkQueue, Amqp.Topology.declare, Amqp.Topology.empty, World.amqp,
    World.init, topology, workQueues, workQueue, jobs, QUEUES, EXCHANGES_JOBS, EXCHANGES_PARKING,
    QUEUES_PARKING, parkingQueue, QueueDeclaration.toQueue, jobBinding, parkingBinding]

theorem distinct_init (S : Settings) : ((World.init S).amqp S).Distinct := by
  have hempty : Amqp.Topology.Distinct .empty := List.nodup_nil
  exact hempty.foldlM (foldlM_assertTopology S)

theorem distinct_step {i : Nat} {op : Op} {r : Except QueueError op.Answer}
    (hs : Step S i op r w w') (h : (w.amqp S).Distinct) : (w'.amqp S).Distinct := by
  cases hs with
  | @declared _ c d hnot =>
    rw [Amqp.Topology.Distinct, World.amqp] at h ⊢
    simp only [List.map_append, List.map_cons, List.map_nil]
    refine List.nodup_append.mpr ⟨h, List.nodup_singleton _, ?_⟩
    rintro name hname _ hlast rfl
    obtain ⟨q, hq, rfl⟩ := List.mem_map.mp hname
    obtain ⟨d', hd', rfl⟩ := List.mem_map.mp hq
    have hsame : d'.name = d.name := List.mem_singleton.mp hlast
    rw [World.declares, List.any_eq_false] at hnot
    exact hnot d' hd' (by simpa using hsame)
  | @deleted _ name hname hempty =>
    rw [Amqp.Topology.Distinct, World.amqp] at h ⊢
    exact h.sublist (List.filter_sublist.map _ |>.map _)
  | _ => exact h

theorem distinct_of_reachable {C : QueueConfig}
    (h : (queueMachine S).Reachable (fun w => w = World.init S) C) :
    (C.state.world.amqp S).Distinct ∧ Sound S C.state.world := by
  obtain ⟨⟨hw, hl⟩, _⟩ := legal_of_reachable h
  rw [hw]
  exact ⟨still_of_legal hl distinct_step (fun _ _ h => h) (List.nil_suffix) (distinct_init S),
    sound_of_legal hl⟩

/-- Where a message goes by the names of the queues is where exchanges and bindings lead. -/
structure Routed (S : Settings) (w : World) : Prop where
  /-- A channel that is opened declares nothing that is not there, and is not refused. -/
  asserted : (assertTopology S).foldlM Amqp.Topology.declare (w.amqp S) = some (w.amqp S)
  /-- A job goes to its own work queue. -/
  job : ∀ job, ((w.amqp S).route (EXCHANGES_JOBS S) (ROUTING_KEYS job)).map Amqp.Queue.name =
    [QUEUES S job]
  /-- What is sent through the default exchange goes to the queue of the name, if there is one. -/
  named : ∀ name, ((w.amqp S).route "" name).map Amqp.Queue.name =
    if w.declares name then [name] else []
  dead : ∀ d ∈ w.declared, ∀ key, ((w.amqp S).deadLetters d.toQueue key).map Amqp.Queue.name =
    (w.deadLetterQueue S d.name).toList

theorem workQueues_eq (S : Settings) : workQueues S = jobs.map (QUEUES S) := rfl

/-- The queue that is declared for a declaration. -/
theorem mem_queues {d : QueueDeclaration} (hd : d ∈ w.declared) :
    d.toQueue ∈ (w.amqp S).queues := List.mem_map_of_mem hd

theorem Sound.mem_declared (h : Sound S w) {d : QueueDeclaration}
    (hd : d ∈ LakiraBackend.Queue.topology S) :
    d ∈ w.declared := List.mem_of_find?_eq_some (h.topology d hd)

theorem Sound.mem_workQueue (h : Sound S w) (job : Job) :
    workQueue S (QUEUES S job) ∈ w.declared := by
  refine h.mem_declared (List.mem_append_left _ (List.mem_map_of_mem ?_))
  rw [workQueues_eq]
  exact List.mem_map_of_mem (mem_jobs job)

theorem Sound.mem_parking (h : Sound S w) :
    (⟨QUEUES_PARKING S, none, none, none⟩ : QueueDeclaration) ∈ w.declared :=
  h.mem_declared (List.mem_append_right _ (List.mem_singleton.mpr rfl))

/-- All of `assertTopology` is there. -/
theorem Sound.has (h : Sound S w) : ∀ d ∈ assertTopology S, (w.amqp S).Has d := by
  intro d hd
  rcases assertTopology_cases hd with rfl | rfl | ⟨job, rfl⟩ | ⟨job, rfl⟩ | rfl | rfl
  · exact List.mem_cons_self
  · exact List.mem_cons_of_mem _ (List.mem_singleton.mpr rfl)
  · exact mem_queues (h.mem_workQueue job)
  · exact List.mem_append_left _ (List.mem_map_of_mem (mem_jobs job))
  · exact mem_queues h.mem_parking
  · exact List.mem_append_right _ (List.mem_singleton.mpr rfl)

theorem bound_amqp (S : Settings) (w : World) : Bound S (w.amqp S) where
  jobs b hb hexchange := by
    rcases List.mem_append.mp hb with hb | hb
    · obtain ⟨job, _, rfl⟩ := List.mem_map.mp hb
      exact ⟨job, rfl⟩
    · obtain rfl := List.mem_singleton.mp hb
      simp [parkingBinding, EXCHANGES_JOBS, EXCHANGES_PARKING] at hexchange
  parking b hb hexchange := by
    rcases List.mem_append.mp hb with hb | hb
    · obtain ⟨job, _, rfl⟩ := List.mem_map.mp hb
      simp [jobBinding, EXCHANGES_JOBS, EXCHANGES_PARKING] at hexchange
    · exact List.mem_singleton.mp hb

theorem closed_amqp (h : Sound S w) : (w.amqp S).Closed := by
  intro b hb
  rcases List.mem_append.mp hb with hb | hb
  · obtain ⟨job, _, rfl⟩ := List.mem_map.mp hb
    exact ⟨List.mem_cons_self, List.mem_map_of_mem (mem_queues (h.mem_workQueue job))⟩
  · obtain rfl := List.mem_singleton.mp hb
    exact ⟨List.mem_cons_of_mem _ (List.mem_singleton.mpr rfl),
      List.mem_map_of_mem (mem_queues h.mem_parking)⟩

theorem route_named (hT : (w.amqp S).Distinct) (name : String) :
    ((w.amqp S).route "" name).map Amqp.Queue.name = if w.declares name then [name] else [] := by
  split
  · rename_i hdeclared
    obtain ⟨d, hd, hname⟩ := List.any_eq_true.mp hdeclared
    obtain rfl : d.name = name := of_decide_eq_true hname
    rw [show d.name = d.toQueue.name from rfl, Amqp.Topology.route_default hT (mem_queues hd)]
    rfl
  · rename_i hnot
    rw [Amqp.Topology.route_default_nil]
    · rfl
    · intro q hq hname
      obtain ⟨d, hd, rfl⟩ := List.mem_map.mp hq
      exact hnot (List.any_eq_true.mpr ⟨d, hd, decide_eq_true hname⟩)

theorem toQueue_injective : Function.Injective QueueDeclaration.toQueue := by
  intro d d' h
  cases d
  cases d'
  simpa [QueueDeclaration.toQueue] using h

/-- A queue is found by its name. -/
theorem find_declared (hT : (w.amqp S).Distinct) {d : QueueDeclaration} (hd : d ∈ w.declared) :
    w.declared.find? (fun d' => d'.name = d.name) = some d := by
  cases hfind : w.declared.find? (fun d' => d'.name = d.name) with
  | none => exact absurd (List.find?_eq_none.mp hfind d hd) (by simp)
  | some d' =>
    have hname : d'.name = d.name := by simpa using List.find?_some hfind
    have hd' := mem_queues (S := S) (List.mem_of_find?_eq_some hfind)
    exact congrArg some (toQueue_injective (hT.eq_of_name hd' (mem_queues hd) hname))

theorem route_dead (hT : (w.amqp S).Distinct) (h : Sound S w) {d : QueueDeclaration}
    (hd : d ∈ w.declared) (key : String) :
    ((w.amqp S).deadLetters d.toQueue key).map Amqp.Queue.name =
      (w.deadLetterQueue S d.name).toList := by
  rcases h.declared d hd with htop | ⟨queue, hqueue, delayMs, rfl⟩
  · rcases List.mem_append.mp htop with hwork | hpark
    · obtain ⟨queue, hqueue, rfl⟩ := List.mem_map.mp hwork
      have hroute : (w.amqp S).deadLetters (workQueue S queue).toQueue key = [parkingQueue S] :=
        (bound_amqp S w).route_parking hT h.has key
      rw [hroute, show (workQueue S queue).name = queue from rfl, h.deadLetter_workQueue hqueue]
      rfl
    · obtain rfl := List.mem_singleton.mp hpark
      rw [World.deadLetterQueue, find_declared hT hd]
      rfl
  · have hdeclared := h.declares_workQueue hqueue
    have hroute : ((w.amqp S).deadLetters (retryTier queue delayMs).toQueue key).map
        Amqp.Queue.name = if w.declares queue then [queue] else [] := route_named hT queue
    rw [hroute, World.deadLetterQueue, find_declared hT hd]
    simp only [retryTier, if_true, Option.filter_some, hdeclared]
    rfl

/-- **The broker of the worker is routed as its exchanges and bindings lead**, in every run. -/
theorem routes_refined {C : QueueConfig}
    (h : (queueMachine S).Reachable (fun w => w = World.init S) C) : Routed S C.state.world := by
  obtain ⟨hT, hsound⟩ := distinct_of_reachable h
  refine ⟨Amqp.Topology.foldlM_of_has hT (closed_amqp hsound) hsound.has, fun job => ?_,
    route_named hT, fun d hd => route_dead hT hsound hd⟩
  rw [(bound_amqp S _).route_jobs hT hsound.has]
  rfl

/-- A job fails, and waits in its tier. -/
theorem routes_refined_retried :
    ∃ C, runQueue ([.spawn acceptInvite, .spawn (.deliver (inviteConsumer 1))] ++ calls 0 1 ++
      calls 1 6) = some C ∧ C.state.world.declared.length = 6 ∧ Routed lakira C.state.world := by
  have hrun : (runQueue ([.spawn acceptInvite, .spawn (.deliver (inviteConsumer 1))] ++ calls 0 1 ++
      calls 1 6)).map (fun C => C.state.world.declared.length) = some 6 := by
    decide +kernel
  obtain ⟨C, hC, hlength⟩ := Option.map_eq_some_iff.mp hrun
  exact ⟨C, hC, hlength, routes_refined (reachable_of_runQueue hC)⟩

end Worker

end LakiraBackend.Queue
