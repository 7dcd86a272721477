import LakiraBackend.Process.BackgroundTasks

/-!
# The shutdown steps of the server

What `server.ts` hands to `createShutdown`: the HTTP server is closed, the background tasks are
drained, and then the database, Redis and RabbitMQ are closed, one after the other.  After a crash
nothing is drained.

Tasks come and settle all the while, and other drains are called.  When the database is closed after
a clean stop, a task that is still running has come after the drain had looked last, or the drain has
given it up at its deadline (`database_closes_last`).
-/

namespace LakiraBackend.Process.ServerShutdown

open LakiraBackend.Concurrency LakiraBackend.Process.BackgroundTasks

def SHUTDOWN_DRAIN_TIMEOUT_MS : Nat := 10000

/-- Where `steps` is. -/
inductive Phase : Type
  /-- Not called yet. -/
  | serving
  | closingHttp
  /-- Waiting for its drain. -/
  | draining (i : Nat)
  | closingDatabase
  | closingRedis
  | closingRabbitMQ
  | over
  | failed
  deriving DecidableEq, Repr

/-- `waited` and `running` are bookkeeping: the drain that the steps have waited for, and the tasks
in progress when the database was to be closed. -/
structure State : Type where
  tasks : BackgroundTasks.State
  phase : Phase
  exitCode : Int
  waited : Option Drain
  running : List Task
  deriving DecidableEq, Repr

inductive Event : Type
  | tasks (e : BackgroundTasks.Event)
  /-- `steps(exitCode)`, with an HTTP server or without one. -/
  | steps (exitCode : Int) (server : Bool)
  | httpClosed
  /-- The drain has returned, and `steps` goes on. -/
  | drained
  | databaseClosed
  | databaseFails
  | redisClosed
  | rabbitMQClosed
  deriving DecidableEq, Repr

namespace State

variable (s : State)

def closeDatabase (waited : Option Drain) : State :=
  { s with phase := .closingDatabase, waited := waited, running := s.tasks.pending }

/-- The drain is called, but after a crash. -/
def drainTasks : Option State :=
  if s.exitCode = 0 then
    (BackgroundTasks.step s.tasks (.drain (some SHUTDOWN_DRAIN_TIMEOUT_MS))).map fun tasks =>
      { s with tasks := tasks, phase := .draining s.tasks.drains.length }
  else some (s.closeDatabase none)

end State

/-- The steps go on from the phase they are in. -/
def inPhase (s : State) (phase : Phase) (t : Option State) : Option State :=
  if s.phase = phase then t else none

def step (rabbitMQEnabled : Bool) (s : State) : Event → Option State
  | .tasks e => (BackgroundTasks.step s.tasks e).map fun tasks => { s with tasks := tasks }
  | .steps exitCode server => inPhase s .serving <|
    if server then some { s with exitCode := exitCode, phase := .closingHttp }
    else { s with exitCode := exitCode }.drainTasks
  | .httpClosed => inPhase s .closingHttp s.drainTasks
  | .drained =>
    match s.phase with
    | .draining i =>
      (s.tasks.drains[i]?).bind fun d =>
        match d.main with
        | .done _ => some (s.closeDatabase (some d))
        | .waiting _ => none
    | _ => none
  | .databaseClosed => inPhase s .closingDatabase (some { s with phase := .closingRedis })
  | .databaseFails => inPhase s .closingDatabase (some { s with phase := .failed })
  | .redisClosed => inPhase s .closingRedis
    (some { s with phase := if rabbitMQEnabled then .closingRabbitMQ else .over })
  | .rabbitMQClosed => inPhase s .closingRabbitMQ (some { s with phase := .over })

def system (rabbitMQEnabled : Bool) : EventSystem State Event :=
  ⟨⟨⟨0, [], []⟩, .serving, 0, none, []⟩, step rabbitMQEnabled⟩

/-! ### What the steps promise -/

/-- The database is closed, or is being closed, or has failed to. -/
def Phase.isLate : Phase → Bool
  | .serving | .closingHttp | .draining _ => false
  | _ => true

/-- After a clean stop the database is closed when the drain of the steps has returned: what was
running then had come after its last look, or it has named it, at its deadline. -/
def DatabaseLast (s : State) : Prop :=
  s.phase.isLate = true → s.exitCode = 0 → ∃ d left, s.waited = some d ∧
    d.timeoutMs = some SHUTDOWN_DRAIN_TIMEOUT_MS ∧ d.main = .done left ∧
    (left ≠ [] → d.timedOut = true) ∧ ∀ task ∈ s.running, d.seen ≤ task.id ∨ task ∈ left

/-! ### The invariant -/

structure Inv (s : State) : Prop where
  tasks : BackgroundTasks.Inv s.tasks
  /-- The drain that is waited for is that of the steps. -/
  draining : ∀ i, s.phase = .draining i → ∃ d, s.tasks.drains[i]? = some d ∧
    d.timeoutMs = some SHUTDOWN_DRAIN_TIMEOUT_MS
  databaseLast : DatabaseLast s

variable {rabbitMQEnabled : Bool} {s t : State}

theorem Inv.drainTasks (hs : Inv s) (h : s.drainTasks = some t) : Inv t := by
  unfold State.drainTasks at h
  split at h
  · obtain ⟨tasks, htasks, rfl⟩ := Option.map_eq_some_iff.mp h
    refine ⟨inv_step _ _ _ hs.tasks htasks, fun i hi => ?_, fun hlate => by cases hlate⟩
    cases hi
    cases htasks
    exact ⟨_, List.getElem?_concat_length, timeoutMs_look⟩
  · rename_i hcrash
    cases h
    exact ⟨hs.tasks, fun i hi => (by cases hi), fun _ hclean => absurd hclean hcrash⟩

theorem inPhase_eq_some {phase : Phase} {o : Option State} :
    inPhase s phase o = some t ↔ s.phase = phase ∧ o = some t := Option.ite_none_right_eq_some

/-- A step that only goes on, once the database is being closed. -/
theorem Inv.goOn (hs : Inv s) {before after : Phase} (hlate : before.isLate = true)
    (hafter : after.isLate = true) (h : inPhase s before (some { s with phase := after }) = some t) :
    Inv t := by
  obtain ⟨rfl, heq⟩ := inPhase_eq_some.mp h
  cases heq
  refine ⟨hs.tasks, fun i hi => ?_, fun _ => hs.databaseLast hlate⟩
  have hi : after = .draining i := hi
  subst hi
  cases hafter

theorem Inv.drained (hs : Inv s) (h : step rabbitMQEnabled s .drained = some t) : Inv t := by
  simp only [step] at h
  split at h
  · rename_i i hphase
    obtain ⟨d, hd, h⟩ := Option.bind_eq_some_iff.mp h
    split at h
    · rename_i left hmain
      cases h
      obtain ⟨d', hd', htimeout⟩ := hs.draining i hphase
      obtain rfl := Option.some.inj (hd.symm.trans hd')
      have hok := hs.tasks.ok d (List.mem_of_getElem? hd)
      refine ⟨hs.tasks, fun i hi => (by cases hi), fun _ _ => ⟨d, left, rfl, htimeout, hmain,
        hok.names left hmain, fun task htask => ?_⟩⟩
      by_cases hseen : task.id < d.seen
      · exact .inr (hok.leaves left hmain task htask hseen)
      · exact .inl (Nat.not_lt.mp hseen)
    · cases h
  · cases h

theorem Inv.steps (hs : Inv s) {exitCode : Int} {server : Bool}
    (h : step rabbitMQEnabled s (.steps exitCode server) = some t) : Inv t := by
  obtain ⟨hphase, h⟩ := inPhase_eq_some.mp h
  split at h
  · cases h
    exact ⟨hs.tasks, fun i hi => (by cases hi), fun hlate => by cases hlate⟩
  · have hs' : Inv { s with exitCode := exitCode } := by
      refine ⟨hs.tasks, hs.draining, fun hlate => ?_⟩
      rw [hphase] at hlate
      cases hlate
    exact hs'.drainTasks h

theorem inv_step (s : State) (e : Event) (t : State) (hs : Inv s)
    (h : step rabbitMQEnabled s e = some t) : Inv t := by
  cases e with
  | tasks e =>
    obtain ⟨tasks, htasks, rfl⟩ := Option.map_eq_some_iff.mp h
    refine ⟨BackgroundTasks.inv_step _ _ _ hs.tasks htasks, fun i hi => ?_, hs.databaseLast⟩
    obtain ⟨d, hd, htimeout⟩ := hs.draining i hi
    obtain ⟨d', hd', heq⟩ := drains_step htasks hd
    exact ⟨d', hd', heq.trans htimeout⟩
  | steps exitCode server => exact hs.steps h
  | httpClosed => exact hs.drainTasks (inPhase_eq_some.mp h).2
  | drained => exact hs.drained h
  | databaseClosed => exact hs.goOn rfl rfl h
  | databaseFails => exact hs.goOn rfl rfl h
  | redisClosed => exact hs.goOn rfl (by split <;> rfl) h
  | rabbitMQClosed => exact hs.goOn rfl rfl h

theorem Inv.init : Inv (system rabbitMQEnabled).init :=
  ⟨BackgroundTasks.Inv.init, fun i hi => (by cases hi), fun hlate => by cases hlate⟩

/-- **The database is closed after the tasks.** -/
theorem database_closes_last (rabbitMQEnabled : Bool) (events : List Event) :
    (system rabbitMQEnabled).Always DatabaseLast events :=
  (system rabbitMQEnabled).always Inv.init inv_step (fun _ hs => hs.databaseLast) events

end LakiraBackend.Process.ServerShutdown
