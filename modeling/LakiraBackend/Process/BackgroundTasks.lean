import LakiraBackend.Concurrency.EventSystem

/-!
# `runInBackground` and `drainBackgroundTasks`

The tasks in progress and the drains that wait for them, as an event system: tasks come and settle,
drains are called with or without a timeout, their deadlines pass, and they go on, in any order.  A
drain looks at what is pending and waits for all of it, and looks again.

A drain that has returned leaves nothing of what was there when it looked last, but what it names:
and that is nothing, unless its deadline has passed (`drains_wait`).  It looks again only for tasks
that were not there before (`Drain.looks`).
-/

namespace LakiraBackend.Process.BackgroundTasks

open LakiraBackend.Concurrency

/-- A task that `pending` has, under the number it came in with. -/
structure Task : Type where
  id : Nat
  label : String
  deriving DecidableEq, Repr

inductive Main : Type
  /-- `Promise.all(pending.keys())`, of the tasks there were, races the deadline. -/
  | waiting (settled : List Nat)
  /-- Returned, with what was left running. -/
  | done (left : List Task)
  deriving DecidableEq, Repr

/-- A call of `drainBackgroundTasks`.  `called`, `seen` and `looks` are bookkeeping: how many tasks
had come when it was called and when it looked last, and how often it has looked and waited. -/
structure Drain : Type where
  timeoutMs : Option Nat
  timedOut : Bool
  main : Main
  called : Nat
  seen : Nat
  looks : Nat
  deriving DecidableEq, Repr

/-- `started` counts the tasks there have been. -/
structure State : Type where
  started : Nat
  pending : List Task
  drains : List Drain
  deriving DecidableEq, Repr

inductive Event : Type
  /-- `runInBackground` has started a task. -/
  | run (label : String)
  /-- The task is over, whichever way, and has been deleted. -/
  | settle (id : Nat)
  | drain (timeoutMs : Option Nat)
  | deadline (i : Nat)
  /-- The drain goes on after its `await`. -/
  | resume (i : Nat)
  deriving DecidableEq, Repr

namespace State

variable (s : State)

def pendingIds : List Nat := s.pending.map Task.id

/-- The condition of the loop, and what comes after it. -/
def look (d : Drain) : Drain :=
  if s.pending ≠ [] ∧ d.timedOut = false then
    { d with main := .waiting s.pendingIds, seen := s.started, looks := d.looks + 1 }
  else { d with main := .done s.pending, seen := s.started }

end State

/-- `pendingBackgroundTaskCount`. -/
def pendingBackgroundTaskCount (s : State) : Nat := s.pending.length

/-- A drain that waits. -/
def waiting (s : State) (i : Nat) (f : Drain → List Nat → Option State) : Option State :=
  match s.drains[i]? with
  | some d =>
    match d.main with
    | .waiting settled => f d settled
    | .done _ => none
  | none => none

def step (s : State) : Event → Option State
  | .run label =>
    some { s with started := s.started + 1, pending := s.pending ++ [⟨s.started, label⟩] }
  | .settle id =>
    if id ∈ s.pendingIds then some { s with pending := s.pending.filter fun task => task.id ≠ id }
    else none
  | .drain timeoutMs =>
    some { s with
      drains := s.drains ++ [s.look ⟨timeoutMs, false, .done [], s.started, s.started, 0⟩] }
  | .deadline i => waiting s i fun d _ =>
    if d.timeoutMs.isSome ∧ d.timedOut = false then
      some { s with drains := s.drains.set i { d with timedOut := true } }
    else none
  | .resume i => waiting s i fun d settled =>
    if d.timedOut = true ∨ ∀ id ∈ settled, id ∉ s.pendingIds then
      some { s with drains := s.drains.set i (s.look d) }
    else none

def system : EventSystem State Event := ⟨⟨0, [], []⟩, step⟩

/-! ### What a drain promises -/

/-- What is still running of the tasks that had come when the drain looked last, it waits for, or
has named when it returned; and it has named none, unless its deadline had passed. -/
structure Drain.Ok (s : State) (d : Drain) : Prop where
  waits : ∀ settled, d.main = .waiting settled →
    ∀ task ∈ s.pending, task.id < d.seen → task.id ∈ settled
  leaves : ∀ left, d.main = .done left → ∀ task ∈ s.pending, task.id < d.seen → task ∈ left
  names : ∀ left, d.main = .done left → left ≠ [] → d.timedOut = true
  deadline : d.timedOut = true → d.timeoutMs.isSome = true
  looks : d.looks ≤ 1 + (d.seen - d.called)

/-- A drain that waits for nothing more goes on, and returns if nothing is pending or its deadline
has passed. -/
def GoesOn (s : State) : Prop :=
  ∀ i d settled, s.drains[i]? = some d → d.main = .waiting settled →
    d.timedOut = true ∨ (∀ task ∈ s.pending, d.seen ≤ task.id) →
      ∃ t d', step s (.resume i) = some t ∧ t.drains[i]? = some d' ∧
        (d.timedOut = true ∨ s.pending = [] → d'.main = .done s.pending)

structure Drains (s : State) : Prop where
  ok : ∀ d ∈ s.drains, d.Ok s
  goesOn : GoesOn s

/-! ### The invariant -/

structure Inv (s : State) : Prop where
  started : ∀ task ∈ s.pending, task.id < s.started
  called : ∀ d ∈ s.drains, d.called ≤ d.seen ∧ d.seen ≤ s.started
  settled : ∀ d ∈ s.drains, ∀ settled, d.main = .waiting settled → ∀ id ∈ settled, id < d.seen
  ok : ∀ d ∈ s.drains, d.Ok s

variable {s t : State} {d : Drain} {i : Nat} {settled : List Nat}

/-- A drain that no new task of its time is kept from. -/
theorem Drain.Ok.mono (h : d.Ok s)
    (hsub : ∀ task ∈ t.pending, task.id < d.seen → task ∈ s.pending) : d.Ok t where
  waits settled hd task ht hseen := h.waits settled hd task (hsub task ht hseen) hseen
  leaves left hd task ht hseen := h.leaves left hd task (hsub task ht hseen) hseen
  names := h.names
  deadline := h.deadline
  looks := h.looks

theorem waiting_eq_some {f : Drain → List Nat → Option State} (h : waiting s i f = some t) :
    ∃ d settled, s.drains[i]? = some d ∧ d.main = .waiting settled ∧ f d settled = some t := by
  unfold waiting at h
  split at h
  · rename_i d hd
    split at h
    · rename_i settled hmain
      exact ⟨d, settled, hd, hmain, h⟩
    · cases h
  · cases h

theorem called_look : (s.look d).called = d.called := by
  unfold State.look
  split <;> rfl

theorem seen_look : (s.look d).seen = s.started := by
  unfold State.look
  split <;> rfl

theorem timeoutMs_look : (s.look d).timeoutMs = d.timeoutMs := by
  unfold State.look
  split <;> rfl

theorem mem_pendingIds {task : Task} (h : task ∈ s.pending) : task.id ∈ s.pendingIds :=
  List.mem_map_of_mem h

theorem lt_started_of_mem (hs : Inv s) {id : Nat} (h : id ∈ s.pendingIds) : id < s.started := by
  obtain ⟨task, htask, rfl⟩ := List.mem_map.mp h
  exact hs.started task htask

theorem waiting_look (hs : Inv s) (h : (s.look d).main = .waiting settled) :
    ∀ id ∈ settled, id < (s.look d).seen := by
  rw [seen_look]
  unfold State.look at h
  split at h
  · cases h
    exact fun id hid => lt_started_of_mem hs hid
  · cases h

/-- **A look.**  It is one more only where a task has come since the last. -/
theorem look_ok (hdeadline : d.timedOut = true → d.timeoutMs.isSome = true)
    (hlooks : s.pending ≠ [] → d.timedOut = false → d.looks ≤ s.started - d.called)
    (hdone : d.looks ≤ 1 + (s.started - d.called)) : (s.look d).Ok s := by
  unfold State.look
  split
  · rename_i hcondition
    refine ⟨?_, ?_, ?_, hdeadline, ?_⟩
    · rintro settled hmain task htask _
      cases hmain
      exact mem_pendingIds htask
    · rintro left hmain
      cases hmain
    · rintro left hmain
      cases hmain
    · have hle := hlooks hcondition.1 hcondition.2
      change d.looks + 1 ≤ 1 + (s.started - d.called)
      omega
  · rename_i hcondition
    refine ⟨?_, ?_, ?_, hdeadline, hdone⟩
    · rintro settled hmain
      cases hmain
    · rintro left hmain task htask _
      cases hmain
      exact htask
    · rintro left hmain hne
      cases hmain
      exact Bool.of_not_eq_false fun htime => hcondition ⟨hne, htime⟩

theorem Inv.init : Inv system.init where
  started _ h := absurd h List.not_mem_nil
  called _ h := absurd h List.not_mem_nil
  settled _ h := absurd h List.not_mem_nil
  ok _ h := absurd h List.not_mem_nil

theorem Inv.run (hs : Inv s) {label : String} (h : step s (.run label) = some t) : Inv t := by
  cases h
  refine ⟨fun task htask => ?_, fun d hd => ?_, hs.settled, fun d hd => (hs.ok d hd).mono ?_⟩
  · rcases List.mem_append.mp htask with hold | hnew
    · exact Nat.lt_succ_of_lt (hs.started task hold)
    · rw [List.mem_singleton.mp hnew]
      exact Nat.lt_succ_self _
  · exact ⟨(hs.called d hd).1, Nat.le_succ_of_le (hs.called d hd).2⟩
  · intro task htask hseen
    refine (List.mem_append.mp htask).resolve_right fun hnew => ?_
    rw [List.mem_singleton.mp hnew] at hseen
    exact absurd (hs.called d hd).2 (Nat.not_le.mpr hseen)

theorem Inv.settle (hs : Inv s) {id : Nat} (h : step s (.settle id) = some t) : Inv t := by
  obtain ⟨_, heq⟩ := Option.ite_none_right_eq_some.mp h
  cases heq
  exact ⟨fun task htask => hs.started task (List.mem_filter.mp htask).1, hs.called, hs.settled,
    fun d hd => (hs.ok d hd).mono fun _ htask _ => (List.mem_filter.mp htask).1⟩

/-- A drain is replaced by one that is as it should be. -/
theorem Inv.replace (hs : Inv s) (d' : Drain) (hcalled : d'.called ≤ d'.seen ∧ d'.seen ≤ s.started)
    (hsettled : ∀ settled, d'.main = .waiting settled → ∀ id ∈ settled, id < d'.seen)
    (hok : d'.Ok s) {drains : List Drain} (hdrains : ∀ x ∈ drains, x = d' ∨ x ∈ s.drains) :
    Inv { s with drains := drains } := by
  refine ⟨hs.started, fun x hx => ?_, fun x hx => ?_, fun x hx => ?_⟩
  · rcases hdrains x hx with rfl | hold
    · exact hcalled
    · exact hs.called x hold
  · rcases hdrains x hx with rfl | hold
    · exact hsettled
    · exact hs.settled x hold
  · rcases hdrains x hx with rfl | hold
    · exact hok.mono fun _ htask _ => htask
    · exact (hs.ok x hold).mono fun _ htask _ => htask

theorem Inv.drain (hs : Inv s) {timeoutMs : Option Nat} (h : step s (.drain timeoutMs) = some t) :
    Inv t := by
  cases h
  refine hs.replace _ ?_ (fun settled => waiting_look hs)
    (look_ok (d := ⟨timeoutMs, false, .done [], s.started, s.started, 0⟩) (fun hd => by cases hd)
      ?_ ?_) ?_
  · rw [called_look, seen_look]
    exact ⟨Nat.le_refl _, Nat.le_refl _⟩
  · intro _ _
    exact Nat.zero_le _
  · exact Nat.zero_le _
  · intro x hx
    rcases List.mem_append.mp hx with hold | hnew
    · exact .inr hold
    · exact .inl (List.mem_singleton.mp hnew)

theorem Inv.deadline (hs : Inv s) (h : step s (.deadline i) = some t) : Inv t := by
  obtain ⟨d, settled, hd, hmain, h⟩ := waiting_eq_some h
  obtain ⟨⟨hsome, _⟩, heq⟩ := Option.ite_none_right_eq_some.mp h
  cases heq
  have hmem := List.mem_of_getElem? hd
  have hok := hs.ok d hmem
  refine hs.replace { d with timedOut := true } (hs.called d hmem) (hs.settled d hmem)
    ⟨hok.waits, hok.leaves, fun _ _ _ => rfl, fun _ => hsome, hok.looks⟩ ?_
  exact fun x hx => (List.mem_or_eq_of_mem_set hx).symm

theorem Inv.resume (hs : Inv s) (h : step s (.resume i) = some t) : Inv t := by
  obtain ⟨d, settled, hd, hmain, h⟩ := waiting_eq_some h
  obtain ⟨hgo, heq⟩ := Option.ite_none_right_eq_some.mp h
  cases heq
  have hmem := List.mem_of_getElem? hd
  have hok := hs.ok d hmem
  obtain ⟨hcalled, hseen⟩ := hs.called d hmem
  refine hs.replace (s.look d) ?_ (fun settled => waiting_look hs)
    (look_ok hok.deadline (fun hne htime => ?_) ?_) fun x hx => (List.mem_or_eq_of_mem_set hx).symm
  · rw [called_look, seen_look]
    exact ⟨Nat.le_trans hcalled hseen, Nat.le_refl _⟩
  · -- what is pending has come after the last look, so more tasks have come than were seen then
    obtain ⟨task, htask⟩ := List.exists_mem_of_ne_nil _ hne
    have hnew : d.seen ≤ task.id := by
      by_contra hold
      have hwaited := hok.waits settled hmain task htask (Nat.not_le.mp hold)
      rcases hgo with htimed | hsettled
      · rw [htime] at htimed
        cases htimed
      · exact hsettled task.id hwaited (mem_pendingIds htask)
    have hlt := hs.started task htask
    have hlooks := hok.looks
    omega
  · have hlooks := hok.looks
    omega

theorem inv_step (s : State) (e : Event) (t : State) (hs : Inv s) (h : step s e = some t) :
    Inv t := by
  cases e with
  | run label => exact hs.run h
  | settle id => exact hs.settle h
  | drain timeoutMs => exact hs.drain h
  | deadline i => exact hs.deadline h
  | resume i => exact hs.resume h

/-- A drain keeps its place and its timeout. -/
theorem drains_step {e : Event} (h : step s e = some t) (hd : s.drains[i]? = some d) :
    ∃ d', t.drains[i]? = some d' ∧ d'.timeoutMs = d.timeoutMs := by
  have hset : ∀ {j : Nat} {d₀ d₁ : Drain}, s.drains[j]? = some d₀ → d₁.timeoutMs = d₀.timeoutMs →
      ∃ d', (s.drains.set j d₁)[i]? = some d' ∧ d'.timeoutMs = d.timeoutMs := by
    intro j d₀ d₁ hj heq
    rw [getElem?_set_of_some hj]
    split
    · rename_i hij
      subst hij
      obtain rfl := Option.some.inj (hj.symm.trans hd)
      exact ⟨d₁, rfl, heq⟩
    · exact ⟨d, hd, rfl⟩
  cases e with
  | run label =>
    cases h
    exact ⟨d, hd, rfl⟩
  | settle id =>
    obtain ⟨_, heq⟩ := Option.ite_none_right_eq_some.mp h
    cases heq
    exact ⟨d, hd, rfl⟩
  | drain timeoutMs =>
    cases h
    exact ⟨d, getElem?_concat_of_some hd _, rfl⟩
  | deadline j =>
    obtain ⟨d₀, settled, hj, _, h⟩ := waiting_eq_some h
    obtain ⟨_, heq⟩ := Option.ite_none_right_eq_some.mp h
    cases heq
    exact hset hj rfl
  | resume j =>
    obtain ⟨d₀, settled, hj, _, h⟩ := waiting_eq_some h
    obtain ⟨_, heq⟩ := Option.ite_none_right_eq_some.mp h
    cases heq
    exact hset hj timeoutMs_look

theorem Inv.goesOn (hs : Inv s) : GoesOn s := by
  intro i d settled hd hmain hnothing
  have hmem := List.mem_of_getElem? hd
  have hgo : d.timedOut = true ∨ ∀ id ∈ settled, id ∉ s.pendingIds := by
    refine hnothing.imp_right fun hnew id hid hpending => ?_
    obtain ⟨task, htask, rfl⟩ := List.mem_map.mp hpending
    exact absurd (hs.settled d hmem settled hmain task.id hid) (Nat.not_lt.mpr (hnew task htask))
  have hstep : step s (.resume i) = some { s with drains := s.drains.set i (s.look d) } := by
    simp only [step, waiting, hd, hmain]
    exact if_pos hgo
  refine ⟨_, s.look d, hstep, ?_, fun hends => ?_⟩
  · rw [getElem?_set_of_some hd, if_pos rfl]
  · unfold State.look
    rw [if_neg]
    rintro ⟨hne, htime⟩
    rcases hends with htimed | hnil
    · rw [htime] at htimed
      cases htimed
    · exact hne hnil

/-- **What drains wait for.**  In every state of every run a drain that has returned leaves nothing
running of the tasks there were when it looked last, but those it names, after its deadline; it has
waited once, and once more for every task that came in the meantime at most; and it goes on when
there is nothing left to wait for. -/
theorem drains_wait (events : List Event) : system.Always Drains events :=
  system.always Inv.init inv_step (fun _ hs => ⟨hs.ok, hs.goesOn⟩) events

end LakiraBackend.Process.BackgroundTasks
