import LakiraBackend.Concurrency.EventSystem

/-!
# `createReadinessProbe`

The probe as an event system: calls of it at any readings of the clock, the checks settling,
hanging or timing out in any order, and the run of the checks going on between its waits.

Two runs are never in progress at once, a check that has not settled is not started again, and a
caller that waits on a run has its result when the run is over.  The run in progress can end by
its timers alone, whatever its checks do (`Inv.ends`).  While the clock does not go back no run
starts in the window after a result.
-/

namespace LakiraBackend.Process.ReadinessProbe

open LakiraBackend.Concurrency

/-- What `createReadinessProbe` is given: the names of the checks, `Object.keys(checks)`. -/
structure Options : Type where
  names : List String
  distinct : names.Nodup
  windowMs : Int

inductive CheckStatus : Type
  | ok
  | fail
  deriving DecidableEq, Repr

structure ReadinessResult : Type where
  ok : Bool
  checks : List (String × CheckStatus)
  deriving DecidableEq, Repr

/-! ### Checks -/

/-- Where the promise `check` of a call of `runOne` is. -/
inductive CheckPhase : Type
  /-- `checks[name]` is called next. -/
  | queued
  | pending
  /-- The check has resolved or rejected, and `unsettled` still has it. -/
  | settled (status : CheckStatus)
  | over (status : CheckStatus)
  deriving DecidableEq, Repr

structure Check : Type where
  name : String
  phase : CheckPhase
  deriving DecidableEq, Repr

def Check.isOver (c : Check) : Bool :=
  match c.phase with
  | .over _ => true
  | _ => false

/-- The promise `runOne` returns, with the check it waits for; `none` where that of an earlier
run is still going. -/
structure Slot : Type where
  check : Option Nat
  status : Option CheckStatus
  deriving DecidableEq, Repr

/-- The checks there ever were, and the names in `unsettled`. -/
structure Checks : Type where
  all : List Check
  unsettled : List String
  deriving DecidableEq, Repr

def runOne (cs : Checks) (name : String) : Slot × Checks :=
  if name ∈ cs.unsettled then (⟨none, some .fail⟩, cs)
  else (⟨some cs.all.length, none⟩, ⟨cs.all ++ [⟨name, .queued⟩], cs.unsettled ++ [name]⟩)

/-- `names.map(runOne)`. -/
def runEach (cs : Checks) : List String → List Slot × Checks
  | [] => ([], cs)
  | name :: names =>
    let (slot, cs') := runOne cs name
    let (slots, cs'') := runEach cs' names
    (slot :: slots, cs'')

/-! ### Runs -/

/-- A call of `runAll`.  `startedAt` is bookkeeping for the properties. -/
structure Run : Type where
  slots : List Slot
  startedAt : Int
  /-- Its result, and the reading of the clock that went into `cached`. -/
  result : Option (Int × ReadinessResult)
  /-- `running` was cleared after it. -/
  isOver : Bool
  deriving DecidableEq, Repr

/-- A call of the probe: the run it waits on, `none` where it is served from `cached`, and
what it has received. -/
structure Caller : Type where
  run : Option Nat
  answer : Option ReadinessResult
  deriving DecidableEq, Repr

/-- `clock` is bookkeeping for the properties: the last reading. -/
structure State : Type where
  checks : Checks
  cached : Option (Int × ReadinessResult)
  running : Option Nat
  runs : List Run
  callers : List Caller
  clock : Option Int
  deriving DecidableEq, Repr

/-- What `cached` has for a call at that reading.  A negative age means the clock was set
back. -/
def fresh (P : Options) (cached : Option (Int × ReadinessResult)) (now : Int) :
    Option ReadinessResult :=
  match cached with
  | some (at_, result) => if 0 ≤ now - at_ ∧ now - at_ < P.windowMs then some result else none
  | none => none

def resultOf (P : Options) (statuses : List CheckStatus) : ReadinessResult :=
  ⟨statuses.all fun status => status = .ok, P.names.zip statuses⟩

inductive Event : Type
  /-- A call of the probe. -/
  | call (now : Int)
  /-- `checks[name]()` is called. -/
  | invoke (c : Nat)
  /-- The promise of the check resolves or rejects. -/
  | settle (c : Nat) (status : CheckStatus)
  /-- `unsettled.delete(name)`. -/
  | delete (c : Nat)
  /-- A slot of the run has the status of its check. -/
  | resolve (k j : Nat)
  | timeout (k j : Nat)
  /-- `runAll` has every status. -/
  | finish (k : Nat) (now : Int)
  /-- `running = undefined`, and the run's callers have its result. -/
  | clear (k : Nat)
  deriving DecidableEq, Repr

/-- The check at `c` goes on. -/
def onCheck (s : State) (c : Nat) (f : Check → Option Checks) : Option State :=
  match s.checks.all[c]? with
  | some check => (f check).map fun cs => { s with checks := cs }
  | none => none

/-- The run at `k` goes on. -/
def onRun (s : State) (k : Nat) (f : Run → Option State) : Option State :=
  match s.runs[k]? with
  | some run => f run
  | none => none

/-- The first status a slot gets is the one it keeps. -/
def fill (run : Run) (j : Nat) (status : CheckStatus) : Option Run :=
  match run.slots[j]? with
  | some ⟨check, none⟩ => some { run with slots := run.slots.set j ⟨check, some status⟩ }
  | _ => none

/-- A caller of the run that is over has its result. -/
def Caller.receive (k : Nat) (result : ReadinessResult) (c : Caller) : Caller :=
  if c.run = some k then { c with answer := some result } else c

def step (P : Options) (s : State) : Event → Option State
  | .call now =>
    let s := { s with clock := some now }
    match fresh P s.cached now with
    | some result => some { s with callers := s.callers ++ [⟨none, some result⟩] }
    | none =>
      match s.running with
      | some k => some { s with callers := s.callers ++ [⟨some k, none⟩] }
      | none =>
        let (slots, checks) := runEach s.checks P.names
        some { s with
          checks := checks
          running := some s.runs.length
          runs := s.runs ++ [⟨slots, now, none, false⟩]
          callers := s.callers ++ [⟨some s.runs.length, none⟩] }
  | .invoke c => onCheck s c fun check =>
    if check.phase = .queued then
      some { s.checks with all := s.checks.all.set c { check with phase := .pending } }
    else none
  | .settle c status => onCheck s c fun check =>
    if check.phase = .pending then
      some { s.checks with all := s.checks.all.set c { check with phase := .settled status } }
    else none
  | .delete c => onCheck s c fun check =>
    match check.phase with
    | .settled status => some
      { all := s.checks.all.set c { check with phase := .over status }
        unsettled := s.checks.unsettled.filter fun name => name ≠ check.name }
    | _ => none
  | .resolve k j => onRun s k fun run =>
    match (run.slots[j]?.bind Slot.check).bind fun c => s.checks.all[c]? with
    | some ⟨_, .over status⟩ => (fill run j status).map fun r => { s with runs := s.runs.set k r }
    | _ => none
  | .timeout k j => onRun s k fun run =>
    (fill run j .fail).map fun r => { s with runs := s.runs.set k r }
  | .finish k now => onRun s k fun run =>
    match run.result, run.slots.mapM Slot.status with
    | none, some statuses =>
      let result := resultOf P statuses
      some { s with
        clock := some now
        cached := some (now, result)
        runs := s.runs.set k { run with result := some (now, result) } }
    | _, _ => none
  | .clear k => onRun s k fun run =>
    match run.result, run.isOver with
    | some (_, result), false =>
      some { s with
        running := none
        runs := s.runs.set k { run with isOver := true }
        callers := s.callers.map (Caller.receive k result) }
    | _, _ => none

def system (P : Options) : EventSystem State Event :=
  ⟨⟨⟨[], []⟩, none, none, [], [], none⟩, step P⟩

/-! ### What the probe promises -/

/-- A run goes on: a slot without a status can time out, a run that has every status can finish,
and one that has its result can be over, when those who wait on it have it. -/
structure GoesOn (P : Options) (s : State) : Prop where
  timesOut : ∀ (k j : Nat) (run : Run) (check : Option Nat), s.runs[k]? = some run →
    run.slots[j]? = some ⟨check, none⟩ → step P s (.timeout k j) = some { s with
      runs := s.runs.set k { run with slots := run.slots.set j ⟨check, some .fail⟩ } }
  finishes : ∀ (k : Nat) (run : Run) (statuses : List CheckStatus) (now : Int),
    s.runs[k]? = some run → run.result = none → run.slots.mapM Slot.status = some statuses →
    ∃ t, step P s (.finish k now) = some t ∧ t.callers = s.callers ∧
      t.runs = s.runs.set k { run with result := some (now, resultOf P statuses) }
  clears : ∀ (k : Nat) (run : Run) (at_ : Int) (result : ReadinessResult), s.runs[k]? = some run →
    run.isOver = false → run.result = some (at_, result) →
    ∃ t, step P s (.clear k) = some t ∧ t.running = none ∧
      t.runs = s.runs.set k { run with isOver := true } ∧
      t.callers = s.callers.map (Caller.receive k result)

/-- What comes of the run at `k` without its checks, the clock at `now`. -/
def OfTimers (k : Nat) (now : Int) : Event → Prop
  | .timeout k' _ => k' = k
  | .finish k' now' => k' = k ∧ now' = now
  | .clear k' => k' = k
  | _ => False

/-- The run in progress can end by its timers alone, and all who wait on it have its result. -/
def Ends (P : Options) (s : State) : Prop :=
  ∀ (k : Nat) (now : Int), s.running = some k →
    ∃ (events : List Event) (t : State) (run : Run) (at_ : Int) (result : ReadinessResult),
      (∀ e ∈ events, OfTimers k now e) ∧
      events.foldlM (step P) s = some t ∧ t.running = none ∧ t.runs[k]? = some run ∧
      run.isOver = true ∧ run.result = some (at_, result) ∧
      t.callers = s.callers.map (Caller.receive k result)

structure Bounded (P : Options) (s : State) : Prop where
  /-- Two runs are never in progress at once. -/
  one : ∀ (j k : Nat) (a b : Run), s.runs[j]? = some a → s.runs[k]? = some b → a.isOver = false →
    b.isOver = false → j = k
  /-- Of a name, one check at most has not settled. -/
  unsettled : ∀ (i j : Nat) (a b : Check), s.checks.all[i]? = some a → s.checks.all[j]? = some b →
    a.isOver = false → b.isOver = false → a.name = b.name → i = j
  /-- A caller that waits on a run has the run's result when the run is over, and nothing
  before. -/
  answered : ∀ c ∈ s.callers, ∀ k, c.run = some k → ∃ run, s.runs[k]? = some run ∧
    (run.isOver = false → c.answer = none) ∧
    (run.isOver = true → ∃ at_ result, run.result = some (at_, result) ∧ c.answer = some result)
  goesOn : GoesOn P s
  ends : Ends P s

/-- No run starts in the window after a result. -/
def Windowed (P : Options) (s : State) : Prop :=
  ∀ (j k : Nat) (a b : Run) (at_ : Int) (result : ReadinessResult), j < k → s.runs[j]? = some a →
    s.runs[k]? = some b → a.result = some (at_, result) → at_ + P.windowMs ≤ b.startedAt

/-- The clock does not go back. -/
def Forward (s : State) : Event → Prop
  | .call now => ∀ last, s.clock = some last → last ≤ now
  | .finish _ now => ∀ last, s.clock = some last → last ≤ now
  | _ => True

instance (s : State) : (e : Event) → Decidable (Forward s e)
  | .call now => inferInstanceAs (Decidable (∀ last ∈ s.clock, last ≤ now))
  | .finish _ now => inferInstanceAs (Decidable (∀ last ∈ s.clock, last ≤ now))
  | .invoke _ | .settle _ _ | .delete _ | .resolve _ _ | .timeout _ _ | .clear _ =>
    inferInstanceAs (Decidable True)

/-! ### The checks -/

variable {P : Options} {s t : State} {c k : Nat} {check check' : Check} {run run' : Run}

structure ChecksInv (cs : Checks) : Prop where
  named : ∀ (i : Nat) (a : Check), cs.all[i]? = some a → a.isOver = false → a.name ∈ cs.unsettled
  alone : ∀ (i j : Nat) (a b : Check), cs.all[i]? = some a → cs.all[j]? = some b →
    a.isOver = false → b.isOver = false → a.name = b.name → i = j

theorem ChecksInv.init : ChecksInv ⟨[], []⟩ where
  named := by
    intro i a hi
    simp at hi
  alone := by
    intro i j a b hi
    simp at hi

/-- A name in `unsettled` starts no check; any other has none that has not settled. -/
theorem ChecksInv.runOne {cs : Checks} (h : ChecksInv cs) (name : String) :
    ChecksInv (runOne cs name).2 := by
  unfold ReadinessProbe.runOne
  split
  · exact h
  · rename_i hname
    constructor
    · intro i a hi ha
      rcases of_getElem?_concat hi with hi | ⟨_, rfl⟩
      · exact List.mem_append_left _ (h.named i a hi ha)
      · exact List.mem_append_right _ (List.mem_singleton_self _)
    · intro i j a b hi hj ha hb hab
      rcases of_getElem?_concat hi with hi | ⟨rfl, rfl⟩ <;>
        rcases of_getElem?_concat hj with hj | ⟨rfl, rfl⟩
      · exact h.alone i j a b hi hj ha hb hab
      · exact absurd ((show a.name = name from hab) ▸ h.named i a hi ha) hname
      · exact absurd ((show name = b.name from hab) ▸ h.named j b hj hb) hname
      · rfl

theorem ChecksInv.runEach {cs : Checks} (h : ChecksInv cs) (names : List String) :
    ChecksInv (runEach cs names).2 := by
  induction names generalizing cs with
  | nil => exact h
  | cons name names ih => exact ih (h.runOne name)

/-- A check goes on, and is not over. -/
theorem ChecksInv.go {cs : Checks} (h : ChecksInv cs) (hc : cs.all[c]? = some check)
    (hname : check'.name = check.name) (ho : check.isOver = false) :
    ChecksInv { cs with all := cs.all.set c check' } where
  named := by
    intro i a hi ha
    rcases of_getElem?_set hc hi with ⟨rfl, rfl⟩ | ⟨_, hi⟩
    · exact hname ▸ h.named i check hc ho
    · exact h.named i a hi ha
  alone := by
    intro i j a b hi hj ha hb hab
    rcases of_getElem?_set hc hi with ⟨rfl, rfl⟩ | ⟨_, hi'⟩ <;>
      rcases of_getElem?_set hc hj with ⟨rfl, rfl⟩ | ⟨_, hj'⟩
    · rfl
    · exact h.alone i j check b hc hj' ho hb (hname.symm.trans hab)
    · exact h.alone i j a check hi' hc ha ho (hab.trans hname)
    · exact h.alone i j a b hi' hj' ha hb hab

/-- A check is over, and its name free again: no other one of the name was left. -/
theorem ChecksInv.delete {cs : Checks} (h : ChecksInv cs) (hc : cs.all[c]? = some check)
    (ho : check.isOver = false) (hname : check'.name = check.name) (ho' : check'.isOver = true) :
    ChecksInv ⟨cs.all.set c check', cs.unsettled.filter fun name => name ≠ check.name⟩ where
  named := by
    intro i a hi ha
    rcases of_getElem?_set hc hi with ⟨rfl, rfl⟩ | ⟨hic, hi⟩
    · exact absurd (ho'.symm.trans ha) Bool.noConfusion
    · refine List.mem_filter.mpr ⟨h.named i a hi ha, ?_⟩
      have hne : a.name ≠ check.name := fun he => hic (h.alone i c a check hi hc ha ho he)
      simp [hne]
  alone := by
    intro i j a b hi hj ha hb hab
    rcases of_getElem?_set hc hi with ⟨rfl, rfl⟩ | ⟨_, hi⟩
    · exact absurd (ho'.symm.trans ha) Bool.noConfusion
    · rcases of_getElem?_set hc hj with ⟨rfl, rfl⟩ | ⟨_, hj⟩
      · exact absurd (ho'.symm.trans hb) Bool.noConfusion
      · exact h.alone i j a b hi hj ha hb hab

/-! ### The runs and their callers -/

structure RunsInv (runs : List Run) (running : Option Nat) (callers : List Caller) : Prop where
  /-- A run that is not over is the one in `running`. -/
  current : ∀ (j : Nat) (a : Run), runs[j]? = some a → a.isOver = false → running = some j
  /-- The one in `running` is the last, and not over. -/
  last : ∀ k, running = some k →
    k + 1 = runs.length ∧ ∃ a, runs[k]? = some a ∧ a.isOver = false
  done : ∀ (j : Nat) (a : Run), runs[j]? = some a → a.isOver = true → a.result ≠ none
  answered : ∀ c ∈ callers, ∀ k, c.run = some k → ∃ a, runs[k]? = some a ∧
    c.answer = if a.isOver then a.result.map Prod.snd else none

section Runs

variable {runs : List Run} {running : Option Nat} {callers : List Caller}

theorem RunsInv.init : RunsInv [] none [] where
  current := by
    intro j a hj
    simp at hj
  last := by
    intro k hk
    cases hk
  done := by
    intro j a hj
    simp at hj
  answered := by
    intro c hc
    cases hc

/-- A caller is served from `cached`. -/
theorem RunsInv.served (h : RunsInv runs running callers) (result : ReadinessResult) :
    RunsInv runs running (callers ++ [⟨none, some result⟩]) where
  current := h.current
  last := h.last
  done := h.done
  answered := by
    intro c hc k hk
    rcases List.mem_append.mp hc with hc | hc
    · exact h.answered c hc k hk
    · obtain rfl := List.mem_singleton.mp hc
      cases hk

/-- A caller joins the run in progress. -/
theorem RunsInv.joined (h : RunsInv runs (some k) callers) :
    RunsInv runs (some k) (callers ++ [⟨some k, none⟩]) where
  current := h.current
  last := h.last
  done := h.done
  answered := by
    intro c hc j hj
    rcases List.mem_append.mp hc with hc | hc
    · exact h.answered c hc j hj
    · obtain rfl := List.mem_singleton.mp hc
      obtain rfl : k = j := Option.some.inj hj
      obtain ⟨a, ha, ho⟩ := (h.last k rfl).2
      exact ⟨a, ha, by rw [ho]; rfl⟩

/-- A run starts where none is in progress. -/
theorem RunsInv.started (h : RunsInv runs none callers) (slots : List Slot) (now : Int) :
    RunsInv (runs ++ [⟨slots, now, none, false⟩]) (some runs.length)
      (callers ++ [⟨some runs.length, none⟩]) where
  current := by
    intro j a hj ha
    rcases of_getElem?_concat hj with hj | ⟨rfl, _⟩
    · cases h.current j a hj ha
    · rfl
  last := by
    intro k hk
    obtain rfl : runs.length = k := Option.some.inj hk
    exact ⟨by rw [List.length_append, List.length_singleton], _, List.getElem?_concat_length, rfl⟩
  done := by
    intro j a hj ha
    rcases of_getElem?_concat hj with hj | ⟨_, rfl⟩
    · exact h.done j a hj ha
    · cases ha
  answered := by
    intro c hc k hk
    rcases List.mem_append.mp hc with hc | hc
    · obtain ⟨a, ha, hanswer⟩ := h.answered c hc k hk
      have hlt := (List.getElem?_eq_some_iff.mp ha).1
      exact ⟨a, by rw [List.getElem?_append_left hlt, ha], hanswer⟩
    · obtain rfl := List.mem_singleton.mp hc
      obtain rfl : runs.length = k := Option.some.inj hk
      exact ⟨_, List.getElem?_concat_length, rfl⟩

/-- A run goes on: what it had when it was over it keeps. -/
theorem RunsInv.go (h : RunsInv runs running callers) (hk : runs[k]? = some run)
    (ho : run'.isOver = run.isOver) (hresult : run.isOver = true → run'.result = run.result) :
    RunsInv (runs.set k run') running callers where
  current := by
    intro j a hj ha
    rcases of_getElem?_set hk hj with ⟨rfl, rfl⟩ | ⟨_, hj⟩
    · exact h.current j run hk (ho.symm.trans ha)
    · exact h.current j a hj ha
  last := by
    intro j hj
    obtain ⟨hlen, a, ha, hao⟩ := h.last j hj
    refine ⟨hlen.trans List.length_set.symm, ?_⟩
    by_cases hkj : k = j
    · subst hkj
      obtain rfl : run = a := Option.some.inj (hk.symm.trans ha)
      exact ⟨run', by rw [getElem?_set_of_some hk, if_pos rfl], ho.trans hao⟩
    · exact ⟨a, by rw [getElem?_set_of_some hk, if_neg hkj, ha], hao⟩
  done := by
    intro j a hj ha
    rcases of_getElem?_set hk hj with ⟨rfl, rfl⟩ | ⟨_, hj⟩
    · have hover : run.isOver = true := ho.symm.trans ha
      exact hresult hover ▸ h.done j run hk hover
    · exact h.done j a hj ha
  answered := by
    intro c hc j hj
    obtain ⟨a, ha, hanswer⟩ := h.answered c hc j hj
    by_cases hkj : k = j
    · subst hkj
      obtain rfl : run = a := Option.some.inj (hk.symm.trans ha)
      refine ⟨run', by rw [getElem?_set_of_some hk, if_pos rfl], ?_⟩
      rw [hanswer, ho]
      split
      · rename_i hover
        rw [hresult hover]
      · rfl
    · exact ⟨a, by rw [getElem?_set_of_some hk, if_neg hkj, ha], hanswer⟩

/-- The run in progress is over, and its callers have its result. -/
theorem RunsInv.clear {at_ : Int} {result : ReadinessResult} (h : RunsInv runs running callers)
    (hk : runs[k]? = some run) (ho : run.isOver = false) (hr : run.result = some (at_, result)) :
    RunsInv (runs.set k { run with isOver := true }) none
      (callers.map (Caller.receive k result)) where
  current := by
    intro j a hj ha
    rcases of_getElem?_set hk hj with ⟨_, rfl⟩ | ⟨hjk, hj⟩
    · cases ha
    · -- two runs in progress
      have hj' := h.current j a hj ha
      have hk' := h.current k run hk ho
      exact absurd (Option.some.inj (hj'.symm.trans hk')) hjk
  last := by
    intro j hj
    cases hj
  done := by
    intro j a hj ha
    rcases of_getElem?_set hk hj with ⟨_, rfl⟩ | ⟨_, hj⟩
    · change run.result ≠ none
      rw [hr]
      exact Option.some_ne_none _
    · exact h.done j a hj ha
  answered := by
    intro c hc j hj
    obtain ⟨d, hd, rfl⟩ := List.mem_map.mp hc
    unfold Caller.receive at hj ⊢
    by_cases hdk : d.run = some k
    · rw [if_pos hdk] at hj ⊢
      obtain rfl : k = j := Option.some.inj (hdk.symm.trans hj)
      refine ⟨{ run with isOver := true }, by rw [getElem?_set_of_some hk, if_pos rfl], ?_⟩
      simp [hr]
    · rw [if_neg hdk] at hj ⊢
      obtain ⟨a, ha, hanswer⟩ := h.answered d hd j hj
      have hkj : k ≠ j := by
        rintro rfl
        exact hdk hj
      exact ⟨a, by rw [getElem?_set_of_some hk, if_neg hkj, ha], hanswer⟩

end Runs

/-! ### The windows -/

/-- While the clock goes forward, `cached` has the last result there was. -/
structure WindowInv (P : Options) (runs : List Run) (cached : Option (Int × ReadinessResult))
    (clock : Option Int) : Prop where
  apart : ∀ (j k : Nat) (a b : Run) (at_ : Int) (result : ReadinessResult), j < k →
    runs[j]? = some a → runs[k]? = some b → a.result = some (at_, result) →
    at_ + P.windowMs ≤ b.startedAt
  latest : ∀ (j : Nat) (a : Run) (at_ : Int) (result : ReadinessResult), runs[j]? = some a →
    a.result = some (at_, result) → ∃ last r, cached = some (last, r) ∧ at_ ≤ last
  past : ∀ last r, cached = some (last, r) → ∃ now, clock = some now ∧ last ≤ now

section Windows

variable {runs : List Run} {cached : Option (Int × ReadinessResult)} {clock : Option Int}
  {now : Int}

theorem WindowInv.init : WindowInv P [] none none where
  apart := by
    intro j k a b at_ result _ hj
    simp at hj
  latest := by
    intro j a at_ result hj
    simp at hj
  past := by
    intro last r h
    cases h

theorem WindowInv.tick (h : WindowInv P runs cached clock)
    (hforward : ∀ last, clock = some last → last ≤ now) :
    WindowInv P runs cached (some now) where
  apart := h.apart
  latest := h.latest
  past := by
    intro last r hcached
    obtain ⟨before, hbefore, hle⟩ := h.past last r hcached
    exact ⟨now, rfl, Int.le_trans hle (hforward before hbefore)⟩

/-- A run starts when the window after the last result is over. -/
theorem WindowInv.started (h : WindowInv P runs cached (some now))
    (hfresh : fresh P cached now = none) (slots : List Slot) :
    WindowInv P (runs ++ [⟨slots, now, none, false⟩]) cached (some now) where
  apart := by
    intro j k a b at_ result hjk hj hk hresult
    have hj' : runs[j]? = some a := by
      rcases of_getElem?_concat hj with hj | ⟨_, rfl⟩
      · exact hj
      · cases hresult
    rcases of_getElem?_concat hk with hk | ⟨_, rfl⟩
    · exact h.apart j k a b at_ result hjk hj' hk hresult
    · obtain ⟨last, r, hcached, hle⟩ := h.latest j a at_ result hj' hresult
      obtain ⟨now', hnow, hlast⟩ := h.past last r hcached
      obtain rfl : now = now' := Option.some.inj hnow
      simp only [hcached, fresh, ite_eq_right_iff, reduceCtorEq, imp_false, not_and, Int.not_lt]
        at hfresh
      have hage := hfresh (by omega)
      change at_ + P.windowMs ≤ now
      omega
  latest := by
    intro j a at_ result hj hresult
    rcases of_getElem?_concat hj with hj | ⟨_, rfl⟩
    · exact h.latest j a at_ result hj hresult
    · cases hresult
  past := h.past

theorem WindowInv.go (h : WindowInv P runs cached clock) (hk : runs[k]? = some run)
    (hstart : run'.startedAt = run.startedAt) (hresult : run'.result = run.result) :
    WindowInv P (runs.set k run') cached clock := by
  -- an entry now has the start and the result of the one that was there
  have back : ∀ {j : Nat} {a : Run}, (runs.set k run')[j]? = some a →
      ∃ a', runs[j]? = some a' ∧ a.startedAt = a'.startedAt ∧ a.result = a'.result := by
    intro j a hj
    rcases of_getElem?_set hk hj with ⟨rfl, rfl⟩ | ⟨_, hj⟩
    · exact ⟨run, hk, hstart, hresult⟩
    · exact ⟨a, hj, rfl, rfl⟩
  refine ⟨?_, ?_, h.past⟩
  · intro i j a b at_ result hij hi hj hr
    obtain ⟨a', hi', _, har⟩ := back hi
    obtain ⟨b', hj', hbs, _⟩ := back hj
    rw [hbs]
    exact h.apart i j a' b' at_ result hij hi' hj' (har.symm.trans hr)
  · intro j a at_ result hj hr
    obtain ⟨a', hj', _, har⟩ := back hj
    exact h.latest j a' at_ result hj' (har.symm.trans hr)

/-- The last run has its result, at a reading no earlier than any before. -/
theorem WindowInv.finish (h : WindowInv P runs cached clock) (hk : runs[k]? = some run)
    (hlast : k + 1 = runs.length) (hforward : ∀ last, clock = some last → last ≤ now)
    (result : ReadinessResult) :
    WindowInv P (runs.set k { run with result := some (now, result) }) (some (now, result))
      (some now) where
  apart := by
    intro i j a b at_ r hij hi hj hr
    have hjlt := (List.getElem?_eq_some_iff.mp hj).1
    rw [List.length_set] at hjlt
    rcases of_getElem?_set hk hi with ⟨rfl, _⟩ | ⟨_, hi'⟩
    · omega
    · rcases of_getElem?_set hk hj with ⟨rfl, rfl⟩ | ⟨_, hj'⟩
      · exact h.apart i j a run at_ r hij hi' hk hr
      · exact h.apart i j a b at_ r hij hi' hj' hr
  latest := by
    intro j a at_ r hj hr
    refine ⟨now, result, rfl, ?_⟩
    rcases of_getElem?_set hk hj with ⟨_, rfl⟩ | ⟨_, hj⟩
    · exact Int.le_of_eq (Prod.mk.inj (Option.some.inj hr)).1.symm
    · obtain ⟨last, r', hcached, hle⟩ := h.latest j a at_ r hj hr
      obtain ⟨before, hbefore, hbl⟩ := h.past last r' hcached
      exact Int.le_trans hle (Int.le_trans hbl (hforward before hbefore))
  past := by
    intro last r hcached
    exact ⟨now, rfl, Int.le_of_eq (Prod.mk.inj (Option.some.inj hcached)).1.symm⟩

end Windows

/-! ### The invariant -/

structure Inv (s : State) : Prop where
  checks : ChecksInv s.checks
  runs : RunsInv s.runs s.running s.callers

theorem Inv.answered (h : Inv s) : ∀ c ∈ s.callers, ∀ k, c.run = some k →
    ∃ run, s.runs[k]? = some run ∧ (run.isOver = false → c.answer = none) ∧
      (run.isOver = true →
        ∃ at_ result, run.result = some (at_, result) ∧ c.answer = some result) := by
  intro c hc k hk
  obtain ⟨run, hrun, hanswer⟩ := h.runs.answered c hc k hk
  refine ⟨run, hrun, fun ho => ?_, fun ho => ?_⟩
  · rw [hanswer, ho]
    rfl
  · obtain ⟨⟨at_, result⟩, hresult⟩ := Option.ne_none_iff_exists'.mp (h.runs.done k run hrun ho)
    refine ⟨at_, result, hresult, ?_⟩
    rw [hanswer, if_pos ho, hresult]
    rfl

/-! ### A run goes on -/

theorem goesOn (P : Options) (s : State) : GoesOn P s where
  timesOut := by
    intro k j run check hk hj
    simp only [step, onRun, hk, fill, hj, Option.map_some]
  finishes := by
    intro k run statuses now hk hresult hstatuses
    simp only [step, onRun, hk, hresult, hstatuses]
    exact ⟨_, rfl, rfl, rfl⟩
  clears := by
    intro k run at_ result hk ho hresult
    simp only [step, onRun, hk, hresult, ho]
    exact ⟨_, rfl, rfl, rfl, rfl⟩

theorem exists_statuses {slots : List Slot} (h : ∀ slot ∈ slots, slot.status ≠ none) :
    ∃ statuses, slots.mapM Slot.status = some statuses := by
  induction slots with
  | nil => exact ⟨[], rfl⟩
  | cons slot slots ih =>
    obtain ⟨hslot, hslots⟩ := List.forall_mem_cons.mp h
    obtain ⟨status, hstatus⟩ := Option.ne_none_iff_exists'.mp hslot
    obtain ⟨statuses, hstatuses⟩ := ih hslots
    exact ⟨status :: statuses, by rw [List.mapM_cons, hstatus, hstatuses]; rfl⟩

def Slot.isOpen (slot : Slot) : Bool := slot.status.isNone

/-- **The slots that are left time out**, by induction on how many there are. -/
theorem timesOut_all (P : Options) (now : Int) (n : Nat) : ∀ {s : State} {run : Run},
    s.runs[k]? = some run → run.slots.countP Slot.isOpen = n →
    ∃ (events : List Event) (slots : List Slot) (statuses : List CheckStatus),
      (∀ e ∈ events, OfTimers k now e) ∧
      events.foldlM (step P) s = some { s with runs := s.runs.set k { run with slots := slots } } ∧
      slots.mapM Slot.status = some statuses := by
  induction n with
  | zero =>
    intro s run hk hopen
    obtain ⟨statuses, hstatuses⟩ : ∃ statuses, run.slots.mapM Slot.status = some statuses := by
      refine exists_statuses fun slot hslot hnone => ?_
      exact List.countP_eq_zero.mp hopen slot hslot (Option.isNone_iff_eq_none.mpr hnone)
    refine ⟨[], run.slots, statuses, fun e he => absurd he List.not_mem_nil, ?_, hstatuses⟩
    have hsame : s.runs.set k run = s.runs := by
      obtain ⟨hlt, rfl⟩ := List.getElem?_eq_some_iff.mp hk
      exact List.set_getElem_self hlt
    change some s = some { s with runs := s.runs.set k run }
    rw [hsame]
  | succ n ih =>
    intro s run hk hopen
    obtain ⟨⟨check, status⟩, hslot, hnone⟩ := List.countP_pos_iff.mp
      (show 0 < run.slots.countP Slot.isOpen by omega)
    obtain rfl : status = none := Option.isNone_iff_eq_none.mp hnone
    obtain ⟨j, hlt, hj⟩ := List.mem_iff_getElem.mp hslot
    have hj' : run.slots[j]? = some ⟨check, none⟩ := by rw [List.getElem?_eq_getElem hlt, hj]
    have hstep := (goesOn P s).timesOut k j run check hk hj'
    let next : Run := { run with slots := run.slots.set j ⟨check, some .fail⟩ }
    have hnext : (s.runs.set k next)[k]? = some next := by rw [getElem?_set_of_some hk, if_pos rfl]
    have hcount : next.slots.countP Slot.isOpen = n := by
      have hset := List.countP_set (p := Slot.isOpen) (a := ⟨check, some .fail⟩) hlt
      rw [hj] at hset
      change (run.slots.set j ⟨check, some .fail⟩).countP Slot.isOpen = n
      rw [hset, hopen]
      rfl
    obtain ⟨events, slots, statuses, hevents, hrun, hstatuses⟩ :=
      ih (s := { s with runs := s.runs.set k next }) hnext hcount
    refine ⟨.timeout k j :: events, slots, statuses, List.forall_mem_cons.mpr ⟨rfl, hevents⟩, ?_,
      hstatuses⟩
    rw [List.foldlM_cons, hstep]
    refine hrun.trans ?_
    rw [List.set_set]

/-- **The run in progress can end.** -/
theorem Inv.ends (P : Options) (h : Inv s) : Ends P s := by
  intro k now hrunning
  obtain ⟨-, run, hk, ho⟩ := h.runs.last k hrunning
  cases hresult : run.result with
  | some cached =>
    obtain ⟨at_, result⟩ := cached
    obtain ⟨t, ht, hnone, hruns, hcallers⟩ := (goesOn P s).clears k run at_ result hk ho hresult
    refine ⟨[.clear k], t, { run with isOver := true }, at_, result,
      List.forall_mem_singleton.mpr rfl, ?_, hnone, ?_, rfl, hresult, hcallers⟩
    · rw [List.foldlM_cons, ht]
      rfl
    · rw [hruns, getElem?_set_of_some hk, if_pos rfl]
  | none =>
    obtain ⟨events, slots, statuses, hevents, hrun, hstatuses⟩ := timesOut_all P now _ hk rfl
    let full : Run := { run with slots := slots }
    have hfull : (s.runs.set k full)[k]? = some full := by rw [getElem?_set_of_some hk, if_pos rfl]
    obtain ⟨t, ht, hcallers, hruns⟩ :=
      (goesOn P { s with runs := s.runs.set k full }).finishes k full statuses now hfull hresult
        hstatuses
    let ended : Run := { full with result := some (now, resultOf P statuses) }
    have hended : t.runs[k]? = some ended := by
      rw [hruns, getElem?_set_of_some hfull, if_pos rfl]
    obtain ⟨u, hu, hnone, hruns', hcallers'⟩ :=
      (goesOn P t).clears k ended now (resultOf P statuses) hended ho rfl
    refine ⟨events ++ [.finish k now, .clear k], u, { ended with isOver := true }, now,
      resultOf P statuses, ?_, ?_, hnone, ?_, rfl, rfl, ?_⟩
    · intro e he
      rcases List.mem_append.mp he with he | he
      · exact hevents e he
      · rcases List.mem_cons.mp he with rfl | he
        · exact ⟨rfl, rfl⟩
        · obtain rfl := List.mem_singleton.mp he
          rfl
    · rw [List.foldlM_append, hrun]
      change (step P _ (.finish k now)).bind _ = _
      rw [ht]
      change (step P t (.clear k)).bind _ = _
      rw [hu]
      rfl
    · rw [hruns', getElem?_set_of_some hended, if_pos rfl]
    · rw [hcallers', hcallers]

theorem Inv.bounded (h : Inv s) : Bounded P s where
  one := by
    intro j k a b hj hk ha hb
    have hj' := h.runs.current j a hj ha
    have hk' := h.runs.current k b hk hb
    exact Option.some.inj (hj'.symm.trans hk')
  unsettled := h.checks.alone
  answered := h.answered
  goesOn := goesOn P s
  ends := h.ends P

/-! ### What an event does -/

theorem of_onCheck {f : Check → Option Checks} (h : onCheck s c f = some t) :
    ∃ check cs, s.checks.all[c]? = some check ∧ f check = some cs ∧
      t = { s with checks := cs } := by
  unfold onCheck at h
  split at h
  · rename_i check hc
    obtain ⟨cs, hcs, rfl⟩ := Option.map_eq_some_iff.mp h
    exact ⟨check, cs, hc, hcs, rfl⟩
  · cases h

theorem of_onRun {f : Run → Option State} (h : onRun s k f = some t) :
    ∃ run, s.runs[k]? = some run ∧ f run = some t := by
  unfold onRun at h
  split at h
  · rename_i run hk
    exact ⟨run, hk, h⟩
  · cases h

/-- A status changes nothing else of its run. -/
theorem of_fill {j : Nat} {status : CheckStatus} (h : fill run j status = some run') :
    run'.isOver = run.isOver ∧ run'.result = run.result ∧ run'.startedAt = run.startedAt := by
  unfold fill at h
  split at h
  · cases h
    exact ⟨rfl, rfl, rfl⟩
  · cases h

/-- What an event does: to the checks alone, or to a run alone, or it is a call, a result or
the end of a run. -/
inductive Change (P : Options) (s : State) : Event → State → Prop
  | checks {e : Event} {cs : Checks} : ChecksInv cs → Change P s e { s with checks := cs }
  | slots {e : Event} {k : Nat} {run run' : Run} : s.runs[k]? = some run →
      run'.isOver = run.isOver → run'.result = run.result → run'.startedAt = run.startedAt →
      Change P s e { s with runs := s.runs.set k run' }
  | served {now : Int} {result : ReadinessResult} : Change P s (.call now)
      { s with clock := some now, callers := s.callers ++ [⟨none, some result⟩] }
  | joined {now : Int} {k : Nat} : s.running = some k → Change P s (.call now)
      { s with clock := some now, callers := s.callers ++ [⟨some k, none⟩] }
  | started {now : Int} {slots : List Slot} {cs : Checks} : s.running = none →
      fresh P s.cached now = none → ChecksInv cs → Change P s (.call now)
        { checks := cs
          cached := s.cached
          running := some s.runs.length
          runs := s.runs ++ [⟨slots, now, none, false⟩]
          callers := s.callers ++ [⟨some s.runs.length, none⟩]
          clock := some now }
  | finished {now : Int} {k : Nat} {run : Run} {result : ReadinessResult} :
      s.runs[k]? = some run → run.result = none → Change P s (.finish k now)
        { s with
          clock := some now
          cached := some (now, result)
          runs := s.runs.set k { run with result := some (now, result) } }
  | cleared {k : Nat} {run : Run} {at_ : Int} {result : ReadinessResult} :
      s.runs[k]? = some run → run.isOver = false → run.result = some (at_, result) →
      Change P s (.clear k)
        { s with
          running := none
          runs := s.runs.set k { run with isOver := true }
          callers := s.callers.map (Caller.receive k result) }

theorem Inv.change (e : Event) (h : Inv s) (ht : step P s e = some t) : Change P s e t := by
  cases e with
  | call now =>
      simp only [step] at ht
      split at ht
      · cases ht
        exact .served
      · rename_i hfresh
        split at ht
        · rename_i k hrunning
          cases ht
          exact .joined hrunning
        · rename_i hrunning
          cases ht
          exact .started hrunning hfresh (h.checks.runEach P.names)
  | invoke c =>
      obtain ⟨check, cs, hc, hcs, rfl⟩ := of_onCheck ht
      split at hcs
      · rename_i hp
        cases hcs
        exact .checks (h.checks.go hc rfl (by rw [Check.isOver, hp]))
      · cases hcs
  | settle c status =>
      obtain ⟨check, cs, hc, hcs, rfl⟩ := of_onCheck ht
      split at hcs
      · rename_i hp
        cases hcs
        exact .checks (h.checks.go hc rfl (by rw [Check.isOver, hp]))
      · cases hcs
  | delete c =>
      obtain ⟨check, cs, hc, hcs, rfl⟩ := of_onCheck ht
      split at hcs
      · rename_i status hp
        cases hcs
        exact .checks (h.checks.delete hc (by rw [Check.isOver, hp]) rfl rfl)
      · cases hcs
  | resolve k j =>
      obtain ⟨run, hk, hf⟩ := of_onRun ht
      split at hf
      · obtain ⟨run', hrun', rfl⟩ := Option.map_eq_some_iff.mp hf
        obtain ⟨ho, hresult, hstart⟩ := of_fill hrun'
        exact .slots hk ho hresult hstart
      · cases hf
  | timeout k j =>
      obtain ⟨run, hk, hf⟩ := of_onRun ht
      obtain ⟨run', hrun', rfl⟩ := Option.map_eq_some_iff.mp hf
      obtain ⟨ho, hresult, hstart⟩ := of_fill hrun'
      exact .slots hk ho hresult hstart
  | finish k now =>
      obtain ⟨run, hk, hf⟩ := of_onRun ht
      split at hf
      · rename_i hresult _
        cases hf
        exact .finished hk hresult
      · cases hf
  | clear k =>
      obtain ⟨run, hk, hf⟩ := of_onRun ht
      split at hf
      · rename_i hresult ho
        cases hf
        exact .cleared hk ho hresult
      · cases hf

/-- A run without a result is not over, and so the last. -/
theorem RunsInv.isOver_eq_false (h : RunsInv s.runs s.running s.callers)
    (hk : s.runs[k]? = some run) (hresult : run.result = none) : run.isOver = false := by
  cases ho : run.isOver with
  | false => rfl
  | true => exact absurd hresult (h.done k run hk ho)

theorem Inv.step (e : Event) (h : Inv s) (ht : step P s e = some t) : Inv t := by
  cases h.change e ht with
  | checks hcs => exact ⟨hcs, h.runs⟩
  | slots hk ho hresult hstart => exact ⟨h.checks, h.runs.go hk ho fun _ => hresult⟩
  | served => exact ⟨h.checks, h.runs.served _⟩
  | joined hrunning =>
      have hruns := h.runs
      rw [hrunning] at hruns
      refine ⟨h.checks, ?_⟩
      change RunsInv s.runs s.running _
      rw [hrunning]
      exact hruns.joined
  | started hrunning _ hcs =>
      have hruns := h.runs
      rw [hrunning] at hruns
      exact ⟨hcs, hruns.started _ _⟩
  | finished hk hresult =>
      have ho := h.runs.isOver_eq_false hk hresult
      exact ⟨h.checks, h.runs.go hk rfl fun hover => absurd (ho.symm.trans hover) Bool.noConfusion⟩
  | cleared hk ho hresult => exact ⟨h.checks, h.runs.clear hk ho hresult⟩

theorem WindowInv.step (e : Event) (h : Inv s) (hw : WindowInv P s.runs s.cached s.clock)
    (hok : Forward s e) (ht : ReadinessProbe.step P s e = some t) :
    WindowInv P t.runs t.cached t.clock := by
  cases h.change e ht with
  | checks _ => exact hw
  | slots hk _ hresult hstart => exact hw.go hk hstart hresult
  | served => exact hw.tick hok
  | joined _ => exact hw.tick hok
  | started _ hfresh _ => exact (hw.tick hok).started hfresh _
  | finished hk hresult =>
      have hrunning := h.runs.current _ _ hk (h.runs.isOver_eq_false hk hresult)
      exact hw.finish hk (h.runs.last _ hrunning).1 hok _
  | cleared hk _ _ => exact hw.go hk rfl rfl

/-- **Of any set of checks, in every state of every run: one run of the checks is in progress
at most, one check of a name at most has not settled, and a caller that waits on a run has its
result when it is over; and it can always end.  Where the clock does not go back, no run starts
in the window after a result.** -/
theorem probe_bounded (P : Options) (events : List Event) :
    (system P).Always (Bounded P) events ∧
      ((system P).Meets Forward events → (system P).Always (Windowed P) events) := by
  have hinit : Inv (system P).init := ⟨.init, .init⟩
  refine
    ⟨EventSystem.always hinit (fun _ e _ h ht => h.step e ht) (fun _ h => h.bounded) events, ?_⟩
  refine EventSystem.Meets.always
    (I := fun s => Inv s ∧ WindowInv P s.runs s.cached s.clock) ⟨hinit, .init⟩ ?_ ?_
  · rintro s e t ⟨h, hw⟩ hok ht
    exact ⟨h.step e ht, hw.step e h hok ht⟩
  · rintro s ⟨_, hw⟩
    exact hw.apart

/-! ### A check that hangs -/

/-- The checks of the app. -/
def appChecks : Options := ⟨["db", "redis"], by decide, 2000⟩

/-- A second caller joins the run, the check of redis hangs and times out, and a third caller is
served from `cached`; after the window a fourth starts a run, which does not start that check
again. -/
def hungRedis : List Event :=
  [.call 0, .invoke 0, .invoke 1, .settle 0 .ok, .delete 0, .resolve 0 0, .call 5, .timeout 0 1,
    .finish 0 2000, .clear 0, .call 2100, .call 4100]

def redisFailed : ReadinessResult := ⟨false, [("db", .ok), ("redis", .fail)]⟩

theorem probe_bounded_hungRedis : ∃ s, (system appChecks).run hungRedis = some s ∧
    Bounded appChecks s ∧ Windowed appChecks s ∧
    s.callers.map Caller.answer = [some redisFailed, some redisFailed, some redisFailed, none] ∧
    s.checks.all.map Check.name = ["db", "redis", "db"] := by
  have hrun : ((system appChecks).run hungRedis).map
      (fun s => (s.callers.map Caller.answer, s.checks.all.map Check.name)) =
        some ([some redisFailed, some redisFailed, some redisFailed, none],
          ["db", "redis", "db"]) := by
    decide +kernel
  obtain ⟨s, hs, heq⟩ := Option.map_eq_some_iff.mp hrun
  obtain ⟨hanswers, hnames⟩ := Prod.mk.inj heq
  obtain ⟨hbounded, hwindowed⟩ := probe_bounded appChecks hungRedis
  have hforward : (system appChecks).Meets Forward hungRedis :=
    EventSystem.meets_of_meetsFrom (by decide +kernel)
  exact ⟨s, hs, hbounded.last hs, (hwindowed hforward).last hs, hanswers, hnames⟩

end LakiraBackend.Process.ReadinessProbe
