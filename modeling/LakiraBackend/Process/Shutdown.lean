import LakiraBackend.Concurrency.EventSystem

/-!
# `createShutdown`

The function `createShutdown` returns, as an event system: calls of it with any exit codes,
what becomes of the steps and of the flush, and the deadline.  An event goes on to where the
code waits next, as a promise's reactions run before anything else does; only a call of
`steps` or of `flush` may call the function again in the midst of it.

The steps run once and the process exits once, with the first code there was, as long as the
steps do not call the function before they have returned their promise: it knows of a run when
`run` has returned.
-/

namespace LakiraBackend.Process.Shutdown

open LakiraBackend.Concurrency

/-- Where `finished` is. -/
inductive Finished : Type
  /-- In the midst of `steps(exitCode)`. -/
  | calling
  /-- Waiting for the promise of `steps`. -/
  | steps
  /-- Waiting for the promise of `flush`. -/
  | flush
  | done
  deriving DecidableEq, Repr

/-- Where `run` is. -/
inductive Main : Type
  /-- It has not returned: `finished` has not waited yet. -/
  | starting
  /-- Waiting for `finished` or the deadline. -/
  | racing
  /-- The deadline has passed; waiting for the last flush. -/
  | late
  | exited
  deriving DecidableEq, Repr

/-- A call of `run`, with the code it calls `steps` with. -/
structure Run : Type where
  code : Int
  finished : Finished
  main : Main
  deriving DecidableEq, Repr

/-- `contributed` is bookkeeping for the properties: the codes that came in, in order of time,
those of the calls and a 1 for each failure.  `exits` has the code of each call of `exit`, and
what had come in until then. -/
structure State : Type where
  running : Bool
  exitCode : Int
  runs : List Run
  contributed : List Int
  exits : List (Int × List Int)
  deriving DecidableEq, Repr

namespace State

variable (s : State)

/-- `exitCode = exitCode || code`. -/
def contribute (code : Int) : State :=
  { s with
    exitCode := if s.exitCode = 0 then code else s.exitCode
    contributed := s.contributed ++ [code] }

/-- A call of `steps` or `flush` is underway in a `run` that has not returned. -/
def isStarting : Bool := s.runs.any fun r => r.main = .starting

/-- No later `run` is underway inside that of `i`. -/
def isInnermost (i : Nat) : Bool := (s.runs.drop (i + 1)).all fun r => r.main ≠ .starting

def replace (i : Nat) (r : Run) : State := { s with runs := s.runs.set i r }

/-- `exit(exitCode)`. -/
def exit (i : Nat) (r : Run) : State :=
  { s.replace i { r with main := .exited } with exits := s.exits ++ [(s.exitCode, s.contributed)] }

end State

inductive Event : Type
  /-- A call of the function, with its exit code. -/
  | call (code : Int)
  /-- `steps` returns its promise. -/
  | stepsReturn (i : Nat)
  /-- `steps` throws before it has one. -/
  | stepsThrow (i : Nat)
  /-- `flush` returns its promise, after such a throw. -/
  | flushReturn (i : Nat)
  | stepsResolve (i : Nat)
  | stepsReject (i : Nat)
  /-- The promise of `flush` settles. -/
  | flushed (i : Nat)
  /-- `run` goes on after `finished`. -/
  | inTime (i : Nat)
  | deadline (i : Nat)
  /-- The last flush settles, or has had its time. -/
  | lateFlushed (i : Nat)
  deriving DecidableEq, Repr

/-- In the midst of the innermost `run`. -/
def within (s : State) (i : Nat) (f : Run → Option State) : Option State :=
  match s.runs[i]? with
  | some r => if r.main = .starting ∧ s.isInnermost i then f r else none
  | none => none

/-- Between the turns of the event loop. -/
def between (s : State) (i : Nat) (f : Run → Option State) : Option State :=
  match s.runs[i]? with
  | some r => if s.isStarting then none else f r
  | none => none

def step (s : State) : Event → Option State
  | .call code =>
    let s := s.contribute code
    if s.running then some s
    else some { s with runs := s.runs ++ [⟨s.exitCode, .calling, .starting⟩] }
  | .stepsReturn i => within s i fun r =>
    if r.finished = .calling then
      some { s.replace i { r with finished := .steps, main := .racing } with running := true }
    else none
  | .stepsThrow i => within s i fun r =>
    if r.finished = .calling then some ((s.replace i { r with finished := .flush }).contribute 1)
    else none
  | .flushReturn i => within s i fun r =>
    if r.finished = .flush then some { s.replace i { r with main := .racing } with running := true }
    else none
  | .stepsResolve i => between s i fun r =>
    if r.finished = .steps then some (s.replace i { r with finished := .flush }) else none
  | .stepsReject i => between s i fun r =>
    if r.finished = .steps then some ((s.replace i { r with finished := .flush }).contribute 1)
    else none
  | .flushed i => between s i fun r =>
    if r.finished = .flush then some (s.replace i { r with finished := .done }) else none
  | .inTime i => between s i fun r =>
    if r.main = .racing ∧ r.finished = .done then some (s.exit i r) else none
  | .deadline i => between s i fun r =>
    if r.main = .racing ∧ r.finished ≠ .done then
      some ((s.replace i { r with main := .late }).contribute 1)
    else none
  | .lateFlushed i => between s i fun r => if r.main = .late then some (s.exit i r) else none

/-- What `createShutdown` returns. -/
def system : EventSystem State Event := ⟨⟨false, 0, [], [], []⟩, step⟩

/-! ### What it promises -/

def firstNonzero (codes : List Int) : Int := (codes.find? fun code => code ≠ 0).getD 0

structure Once (s : State) : Prop where
  /-- Each run has called `steps`. -/
  steps : s.runs.length ≤ 1
  exits : s.exits.length ≤ 1
  code : ∀ e ∈ s.exits, e.1 = firstNonzero e.2

/-- The function is not called in the midst of a call of `steps`, or of the call of `flush`
after `steps` threw at once. -/
def Outside (s : State) : Event → Prop
  | .call _ => s.isStarting = false
  | _ => True

/-! ### The invariant -/

variable {s t : State} {i : Nat} {r r' : Run}

/-- One run at most; `running` is set when it has returned, and it exits once. -/
inductive Shape : Bool → List Run → List (Int × List Int) → Prop
  | idle : Shape false [] []
  | starting {r : Run} : r.main = .starting → Shape false [r] []
  | going {r : Run} : r.main = .racing ∨ r.main = .late → Shape true [r] []
  | exited {r : Run} {e : Int × List Int} : r.main = .exited → Shape true [r] [e]

structure Inv (s : State) : Prop where
  shape : Shape s.running s.runs s.exits
  exitCode : s.exitCode = firstNonzero s.contributed
  code : ∀ e ∈ s.exits, e.1 = firstNonzero e.2

theorem Shape.steps {running : Bool} {runs : List Run} {exits : List (Int × List Int)}
    (h : Shape running runs exits) : runs.length ≤ 1 := by
  cases h <;> simp

theorem Shape.exits {running : Bool} {runs : List Run} {exits : List (Int × List Int)}
    (h : Shape running runs exits) : exits.length ≤ 1 := by
  cases h <;> simp

theorem Inv.once (h : Inv s) : Once s := ⟨h.shape.steps, h.shape.exits, h.code⟩

theorem Inv.init : Inv system.init :=
  ⟨.idle, rfl, fun _ he => absurd he List.not_mem_nil⟩

theorem firstNonzero_concat (codes : List Int) (code : Int) :
    firstNonzero (codes ++ [code]) =
      if firstNonzero codes = 0 then code else firstNonzero codes := by
  unfold firstNonzero
  rw [List.find?_append]
  cases hf : codes.find? fun code => code ≠ 0 with
  | none =>
      by_cases hc : code = 0
      · simp [hc]
      · simp [hc]
  | some first =>
      have hne : first ≠ 0 := by simpa using List.find?_some hf
      simp [hne]

@[simp] theorem State.contribute_running (code : Int) :
    (s.contribute code).running = s.running := rfl

@[simp] theorem State.contribute_runs (code : Int) : (s.contribute code).runs = s.runs := rfl

@[simp] theorem State.contribute_exits (code : Int) : (s.contribute code).exits = s.exits := rfl

/-- A code comes in: the first one stays. -/
theorem Inv.contribute (h : Inv s) (code : Int) : Inv (s.contribute code) where
  shape := h.shape
  exitCode := by
    change (if s.exitCode = 0 then code else s.exitCode) = firstNonzero (s.contributed ++ [code])
    rw [firstNonzero_concat, ← h.exitCode]
  code := h.code

/-! ### Steps -/

section Shapes

variable {running : Bool} {exits : List (Int × List Int)} {e : Int × List Int}

theorem Shape.same (h : Shape running [r] exits) (hm : r'.main = r.main) :
    Shape running [r'] exits := by
  cases h with
  | starting hr => exact .starting (hm.trans hr)
  | going hr => exact .going (hm ▸ hr)
  | exited hr => exact .exited (hm.trans hr)

/-- `run` returns, and is known to be underway. -/
theorem Shape.started (h : Shape running [r] exits) (hr : r.main = .starting)
    (hr' : r'.main = .racing) : Shape true [r'] exits := by
  cases h with
  | starting _ => exact .going (Or.inl hr')
  | going hg => rcases hg with hg | hg <;> cases hr.symm.trans hg
  | exited he => cases hr.symm.trans he

theorem Shape.late (h : Shape running [r] exits) (hr : r.main = .racing)
    (hr' : r'.main = .late) : Shape running [r'] exits := by
  cases h with
  | starting hs => cases hr.symm.trans hs
  | going _ => exact .going (Or.inr hr')
  | exited he => cases hr.symm.trans he

/-- `exit` is called for the first time. -/
theorem Shape.exit (h : Shape running [r] exits) (hr : r.main = .racing ∨ r.main = .late)
    (hr' : r'.main = .exited) : Shape running [r'] (exits ++ [e]) := by
  cases h with
  | starting hs => rcases hr with hr | hr <;> cases hr.symm.trans hs
  | going _ => exact .exited hr'
  | exited he => rcases hr with hr | hr <;> cases hr.symm.trans he

end Shapes

/-- The run is the only one there is. -/
theorem Inv.alone (h : Inv s) (hi : s.runs[i]? = some r) (r' : Run) :
    Shape s.running [r] s.exits ∧ s.runs.set i r' = [r'] := by
  have hlen := h.shape.steps
  obtain ⟨hlt, hget⟩ := List.getElem?_eq_some_iff.mp hi
  have hruns : s.runs = [r] := by
    obtain ⟨a, ha⟩ := List.length_eq_one_iff.mp (by omega : s.runs.length = 1)
    rw [ha] at hi ⊢
    have hi0 : i = 0 := by
      rw [ha, List.length_singleton] at hlt
      omega
    subst hi0
    exact congrArg (fun x => [x]) (Option.some.inj hi)
  have hi0 : i = 0 := by
    rw [hruns, List.length_singleton] at hlt
    omega
  refine ⟨hruns ▸ h.shape, ?_⟩
  rw [hruns, hi0, List.set_cons_zero]

/-- The run goes on, and does not end. -/
theorem Inv.replace (h : Inv s) (hi : s.runs[i]? = some r) (hm : r'.main = r.main) :
    Inv (s.replace i r') where
  shape := by
    obtain ⟨hshape, hset⟩ := h.alone hi r'
    change Shape s.running (s.runs.set i r') s.exits
    rw [hset]
    exact hshape.same hm
  exitCode := h.exitCode
  code := h.code

theorem Inv.started (h : Inv s) (hi : s.runs[i]? = some r) (hr : r.main = .starting)
    (hr' : r'.main = .racing) : Inv { s.replace i r' with running := true } where
  shape := by
    obtain ⟨hshape, hset⟩ := h.alone hi r'
    change Shape true (s.runs.set i r') s.exits
    rw [hset]
    exact hshape.started hr hr'
  exitCode := h.exitCode
  code := h.code

theorem Inv.late (h : Inv s) (hi : s.runs[i]? = some r) (hr : r.main = .racing)
    (hr' : r'.main = .late) : Inv (s.replace i r') where
  shape := by
    obtain ⟨hshape, hset⟩ := h.alone hi r'
    change Shape s.running (s.runs.set i r') s.exits
    rw [hset]
    exact hshape.late hr hr'
  exitCode := h.exitCode
  code := h.code

/-- The code of `exit` is the first that came in. -/
theorem Inv.exit (h : Inv s) (hi : s.runs[i]? = some r) (hr : r.main = .racing ∨ r.main = .late) :
    Inv (s.exit i r) where
  shape := by
    obtain ⟨hshape, hset⟩ := h.alone hi { r with main := .exited }
    change Shape s.running (s.runs.set i { r with main := .exited })
      (s.exits ++ [(s.exitCode, s.contributed)])
    rw [hset]
    exact hshape.exit hr rfl
  exitCode := h.exitCode
  code := by
    intro e he
    rcases List.mem_append.mp he with he | he
    · exact h.code e he
    · obtain rfl := List.mem_singleton.mp he
      exact h.exitCode

theorem of_within {f : Run → Option State} (h : within s i f = some t) :
    ∃ r, s.runs[i]? = some r ∧ r.main = .starting ∧ f r = some t := by
  unfold within at h
  split at h
  · rename_i r hi
    split at h
    · rename_i hguard
      exact ⟨r, hi, hguard.1, h⟩
    · cases h
  · cases h

theorem of_between {f : Run → Option State} (h : between s i f = some t) :
    ∃ r, s.runs[i]? = some r ∧ f r = some t := by
  unfold between at h
  split at h
  · rename_i r hi
    split at h
    · cases h
    · exact ⟨r, hi, h⟩
  · cases h

/-- A call joins the run there is, or begins one. -/
theorem Inv.call (h : Inv s) (code : Int) (hok : s.isStarting = false)
    (ht : step s (.call code) = some t) : Inv t := by
  have hc := h.contribute code
  simp only [step] at ht
  split at ht
  · cases ht
    exact hc
  · rename_i hrunning
    cases ht
    refine ⟨?_, hc.exitCode, hc.code⟩
    have hshape := h.shape
    change Shape s.running (s.runs ++ [_]) s.exits
    change ¬ s.running = true at hrunning
    unfold State.isStarting at hok
    generalize s.running = running at hshape hrunning ⊢
    generalize s.runs = runs at hshape hok ⊢
    generalize s.exits = exits at hshape ⊢
    cases hshape with
    | idle => exact .starting rfl
    | starting hs => simp [hs] at hok
    | going _ => exact absurd rfl hrunning
    | exited _ => exact absurd rfl hrunning

theorem Inv.step (e : Event) (h : Inv s) (hok : Outside s e) (ht : step s e = some t) : Inv t := by
  cases e with
  | call code => exact h.call code hok ht
  | stepsReturn i =>
      obtain ⟨r, hi, hr, hf⟩ := of_within ht
      split at hf
      · cases hf
        exact h.started hi hr rfl
      · cases hf
  | stepsThrow i =>
      obtain ⟨r, hi, _, hf⟩ := of_within ht
      split at hf
      · cases hf
        refine Inv.contribute (h.replace hi ?_) 1
        rfl
      · cases hf
  | flushReturn i =>
      obtain ⟨r, hi, hr, hf⟩ := of_within ht
      split at hf
      · cases hf
        exact h.started hi hr rfl
      · cases hf
  | stepsResolve i =>
      obtain ⟨r, hi, hf⟩ := of_between ht
      split at hf
      · cases hf
        exact h.replace hi rfl
      · cases hf
  | stepsReject i =>
      obtain ⟨r, hi, hf⟩ := of_between ht
      split at hf
      · cases hf
        refine Inv.contribute (h.replace hi ?_) 1
        rfl
      · cases hf
  | flushed i =>
      obtain ⟨r, hi, hf⟩ := of_between ht
      split at hf
      · cases hf
        exact h.replace hi rfl
      · cases hf
  | inTime i =>
      obtain ⟨r, hi, hf⟩ := of_between ht
      split at hf
      · rename_i hguard
        cases hf
        exact h.exit hi (Or.inl hguard.1)
      · cases hf
  | deadline i =>
      obtain ⟨r, hi, hf⟩ := of_between ht
      split at hf
      · rename_i hguard
        cases hf
        exact (h.late hi hguard.1 rfl).contribute 1
      · cases hf
  | lateFlushed i =>
      obtain ⟨r, hi, hf⟩ := of_between ht
      split at hf
      · rename_i hguard
        cases hf
        exact h.exit hi (Or.inr hguard)
      · cases hf

/-- A call in the midst of a run that has not returned begins another. -/
theorem Inv.outside (e : Event) (h : Inv s) (ht : Shutdown.step s e = some t) (hO : Once t) :
    Outside s e := by
  cases e with
  | call code =>
      have hshape := h.shape
      have hsteps := hO.steps
      simp only [Shutdown.step] at ht
      change s.isStarting = false
      unfold State.isStarting
      split at ht
      · rename_i hrunning
        change s.running = true at hrunning
        generalize s.runs = runs at hshape ⊢
        rw [hrunning] at hshape
        generalize s.exits = exits at hshape
        cases hshape with
        | going hg => rcases hg with hg | hg <;> simp [hg]
        | exited he => simp [he]
      · cases ht
        change (s.runs ++ [_]).length ≤ 1 at hsteps
        have hnil : s.runs = [] := by
          rw [List.length_append, List.length_singleton] at hsteps
          exact List.length_eq_zero_iff.mp (by omega)
        rw [hnil]
        rfl
  | _ => trivial

/-- **The steps are called once at most, `exit` is called once at most, and with the first
nonzero code that came in before, in every state of exactly those runs in which no call is
made in the midst of a `run` that has not returned.** -/
theorem once_iff_outside (events : List Event) :
    system.Always Once events ↔ system.Meets Outside events :=
  EventSystem.always_iff_meets Inv.init (fun _ e _ h hok ht => h.step e hok ht)
    (fun _ h => h.once) (fun _ e _ h ht hO => h.outside e ht hO) events

/-! ### Steps that call it -/

/-- A signal comes in, and `steps` raises it once more before it waits for anything. -/
def raisedInside : List Event :=
  [.call 0, .call 0, .stepsReturn 1, .stepsReturn 0, .stepsResolve 1, .flushed 1, .inTime 1,
    .stepsResolve 0, .flushed 0, .inTime 0]

/-- The steps are called twice, and `exit` is. -/
theorem raisedInside_runs_twice : ¬ system.Always Once raisedInside := by
  intro h
  have hs : ∃ s, system.run raisedInside = some s ∧ s.runs.length = 2 ∧ s.exits.length = 2 :=
    ⟨_, rfl, rfl, rfl⟩
  obtain ⟨s, hs, hruns, _⟩ := hs
  have hsteps := (h.last hs).steps
  omega

end LakiraBackend.Process.Shutdown
