import LakiraBackend.Queue.ConsumerLifecycle

/-!
# The channels of a consumer

The invariant of `ConsumerLifecycle` and what keeps it while channels come, go on and are lost.
Only the last channel is ever open, a consumer on it is there for `cancel` to find or is being
cancelled (`Inv.consuming`), and a setup that may still consume was pending when `cancel`
returned (`Inv.pending`).  `Channel.Next` says what an event may make of one channel
(`Inv.setChannel`).
-/

namespace LakiraBackend.Queue.ConsumerLifecycle

open LakiraBackend.Concurrency

/-! ### The invariant -/

variable {s : State} {i : Nat} {ch ch' : Channel} {c : Call} {stopping : Bool}

/-- It is not closed, or `setup` has yet to go on with it. -/
def Channel.Current (ch : Channel) : Prop := ch.status ≠ .closed ∨ ch.setup.isConsumed = true

/-- It gets no delivery, and has no consumer by and by. -/
def Channel.Quiet (ch : Channel) : Prop := ch.callback = false ∧ ch.setup.isUnderway = false

/-- The consumer of the channel is there and `setup` is over. -/
def Channel.Consuming (ch : Channel) : Prop :=
  ch.status ≠ .closed ∧ ch.registered = true ∧ ch.setup = .finished

structure Channel.Shape (ch : Channel) : Prop where
  early : ch.setup.isEarly = true → ch.registered = false
  closed : ch.status = .closed → ch.registered = false ∧
    (ch.setup = .finished ∨ ch.setup.isConsumed = true)
  consumed : ∀ tag, ch.setup = .consumed tag → tag ≠ "" ∧ ch.status ≠ .closing
  cancel : ch.cancel ≠ .none → ch.setup = .cancelling ∨ ch.setup = .finished
  handled : ch.cancel = .handled → ch.registered = false

/-- What `cancel` finds: the consumer of the channel. -/
def State.Holds (s : State) (i : Nat) : Prop :=
  s.stopping = false ∧ s.consumerChannel = some i ∧ ∃ tag, s.consumerTag = some tag ∧ tag ≠ ""

structure Inv (s : State) : Prop where
  shape : ∀ ch ∈ s.channels, ch.Shape
  /-- Only the last channel is current. -/
  last : ∀ i ch, s.channels[i]? = some ch → ch.Current → i + 1 = s.channels.length
  closing : ∀ ch ∈ s.channels, ch.status = .closing → s.stopping = true
  called : s.stopping = false → s.calls = []
  taken : s.stopping = true → s.consumerChannel = none
  held : ∀ i, s.consumerChannel = some i → ∃ ch, s.channels[i]? = some ch ∧ ch.setup = .finished
  /-- A consumer is there for `cancel` to find, or a call waits for its cancellation. -/
  consuming : ∀ i ch, s.channels[i]? = some ch → ch.Consuming →
    s.Holds i ∨ ∃ c ∈ s.calls, c.phase = .cancelling i
  /-- Only the first call waits. -/
  first : ∀ k c i, s.calls[k]? = some c → c.phase = .cancelling i → k = 0 ∧
    ∃ ch, s.channels[i]? = some ch ∧ ch.setup = .finished
  pending : ∀ c ∈ s.calls, c.phase.isCancelling = false → ∀ i ch, s.channels[i]? = some ch →
    ch.setup.isUnderway = true → i ∈ c.pending
  /-- What one call waits for has happened, if another one has not waited. -/
  alone : ∀ c ∈ s.calls, c.phase.isCancelling = false → ∀ d ∈ s.calls, ∀ i,
    d.phase = .cancelling i → ∀ ch, s.channels[i]? = some ch → ch.status ≠ .closed →
    ch.registered = false
  counted : s.inFlight = s.unsettled
  drained : ∀ c ∈ s.calls, c.close = true →
    c.phase = .drained ∨ c.phase = .closing ∨ c.phase = .returned → c.timedOut = false →
    s.unsettled = 0
  deaf : ∀ c ∈ s.calls, c.close = true → c.phase = .closing ∨ c.phase = .returned →
    ∀ ch ∈ s.channels, ch.status = .opened → ch.Quiet

/-- **Nothing consumes once `cancel` has returned.** -/
theorem Inv.unregistered (h : Inv s) (hc : c ∈ s.calls) (hcancel : c.phase.isCancelling = false)
    (hpending : ∀ i ∈ c.pending, ∀ ch, s.channels[i]? = some ch → ch.setup = .finished)
    (hi : s.channels[i]? = some ch) (hch : ch.status ≠ .closed) : ch.registered = false := by
  have hmem : ch ∈ s.channels := List.mem_of_getElem? hi
  by_contra hregistered
  rw [Bool.not_eq_false] at hregistered
  by_cases hfinished : ch.setup = .finished
  · rcases h.consuming i ch hi ⟨hch, hregistered, hfinished⟩ with hholds | ⟨d, hd, hdi⟩
    · rw [h.called hholds.1] at hc
      cases hc
    · rw [h.alone c hc hcancel d hd i hdi ch hi hch] at hregistered
      cases hregistered
  · cases hunderway : ch.setup.isUnderway with
    | true => exact hfinished (hpending i (h.pending c hc hcancel i ch hi hunderway) ch hi)
    | false =>
        have hearly : ch.setup.isEarly = true := by
          cases hs : ch.setup <;> simp_all [Setup.isUnderway, Setup.isEarly]
        rw [(h.shape ch hmem).early hearly] at hregistered
        cases hregistered

theorem Inv.stops (h : Inv s) : Stops s where
  cancelled := by
    intro c hc hcancel hpending ch hch hstatus
    obtain ⟨i, hi⟩ := List.mem_iff_getElem?.mp hch
    exact h.unregistered hc hcancel hpending hi hstatus
  drained := fun c hc hclose hreturned htime =>
    h.drained c hc hclose (Or.inr (Or.inr hreturned)) htime
  counted := h.counted
  nonneg := by
    rw [h.counted]
    exact Int.natCast_nonneg _

theorem Inv.init : Inv system.init := by
  constructor <;> simp [system, State.unsettled]

/-! ### A channel changes -/

/-- What an event makes of a channel. -/
structure Channel.Next (stopping : Bool) (ch ch' : Channel) : Prop where
  shape : ch'.Shape
  current : ch'.Current → ch.Current
  closing : ch'.status = .closing → ch.status = .closing ∨ stopping = true
  finished : ch.setup = .finished → ch'.setup = .finished
  underway : ch'.setup.isUnderway = true → ch.setup.isUnderway = true ∨ stopping = false
  consuming : ch'.Consuming → ch.Consuming
  quiet : stopping = true → (ch.status = .opened → ch.Quiet) → ch'.status = .opened → ch'.Quiet

theorem Inv.stopping_of_mem (h : Inv s) (hc : c ∈ s.calls) : s.stopping = true := by
  cases hs : s.stopping with
  | true => rfl
  | false =>
      rw [h.called hs] at hc
      cases hc

theorem Channel.Next.refl (h : ch.Shape) : ch.Next stopping ch where
  shape := h
  current := fun hcurrent => hcurrent
  closing := fun hclosing => Or.inl hclosing
  finished := fun hfinished => hfinished
  underway := fun hunderway => Or.inl hunderway
  consuming := fun hconsuming => hconsuming
  quiet := fun _ hquiet hopened => hquiet hopened

/-- Channels go on, and the rest stays. -/
theorem Inv.withChannels {l : List Channel} (h : Inv s) (hlen : l.length = s.channels.length)
    (hnext : ∀ (i : Nat) (ch ch' : Channel), s.channels[i]? = some ch → l[i]? = some ch' →
      ch.Next s.stopping ch') : Inv { s with channels := l } := by
  have back : ∀ {i : Nat} {ch' : Channel}, l[i]? = some ch' →
      ∃ ch, s.channels[i]? = some ch ∧ ch.Next s.stopping ch' := by
    intro i ch' hi
    have hlt : i < s.channels.length := hlen ▸ (List.getElem?_eq_some_iff.mp hi).1
    exact ⟨_, List.getElem?_eq_getElem hlt, hnext i _ ch' (List.getElem?_eq_getElem hlt) hi⟩
  have back_mem : ∀ {ch' : Channel}, ch' ∈ l → ∃ ch ∈ s.channels, ch.Next s.stopping ch' := by
    intro ch' hch'
    obtain ⟨i, hi⟩ := List.mem_iff_getElem?.mp hch'
    obtain ⟨ch, hch, hn⟩ := back hi
    exact ⟨ch, List.mem_of_getElem? hch, hn⟩
  have finished : ∀ {i : Nat} {ch : Channel}, s.channels[i]? = some ch → ch.setup = .finished →
      ∃ ch', l[i]? = some ch' ∧ ch'.setup = .finished := by
    intro i ch hi hfinished
    have hlt : i < l.length := hlen.symm ▸ (List.getElem?_eq_some_iff.mp hi).1
    exact ⟨_, List.getElem?_eq_getElem hlt,
      (hnext i ch _ hi (List.getElem?_eq_getElem hlt)).finished hfinished⟩
  constructor
  case shape =>
    intro ch' hch'
    obtain ⟨ch, _, hn⟩ := back_mem hch'
    exact hn.shape
  case last =>
    intro i ch' hi hcurrent
    obtain ⟨ch, hch, hn⟩ := back hi
    exact (h.last i ch hch (hn.current hcurrent)).trans hlen.symm
  case closing =>
    intro ch' hch' hclosing
    obtain ⟨ch, hch, hn⟩ := back_mem hch'
    rcases hn.closing hclosing with hclosing | hstopping
    · exact h.closing ch hch hclosing
    · exact hstopping
  case called => exact h.called
  case taken => exact h.taken
  case held =>
    intro i hi
    obtain ⟨ch, hch, hfinished⟩ := h.held i hi
    exact finished hch hfinished
  case consuming =>
    intro i ch' hi hconsuming
    obtain ⟨ch, hch, hn⟩ := back hi
    exact h.consuming i ch hch (hn.consuming hconsuming)
  case first =>
    intro k c i hk hc
    obtain ⟨hk0, ch, hch, hfinished⟩ := h.first k c i hk hc
    exact ⟨hk0, finished hch hfinished⟩
  case pending =>
    intro c hc hcancel i ch' hi hunderway
    obtain ⟨ch, hch, hn⟩ := back hi
    rcases hn.underway hunderway with hunderway | hstopping
    · exact h.pending c hc hcancel i ch hch hunderway
    · rw [h.stopping_of_mem hc] at hstopping
      cases hstopping
  case alone =>
    intro c hc hcancel d hd i hwait ch' hi hopen
    obtain ⟨ch, hch, hn⟩ := back hi
    obtain ⟨k, hk⟩ := List.mem_iff_getElem?.mp hd
    obtain ⟨_, ch₀, hch₀, hfinished⟩ := h.first k d i hk hwait
    obtain rfl := Option.some.inj (hch.symm.trans hch₀)
    by_contra hregistered
    rw [Bool.not_eq_false] at hregistered
    obtain ⟨hstatus, hregistered, _⟩ := hn.consuming ⟨hopen, hregistered, hn.finished hfinished⟩
    rw [h.alone c hc hcancel d hd i hwait ch hch hstatus] at hregistered
    cases hregistered
  case counted => exact h.counted
  case drained => exact h.drained
  case deaf =>
    intro c hc hclose hphase ch' hch'
    obtain ⟨ch, hch, hn⟩ := back_mem hch'
    exact hn.quiet (h.stopping_of_mem hc) (h.deaf c hc hclose hphase ch hch)

theorem Inv.setChannel (h : Inv s) (hi : s.channels[i]? = some ch)
    (hn : ch.Next s.stopping ch') : Inv (s.setChannel i ch') := by
  refine h.withChannels List.length_set fun j d d' hj hj' => ?_
  rcases of_getElem?_set hi hj' with ⟨rfl, rfl⟩ | ⟨_, hj'⟩
  · obtain rfl := Option.some.inj (hi.symm.trans hj)
    exact hn
  · obtain rfl := Option.some.inj (hj.symm.trans hj')
    exact .refl (h.shape d (List.mem_of_getElem? hj))

/-! ### What the events make of a channel -/

/-- A setup that has begun with its consumer goes on. -/
theorem Channel.Next.of_underway (hunderway : ch.setup.isUnderway = true)
    (hopen : ch.status ≠ .closed) (hstatus : ch'.status = ch.status) (hshape : ch'.Shape)
    (hregistered : ch'.registered = true → ch'.setup ≠ .finished) : ch.Next stopping ch' where
  shape := hshape
  current := fun _ => Or.inl hopen
  closing := fun hclosing => Or.inl (hstatus.symm.trans hclosing)
  finished := by
    intro hfinished
    rw [hfinished] at hunderway
    cases hunderway
  underway := fun _ => Or.inl hunderway
  consuming := fun hconsuming => absurd hconsuming.2.2 (hregistered hconsuming.2.1)
  quiet := by
    intro _ hquiet hopened
    have hno := (hquiet (hstatus.symm.trans hopened)).2
    rw [hno] at hunderway
    cases hunderway

/-- The broker or the client ends the consumer, and the setup stays where it is. -/
theorem Channel.Next.of_setup_eq (hsetup : ch'.setup = ch.setup) (hstatus : ch'.status = ch.status)
    (hshape : ch'.Shape) (hregistered : ch'.registered = true → ch.registered = true)
    (hcallback : ch.callback = false → ch'.callback = false) : ch.Next stopping ch' where
  shape := hshape
  current := by
    intro hcurrent
    rw [Channel.Current, hsetup, hstatus] at hcurrent
    exact hcurrent
  closing := fun hclosing => Or.inl (hstatus.symm.trans hclosing)
  finished := fun hfinished => hsetup.trans hfinished
  underway := by
    intro hunderway
    rw [hsetup] at hunderway
    exact Or.inl hunderway
  consuming := by
    rintro ⟨hopen, hreg, hfinished⟩
    exact ⟨fun hclosed => hopen (hstatus.trans hclosed), hregistered hreg,
      hsetup.symm.trans hfinished⟩
  quiet := by
    intro _ hquiet hopened
    obtain ⟨hno, hunderway⟩ := hquiet (hstatus.symm.trans hopened)
    exact ⟨hcallback hno, by rw [hsetup]; exact hunderway⟩

theorem Channel.Shape.cancel_eq_none (h : ch.Shape) (hcancelling : ch.setup ≠ .cancelling)
    (hfinished : ch.setup ≠ .finished) : ch.cancel = .none := by
  by_contra hcancel
  rcases h.cancel hcancel with hs | hs
  · exact hcancelling hs
  · exact hfinished hs

/-- `setup` goes on to its next wait, or has its reply. -/
theorem Channel.Shape.replace {setup : Setup} {registered callback : Bool} (h : ch.Shape)
    (hopen : ch.status ≠ .closed) (hcancelling : ch.setup ≠ .cancelling)
    (hfinished : ch.setup ≠ .finished) (hearly : setup.isEarly = true → registered = false)
    (hconsumed : ∀ tag, setup = .consumed tag → tag ≠ "" ∧ ch.status ≠ .closing) :
    Shape { ch with setup, registered, callback } where
  early := hearly
  closed := fun hclosed => absurd hclosed hopen
  consumed := hconsumed
  cancel := fun hcancel => absurd (h.cancel_eq_none hcancelling hfinished) hcancel
  handled := by
    intro hhandled
    have hnone := h.cancel_eq_none hcancelling hfinished
    cases hnone.symm.trans hhandled

theorem Channel.Shape.topologyAsserted (h : ch.Shape) (hopened : ch.status = .opened)
    (hs : ch.setup = .topology) :
    ch.Next stopping { ch with setup := if stopping then .finished else .prefetch } where
  shape := by
    have hopen : ch.status ≠ .closed := by rw [hopened]; decide
    have hr : ch.registered = false := h.early (by rw [hs]; rfl)
    refine h.replace hopen (by rw [hs]; decide) (by rw [hs]; decide) (fun _ => hr) ?_
    intro tag htag
    cases stopping <;> cases htag
  current := fun _ => Or.inl (by rw [hopened]; decide)
  closing := fun hclosing => Or.inl hclosing
  finished := by
    intro hfinished
    cases hs.symm.trans hfinished
  underway := by
    intro hunderway
    cases stopping with
    | false => exact Or.inr rfl
    | true => cases hunderway
  consuming := by
    intro hconsuming
    have hr : ch.registered = false := h.early (by rw [hs]; rfl)
    cases hr.symm.trans hconsuming.2.1
  quiet := by
    intro hstopping hquiet hopened
    subst hstopping
    exact ⟨(hquiet hopened).1, rfl⟩

theorem Channel.Shape.prefetched (h : ch.Shape) (hopened : ch.status = .opened)
    (hs : ch.setup = .prefetch) : ch.Next stopping { ch with setup := .consume } := by
  have hopen : ch.status ≠ .closed := by rw [hopened]; decide
  refine .of_underway (by rw [hs]; rfl) hopen rfl ?_ fun _ hf => by cases hf
  refine h.replace hopen (by rw [hs]; decide) (by rw [hs]; decide) ?_ fun tag htag => by cases htag
  exact fun _ => h.early (by rw [hs]; rfl)

theorem Channel.Shape.brokerRegisters (h : ch.Shape) (hopen : ch.status ≠ .closed)
    (hs : ch.setup = .consume) :
    ch.Next stopping { ch with setup := .registering, registered := true } := by
  refine .of_underway (by rw [hs]; rfl) hopen rfl ?_ fun _ hf => by cases hf
  refine h.replace hopen (by rw [hs]; decide) (by rw [hs]; decide) ?_ fun tag htag => by cases htag
  intro hearly
  cases hearly

theorem Channel.Shape.consumeOk {tag : String} (h : ch.Shape) (hopened : ch.status = .opened)
    (hs : ch.setup = .registering) (htag : tag ≠ "") :
    ch.Next stopping { ch with setup := .consumed tag, callback := true } := by
  have hopen : ch.status ≠ .closed := by rw [hopened]; decide
  refine .of_underway (by rw [hs]; rfl) hopen rfl ?_ ?_
  · refine h.replace hopen (by rw [hs]; decide) (by rw [hs]; decide) ?_ ?_
    · intro hearly
      cases hearly
    · intro tag' htag'
      obtain rfl := Setup.consumed.inj htag'
      exact ⟨htag, by rw [hopened]; decide⟩
  · intro _ hfinished
    cases hfinished

/-- `setup` cancels its own consumer. -/
theorem Channel.Shape.setupCancels {tag : String} (hopened : ch.status = .opened)
    (hs : ch.setup = .consumed tag) :
    ch.Next stopping { ch with setup := .cancelling, cancel := .sent } := by
  have hopen : ch.status ≠ .closed := by rw [hopened]; decide
  refine .of_underway (by rw [hs]; rfl) hopen rfl ?_ fun _ hf => by cases hf
  constructor
  · intro hearly
    cases hearly
  · intro hclosed
    exact absurd hclosed hopen
  · intro tag' htag'
    cases htag'
  · intro _
    exact Or.inl rfl
  · intro hhandled
    cases hhandled

/-- `setup` returns, or fails. -/
theorem Channel.Shape.finish (h : ch.Shape) : Shape { ch with setup := .finished } where
  early := by
    intro hearly
    cases hearly
  closed := fun hclosed => ⟨(h.closed hclosed).1, Or.inl rfl⟩
  consumed := by
    intro tag htag
    cases htag
  cancel := fun _ => Or.inr rfl
  handled := h.handled

/-- `setup` goes on with a channel that is lost. -/
theorem Channel.Shape.setupFails {tag : String} (h : ch.Shape) (hopened : ch.status ≠ .opened)
    (hs : ch.setup = .consumed tag) : ch.Next stopping { ch with setup := .finished } := by
  have hclosed : ch.status = .closed := by
    have hclosing := (h.consumed tag hs).2
    cases hstatus : ch.status with
    | opened => exact absurd hstatus hopened
    | closing => exact absurd hstatus hclosing
    | closed => rfl
  have hr : ch.registered = false := (h.closed hclosed).1
  refine ⟨h.finish, ?_, ?_, ?_, ?_, ?_, ?_⟩
  · exact fun _ => Or.inr (by rw [hs]; rfl)
  · exact fun hclosing => Or.inl hclosing
  · exact fun _ => rfl
  · intro hunderway
    cases hunderway
  · intro hconsuming
    cases hr.symm.trans hconsuming.2.1
  · intro _ _ ho
    exact absurd ho hopened

/-- Of the consumer's flags only fall. -/
theorem Channel.Shape.fall {registered callback : Bool} {cancel : Cancel} (h : ch.Shape)
    (hregistered : registered = true → ch.registered = true)
    (hcallback : ch.callback = false → callback = false)
    (hcancel : cancel ≠ .none → ch.setup = .cancelling ∨ ch.setup = .finished)
    (hhandled : cancel = .handled → registered = false) :
    ch.Next stopping { ch with registered, callback, cancel } := by
  have hr : ch.registered = false → registered = false := by
    intro hfalse
    rw [← Bool.not_eq_true] at hfalse ⊢
    exact fun htrue => hfalse (hregistered htrue)
  refine .of_setup_eq rfl rfl ⟨?_, ?_, h.consumed, hcancel, hhandled⟩ hregistered hcallback
  · exact fun hearly => hr (h.early hearly)
  · exact fun hclosed => ⟨hr (h.closed hclosed).1, (h.closed hclosed).2⟩

theorem Channel.Shape.brokerHandlesCancel (h : ch.Shape) (hsent : ch.cancel = .sent) :
    ch.Next stopping { ch with registered := false, cancel := .handled } := by
  refine h.fall (fun hr => by cases hr) (fun hc => hc) ?_ fun _ => rfl
  exact fun _ => h.cancel (by rw [hsent]; decide)

theorem Channel.Shape.cancelOk (h : ch.Shape) (hopened : ch.status = .opened)
    (hhandled : ch.cancel = .handled) :
    ch.Next stopping
      { ch with
        setup := if ch.setup = .cancelling then .finished else ch.setup
        callback := false
        cancel := .none } := by
  have hr : ch.registered = false := h.handled hhandled
  have hopen : ch.status ≠ .closed := by rw [hopened]; decide
  by_cases hs : ch.setup = .cancelling
  · rw [if_pos hs]
    refine .of_underway (by rw [hs]; rfl) hopen rfl ?_ fun htrue => by cases hr.symm.trans htrue
    refine ⟨fun _ => hr, fun hclosed => absurd hclosed hopen, ?_, ?_, fun _ => hr⟩
    · intro tag htag
      cases htag
    · exact fun _ => Or.inr rfl
  · rw [if_neg hs]
    refine h.fall (fun htrue => htrue) (fun _ => rfl) ?_ fun _ => hr
    exact fun hnone => absurd rfl hnone

theorem Channel.Shape.lost (h : ch.Shape) (hopen : ch.status ≠ .closed) :
    ch.Next stopping ch.lost where
  shape := by
    refine ⟨fun _ => rfl, fun _ => ⟨rfl, ?_⟩, ?_, fun hcancel => absurd rfl hcancel, fun _ => rfl⟩
    · cases hs : ch.setup.isConsumed <;> simp [Channel.lost, hs]
    · intro tag htag
      refine ⟨?_, by simp [Channel.lost]⟩
      cases hs : ch.setup.isConsumed with
      | false => simp [Channel.lost, hs] at htag
      | true =>
          simp only [Channel.lost, hs, if_true] at htag
          exact (h.consumed tag htag).1
  current := fun _ => Or.inl hopen
  closing := by
    intro hclosing
    cases hclosing
  finished := by
    intro hfinished
    simp [Channel.lost, hfinished]
  underway := by
    intro hunderway
    left
    cases hs : ch.setup.isConsumed with
    | false => simp [Channel.lost, hs, Setup.isUnderway] at hunderway
    | true =>
        simp only [Channel.lost, hs, if_true] at hunderway
        exact hunderway
  consuming := fun hconsuming => absurd rfl hconsuming.1
  quiet := by
    intro _ _ hopened
    cases hopened

/-! ### Channels and fields -/

theorem Inv.connect (h : Inv s)
    (hall : (s.channels.all fun ch => ch.status = .closed ∧ ch.setup.isConsumed = false) = true) :
    Inv { s with channels := s.channels ++ [⟨.opened, .topology, false, false, .none⟩] } where
  shape := by
    intro ch hch
    rcases List.mem_append.mp hch with hch | hch
    · exact h.shape ch hch
    · obtain rfl := List.mem_singleton.mp hch
      constructor <;> simp
  last := by
    intro i ch hi hcurrent
    rw [List.length_append, List.length_singleton]
    rcases of_getElem?_concat hi with hi | ⟨rfl, _⟩
    · have hgone := List.all_eq_true.mp hall ch (List.mem_of_getElem? hi)
      rw [decide_eq_true_eq] at hgone
      rcases hcurrent with hopen | hconsumed
      · exact absurd hgone.1 hopen
      · cases hgone.2.symm.trans hconsumed
    · rfl
  closing := by
    intro ch hch hclosing
    rcases List.mem_append.mp hch with hch | hch
    · exact h.closing ch hch hclosing
    · obtain rfl := List.mem_singleton.mp hch
      cases hclosing
  called := h.called
  taken := h.taken
  held := by
    intro i hi
    obtain ⟨ch, hch, hfinished⟩ := h.held i hi
    exact ⟨ch, getElem?_concat_of_some hch _, hfinished⟩
  consuming := by
    intro i ch hi hconsuming
    rcases of_getElem?_concat hi with hi | ⟨_, rfl⟩
    · exact h.consuming i ch hi hconsuming
    · cases hconsuming.2.1
  first := by
    intro k c i hk hc
    obtain ⟨hk0, ch, hch, hfinished⟩ := h.first k c i hk hc
    exact ⟨hk0, ch, getElem?_concat_of_some hch _, hfinished⟩
  pending := by
    intro c hc hcancel i ch hi hunderway
    rcases of_getElem?_concat hi with hi | ⟨_, rfl⟩
    · exact h.pending c hc hcancel i ch hi hunderway
    · cases hunderway
  alone := by
    intro c hc hcancel d hd i hdi ch hi hopen
    rcases of_getElem?_concat hi with hi | ⟨_, rfl⟩
    · exact h.alone c hc hcancel d hd i hdi ch hi hopen
    · rfl
  counted := h.counted
  drained := h.drained
  deaf := by
    intro c hc hclose hphase ch hch hopened
    rcases List.mem_append.mp hch with hch | hch
    · exact h.deaf c hc hclose hphase ch hch hopened
    · obtain rfl := List.mem_singleton.mp hch
      exact ⟨rfl, rfl⟩

/-- `setup` leaves its consumer for `cancel` to find. -/
theorem Inv.setupRegisters {tag : String} (h : Inv s) (hi : s.channels[i]? = some ch)
    (hs : ch.setup = .consumed tag) (hstopping : s.stopping = false) :
    Inv
      { s.setChannel i { ch with setup := .finished } with
        consumerChannel := some i
        consumerTag := some tag } := by
  have hcalls : s.calls = [] := h.called hstopping
  have hshape := h.shape ch (List.mem_of_getElem? hi)
  have hlast : i + 1 = s.channels.length := h.last i ch hi (Or.inr (by rw [hs]; rfl))
  have none_of {d : Call} (hd : d ∈ s.calls) : False := by
    rw [hcalls] at hd
    cases hd
  constructor
  case shape =>
    intro d hd
    rcases List.mem_or_eq_of_mem_set hd with hd | rfl
    · exact h.shape d hd
    · exact hshape.finish
  case last =>
    intro j d hj hd
    change j + 1 = (s.channels.set i _).length
    rw [List.length_set]
    rcases of_getElem?_set hi hj with ⟨rfl, _⟩ | ⟨_, hj⟩
    · exact hlast
    · exact h.last j d hj hd
  case closing =>
    intro d hd hclosing
    rcases List.mem_or_eq_of_mem_set hd with hd | rfl
    · exact h.closing d hd hclosing
    · exact h.closing ch (List.mem_of_getElem? hi) hclosing
  case called => exact fun _ => hcalls
  case taken =>
    intro hstop
    cases hstopping.symm.trans hstop
  case held =>
    intro j hj
    obtain rfl := Option.some.inj hj
    exact ⟨_, (getElem?_set_of_some hi _ i).trans (if_pos rfl), rfl⟩
  case consuming =>
    intro j d hj hd
    rcases of_getElem?_set hi hj with ⟨rfl, _⟩ | ⟨hji, hj⟩
    · exact Or.inl ⟨hstopping, rfl, tag, rfl, (hshape.consumed tag hs).1⟩
    · have := h.last j d hj (Or.inl hd.1)
      omega
  case first =>
    intro k c j hk
    exact (none_of (List.mem_of_getElem? hk)).elim
  case pending => exact fun c hc => (none_of hc).elim
  case alone => exact fun c hc => (none_of hc).elim
  case counted => exact h.counted
  case drained => exact fun c hc => (none_of hc).elim
  case deaf => exact fun c hc => (none_of hc).elim

end LakiraBackend.Queue.ConsumerLifecycle
