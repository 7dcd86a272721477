import LakiraBackend.Queue.ConsumerChannels

/-!
# A stopped consumer

The calls of `cancel` and `close`, the runs, and what a whole run of the consumer keeps.  A
call waits for a cancellation only if it is the first (`Inv.first`): a later one finds nothing
to cancel, and is right to return only if the broker has done what the first one waits for
(`Inv.alone`).  That and the count of `handle` are all that can go wrong (`stops_iff_inOrder`).
-/

namespace LakiraBackend.Queue.ConsumerLifecycle

open LakiraBackend.Concurrency

variable {s t : State} {i j k : Nat} {ch ch' : Channel} {c c' : Call} {l : List Call}
  {stopping : Bool}

/-! ### The calls go on -/

/-- A call that goes on beside what it waits for: `cancel` has returned in it, or it is the
same. -/
structure Call.Follows (c c' : Call) : Prop where
  cancelling : c'.phase.isCancelling = c.phase.isCancelling
  same : ∀ i, c'.phase = .cancelling i → c' = c
  pending : c'.pending = c.pending

theorem Call.Follows.of_eq_false (hc : c.phase.isCancelling = false)
    (hc' : c'.phase.isCancelling = false) (hpending : c'.pending = c.pending) :
    c.Follows c' where
  cancelling := hc'.trans hc.symm
  same := by
    intro i hi
    rw [hi] at hc'
    cases hc'
  pending := hpending

/-- Calls go on, and the channels stay. -/
theorem Inv.withCalls (h : Inv s) (resolvers : List Nat)
    (hfrom : ∀ (k : Nat) (c' : Call), l[k]? = some c' →
      ∃ c : Call, s.calls[k]? = some c ∧ c.Follows c')
    (hto : ∀ c ∈ s.calls, ∀ i, c.phase = .cancelling i → c ∈ l)
    (hdrained : ∀ c ∈ l, c.close = true →
      c.phase = .drained ∨ c.phase = .closing ∨ c.phase = .returned → c.timedOut = false →
      s.unsettled = 0)
    (hdeaf : ∀ c ∈ l, c.close = true → c.phase = .closing ∨ c.phase = .returned →
      ∀ ch ∈ s.channels, ch.status = .opened → ch.Quiet) :
    Inv { s with calls := l, drainResolvers := resolvers } := by
  have hmem : ∀ c' ∈ l, ∃ c ∈ s.calls, Call.Follows c c' := by
    intro c' hc'
    obtain ⟨k, hk⟩ := List.mem_iff_getElem?.mp hc'
    obtain ⟨c, hc, hfollows⟩ := hfrom k c' hk
    exact ⟨c, List.mem_of_getElem? hc, hfollows⟩
  refine ⟨h.shape, h.last, h.closing, ?_, h.taken, h.held, ?_, ?_, ?_, ?_, h.counted, hdrained,
    hdeaf⟩
  · intro hstopping
    refine List.eq_nil_iff_forall_not_mem.mpr fun c' hc' => ?_
    obtain ⟨c, hc, _⟩ := hmem c' hc'
    rw [h.called hstopping] at hc
    cases hc
  · intro i ch hi hconsuming
    rcases h.consuming i ch hi hconsuming with hholds | ⟨c, hc, hci⟩
    · exact Or.inl hholds
    · exact Or.inr ⟨c, hto c hc i hci, hci⟩
  · intro k c' i hk hi
    obtain ⟨c, hc, hfollows⟩ := hfrom k c' hk
    obtain rfl := hfollows.same i hi
    exact h.first k c' i hc hi
  · intro c' hc' hcancel i ch hi hunderway
    obtain ⟨c, hc, hfollows⟩ := hmem c' hc'
    rw [hfollows.pending]
    exact h.pending c hc (hfollows.cancelling.symm.trans hcancel) i ch hi hunderway
  · intro c' hc' hcancel d' hd' i hi ch hch hopen
    obtain ⟨c, hc, hfollows⟩ := hmem c' hc'
    obtain ⟨d, hd, hfollows'⟩ := hmem d' hd'
    obtain rfl := hfollows'.same i hi
    exact h.alone c hc (hfollows.cancelling.symm.trans hcancel) d' hd i hi ch hch hopen

/-- One call goes on. -/
theorem Inv.setCall (h : Inv s) (hk : s.calls[k]? = some c) (phase : Phase) (timedOut : Bool)
    (resolvers : List Nat) (hc : c.phase.isCancelling = false)
    (hphase : phase.isCancelling = false)
    (hdrained : c.close = true → phase = .drained ∨ phase = .closing ∨ phase = .returned →
      timedOut = false → s.unsettled = 0)
    (hdeaf : c.close = true → phase = .closing ∨ phase = .returned →
      ∀ ch ∈ s.channels, ch.status = .opened → ch.Quiet) :
    Inv { s.setCall k { c with phase, timedOut } with drainResolvers := resolvers } := by
  refine h.withCalls resolvers ?_ ?_ ?_ ?_
  · intro n d hn
    rcases of_getElem?_set hk hn with ⟨rfl, rfl⟩ | ⟨_, hn⟩
    · exact ⟨c, hk, .of_eq_false hc hphase rfl⟩
    · exact ⟨d, hn, rfl, fun _ _ => rfl, rfl⟩
  · intro d hd i hi
    obtain ⟨n, hn⟩ := List.mem_iff_getElem?.mp hd
    refine List.mem_of_getElem? ((getElem?_set_of_some hk _ n).trans ((if_neg ?_).trans hn))
    rintro rfl
    obtain rfl := Option.some.inj (hk.symm.trans hn)
    rw [hi] at hc
    cases hc
  · intro d hd
    rcases List.mem_or_eq_of_mem_set hd with hd | rfl
    · exact h.drained d hd
    · exact hdrained
  · intro d hd
    rcases List.mem_or_eq_of_mem_set hd with hd | rfl
    · exact h.deaf d hd
    · exact hdeaf

theorem Channel.Shape.shut (h : ch.Shape) (hconsumed : ch.setup.isConsumed = false)
    (hstopping : stopping = true) : ch.Next stopping ch.shut := by
  unfold Channel.shut
  split
  · rename_i hopened
    have hopen : ch.status ≠ .closed := by rw [hopened]; decide
    refine ⟨⟨h.early, ?_, ?_, h.cancel, h.handled⟩, fun _ => Or.inl hopen,
      fun _ => Or.inr hstopping, fun hfinished => hfinished, fun hunderway => Or.inl hunderway,
      fun hconsuming => ⟨hopen, hconsuming.2⟩, ?_⟩
    · intro hclosed
      cases hclosed
    · intro tag htag
      change ch.setup = .consumed tag at htag
      rw [htag] at hconsumed
      cases hconsumed
    · intro _ _ hclosing
      cases hclosing
  · exact .refl h

/-- `this.channel.close()`: nothing is delivered from here on. -/
theorem Inv.closeChannel (h : Inv s) (hk : s.calls[k]? = some c)
    (hc : c.phase.isCancelling = false) (hconsumed : s.hasConsumed = false)
    (hdrained : c.close = true → c.timedOut = false → s.unsettled = 0) :
    Inv (s.closeChannel k c) := by
  have hstopping : s.stopping = true := h.stopping_of_mem (List.mem_of_getElem? hk)
  have hshut : Inv { s with channels := s.channels.map Channel.shut } := by
    refine h.withChannels (List.length_map _) fun i ch ch' hi hi' => ?_
    rw [List.getElem?_map, hi] at hi'
    obtain rfl := Option.some.inj hi'
    have hmem : ch ∈ s.channels := List.mem_of_getElem? hi
    refine (h.shape ch hmem).shut ?_ hstopping
    exact eq_false_of_ne_true (List.any_eq_false.mp hconsumed ch hmem)
  refine hshut.setCall hk .closing c.timedOut s.drainResolvers hc rfl
    (fun hclose _ htime => hdrained hclose htime) fun _ _ ch hch hopened => ?_
  obtain ⟨d, _, rfl⟩ := List.mem_map.mp hch
  unfold Channel.shut at hopened
  split at hopened
  · cases hopened
  · rename_i hd
    exact absurd hopened hd

theorem Inv.drain (h : Inv s) (hk : s.calls[k]? = some c) (hc : c.phase = .cancelled)
    (hconsumed : s.hasConsumed = false) : Inv (s.drain k c) := by
  have hcancel : c.phase.isCancelling = false := by rw [hc]; rfl
  unfold State.drain
  split
  · rename_i hzero
    refine h.closeChannel hk hcancel hconsumed fun _ _ => ?_
    have := h.counted
    omega
  · refine h.setCall hk .draining c.timedOut _ hcancel rfl ?_ ?_
    · rintro _ (hp | hp | hp) <;> cases hp
    · rintro _ (hp | hp) <;> cases hp

theorem Inv.drainTimeout (h : Inv s) (hk : s.calls[k]? = some c) (hc : c.phase = .draining) :
    Inv (s.setCall k { c with phase := .drained, timedOut := true }) := by
  have hcancel : c.phase.isCancelling = false := by rw [hc]; rfl
  refine h.setCall hk .drained true s.drainResolvers hcancel rfl
    (fun _ _ htime => by cases htime) ?_
  rintro _ (hp | hp) <;> cases hp

theorem Inv.closed (h : Inv s) (hk : s.calls[k]? = some c) (hc : c.phase = .closing) :
    Inv (s.setCall k { c with phase := .returned }) := by
  have hcancel : c.phase.isCancelling = false := by rw [hc]; rfl
  have hmem : c ∈ s.calls := List.mem_of_getElem? hk
  exact h.setCall hk .returned c.timedOut s.drainResolvers hcancel rfl
    (fun hclose _ htime => h.drained c hmem hclose (Or.inr (Or.inl hc)) htime)
    fun hclose _ => h.deaf c hmem hclose (Or.inl hc)

/-! ### Runs -/

theorem count_set_true {runs : List Bool} {r : Nat} (hr : runs[r]? = some false) :
    (runs.set r true).count false + 1 = runs.count false := by
  obtain ⟨hlt, hget⟩ := List.getElem?_eq_some_iff.mp hr
  have hpos : 0 < runs.count false := List.count_pos_iff.mpr (List.mem_of_getElem? hr)
  have hset := List.count_set (a := true) (b := false) hlt
  rw [hget] at hset
  simp only [beq_self_eq_true, if_true] at hset
  simp at hset
  omega

/-- A run that is not settled was not drained. -/
theorem Inv.settle {r : Nat} (h : Inv s) (hr : s.runs[r]? = some false) : Inv (s.settle r) := by
  have hcount := count_set_true hr
  have hcounted := h.counted
  have hset : Inv { s with inFlight := s.inFlight - 1, runs := s.runs.set r true } := by
    refine ⟨h.shape, h.last, h.closing, h.called, h.taken, h.held, h.consuming, h.first, h.pending,
      h.alone, ?_, ?_, h.deaf⟩
    · change s.inFlight - 1 = ((s.runs.set r true).count false : Nat)
      unfold State.unsettled at hcounted
      omega
    · intro c hc hclose hphase htime
      have hzero := h.drained c hc hclose hphase htime
      unfold State.unsettled at hzero
      omega
  unfold State.settle
  dsimp only
  split
  · rename_i hzero
    have hnone : (s.runs.set r true).count false = 0 := by
      have := hset.counted
      change s.inFlight - 1 = ((s.runs.set r true).count false : Nat) at this
      change s.inFlight - 1 = 0 at hzero
      omega
    refine hset.withCalls [] ?_ ?_ (fun _ _ _ _ _ => hnone) ?_
    · intro k c' hk
      rw [List.getElem?_mapIdx, Option.map_eq_some_iff] at hk
      obtain ⟨c, hc, rfl⟩ := hk
      refine ⟨c, hc, ?_⟩
      split
      · rename_i hdraining
        exact .of_eq_false (by rw [hdraining.2]; rfl) rfl rfl
      · exact ⟨rfl, fun _ _ => rfl, rfl⟩
    · intro c hc i hi
      obtain ⟨k, hk⟩ := List.mem_iff_getElem?.mp hc
      refine List.mem_of_getElem? (i := k) ?_
      rw [List.getElem?_mapIdx]
      rw [hk, Option.map_some, if_neg]
      rintro ⟨_, hdraining⟩
      cases hi.symm.trans hdraining
    · intro c' hc' hclose hphase
      obtain ⟨k, hk⟩ := List.mem_iff_getElem?.mp hc'
      rw [List.getElem?_mapIdx, Option.map_eq_some_iff] at hk
      obtain ⟨c, hc, rfl⟩ := hk
      split at hphase
      · rcases hphase with hp | hp <;> cases hp
      · rename_i hno
        rw [if_neg hno] at hclose
        exact hset.deaf c (List.mem_of_getElem? hc) hclose hphase
  · exact hset

/-- A message is handled: no `close` is past its drain. -/
theorem Inv.deliver {headers : Headers} (h : Inv s) (hch : ch ∈ s.channels)
    (hopened : ch.status = .opened) (hcallback : ch.callback = true)
    (hdrained : s.hasDrained = false) (hread : readRetryCount headers ≠ none) :
    Inv (s.handle headers) := by
  unfold State.handle
  cases hcount : readRetryCount headers with
  | none => exact absurd hcount hread
  | some retryCount =>
      refine ⟨h.shape, h.last, h.closing, h.called, h.taken, h.held, h.consuming, h.first,
        h.pending, h.alone, ?_, ?_, h.deaf⟩
      · have hcounted := h.counted
        change s.inFlight + 1 = ((s.runs ++ [false]).count false : Nat)
        rw [List.count_append]
        unfold State.unsettled at hcounted
        simp
        omega
      · intro c hc hclose hphase _
        rcases hphase with hp | hp
        · have hno := List.any_eq_false.mp hdrained c hc
          simp [hp] at hno
        · have hquiet := h.deaf c hc hclose hp ch hch hopened
          cases hquiet.1.symm.trans hcallback

/-! ### `cancel` -/

theorem mem_unfinished {channels : List Channel} : i ∈ unfinished channels ↔
    ∃ ch, channels[i]? = some ch ∧ ch.setup ≠ .finished := by
  simp only [unfinished, List.mem_filter, List.mem_range, Option.any_eq_true, decide_eq_true_eq]
  constructor
  · rintro ⟨_, ch, hch, hne⟩
    exact ⟨ch, hch, hne⟩
  · rintro ⟨ch, hch, hne⟩
    exact ⟨(List.getElem?_eq_some_iff.mp hch).1, ch, hch, hne⟩

theorem mem_unfinished_of_underway (hi : s.channels[i]? = some ch)
    (hunderway : ch.setup.isUnderway = true) : i ∈ unfinished s.channels := by
  refine mem_unfinished.mpr ⟨ch, hi, fun hfinished => ?_⟩
  rw [hfinished] at hunderway
  cases hunderway

theorem Call.cancelled_phase (pending : List Nat) :
    (c.cancelled pending).phase.isCancelling = false := by
  unfold Call.cancelled
  cases c.close <;> rfl

theorem Call.cancelled_ne_cancelling (pending : List Nat) :
    (c.cancelled pending).phase ≠ .cancelling i := by
  intro hi
  have hcancel := cancelled_phase (c := c) pending
  rw [hi] at hcancel
  cases hcancel

/-- A `close` whose `cancel` has just returned has not drained. -/
theorem Call.cancelled_ne (pending : List Nat) (hclose : (c.cancelled pending).close = true) :
    (c.cancelled pending).phase = .cancelled := by
  change c.close = true at hclose
  simp [Call.cancelled, hclose]

/-- What a call is once `cancel` has returned in those that wait for the channel. -/
theorem mem_cancelEnds (hc' : c' ∈ (s.cancelEnds i).calls) :
    ∃ c ∈ s.calls, c.phase = .cancelling i ∧ c' = c.cancelled (unfinished s.channels) ∨
      c.phase ≠ .cancelling i ∧ c' = c := by
  obtain ⟨c, hc, rfl⟩ := List.mem_map.mp hc'
  refine ⟨c, hc, ?_⟩
  split
  · rename_i hphase
    exact Or.inl ⟨hphase, rfl⟩
  · rename_i hphase
    exact Or.inr ⟨hphase, rfl⟩

/-- Two calls that wait are one. -/
theorem Inv.eq_of_cancelling {d : Call} (h : Inv s) (hc : c ∈ s.calls) (hd : d ∈ s.calls)
    (hi : c.phase = .cancelling i) (hj : d.phase = .cancelling j) : c = d := by
  obtain ⟨k, hk⟩ := List.mem_iff_getElem?.mp hc
  obtain ⟨n, hn⟩ := List.mem_iff_getElem?.mp hd
  obtain ⟨rfl, _⟩ := h.first k c i hk hi
  obtain ⟨rfl, _⟩ := h.first n d j hn hj
  exact Option.some.inj (hk.symm.trans hn)

/-- `cancel` returns once the broker has no consumer on the channel. -/
theorem Inv.cancelEnds (h : Inv s) (hi : ∀ ch, s.channels[i]? = some ch → ch.registered = false) :
    Inv (s.cancelEnds i) := by
  refine ⟨h.shape, h.last, h.closing, ?_, h.taken, h.held, ?_, ?_, ?_, ?_, h.counted, ?_, ?_⟩
  · intro hstopping
    change s.calls.map _ = []
    rw [h.called hstopping, List.map_nil]
  · intro j ch hj hconsuming
    rcases h.consuming j ch hj hconsuming with hholds | ⟨c, hc, hcj⟩
    · exact Or.inl hholds
    · refine Or.inr ⟨c, List.mem_map.mpr ⟨c, hc, if_neg ?_⟩, hcj⟩
      intro hci
      obtain rfl := Phase.cancelling.inj (hcj.symm.trans hci)
      cases (hi ch hj).symm.trans hconsuming.2.1
  · intro k c' j hk hj
    change (s.calls.map _)[k]? = some c' at hk
    rw [List.getElem?_map, Option.map_eq_some_iff] at hk
    obtain ⟨c, hc, rfl⟩ := hk
    split at hj
    · exact absurd hj (Call.cancelled_ne_cancelling _)
    · exact h.first k c j hc hj
  · intro c' hc' hcancel j ch hj hunderway
    obtain ⟨c, hc, ⟨_, rfl⟩ | ⟨_, rfl⟩⟩ := mem_cancelEnds hc'
    · exact mem_unfinished_of_underway hj hunderway
    · exact h.pending c' hc hcancel j ch hj hunderway
  · intro c' hc' hcancel d' hd' j hdj ch hj hopen
    obtain ⟨d, hd, ⟨_, rfl⟩ | ⟨hdi, rfl⟩⟩ := mem_cancelEnds hd'
    · exact absurd hdj (Call.cancelled_ne_cancelling _)
    · obtain ⟨c, hc, ⟨hci, _⟩ | ⟨_, rfl⟩⟩ := mem_cancelEnds hc'
      · obtain rfl := h.eq_of_cancelling hc hd hci hdj
        exact absurd hci hdi
      · exact h.alone c' hc hcancel d' hd j hdj ch hj hopen
  · intro c' hc' hclose hphase
    obtain ⟨c, hc, ⟨_, rfl⟩ | ⟨_, rfl⟩⟩ := mem_cancelEnds hc'
    · rw [Call.cancelled_ne _ hclose] at hphase
      rcases hphase with hp | hp | hp <;> cases hp
    · exact h.drained c' hc hclose hphase
  · intro c' hc' hclose hphase
    obtain ⟨c, hc, ⟨_, rfl⟩ | ⟨_, rfl⟩⟩ := mem_cancelEnds hc'
    · rw [Call.cancelled_ne _ hclose] at hphase
      rcases hphase with hp | hp <;> cases hp
    · exact h.deaf c' hc hclose hphase

/-- A call that finds nothing to cancel, where nothing consumes but for another call. -/
theorem Inv.callReturns {close : Bool} (h : Inv s)
    (hnone : ∀ i ch, s.Holds i → s.channels[i]? = some ch → ch.status = .closed)
    (hok : InOrder s (.call close)) :
    Inv
      { s with
        stopping := true
        consumerChannel := none
        consumerTag := none
        calls := s.calls ++
          [Call.cancelled ⟨close, .returned, false, []⟩ (unfinished s.channels)] } := by
  refine ⟨h.shape, h.last, fun _ _ _ => rfl, fun hstop => (by cases hstop), fun _ => rfl,
    fun i hi => (by cases hi), ?_, ?_, ?_, ?_, h.counted, ?_, ?_⟩
  · intro i ch hi hconsuming
    rcases h.consuming i ch hi hconsuming with hholds | ⟨c, hc, hci⟩
    · exact absurd (hnone i ch hholds hi) hconsuming.1
    · exact Or.inr ⟨c, List.mem_append_left _ hc, hci⟩
  · intro k c i hk hi
    rcases of_getElem?_concat hk with hk | ⟨_, rfl⟩
    · exact h.first k c i hk hi
    · exact absurd hi (Call.cancelled_ne_cancelling _)
  · intro c hc hcancel i ch hi hunderway
    rcases List.mem_append.mp hc with hc | hc
    · exact h.pending c hc hcancel i ch hi hunderway
    · obtain rfl := List.mem_singleton.mp hc
      exact mem_unfinished_of_underway hi hunderway
  · intro c hc hcancel d hd i hdi ch hi hopen
    rcases List.mem_append.mp hd with hd | hd
    · exact hok d hd i hdi ch hi hopen
    · obtain rfl := List.mem_singleton.mp hd
      exact absurd hdi (Call.cancelled_ne_cancelling _)
  · intro c hc hclose hphase
    rcases List.mem_append.mp hc with hc | hc
    · exact h.drained c hc hclose hphase
    · obtain rfl := List.mem_singleton.mp hc
      rw [Call.cancelled_ne _ hclose] at hphase
      rcases hphase with hp | hp | hp <;> cases hp
  · intro c hc hclose hphase
    rcases List.mem_append.mp hc with hc | hc
    · exact h.deaf c hc hclose hphase
    · obtain rfl := List.mem_singleton.mp hc
      rw [Call.cancelled_ne _ hclose] at hphase
      rcases hphase with hp | hp <;> cases hp

/-- The first call takes the consumer, and waits for its cancellation. -/
theorem Inv.callWaits {close : Bool} (h : Inv s) (hheld : s.consumerChannel = some i)
    (hi : s.channels[i]? = some ch) :
    Inv
      { s.setChannel i { ch with cancel := .sent } with
        stopping := true
        consumerChannel := none
        consumerTag := none
        calls := s.calls ++ [⟨close, .cancelling i, false, []⟩] } := by
  have hstopping : s.stopping = false := by
    by_contra hstop
    rw [h.taken ((Bool.not_eq_false _).mp hstop)] at hheld
    cases hheld
  have hcalls : s.calls = [] := h.called hstopping
  have hfinished : ch.setup = .finished := by
    obtain ⟨d, hd, hfinished⟩ := h.held i hheld
    obtain rfl := Option.some.inj (hi.symm.trans hd)
    exact hfinished
  have hsent : Inv (s.setChannel i { ch with cancel := .sent }) := by
    refine h.setChannel hi ((h.shape ch (List.mem_of_getElem? hi)).fall (fun hr => hr)
      (fun hc => hc) (fun _ => Or.inr hfinished) fun hhandled => by cases hhandled)
  rw [hcalls, List.nil_append]
  have alone : ∀ {c : Call}, c ∈ [(⟨close, .cancelling i, false, []⟩ : Call)] →
      c.phase = .cancelling i := by
    intro c hc
    rw [List.mem_singleton.mp hc]
  refine ⟨hsent.shape, hsent.last, fun _ _ _ => rfl, fun hstop => (by cases hstop), fun _ => rfl,
    fun j hj => (by cases hj), ?_, ?_, ?_, ?_, h.counted, ?_, ?_⟩
  · intro j d hj hconsuming
    rcases hsent.consuming j d hj hconsuming with hholds | ⟨c, hc, _⟩
    · obtain rfl : i = j := Option.some.inj (hheld.symm.trans hholds.2.1)
      exact Or.inr ⟨_, List.mem_singleton_self _, rfl⟩
    · change c ∈ s.calls at hc
      rw [hcalls] at hc
      cases hc
  · intro k c j hk hj
    have hlt := (List.getElem?_eq_some_iff.mp hk).1
    obtain rfl : i = j :=
      Phase.cancelling.inj ((alone (List.mem_of_getElem? hk)).symm.trans hj)
    refine ⟨?_, _, (getElem?_set_of_some hi _ i).trans (if_pos rfl), hfinished⟩
    change k < 1 at hlt
    omega
  · intro c hc hcancel
    rw [alone hc] at hcancel
    cases hcancel
  · intro c hc hcancel
    rw [alone hc] at hcancel
    cases hcancel
  · intro c hc _ hphase
    rw [alone hc] at hphase
    rcases hphase with hp | hp | hp <;> cases hp
  · intro c hc _ hphase
    rw [alone hc] at hphase
    rcases hphase with hp | hp <;> cases hp

theorem Inv.startCancel {close : Bool} (h : Inv s) (hok : InOrder s (.call close)) :
    Inv (s.startCancel close) := by
  unfold State.startCancel
  dsimp only
  split
  · rename_i i tag hchannel htag
    split
    · rename_i hempty
      refine h.callReturns (fun j ch hholds => ?_) hok
      obtain ⟨_, _, tag', htag', hne⟩ := hholds
      exact absurd ((Option.some.inj (htag.symm.trans htag')).symm.trans hempty) hne
    · cases hi : s.channels[i]? with
      | none =>
          obtain ⟨ch, hch, _⟩ := h.held i hchannel
          cases hi.symm.trans hch
      | some ch =>
          dsimp only
          split
          · exact h.callWaits hchannel hi
          · rename_i hopened
            refine h.callReturns (fun j d hholds hj => ?_) hok
            obtain rfl : i = j := Option.some.inj (hchannel.symm.trans hholds.2.1)
            obtain rfl := Option.some.inj (hi.symm.trans hj)
            cases hstatus : ch.status with
            | opened => exact absurd hstatus hopened
            | closing =>
                have hstop := h.closing ch (List.mem_of_getElem? hi) hstatus
                cases hholds.1.symm.trans hstop
            | closed => rfl
  · rename_i hnone
    refine h.callReturns (fun j ch hholds => ?_) hok
    obtain ⟨_, hchannel, tag, htag, _⟩ := hholds
    exact absurd htag (hnone j tag hchannel)

/-! ### Steps -/

theorem of_onChannel {f : Channel → Option State} (h : onChannel s i f = some t) :
    ∃ ch, s.channels[i]? = some ch ∧ f ch = some t := by
  unfold onChannel at h
  split at h
  · rename_i ch hi
    exact ⟨ch, hi, h⟩
  · cases h

theorem of_onCall {f : Call → Option State} (h : onCall s k f = some t) :
    ∃ c, s.calls[k]? = some c ∧ f c = some t := by
  unfold onCall at h
  split at h
  · rename_i c hk
    exact ⟨c, hk, h⟩
  · cases h

theorem Inv.shape_of (h : Inv s) (hi : s.channels[i]? = some ch) : ch.Shape :=
  h.shape ch (List.mem_of_getElem? hi)

theorem Inv.setupGoesOn (h : Inv s) (ht : step s (.setupGoesOn i) = some t) : Inv t := by
  obtain ⟨ch, hi, hf⟩ := of_onChannel ht
  split at hf
  · rename_i tag hs
    split at hf
    · split at hf
      · rename_i hopened
        cases hf
        exact h.setChannel hi (Channel.Shape.setupCancels hopened hs)
      · rename_i hopened
        cases hf
        exact h.setChannel hi ((h.shape_of hi).setupFails hopened hs)
    · rename_i hstopping
      cases hf
      exact h.setupRegisters hi hs (eq_false_of_ne_true hstopping)
  · cases hf

/-- A channel has no consumer any more, and `cancel` returns where it waits for it. -/
theorem Inv.setChannel_cancelEnds (h : Inv s) (hi : s.channels[i]? = some ch)
    (hnext : ch.Next s.stopping ch') (hregistered : ch'.registered = false) :
    Inv ((s.setChannel i ch').cancelEnds i) := by
  refine (h.setChannel hi hnext).cancelEnds fun d hd => ?_
  rcases of_getElem?_set hi hd with ⟨_, rfl⟩ | ⟨hne, _⟩
  · exact hregistered
  · exact absurd rfl hne

theorem Inv.cancelOk (h : Inv s) (ht : step s (.cancelOk i) = some t) : Inv t := by
  obtain ⟨ch, hi, hf⟩ := of_onChannel ht
  split at hf
  · rename_i hguard
    cases hf
    have hshape := h.shape_of hi
    exact h.setChannel_cancelEnds hi (hshape.cancelOk hguard.1 hguard.2) (hshape.handled hguard.2)
  · cases hf

theorem Inv.lose (h : Inv s) (ht : step s (.lose i) = some t) : Inv t := by
  obtain ⟨ch, hi, hf⟩ := of_onChannel ht
  split at hf
  · rename_i hopen
    cases hf
    exact h.setChannel_cancelEnds hi ((h.shape_of hi).lost hopen) rfl
  · cases hf

theorem Inv.closeGoesOn (h : Inv s) (ht : step s (.closeGoesOn k) = some t) : Inv t := by
  obtain ⟨c, hk, hf⟩ := of_onCall ht
  split at hf
  · cases hf
  · rename_i hconsumed
    have hconsumed' : s.hasConsumed = false := eq_false_of_ne_true hconsumed
    split at hf
    · rename_i hphase
      cases hf
      exact h.drain hk hphase hconsumed'
    · rename_i hphase
      cases hf
      exact h.closeChannel hk (by rw [hphase]; rfl) hconsumed' fun hclose htime =>
        h.drained c (List.mem_of_getElem? hk) hclose (Or.inl hphase) htime
    · cases hf

theorem Inv.step (e : Event) (h : Inv s) (hok : InOrder s e) (ht : step s e = some t) :
    Inv t := by
  cases e with
  | connect =>
      simp only [ConsumerLifecycle.step] at ht
      split at ht
      · rename_i hall
        cases ht
        exact h.connect hall
      · cases ht
  | topologyAsserted i =>
      obtain ⟨ch, hi, hf⟩ := of_onChannel ht
      split at hf
      · rename_i hguard
        cases hf
        exact h.setChannel hi ((h.shape_of hi).topologyAsserted hguard.1 hguard.2)
      · cases hf
  | prefetched i =>
      obtain ⟨ch, hi, hf⟩ := of_onChannel ht
      split at hf
      · rename_i hguard
        cases hf
        exact h.setChannel hi ((h.shape_of hi).prefetched hguard.1 hguard.2)
      · cases hf
  | brokerRegisters i =>
      obtain ⟨ch, hi, hf⟩ := of_onChannel ht
      split at hf
      · rename_i hguard
        cases hf
        exact h.setChannel hi ((h.shape_of hi).brokerRegisters hguard.1 hguard.2)
      · cases hf
  | consumeOk i tag =>
      obtain ⟨ch, hi, hf⟩ := of_onChannel ht
      split at hf
      · rename_i hguard
        cases hf
        exact h.setChannel hi ((h.shape_of hi).consumeOk hguard.1 hguard.2.1 hguard.2.2)
      · cases hf
  | setupGoesOn i => exact h.setupGoesOn ht
  | brokerCancels i =>
      obtain ⟨ch, hi, hf⟩ := of_onChannel ht
      have hshape := h.shape_of hi
      split at hf
      · cases hf
        exact h.setChannel hi (hshape.fall (fun hr => by cases hr) (fun hc => hc) hshape.cancel
          fun _ => rfl)
      · cases hf
  | cancelNotified i =>
      obtain ⟨ch, hi, hf⟩ := of_onChannel ht
      have hshape := h.shape_of hi
      split at hf
      · cases hf
        exact h.setChannel hi (hshape.fall (fun hr => hr) (fun _ => rfl) hshape.cancel
          hshape.handled)
      · cases hf
  | brokerHandlesCancel i =>
      obtain ⟨ch, hi, hf⟩ := of_onChannel ht
      split at hf
      · rename_i hguard
        cases hf
        exact h.setChannel hi ((h.shape_of hi).brokerHandlesCancel hguard.2)
      · cases hf
  | cancelOk i => exact h.cancelOk ht
  | lose i => exact h.lose ht
  | call close =>
      cases ht
      exact h.startCancel hok
  | closeGoesOn k => exact h.closeGoesOn ht
  | drainTimeout k =>
      obtain ⟨c, hk, hf⟩ := of_onCall ht
      split at hf
      · rename_i hphase
        cases hf
        exact h.drainTimeout hk hphase
      · cases hf
  | closed k =>
      obtain ⟨c, hk, hf⟩ := of_onCall ht
      split at hf
      · rename_i hphase
        cases hf
        exact h.closed hk hphase
      · cases hf
  | deliver i headers =>
      obtain ⟨ch, hi, hf⟩ := of_onChannel ht
      split at hf
      · rename_i hguard
        cases hf
        exact h.deliver (List.mem_of_getElem? hi) hguard.1 hguard.2.1 hguard.2.2 hok
      · cases hf
  | settle r =>
      simp only [ConsumerLifecycle.step] at ht
      split at ht
      · rename_i hr
        cases ht
        exact h.settle hr
      · cases ht

/-! ### What goes wrong otherwise -/

/-- While a channel is open, only its own setup is under way. -/
theorem Inv.finished_of_current (h : Inv s) (hi : s.channels[i]? = some ch)
    (hopen : ch.status ≠ .closed) (hfinished : ch.setup = .finished)
    (hj : s.channels[j]? = some ch') : ch'.setup = .finished := by
  by_cases hcurrent : ch'.Current
  · have hlast := h.last i ch hi (Or.inl hopen)
    have hlast' := h.last j ch' hj hcurrent
    obtain rfl : i = j := by omega
    obtain rfl := Option.some.inj (hi.symm.trans hj)
    exact hfinished
  · have hclosed : ch'.status = .closed := by
      by_contra hne
      exact hcurrent (Or.inl hne)
    rcases ((h.shape_of hj).closed hclosed).2 with hf | hc
    · exact hf
    · exact absurd (Or.inr hc) hcurrent

/-- A call that is not the first does not wait. -/
theorem Inv.startCancel_of_mem {close : Bool} (h : Inv s) (hc : c ∈ s.calls) :
    s.startCancel close =
      { s with
        stopping := true
        consumerChannel := none
        consumerTag := none
        calls := s.calls ++
          [Call.cancelled ⟨close, .returned, false, []⟩ (unfinished s.channels)] } := by
  have hnone := h.taken (h.stopping_of_mem hc)
  unfold State.startCancel
  rw [hnone]

theorem Inv.inOrder (e : Event) (h : Inv s) (ht : ConsumerLifecycle.step s e = some t)
    (hS : Stops t) : InOrder s e := by
  cases e with
  | deliver i headers =>
      obtain ⟨ch, hi, hf⟩ := of_onChannel ht
      split at hf
      · cases hf
        intro hnone
        have hcounted := hS.counted
        have hcounted' := h.counted
        simp only [State.handle, hnone, State.unsettled] at hcounted hcounted'
        omega
      · cases hf
  | call close =>
      cases ht
      intro c hc i hwait ch hi hopen
      obtain ⟨k, hk⟩ := List.mem_iff_getElem?.mp hc
      obtain ⟨_, d, hd, hfinished⟩ := h.first k c i hk hwait
      obtain rfl := Option.some.inj (hi.symm.trans hd)
      have hcancelled := hS.cancelled
      rw [h.startCancel_of_mem hc] at hcancelled
      refine hcancelled _ (List.mem_append_right _ (List.mem_singleton_self _))
        (Call.cancelled_phase _) ?_ ch (List.mem_of_getElem? hi) hopen
      intro j _ ch' hj
      exact h.finished_of_current hi hopen hfinished hj
  | _ => trivial

/-- **A stopped consumer consumes nothing, `close` leaves no run without a timeout, and
`inFlight` counts the unsettled runs, in every state of exactly those runs in which every
delivered retry count can be read and no call comes before the broker has cancelled what an
earlier one waits for.** -/
theorem stops_iff_inOrder (events : List Event) :
    system.Always Stops events ↔ system.Meets InOrder events :=
  EventSystem.always_iff_meets Inv.init (fun _ e _ h hok ht => h.step e hok ht)
    (fun _ h => h.stops) (fun _ e _ h ht hS => h.inOrder e ht hS) events

/-! ### Two defects -/

/-- A consumer comes up. -/
def registered : List Event :=
  [.connect, .topologyAsserted 0, .prefetched 0, .brokerRegisters 0, .consumeOk 0 "ctag",
    .setupGoesOn 0]

/-- A message with a retry count that `String` throws on is counted, and never settled. -/
theorem unreadable_counted :
    ¬ system.Always Stops (registered ++ [.deliver 0 [(RETRY_COUNT_HEADER, .other none)]]) := by
  intro h
  have hs : ∃ s, system.run (registered ++ [.deliver 0 [(RETRY_COUNT_HEADER, .other none)]]) =
      some s ∧ s.inFlight = 1 ∧ s.unsettled = 0 := ⟨_, rfl, rfl, rfl⟩
  obtain ⟨s, hs, hcount, hnone⟩ := hs
  have hcounted := (h.last hs).counted
  omega

/-- The second call returns while the consumer is there. -/
theorem second_returns_early :
    ¬ system.Always Stops (registered ++ [.call false, .call false]) := by
  intro h
  have hs : ∃ s, system.run (registered ++ [.call false, .call false]) = some s ∧
      s.calls = [⟨false, .cancelling 0, false, []⟩, ⟨false, .returned, false, []⟩] ∧
      s.channels = [⟨.opened, .finished, true, true, .sent⟩] := ⟨_, rfl, rfl, rfl⟩
  obtain ⟨s, hs, hcalls, hchannels⟩ := hs
  have hcancelled := (h.last hs).cancelled ⟨false, .returned, false, []⟩ (by simp [hcalls]) rfl
    (by simp) ⟨.opened, .finished, true, true, .sent⟩ (by simp [hchannels]) (by decide)
  cases hcancelled

end LakiraBackend.Queue.ConsumerLifecycle
