import LakiraBackend.Queue.Settlement
import Mathlib.Data.List.Nodup
import Mathlib.Logic.Relation

/-!
# No message is lost

A message leaves the broker when it is acknowledged, and then it was handled, or a
queue has its copy (`NeverLoses`).  `RabbitMQPublisher.returned` keeps one mark for each
message id, so the second half needs that no publish ends while another of the same id
has been returned and has not ended (`Mixed`): it would take the other's mark, and the
other would pass for a success (`message_lost`).
-/

namespace LakiraBackend.Queue

open LakiraBackend.Concurrency

/-- The settlement is of a message the thread has. -/
def takesEffect (e : QueueEvent) : Bool :=
  match e.act with
  | .call (.ack c msg) (.ok _) => (.unacked c e.tid, msg) ∈ e.before.messages
  | .call (.nack c msg _) (.ok _) => (.unacked c e.tid, msg) ∈ e.before.messages
  | _ => false

/-- A work queue, a delivery of one, a retry tier of one, or parking. -/
def Place.Known (S : Settings) : Place → Prop
  | .queue name => name ∈ workQueues S ∨ name = QUEUES_PARKING S ∨
      ∃ queue ∈ workQueues S, ∃ delayMs, name = retryQueueFor queue delayMs
  | .unacked c _ => c.queue ∈ workQueues S

/-- The message, or a copy of a copy of it, is in its place, or was handled. -/
def Accounted (S : Settings) (w : World) (n : Nat) : Prop :=
  ∃ m, Relation.ReflTransGen (fun a b => (a, b) ∈ w.copies) n m ∧
    (m ∈ w.handled ∨ ∃ p ∈ w.messages, p.2.serial = m ∧ p.1.Known S)

/-- The thread has ended, and its process is alive. -/
def Over : Async Unit → Prop
  | .done _ => True
  | .fail e => e ≠ .crashed
  | .call _ _ => False

/-- **The consumer never loses a message.** -/
structure NeverLoses (S : Settings) (C : QueueConfig) : Prop where
  once : ∀ i, (own i C.state.hist).countP takesEffect ≤ 1
  settled : ∀ (i : Nat) (c : Consumer) (p : Async Unit), C.threads[i]? = some (.deliver c, p) →
    Over p → (∃ e ∈ own i C.state.hist, handlerEnds e = true) →
    c.channel ∉ C.state.world.closed → (own i C.state.hist).countP takesEffect = 1
  acked : ∀ (e : QueueEvent) (past : List QueueEvent) (c : Consumer) (msg : Message),
    (e :: past) <:+ C.state.hist → e.act = .call (.ack c msg) (.ok ()) →
    Handled msg (own e.tid past) ∨
      Confirmed (own e.tid past) ∧ ∃ copy, (msg.serial, copy) ∈ e.before.copies
  nacked : ∀ e ∈ C.state.hist, ∀ (c : Consumer) (msg : Message) (requeue : Bool)
    (r : Except QueueError Unit), e.act = .call (.nack c msg requeue) r →
    requeue = false ∧
      (takesEffect e = true → (.queue (QUEUES_PARKING S), msg) ∈ e.after.messages)
  kept : ∀ n ∈ C.state.world.accepted, Accounted S C.state.world n

/-- A publish ends while another of the same message id, through the same publisher, has
been returned and has not ended. -/
def Mixed (e : QueueEvent) : Prop :=
  match e.act with
  | .call (.confirm c messageId) _ => ∃ u ∈ e.before.underway, u.thread ≠ e.tid ∧
      u.status = .returned ∧ u.publisher = c.publisher ∧ u.messageId = messageId
  | _ => False

instance (e : QueueEvent) : Decidable (Mixed e) := by
  unfold Mixed
  split <;> infer_instance

variable {S : Settings} {i : Nat} {q : Request} {w w' : World} {c : Consumer} {msg : Message}
  {hist past l : List QueueEvent} {e : QueueEvent}

/-! ### What an event does, in a legal history -/

/-- The topology stands throughout. -/
theorem sound_of_legal (h : LegalQueue S hist) : Sound S (worldAfter (World.init S) hist) := by
  refine h.invariant (P := fun _ w => Sound S w) .init fun e past hl hs => ?_
  rcases step_of_obeys hl.2.1 with ⟨op, r, _, hpre, hstep⟩ | ⟨_, hcrash⟩
  · refine hs.step ?_ hstep
    cases op with
    | assertQueue c d => exact ⟨c.queue, hpre.1, hpre.2⟩
    | _ => trivial
  · rw [hcrash]
    exact hs.of_declared rfl hs.placed

theorem closed_of_step {op : Op} {r : Except QueueError op.Answer} {n : Nat}
    (h : Step S i op r w w') (hn : n ∈ w.closed) : n ∈ w'.closed := by
  cases h with
  | closed _ => exact List.mem_cons_of_mem _ hn
  | _ => exact hn

theorem handled_of_step {op : Op} {r : Except QueueError op.Answer} {n : Nat}
    (h : Step S i op r w w') (hn : n ∈ w.handled) : n ∈ w'.handled := by
  cases h with
  | success => exact List.mem_cons_of_mem _ hn
  | _ => exact hn

theorem copies_of_step {op : Op} {r : Except QueueError op.Answer} {x : Nat × Nat}
    (h : Step S i op r w w') (hx : x ∈ w.copies) : x ∈ w'.copies := by
  cases h with
  | routed _ => exact List.mem_append_left _ hx
  | _ => exact hx

theorem next_of_step {op : Op} {r : Except QueueError op.Answer} (h : Step S i op r w w') :
    w.next ≤ w'.next := by
  cases h with
  | routed _ => exact Nat.le_succ _
  | accepted _ => exact Nat.le_succ _
  | _ => exact Nat.le_refl _

/-- What calls keep, and crashes do not touch, stays. -/
theorem still_of_legal {P : World → Prop} (h : LegalQueue S hist)
    (hcall : ∀ {i op r w w'}, Step S i op r w w' → P w → P w')
    (hcrash : ∀ i w, P w → P (w.crash i)) (hs : past <:+ hist)
    (hP : P (worldAfter (World.init S) past)) : P (worldAfter (World.init S) hist) := by
  refine Legal.still h (fun e past hl hP => ?_) hs hP
  rcases step_of_obeys hl.2.1 with ⟨op, r, _, _, hstep⟩ | ⟨_, heq⟩
  · exact hcall hstep hP
  · exact heq ▸ hcrash e.tid _ hP

/-! ### Serial numbers -/

theorem created_serial {op : Op} {r : Except QueueError op.Answer} (h : Step S i op r w w')
    (hc : created ⟨i, q, .call op r, w, w'⟩ = some msg) :
    msg.serial = w.next ∧ w'.next = w.next + 1 := by
  cases h with
  | @failed _ op error => cases op <;> cases hc
  | @closed _ op r channel hop => cases op <;> first | cases hc | cases hop
  | routed hd =>
    rw [created_publish] at hc
    split at hc
    · obtain rfl := Option.some.inj hc
      exact ⟨rfl, rfl⟩
    · cases hc
  | unrouted _ =>
    rw [created_publish] at hc
    split at hc
    · exact absurd ‹_› (Nat.lt_irrefl w.next)
    · cases hc
  | accepted _ =>
    obtain rfl := Option.some.inj hc
    exact ⟨rfl, rfl⟩
  | _ => cases hc

/-- What came into the world has a serial number that was given out. -/
theorem serial_lt (h : LegalQueue S hist) (hmade : Made msg hist) :
    msg.serial < (worldAfter (World.init S) hist).next := by
  obtain ⟨e, he, hc⟩ := hmade
  obtain ⟨past, hs⟩ := exists_past he
  have hafter : msg.serial < (worldAfter (World.init S) (e :: past)).next := by
    obtain ⟨i, q, act, w, w'⟩ := e
    rcases step_of_obeys (h.obeys hs) with ⟨op, r, rfl, _, hstep⟩ | ⟨hcrash, _⟩
    · obtain ⟨hserial, hnext⟩ := created_serial hstep hc
      calc msg.serial
        _ = w.next := hserial
        _ < w.next + 1 := Nat.lt_succ_self _
        _ = w'.next := hnext.symm
    · obtain rfl : act = .crash := hcrash
      cases hc
  exact still_of_legal (P := fun w => msg.serial < w.next) h
    (fun hstep hlt => Nat.lt_of_lt_of_le hlt (next_of_step hstep)) (fun _ _ hlt => hlt) hs hafter

/-- The serial numbers of the bookkeeping were given out, and a copy's after its
original's. -/
structure Numbered (w : World) : Prop where
  copies : ∀ x ∈ w.copies, x.1 < x.2 ∧ x.2 < w.next
  accepted : ∀ n ∈ w.accepted, n < w.next

theorem numbered_of_legal (h : LegalQueue S hist) : Numbered (worldAfter (World.init S) hist) := by
  refine h.invariant (P := fun _ w => Numbered w)
    ⟨fun _ h => absurd h List.not_mem_nil, fun _ h => absurd h List.not_mem_nil⟩
    fun e past hl hn => ?_
  have hmono : ∀ {w : World}, w.copies = e.before.copies → w.accepted = e.before.accepted →
      e.before.next ≤ w.next → Numbered w := fun hcopies haccepted hle =>
    ⟨fun x hx => by
      have := hn.copies x (hcopies ▸ hx)
      omega, fun n hn' => Nat.lt_of_lt_of_le (hn.accepted n (haccepted ▸ hn')) hle⟩
  obtain ⟨i, q, act, w, w'⟩ := e
  rcases step_of_obeys hl.2.1 with ⟨op, r, rfl, hpre, hstep⟩ | ⟨_, hcrash⟩
  · dsimp only at hn hmono hstep ⊢
    cases hstep with
    | @routed _ c msg messageId routingKey content headers hd =>
      have hlt : msg.serial < w.next := by
        have := serial_lt hl.2.2 hpre.2.1
        rwa [← hl.1] at this
      refine ⟨fun x hx => ?_, fun n hn' => Nat.lt_succ_of_lt (hn.accepted n hn')⟩
      rcases List.mem_append.mp hx with hx | hx
      · exact ⟨(hn.copies x hx).1, Nat.lt_succ_of_lt (hn.copies x hx).2⟩
      · obtain rfl := List.mem_singleton.mp hx
        exact ⟨hlt, Nat.lt_succ_self _⟩
    | accepted _ =>
      refine ⟨fun x hx => ⟨(hn.copies x hx).1, Nat.lt_succ_of_lt (hn.copies x hx).2⟩,
        List.forall_mem_cons.mpr ⟨Nat.lt_succ_self _, fun n hn' =>
          Nat.lt_succ_of_lt (hn.accepted n hn')⟩⟩
    | _ => exact hmono rfl rfl (Nat.le_refl _)
  · exact hcrash ▸ hmono rfl rfl (Nat.le_refl _)

/-! ### The publishes under way -/

/-- What waits for its confirm was published by its thread, the one publish the thread
ever makes; and if it was routed, a queue has taken the copy. -/
structure Tracked (hist : List QueueEvent) (w : World) : Prop where
  unique : (w.underway.map Publish.thread).Nodup
  source : ∀ u ∈ w.underway, ∃ c msg,
    (∃ e ∈ own u.thread hist, published e = some (c, msg, u.messageId)) ∧
      c.publisher = u.publisher ∧ msg.serial = u.original
  copied : ∀ u ∈ w.underway, u.status = .routed → ∃ copy, (u.original, copy) ∈ w.copies

/-- Where publishes only end. -/
theorem Tracked.sublist (h : Tracked past w) (hsub : w'.underway.Sublist w.underway)
    (hcopies : w'.copies = w.copies) : Tracked (e :: past) w' where
  unique := h.unique.sublist (hsub.map _)
  source := fun u hu => by
    obtain ⟨c, msg, ⟨e', he', hp⟩, hrest⟩ := h.source u (hsub.subset hu)
    exact ⟨c, msg, ⟨e', mem_own_cons he', hp⟩, hrest⟩
  copied := fun u hu hs => hcopies ▸ h.copied u (hsub.subset hu) hs

/-- A thread's first publish. -/
theorem Tracked.publish (h : Tracked past w) (hnew : Unpublished (own i past)) {messageId : String}
    {status : PublishStatus} (he : e.tid = i) (hp : published e = some (c, msg, messageId))
    (hw : w'.underway = w.underway ++ [⟨i, c.publisher, messageId, msg.serial, status⟩])
    (hcopies : ∀ x ∈ w.copies, x ∈ w'.copies)
    (hrouted : status = .routed → ∃ copy, (msg.serial, copy) ∈ w'.copies) : Tracked (e :: past) w' := by
  have hold : ∀ u ∈ w.underway, u.thread ≠ i := by
    rintro u hu rfl
    obtain ⟨c', msg', ⟨e', he', hp'⟩, _⟩ := h.source u hu
    rw [hnew e' he'] at hp'
    cases hp'
  refine ⟨?_, fun u hu => ?_, fun u hu hs => ?_⟩
  · rw [hw, List.map_append, List.nodup_append]
    refine ⟨h.unique, List.pairwise_singleton _ _, ?_⟩
    rintro t ht t' ht' rfl
    obtain ⟨u, hu, rfl⟩ := List.mem_map.mp ht
    exact hold u hu (List.mem_singleton.mp ht')
  · rw [hw] at hu
    rcases List.mem_append.mp hu with hu | hu
    · obtain ⟨c', msg', ⟨e', he', hp'⟩, hrest⟩ := h.source u hu
      exact ⟨c', msg', ⟨e', mem_own_cons he', hp'⟩, hrest⟩
    · obtain rfl := List.mem_singleton.mp hu
      refine ⟨c, msg, ⟨e, ?_, hp⟩, rfl, rfl⟩
      rw [own_cons_self he]
      exact List.mem_cons_self
  · rw [hw] at hu
    rcases List.mem_append.mp hu with hu | hu
    · obtain ⟨copy, hc⟩ := h.copied u hu hs
      exact ⟨copy, hcopies _ hc⟩
    · obtain rfl := List.mem_singleton.mp hu
      exact hrouted hs

/-- A publish is returned. -/
theorem Tracked.returned (h : Tracked past w) {u : Publish} (hu : u ∈ w.underway)
    (hw : w'.underway = w.underway.map fun v => if v = u then { u with status := .returned } else v)
    (hcopies : w'.copies = w.copies) : Tracked (e :: past) w' := by
  have hmap : ∀ v, (if v = u then { u with status := .returned } else v : Publish).thread = v.thread := by
    intro v
    split
    · rename_i heq
      rw [heq]
    · rfl
  have hmem : ∀ v ∈ w'.underway, v ∈ w.underway ∨ v = { u with status := .returned } := by
    intro v hv
    rw [hw] at hv
    obtain ⟨x, hx, rfl⟩ := List.mem_map.mp hv
    split
    · exact .inr rfl
    · exact .inl hx
  refine ⟨?_, fun v hv => ?_, fun v hv hs => ?_⟩
  · have hthreads : w'.underway.map Publish.thread = w.underway.map Publish.thread := by
      rw [hw, List.map_map]
      exact List.map_congr_left fun v _ => hmap v
    exact hthreads ▸ h.unique
  · have hold : ∀ v ∈ w.underway, ∃ c msg,
        (∃ e' ∈ own v.thread (e :: past), published e' = some (c, msg, v.messageId)) ∧
          c.publisher = v.publisher ∧ msg.serial = v.original := by
      intro v hv
      obtain ⟨c, msg, ⟨e', he', hp⟩, hrest⟩ := h.source v hv
      exact ⟨c, msg, ⟨e', mem_own_cons he', hp⟩, hrest⟩
    rcases hmem v hv with hv | rfl
    · exact hold v hv
    · exact hold u hu
  · rcases hmem v hv with hv | rfl
    · exact hcopies ▸ h.copied v hv hs
    · cases hs

theorem tracked_of_legal (h : LegalQueue S hist) : Tracked hist (worldAfter (World.init S) hist) := by
  refine h.invariant (P := Tracked) ⟨List.nodup_nil, fun _ h => absurd h List.not_mem_nil,
    fun _ h => absurd h List.not_mem_nil⟩ fun e past hl ht => ?_
  obtain ⟨i, q, act, w, w'⟩ := e
  rcases step_of_obeys hl.2.1 with ⟨op, r, rfl, hpre, hstep⟩ | ⟨_, hcrash⟩
  · dsimp only at ht hstep ⊢
    cases hstep with
    | routed hd =>
      exact ht.publish hpre.1 rfl rfl rfl (fun x hx => List.mem_append_left _ hx)
        fun _ => ⟨w.next, List.mem_append_right _ List.mem_cons_self⟩
    | unrouted hstatus =>
      refine ht.publish hpre.1 rfl rfl rfl (fun x hx => hx) fun hs => ?_
      rcases hstatus with rfl | rfl <;> cases hs
    | confirmed _ _ _ => exact ht.sublist (List.erase_sublist) rfl
    | basicReturned hu _ => exact ht.returned hu rfl rfl
    | _ => exact ht.sublist (.refl _) rfl
  · obtain rfl : w' = w.crash i := hcrash
    exact ht.sublist (List.filter_sublist) rfl

/-! ### Marks of returned messages -/

/-- A publish whose message came back finds it among the returned. -/
def Marked (w : World) : Prop :=
  ∀ u ∈ w.underway, u.status = .returned → (u.publisher, u.messageId) ∈ w.returned

theorem marked_of_legal (h : LegalQueue S hist) (hno : Throughout (fun e _ => ¬ Mixed e) hist) :
    Marked (worldAfter (World.init S) hist) := by
  refine h.invariant (P := fun hist w => Throughout (fun e _ => ¬ Mixed e) hist → Marked w)
    (fun _ _ h => absurd h List.not_mem_nil) (fun e past hl hpast hno => ?_) hno
  have hm := hpast hno.2
  have htracked : Tracked past e.before := hl.1 ▸ tracked_of_legal hl.2.2
  obtain ⟨i, q, act, w, w'⟩ := e
  rcases step_of_obeys hl.2.1 with ⟨op, r, rfl, _, hstep⟩ | ⟨_, hcrash⟩
  · dsimp only at hm htracked hstep ⊢
    cases hstep with
    | routed _ =>
      intro v hv hs
      rcases List.mem_append.mp hv with hv | hv
      · exact hm v hv hs
      · obtain rfl := List.mem_singleton.mp hv
        cases hs
    | unrouted hstatus =>
      intro v hv hs
      rcases List.mem_append.mp hv with hv | hv
      · exact hm v hv hs
      · obtain rfl := List.mem_singleton.mp hv
        rcases hstatus with rfl | rfl <;> cases hs
    | @confirmed _ c messageId u r abandoned hu htid _ =>
      intro v hv hs
      obtain ⟨hne, hv⟩ := (List.Nodup.of_map _ htracked.unique).mem_erase_iff.mp hv
      refine List.mem_filter.mpr ⟨hm v hv hs, decide_eq_true fun heq => ?_⟩
      obtain ⟨hpublisher, hid⟩ := Prod.mk.inj heq
      refine hno.1 ⟨v, hv, fun hthread => hne ?_, hs, hpublisher, hid⟩
      exact List.inj_on_of_nodup_map htracked.unique hv hu (hthread.trans htid.symm)
    | @basicReturned _ u hu _ =>
      intro v hv hs
      obtain ⟨x, hx, rfl⟩ := List.mem_map.mp hv
      split
      · exact List.mem_cons_self
      · rename_i hxu
        rw [if_neg hxu] at hs
        exact List.mem_cons_of_mem _ (hm x hx hs)
    | lateReturned => exact fun v hv hs => List.mem_cons_of_mem _ (hm v hv hs)
    | _ => exact hm
  · obtain rfl : w' = w.crash i := hcrash
    exact fun v hv hs => hm v (List.mem_of_mem_filter hv) hs

/-! ### What an acknowledgement rests on -/

theorem handled_of_legal (h : LegalQueue S hist) (he : e ∈ hist) (hh : handles msg e = true) :
    msg.serial ∈ (worldAfter (World.init S) hist).handled := by
  obtain ⟨past, hs⟩ := exists_past he
  refine still_of_legal (P := fun w => msg.serial ∈ w.handled) h handled_of_step
    (fun _ _ hn => hn) hs ?_
  obtain ⟨i, q, act, w, w'⟩ := e
  rcases step_of_obeys (h.obeys hs) with ⟨op, r, rfl, _, hstep⟩ | ⟨hcrash, _⟩
  · dsimp only at hstep
    cases hstep with
    | success =>
      have heq : _ = msg := of_decide_eq_true hh
      exact heq ▸ List.mem_cons_self
    | @failed _ op error => cases op <;> cases hh
    | @closed _ op r channel hop => cases op <;> first | cases hh | cases hop
    | _ => cases hh
  · obtain rfl : act = .crash := hcrash
    cases hh

/-- **A publish that was confirmed has a copy**: its message was routed, or came back and
left its mark. -/
theorem copied_of_confirmed (h : LegalQueue S hist) (hno : Throughout (fun e _ => ¬ Mixed e) hist)
    {messageId : String} (hconf : Confirmed (own i hist))
    (honly : OnlyCopies (c, msg, messageId) (own i hist)) :
    ∃ copy, (msg.serial, copy) ∈ (worldAfter (World.init S) hist).copies := by
  obtain ⟨e, he, hc⟩ := hconf
  obtain ⟨hmem, rfl⟩ := mem_of_mem_own he
  obtain ⟨past, hs⟩ := exists_past hmem
  have hpast : past <:+ hist := (List.suffix_cons e past).trans hs
  have htracked : Tracked past e.before := h.before hs ▸ tracked_of_legal (h.suffix hpast)
  have hmarked : Marked e.before := by
    rw [h.before hs]
    exact marked_of_legal (h.suffix hpast) (hno.suffix hpast)
  suffices hcopied : ∃ copy, (msg.serial, copy) ∈ e.after.copies by
    obtain ⟨copy, hcopy⟩ := hcopied
    exact ⟨copy, still_of_legal (P := fun w => _ ∈ w.copies) h copies_of_step (fun _ _ hn => hn) hs
      hcopy⟩
  obtain ⟨j, q, act, w, w'⟩ := e
  rcases step_of_obeys (h.obeys hs) with ⟨op, r, rfl, hpre, hstep⟩ | ⟨hcrash, _⟩
  · dsimp only at hstep
    cases hstep with
    | @confirmed _ c' messageId' u r abandoned hu htid hok =>
      cases r with
      | error _ => cases hc
      | ok a =>
        obtain ⟨hstatus, hnot⟩ := hok rfl
        obtain ⟨c₁, msg₁, ⟨e₁, he₁, hp₁⟩, hpublisher, hserial⟩ := htracked.source u hu
        obtain ⟨msg₂, honly'⟩ := hpre
        rw [htid] at he₁
        obtain ⟨rfl, rfl⟩ : c₁ = c ∧ msg₁ = msg := by
          have heq := honly e₁ (own_subset hpast he₁) _ hp₁
          exact ⟨(Prod.mk.inj heq).1, (Prod.mk.inj (Prod.mk.inj heq).2).1⟩
        obtain ⟨rfl, rfl⟩ : c₁ = c' ∧ u.messageId = messageId' := by
          have heq := honly' e₁ he₁ _ hp₁
          exact ⟨(Prod.mk.inj heq).1, (Prod.mk.inj (Prod.mk.inj heq).2).2⟩
        rcases hstatus with hstatus | hstatus
        · exact hserial ▸ htracked.copied u hu hstatus
        · exact absurd (hpublisher ▸ hmarked u hu hstatus) hnot
    | @failed _ op error => cases op <;> cases hc
    | @closed _ op r channel hop => cases op <;> first | cases hc | cases hop
    | _ => cases hc
  · obtain rfl : act = .crash := hcrash
    cases hc

/-! ### Every message is kept -/

def Here (w : World) (n : Nat) : Prop := ∃ p ∈ w.messages, p.2.serial = n

/-- Every message there ever was is here, or was handled, or has a copy. -/
def Kept (w : World) : Prop :=
  ∀ n < w.next, Here w n ∨ n ∈ w.handled ∨ ∃ copy, (n, copy) ∈ w.copies

theorem here_move {n : Nat} {p : Place × Message} {queue : Option String} (h : Here w n)
    (hq : queue.isSome ∨ p.2.serial ≠ n) : Here (w.move p queue) n := by
  obtain ⟨p', hp', hn⟩ := h
  by_cases heq : p' = p
  · subst heq
    rcases hq with hq | hq
    · obtain ⟨name, rfl⟩ := Option.isSome_iff_exists.mp hq
      exact ⟨(.queue name, p'.2), List.mem_append_right _ List.mem_cons_self, hn⟩
    · exact absurd hn hq
  · exact ⟨p', List.mem_append_left _ ((List.mem_erase_of_ne heq).mpr hp'), hn⟩

/-- **A message is lost from the broker only by an acknowledgement.** -/
theorem Kept.step {op : Op} {r : Except QueueError op.Answer} (h : Kept w) (hs : Sound S w)
    (hstep : Step S i op r w w')
    (hack : ∀ c msg, op = .ack c msg → msg.serial ∈ w.handled ∨ ∃ copy, (msg.serial, copy) ∈ w.copies) :
    Kept w' := by
  cases hstep with
  | @receive _ c msg _ hm =>
    refine fun n hn => (h n hn).imp_left fun hhere => ?_
    obtain ⟨p', hp', hn'⟩ := hhere
    by_cases heq : p' = (.queue c.queue, msg)
    · subst heq
      exact ⟨(.unacked c i, msg), List.mem_append_right _ List.mem_cons_self, hn'⟩
    · exact ⟨p', List.mem_append_left _ ((List.mem_erase_of_ne heq).mpr hp'), hn'⟩
  | success =>
    exact fun n hn => (h n hn).imp_right (Or.imp_left (List.mem_cons_of_mem _))
  | @closed _ op r channel _ =>
    refine fun n hn => (h n hn).imp_left fun hhere => ?_
    obtain ⟨⟨place, msg⟩, hp', hn'⟩ := hhere
    refine ⟨_, List.mem_map_of_mem hp', ?_⟩
    cases place with
    | queue name => exact hn'
    | unacked c j =>
      dsimp only
      split <;> exact hn'
  | @acked _ c msg hm =>
    intro n hn
    by_cases heq : msg.serial = n
    · exact .inr (heq ▸ hack c msg rfl)
    · exact (h n hn).imp_left fun hhere => here_move hhere (.inr heq)
  | @nacked _ c msg requeue hm =>
    refine fun n hn => (h n hn).imp_left fun hhere => here_move hhere (.inl ?_)
    split
    · rfl
    · have hq : c.queue ∈ workQueues S := hs.placed _ hm
      rw [hs.deadLetter_workQueue hq]
      rfl
  | routed _ =>
    intro n hn
    rcases Nat.lt_succ_iff_lt_or_eq.mp hn with hn | rfl
    · rcases h n hn with ⟨p, hp, hn'⟩ | hn' | ⟨copy, hc⟩
      · exact .inl ⟨p, List.mem_append_left _ hp, hn'⟩
      · exact .inr (.inl hn')
      · exact .inr (.inr ⟨copy, List.mem_append_left _ hc⟩)
    · exact .inl ⟨_, List.mem_append_right _ List.mem_cons_self, rfl⟩
  | accepted _ =>
    intro n hn
    rcases Nat.lt_succ_iff_lt_or_eq.mp hn with hn | rfl
    · rcases h n hn with ⟨p, hp, hn'⟩ | hn' | hc
      · exact .inl ⟨p, List.mem_append_left _ hp, hn'⟩
      · exact .inr (.inl hn')
      · exact .inr (.inr hc)
    · exact .inl ⟨_, List.mem_append_right _ List.mem_cons_self, rfl⟩
  | expired hd httl hm =>
    obtain ⟨queue, _, hdead⟩ := hs.deadLetter_expiring hd httl
    exact fun n hn => (h n hn).imp_left fun hhere => here_move hhere (.inl (hdead ▸ rfl))
  | _ => exact h

theorem kept_of_legal (h : LegalQueue S hist) (hno : Throughout (fun e _ => ¬ Mixed e) hist) :
    Kept (worldAfter (World.init S) hist) := by
  refine h.invariant (P := fun hist w => Throughout (fun e _ => ¬ Mixed e) hist → Kept w)
    (fun _ _ hn => absurd hn (Nat.not_lt_zero _)) (fun e past hl hk hno => ?_) hno
  have hsound : Sound S e.before := hl.1 ▸ sound_of_legal hl.2.2
  rcases step_of_obeys hl.2.1 with ⟨op, r, _, hpre, hstep⟩ | ⟨_, hcrash⟩
  · refine (hk hno.2).step hsound hstep fun c msg hop => ?_
    subst hop
    rw [hl.1]
    rcases hpre.2.2 with ⟨e', he', hh⟩ | ⟨hconf, messageId, honly⟩
    · exact .inl (handled_of_legal hl.2.2 (mem_of_mem_own he').1 hh)
    · exact .inr (copied_of_confirmed hl.2.2 hno.2 hconf honly)
  · rw [hcrash]
    exact hk hno.2

/-! ### Every delivery is settled once -/

theorem unsettled_of_takesEffect (h : LegalQueue S (e :: past)) (he : takesEffect e = true) :
    Unsettled (own e.tid past) ∧ settled e = true := by
  obtain ⟨i, q, act, w, w'⟩ := e
  rcases step_of_obeys h.2.1 with ⟨op, r, rfl, hpre, _⟩ | ⟨hcrash, _⟩
  · cases op with
    | ack c msg => cases r with
      | ok _ => exact ⟨hpre.2.1, rfl⟩
      | error _ => cases he
    | nack c msg requeue => cases r with
      | ok _ => exact ⟨hpre.2.2, rfl⟩
      | error _ => cases he
    | _ => cases he
  · obtain rfl : act = .crash := hcrash
    cases he

theorem once_of_legal (h : LegalQueue S hist) (i : Nat) : (own i hist).countP takesEffect ≤ 1 := by
  induction hist with
  | nil => exact Nat.zero_le 1
  | cons e past ih =>
    by_cases htid : e.tid = i
    · rw [own_cons_self htid, List.countP_cons]
      split
      · rename_i he
        have hnone : (own i past).countP takesEffect = 0 := by
          refine List.countP_eq_zero.mpr fun e' he' heff => ?_
          obtain ⟨past', hs⟩ := exists_past (mem_of_mem_own he').1
          have hset := (unsettled_of_takesEffect (h.2.2.suffix hs) heff).2
          rw [(unsettled_of_takesEffect h he).1 e' (htid ▸ he')] at hset
          cases hset
        omega
      · exact ih h.2.2
    · rw [own_cons_ne htid]
      exact ih h.2.2

/-- **An attempt on a channel that is alive takes effect.** -/
theorem takesEffect_of_attempt (h : LegalQueue S (e :: past)) (ha : attempt e = some c)
    (hopen : c.channel ∉ e.before.closed) : takesEffect e = true := by
  obtain ⟨i, q, act, w, w'⟩ := e
  have hobeys := h.2.1
  rcases step_of_obeys hobeys with ⟨op, r, rfl, hpre, _⟩ | ⟨hcrash, _⟩
  · obtain ⟨inp, hexec⟩ := hobeys.exec rfl
    cases op with
    | ack c' msg =>
      obtain rfl := Option.some.inj ha
      rcases settle_cases (Option.some.inj hexec) with ⟨hc, _, _⟩ | ⟨_, rfl, hm, _⟩ | ⟨_, _, hm, _⟩
      · exact absurd hc hopen
      · exact decide_eq_true hm
      · exact (hpre.1.elim hopen hm).elim
    | nack c' msg requeue =>
      obtain rfl := Option.some.inj ha
      rcases settle_cases (Option.some.inj hexec) with ⟨hc, _, _⟩ | ⟨_, rfl, hm, _⟩ | ⟨_, _, hm, _⟩
      · exact absurd hc hopen
      · exact decide_eq_true hm
      · exact (hpre.2.1.elim hopen hm).elim
    | _ => cases ha
  · obtain rfl : act = .crash := hcrash
    cases ha

theorem settled_of_attempted (h : LegalQueue S hist) (ha : Attempted c (own i hist))
    (hopen : c.channel ∉ (worldAfter (World.init S) hist).closed) :
    (own i hist).countP takesEffect = 1 := by
  obtain ⟨e, he, hattempt⟩ := ha
  obtain ⟨past, hs⟩ := exists_past (mem_of_mem_own he).1
  have hbefore : c.channel ∉ e.before.closed := by
    intro hc
    refine hopen (still_of_legal (P := fun w => c.channel ∈ w.closed) h closed_of_step
      (fun _ _ hn => hn) ((List.suffix_cons e past).trans hs) ?_)
    exact h.before hs ▸ hc
  have hpos : 0 < (own i hist).countP takesEffect := List.countP_pos_iff.mpr
    ⟨e, he, takesEffect_of_attempt (h.suffix hs) hattempt hbefore⟩
  have := once_of_legal h i
  omega

/-- **What is refused goes to parking.** -/
theorem parked_of_nack (h : LegalQueue S (e :: past)) {requeue : Bool}
    {r : Except QueueError Unit} (ha : e.act = .call (.nack c msg requeue) r) :
    requeue = false ∧
      (takesEffect e = true → (.queue (QUEUES_PARKING S), msg) ∈ e.after.messages) := by
  have hsound : Sound S e.before := h.1 ▸ sound_of_legal h.2.2
  have hpre := h.2.1.pre ha
  obtain ⟨inp, hexec⟩ := h.2.1.exec ha
  refine ⟨hpre.1, fun he => ?_⟩
  obtain rfl := hpre.1
  obtain ⟨i, q, act, w, w'⟩ := e
  obtain rfl : act = _ := ha
  rcases settle_cases (Option.some.inj hexec) with ⟨_, rfl, _⟩ | ⟨_, _, hm, hw'⟩ | ⟨_, rfl, hm, _⟩
  · cases he
  · have hq : c.queue ∈ workQueues S := hsound.placed _ hm
    have hdead := hsound.deadLetter_workQueue hq
    dsimp only at hw' hdead ⊢
    rw [hw', if_neg nofun, hdead]
    exact List.mem_append_right _ List.mem_cons_self
  · exact absurd (of_decide_eq_true he) hm

/-! ### Every accepted message is accounted for -/

theorem Sound.known (h : Sound S w) {p : Place} (hp : p.Valid S w) : p.Known S := by
  cases p with
  | unacked c j => exact hp
  | queue name =>
    obtain ⟨d, hd, heq⟩ := List.any_eq_true.mp hp
    obtain rfl : d.name = name := by simpa using heq
    rcases h.declared d hd with htop | ⟨queue, hq, delayMs, rfl⟩
    · rcases List.mem_append.mp htop with hwork | hpark
      · obtain ⟨queue, hq, rfl⟩ := List.mem_map.mp hwork
        exact .inl hq
      · obtain rfl := List.mem_singleton.mp hpark
        exact .inr (.inl rfl)
    · exact .inr (.inr ⟨queue, hq, delayMs, rfl⟩)

/-- Copies come after their originals, so following them ends. -/
theorem accounted_of_kept (hk : Kept w) (hn : Numbered w) (hs : Sound S w) {n : Nat}
    (hlt : n < w.next) : Accounted S w n := by
  generalize hd : w.next - n = d
  induction d using Nat.strongRecOn generalizing n with
  | ind d ih =>
    rcases hk n hlt with ⟨p, hp, hserial⟩ | hh | ⟨copy, hcopy⟩
    · exact ⟨n, .refl, .inr ⟨p, hp, hserial, hs.known (hs.placed p hp)⟩⟩
    · exact ⟨n, .refl, .inl hh⟩
    · obtain ⟨hlt', hcopylt⟩ := hn.copies _ hcopy
      dsimp only at hlt' hcopylt
      obtain ⟨m, hm, hplace⟩ := ih (w.next - copy) (by omega) hcopylt rfl
      exact ⟨m, .head hcopy hm, hplace⟩

/-- **The consumer never loses a message**, in a run in which no publish takes another's
mark. -/
theorem consumer_neverLoses {C : QueueConfig}
    (h : (queueMachine S).Reachable (fun w => w = World.init S) C)
    (hno : Throughout (fun e _ => ¬ Mixed e) C.state.hist) : NeverLoses S C := by
  obtain ⟨⟨hw, hl⟩, hthreads⟩ := legal_of_reachable h
  refine ⟨once_of_legal hl, fun i c p hp hover ⟨e, he, hends⟩ hopen => ?_, fun e past c msg hs ha => ?_,
    fun e he c msg requeue r ha => ?_, fun n hn => ?_⟩
  · obtain ⟨hdone, hfail⟩ := hthreads i c p hp
    rw [hw] at hopen
    refine settled_of_attempted hl ?_ hopen
    cases p with
    | done a => exact hdone a rfl
    | fail error =>
      rcases hfail error rfl with hcrash | hunhandled
      · exact absurd hcrash hover
      · rw [hunhandled e he] at hends
        cases hends
    | call op k => exact hover.elim
  · have hpast : past <:+ C.state.hist := (List.suffix_cons e past).trans hs
    refine ((hl.obeys hs).pre ha).2.2.imp_right fun ⟨hconf, messageId, honly⟩ => ⟨hconf, ?_⟩
    rw [hl.before hs]
    exact copied_of_confirmed (hl.suffix hpast) (hno.suffix hpast) hconf honly
  · obtain ⟨past, hs⟩ := exists_past he
    exact parked_of_nack (hl.suffix hs) ha
  · rw [hw] at hn ⊢
    have hnum := numbered_of_legal hl
    exact accounted_of_kept (kept_of_legal hl hno) hnum (sound_of_legal hl) (hnum.accepted n hn)

/-! ### A message that is lost -/

def lakira : Settings := ⟨"lakira", .nat 5, .nat 2000, some⟩

/-- A consumer of invite mails, on one channel after another. -/
def inviteConsumer (channel : Nat) : Consumer := ⟨"lakira.auth.send-invite-email", channel, 0⟩

/-- A job for the invite mails. -/
def acceptInvite : Request := .accept "lakira.auth.send-invite-email" (some "job") [] "\x7b\x7d"

/-- Thread `i` makes `n` calls, which get through; the handler fails. -/
def calls (i n : Nat) : List (Label Input Request) := List.replicate n (.step i ⟨true, .other⟩)

def runQueue (ls : List (Label Input Request)) : Option QueueConfig :=
  (queueMachine lakira).run (Machine.boot (World.init lakira)) ls

theorem reachable_of_runQueue {ls : List (Label Input Request)} {C : QueueConfig}
    (h : runQueue ls = some C) :
    (queueMachine lakira).Reachable (fun w => w = World.init lakira) C :=
  have hboot : (queueMachine lakira).Reachable (fun w => w = World.init lakira) _ := .boot rfl
  hboot.run h

/-- A job fails, and waits in its tier. -/
theorem consumer_neverLoses_retried :
    ∃ C, runQueue ([.spawn acceptInvite, .spawn (.deliver (inviteConsumer 1))] ++ calls 0 1 ++
      calls 1 6) = some C ∧ C.state.hist.length = 7 ∧ NeverLoses lakira C := by
  have hrun : (runQueue ([.spawn acceptInvite, .spawn (.deliver (inviteConsumer 1))] ++ calls 0 1 ++
      calls 1 6)).map (fun C => (C.state.hist.length,
        decide (Throughout (fun e _ => ¬ Mixed e) C.state.hist))) = some (7, true) := by
    decide +kernel
  obtain ⟨C, hC, hval⟩ := Option.map_eq_some_iff.mp hrun
  obtain ⟨hlen, hno⟩ := Prod.mk.inj hval
  exact ⟨C, hC, hlen, consumer_neverLoses (reachable_of_runQueue hC) (of_decide_eq_true hno)⟩

/-- The channel dies when the job has failed and its tier is declared; it is delivered
again, and fails again.  Then the tier is deleted, and both copies are returned. -/
def deliveredTwice : List (Label Input Request) :=
  [.spawn acceptInvite, .spawn (.deliver (inviteConsumer 1)), .spawn (.deliver (inviteConsumer 2)),
    .spawn (.close 1), .spawn (.deleteQueue "lakira.auth.send-invite-email.retry.2000"),
    .spawn (.basicReturn 1), .spawn (.basicReturn 2)] ++
  calls 0 1 ++ calls 1 3 ++ calls 3 1 ++ calls 2 3 ++ calls 4 1 ++ calls 1 1 ++ calls 2 1 ++
  calls 5 1 ++ calls 6 1 ++ calls 1 2 ++ calls 2 2

/-- **A message is lost**: the first publish takes the mark of the second, whose message is
acknowledged. -/
theorem message_lost : ∃ C, (queueMachine lakira).Reachable (fun w => w = World.init lakira) C ∧
    ¬ NeverLoses lakira C := by
  have hrun : (runQueue deliveredTwice).map (fun C => (C.state.world.accepted,
      C.state.world.handled, C.state.world.messages.isEmpty)) =
      some ([0], [], true) := by decide +kernel
  obtain ⟨C, hC, hval⟩ := Option.map_eq_some_iff.mp hrun
  simp only [Prod.mk.injEq] at hval
  obtain ⟨haccepted, hhandled, hmessages⟩ := hval
  refine ⟨C, reachable_of_runQueue hC, fun h => ?_⟩
  obtain ⟨m, _, hplace⟩ := h.kept 0 (by rw [haccepted]; exact List.mem_cons_self)
  rw [hhandled, List.isEmpty_iff.mp hmessages] at hplace
  rcases hplace with hplace | ⟨p, hp, _⟩
  · cases hplace
  · cases hp

end LakiraBackend.Queue
