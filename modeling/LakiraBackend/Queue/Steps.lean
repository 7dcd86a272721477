import LakiraBackend.Queue.Consumer
import Mathlib.Data.List.Find

/-!
# What a call on the broker does

`Step` lists what a call can do to the broker.  From it: the topology stays declared,
with nothing beside it but retry tiers (`Sound.step`), so that every message is in a
work queue, on a channel, in a tier or in parking, and what a queue dead-letters has
somewhere to go.
-/

namespace LakiraBackend.Queue

open LakiraBackend.Concurrency

variable {S : Settings} {i : Nat} {w w' : World}

/-- The call may cost a channel its life. -/
def Op.closes : Op → Bool
  | .ack _ _ => true
  | .nack _ _ _ => true
  | .assertQueue _ _ => true
  | .close _ => true
  | _ => false

/-- What thread `i`'s call does to the broker. -/
inductive Step (S : Settings) (i : Nat) : (op : Op) → Except QueueError op.Answer → World → World → Prop
  | receive {w : World} {c : Consumer} {msg : Message} :
      c.queue ∈ workQueues S → (.queue c.queue, msg) ∈ w.messages →
      Step S i (.receive c) (.ok msg) w
        { w with messages := w.messages.erase (.queue c.queue, msg) ++ [(.unacked c i, msg)] }
  | success {w : World} {c : Consumer} {msg : Message} :
      Step S i (.handler c msg) (.ok ()) w { w with handled := msg.serial :: w.handled }
  | failed {w : World} {op : Op} {error : QueueError} : Step S i op (.error error) w w
  | closed {w : World} {op : Op} {r : Except QueueError op.Answer} {channel : Nat} :
      op.closes = true → Step S i op r w (w.close channel)
  | acked {w : World} {c : Consumer} {msg : Message} : (.unacked c i, msg) ∈ w.messages →
      Step S i (.ack c msg) (.ok ()) w (w.move (.unacked c i, msg) none)
  | nacked {w : World} {c : Consumer} {msg : Message} {requeue : Bool} :
      (.unacked c i, msg) ∈ w.messages →
      Step S i (.nack c msg requeue) (.ok ()) w
        (w.move (.unacked c i, msg) (if requeue then some c.queue else w.deadLetterQueue S c.queue))
  | there {w : World} {c : Consumer} {d : QueueDeclaration} : d ∈ w.declared →
      Step S i (.assertQueue c d) (.ok ()) w w
  | declared {w : World} {c : Consumer} {d : QueueDeclaration} : w.declares d.name = false →
      Step S i (.assertQueue c d) (.ok ()) w { w with declared := w.declared ++ [d] }
  | routed {w : World} {c : Consumer} {msg : Message} {messageId routingKey content : String}
      {headers : Headers} : w.declares routingKey = true →
      Step S i (.publish c msg messageId routingKey headers content) (.ok ()) w
        { w.add routingKey (some messageId) headers content with
          underway := w.underway ++ [⟨i, c.publisher, messageId, msg.serial, .routed⟩]
          copies := w.copies ++ [(msg.serial, w.next)] }
  | unrouted {w : World} {c : Consumer} {msg : Message} {messageId routingKey content : String}
      {headers : Headers} {status : PublishStatus} : status = .unroutable ∨ status = .unsent →
      Step S i (.publish c msg messageId routingKey headers content) (.ok ()) w
        { w with underway := w.underway ++ [⟨i, c.publisher, messageId, msg.serial, status⟩] }
  | confirmed {w : World} {c : Consumer} {messageId : String} {u : Publish}
      {r : Except QueueError Unit} {abandoned : List (Nat × String)} :
      u ∈ w.underway → u.thread = i →
      (r = .ok () → (u.status = .routed ∨ u.status = .returned) ∧
        (c.publisher, messageId) ∉ w.returned) →
      Step S i (.confirm c messageId) r w { w with
        underway := w.underway.erase u
        abandoned := abandoned
        returned := w.returned.filter fun r => r ≠ (c.publisher, messageId) }
  | accepted {w : World} {queue : String} {messageId : Option String} {headers : Headers}
      {content : String} : queue ∈ workQueues S →
      Step S i (.accept queue messageId headers content) (.ok ()) w
        { w.add queue messageId headers content with accepted := w.next :: w.accepted }
  | expired {w : World} {d : QueueDeclaration} {msg : Message} :
      w.declared.find? (fun d' => d'.name = d.name) = some d → d.messageTtl.isSome →
      (.queue d.name, msg) ∈ w.messages →
      Step S i (.expire d.name) (.ok ()) w
        (w.move (.queue d.name, msg) (w.deadLetterQueue S d.name))
  | basicReturned {w : World} {u : Publish} : u ∈ w.underway → u.status = .unroutable →
      Step S i (.basicReturn u.thread) (.ok ()) w { w with
        underway := w.underway.map fun v => if v = u then { u with status := .returned } else v
        returned := (u.publisher, u.messageId) :: w.returned }
  | lateReturned {w : World} {publisher : Nat} {messageId : String} {abandoned : List (Nat × String)} :
      Step S i (.lateReturn publisher messageId) (.ok ()) w { w with
        abandoned := abandoned
        returned := (publisher, messageId) :: w.returned }
  | deleted {w : World} {name : String} : name ∉ (topology S).map QueueDeclaration.name →
      (∀ msg, (.queue name, msg) ∉ w.messages) →
      Step S i (.deleteQueue name) (.ok ()) w
        { w with declared := w.declared.filter fun d => d.name ≠ name }

/-! ### Inversion -/

theorem settle_cases {c : Consumer} {msg : Message} {queue : Option String}
    {r : Except QueueError Unit} (h : settle w c i msg queue = (r, w')) :
    (c.channel ∈ w.closed ∧ r = .error .illegalOperation ∧ w' = w) ∨
    (c.channel ∉ w.closed ∧ r = .ok () ∧ (.unacked c i, msg) ∈ w.messages ∧
      w' = w.move (.unacked c i, msg) queue) ∨
    (c.channel ∉ w.closed ∧ r = .ok () ∧ (.unacked c i, msg) ∉ w.messages ∧
      w' = w.close c.channel) := by
  unfold settle at h
  split at h
  · rename_i hc
    obtain ⟨rfl, rfl⟩ := Prod.mk.inj h
    exact .inl ⟨hc, rfl, rfl⟩
  · rename_i hc
    split at h
    · rename_i hm
      obtain ⟨rfl, rfl⟩ := Prod.mk.inj h
      exact .inr (.inl ⟨hc, rfl, hm, rfl⟩)
    · rename_i hm
      obtain ⟨rfl, rfl⟩ := Prod.mk.inj h
      exact .inr (.inr ⟨hc, rfl, hm, rfl⟩)

theorem step_declare {c : Consumer} {d : QueueDeclaration} {r : Except QueueError Unit}
    (h : declare w c d = (r, w')) : Step S i (.assertQueue c d) r w w' := by
  unfold declare at h
  split at h
  · obtain ⟨rfl, rfl⟩ := Prod.mk.inj h
    exact .failed
  · split at h
    · rename_i d' hfind
      split at h
      · rename_i heq
        obtain ⟨rfl, rfl⟩ := Prod.mk.inj h
        exact .there (heq ▸ List.mem_of_find?_eq_some hfind)
      · obtain ⟨rfl, rfl⟩ := Prod.mk.inj h
        exact .closed rfl
    · rename_i hfind
      obtain ⟨rfl, rfl⟩ := Prod.mk.inj h
      refine .declared ?_
      rw [World.declares, List.any_eq_false]
      exact List.find?_eq_none.mp hfind

theorem step_send {c : Consumer} {msg : Message} {messageId routingKey content : String}
    {headers : Headers} {sent : Bool} :
    Step S i (.publish c msg messageId routingKey headers content) (.ok ()) w
      (send w i c.publisher msg messageId routingKey headers content sent) := by
  cases sent with
  | false => exact .unrouted (.inr rfl)
  | true =>
    by_cases hd : w.declares routingKey = true
    · have hsend : send w i c.publisher msg messageId routingKey headers content true =
          { w.add routingKey (some messageId) headers content with
            underway := w.underway ++ [⟨i, c.publisher, messageId, msg.serial, .routed⟩]
            copies := w.copies ++ [(msg.serial, w.next)] } := by
        simp [send, hd, World.add]
      exact hsend ▸ .routed hd
    · have hsend : send w i c.publisher msg messageId routingKey headers content true =
          { w with underway := w.underway ++
              [⟨i, c.publisher, messageId, msg.serial, .unroutable⟩] } := by
        simp [send, hd]
      exact hsend ▸ .unrouted (.inl rfl)

theorem step_confirm {c : Consumer} {messageId : String} {ok : Bool} {r : Except QueueError Unit}
    (h : confirm w i c.publisher messageId ok = some (r, w')) :
    Step S i (.confirm c messageId) r w w' := by
  unfold confirm at h
  split at h
  · cases h
  · rename_i u hfind
    have hmem := List.mem_of_find?_eq_some hfind
    have htid : u.thread = i := by simpa using List.find?_some hfind
    dsimp only at h
    split at h
    · split at h
      · rename_i hstatus
        obtain ⟨rfl, rfl⟩ := Prod.mk.inj (Option.some.inj h)
        refine .confirmed hmem htid fun hr => ⟨hstatus, fun hret => ?_⟩
        rw [if_pos hret] at hr
        cases hr
      · cases h
    · obtain ⟨rfl, rfl⟩ := Prod.mk.inj (Option.some.inj h)
      split
      · exact .confirmed hmem htid fun hr => nomatch hr
      · exact .confirmed hmem htid fun hr => nomatch hr

/-- **What a call does.** -/
theorem step_of_exec {inp : Input} {op : Op} {r : Except QueueError op.Answer}
    (h : exec S i inp op w = some (r, w')) : Step S i op r w w' := by
  cases op with
  | receive c =>
    simp only [exec] at h
    split at h
    · cases h
    · rename_i hc
      obtain ⟨hqueue, -⟩ := not_or.mp hc
      obtain ⟨⟨p, msg⟩, hfind, h⟩ := Option.map_eq_some_iff.mp h
      obtain ⟨rfl, rfl⟩ := Prod.mk.inj h
      obtain rfl : p = .queue c.queue := by simpa using List.find?_some hfind
      exact .receive (not_not.mp hqueue) (List.mem_of_find?_eq_some hfind)
  | handler c msg =>
    simp only [exec] at h
    split at h <;> obtain ⟨rfl, rfl⟩ := Prod.mk.inj (Option.some.inj h)
    · exact .success
    · exact .failed
    · exact .failed
  | ack c msg =>
    rcases settle_cases (Option.some.inj h) with ⟨_, rfl, rfl⟩ | ⟨_, rfl, hm, rfl⟩ | ⟨_, rfl, _, rfl⟩
    · exact .failed
    · exact .acked hm
    · exact .closed rfl
  | nack c msg requeue =>
    rcases settle_cases (Option.some.inj h) with ⟨_, rfl, rfl⟩ | ⟨_, rfl, hm, rfl⟩ | ⟨_, rfl, _, rfl⟩
    · exact .failed
    · exact .nacked hm
    · exact .closed rfl
  | assertQueue c d =>
    simp only [exec] at h
    split at h
    · exact step_declare (Option.some.inj h)
    · obtain ⟨rfl, rfl⟩ := Prod.mk.inj (Option.some.inj h)
      exact .failed
  | publish c msg messageId routingKey headers content =>
    obtain ⟨rfl, rfl⟩ := Prod.mk.inj (Option.some.inj h)
    exact step_send
  | confirm c messageId => exact step_confirm h
  | accept queue messageId headers content =>
    simp only [exec] at h
    split at h
    · rename_i hq
      obtain ⟨rfl, rfl⟩ := Prod.mk.inj (Option.some.inj h)
      exact .accepted hq
    · cases h
  | expire queue =>
    simp only [exec] at h
    split at h
    · rename_i name ttl exchange key hfind
      obtain ⟨⟨p, msg⟩, hm, h⟩ := Option.map_eq_some_iff.mp h
      obtain ⟨rfl, rfl⟩ := Prod.mk.inj h
      obtain rfl : name = queue := by simpa using List.find?_some hfind
      obtain rfl : p = .queue name := by simpa using List.find?_some hm
      exact Step.expired (d := ⟨name, some ttl, exchange, key⟩) hfind rfl
        (List.mem_of_find?_eq_some hm)
    · cases h
  | basicReturn thread =>
    obtain ⟨u, hfind, h⟩ := Option.map_eq_some_iff.mp h
    obtain ⟨rfl, rfl⟩ := Prod.mk.inj h
    obtain ⟨rfl, hstatus⟩ : u.thread = thread ∧ u.status = .unroutable := by
      simpa using List.find?_some hfind
    exact .basicReturned (List.mem_of_find?_eq_some hfind) hstatus
  | lateReturn publisher messageId =>
    simp only [exec] at h
    split at h
    · obtain ⟨rfl, rfl⟩ := Prod.mk.inj (Option.some.inj h)
      exact .lateReturned
    · cases h
  | close channel =>
    obtain ⟨rfl, rfl⟩ := Prod.mk.inj (Option.some.inj h)
    exact .closed rfl
  | deleteQueue name =>
    simp only [exec] at h
    split at h
    · cases h
    · rename_i hno
      obtain ⟨hname, hempty⟩ := not_or.mp hno
      obtain ⟨rfl, rfl⟩ := Prod.mk.inj (Option.some.inj h)
      refine .deleted hname fun msg hm => hempty ?_
      exact List.any_eq_true.mpr ⟨_, hm, by simp⟩

/-! ### Where messages are -/

theorem mem_move {p p' : Place × Message} {queue : Option String}
    (h : p' ∈ (w.move p queue).messages) :
    p' ∈ w.messages ∨ ∃ name ∈ queue, p' = (.queue name, p.2) := by
  rcases List.mem_append.mp h with h | h
  · exact .inl (List.mem_of_mem_erase h)
  · obtain ⟨name, hname, rfl⟩ := Option.map_eq_some_iff.mp (Option.mem_toList.mp h)
    exact .inr ⟨name, hname, rfl⟩

theorem mem_close {p : Place × Message} {channel : Nat} (h : p ∈ (w.close channel).messages) :
    p ∈ w.messages ∨ ∃ c j, (.unacked c j, p.2) ∈ w.messages ∧ p.1 = .queue c.queue := by
  obtain ⟨⟨q, msg⟩, hp', rfl⟩ := List.mem_map.mp h
  cases q with
  | queue name => exact .inl hp'
  | unacked c j =>
    dsimp only
    split
    · exact .inr ⟨c, j, hp', rfl⟩
    · exact .inl hp'

/-- The place is a queue that is declared, or a channel that consumes a work queue. -/
def Place.Valid (S : Settings) (w : World) : Place → Prop
  | .queue name => w.declares name = true
  | .unacked c _ => c.queue ∈ workQueues S

/-- **The topology stands**, with retry tiers beside it, and every message is in it. -/
structure Sound (S : Settings) (w : World) : Prop where
  topology : ∀ d ∈ topology S, w.declared.find? (fun d' => d'.name = d.name) = some d
  declared : ∀ d ∈ w.declared, d ∈ LakiraBackend.Queue.topology S ∨
    ∃ queue ∈ workQueues S, ∃ delayMs, d = retryTier queue delayMs
  placed : ∀ p ∈ w.messages, p.1.Valid S w

theorem Sound.init : Sound S (World.init S) where
  topology := by
    simp [World.init, LakiraBackend.Queue.topology, workQueues, workQueue, QUEUES_PARKING]
  declared := fun _ h => .inl h
  placed := fun _ h => nomatch h

theorem World.declares_of_find {name : String} {d : QueueDeclaration}
    (h : w.declared.find? (fun d' => d'.name = name) = some d) : w.declares name = true := by
  refine List.any_eq_true.mpr ⟨d, List.mem_of_find?_eq_some h, ?_⟩
  simpa using List.find?_some h

theorem Sound.declares_workQueue (h : Sound S w) {queue : String} (hq : queue ∈ workQueues S) :
    w.declares queue = true :=
  World.declares_of_find (h.topology (workQueue S queue)
    (List.mem_append_left _ (List.mem_map_of_mem hq)))

theorem Sound.declares_parking (h : Sound S w) : w.declares (QUEUES_PARKING S) = true :=
  World.declares_of_find (h.topology ⟨QUEUES_PARKING S, none, none, none⟩
    (List.mem_append_right _ (List.mem_singleton.mpr rfl)))

/-- **A work queue dead-letters to parking.** -/
theorem Sound.deadLetter_workQueue (h : Sound S w) {queue : String} (hq : queue ∈ workQueues S) :
    w.deadLetterQueue S queue = some (QUEUES_PARKING S) := by
  have hfind := h.topology (workQueue S queue) (List.mem_append_left _ (List.mem_map_of_mem hq))
  have hne : EXCHANGES_PARKING S ≠ "" := by simp [EXCHANGES_PARKING]
  rw [workQueue] at hfind
  rw [World.deadLetterQueue, hfind]
  simp only [hne, if_false, if_true, Option.filter_some, h.declares_parking]

/-- **A queue with a time to live dead-letters to a work queue.** -/
theorem Sound.deadLetter_expiring (h : Sound S w) {d : QueueDeclaration}
    (hd : w.declared.find? (fun d' => d'.name = d.name) = some d) (httl : d.messageTtl.isSome) :
    ∃ queue ∈ workQueues S, w.deadLetterQueue S d.name = some queue := by
  rcases h.declared d (List.mem_of_find?_eq_some hd) with htop | ⟨queue, hq, delayMs, rfl⟩
  · rcases List.mem_append.mp htop with hwork | hpark
    · obtain ⟨queue, _, rfl⟩ := List.mem_map.mp hwork
      cases httl
    · obtain rfl := List.mem_singleton.mp hpark
      cases httl
  · refine ⟨queue, hq, ?_⟩
    rw [World.deadLetterQueue, hd]
    simp only [retryTier, if_true, Option.filter_some, h.declares_workQueue hq]

/-- A call declares nothing but retry tiers of work queues. -/
def DeclaresTiers (S : Settings) : Op → Prop
  | .assertQueue _ d => ∃ queue ∈ workQueues S, ∃ delayMs, d = retryTier queue delayMs
  | _ => True

/-- Where nothing but the messages changes. -/
theorem Sound.of_declared (h : Sound S w) (hd : w'.declared = w.declared)
    (hp : ∀ p ∈ w'.messages, p.1.Valid S w) : Sound S w' where
  topology := by rw [hd]; exact h.topology
  declared := by rw [hd]; exact h.declared
  placed := fun p hm => by
    have := hp p hm
    revert this
    cases p.1 with
    | queue name => rw [Place.Valid, Place.Valid, World.declares, World.declares, hd]; exact id
    | unacked c j => exact id

theorem Sound.move (h : Sound S w) {p : Place × Message} {queue : Option String}
    (hq : ∀ name ∈ queue, w.declares name = true) : Sound S (w.move p queue) := by
  refine h.of_declared rfl fun p' hp' => ?_
  rcases mem_move hp' with hp' | ⟨name, hname, rfl⟩
  · exact h.placed p' hp'
  · exact hq name hname

theorem Sound.add (h : Sound S w) {name content : String} {messageId : Option String}
    {headers : Headers} (hn : w.declares name = true) :
    ∀ p ∈ (w.add name messageId headers content).messages, p.1.Valid S w := by
  intro p hp
  rcases List.mem_append.mp hp with hp | hp
  · exact h.placed p hp
  · obtain rfl := List.mem_singleton.mp hp
    exact hn

theorem Sound.close (h : Sound S w) {channel : Nat} : Sound S (w.close channel) := by
  refine h.of_declared rfl fun p hp => ?_
  rcases mem_close hp with hp | ⟨c, j, hp, heq⟩
  · exact h.placed p hp
  · rw [heq]
    exact h.declares_workQueue (h.placed _ hp)

theorem Sound.step {op : Op} {r : Except QueueError op.Answer} (hop : DeclaresTiers S op)
    (h : Sound S w) (hs : Step S i op r w w') : Sound S w' := by
  cases hs with
  | receive hq hm =>
    refine h.of_declared rfl fun p hp => ?_
    rcases List.mem_append.mp hp with hp | hp
    · exact h.placed p (List.mem_of_mem_erase hp)
    · obtain rfl := List.mem_singleton.mp hp
      exact hq
  | closed _ => exact h.close
  | acked => exact h.move fun _ hname => nomatch hname
  | @nacked _ c msg requeue hm =>
    have hq : c.queue ∈ workQueues S := h.placed _ hm
    refine h.move fun name hname => ?_
    split at hname
    · obtain rfl := Option.mem_some.mp hname
      exact h.declares_workQueue hq
    · rw [h.deadLetter_workQueue hq] at hname
      obtain rfl := Option.mem_some.mp hname
      exact h.declares_parking
  | @declared _ c d hnot =>
    refine ⟨fun d' hd' => ?_, fun d' hd' => ?_, fun p hp => ?_⟩
    · rw [List.find?_append, h.topology d' hd']
      rfl
    · rcases List.mem_append.mp hd' with hd' | hd'
      · exact h.declared d' hd'
      · obtain rfl := List.mem_singleton.mp hd'
        exact .inr hop
    · have := h.placed p hp
      revert this
      cases p.1 with
      | queue name => intro hn; exact List.any_append.trans (Bool.or_eq_true_iff.mpr (.inl hn))
      | unacked c j => exact id
  | routed hd => exact h.of_declared rfl (h.add hd)
  | accepted hq => exact h.of_declared rfl (h.add (h.declares_workQueue hq))
  | expired hd httl hm =>
    obtain ⟨queue, hq, hdead⟩ := h.deadLetter_expiring hd httl
    refine h.move fun name hname => ?_
    rw [hdead] at hname
    obtain rfl := Option.mem_some.mp hname
    exact h.declares_workQueue hq
  | @deleted _ name hname hempty =>
    refine ⟨fun d hd => ?_, fun d hd => h.declared d (List.mem_of_mem_filter hd), fun p hp => ?_⟩
    · have hne : d.name ≠ name := fun heq => hname (heq ▸ List.mem_map_of_mem hd)
      rw [List.find?_filter]
      refine (List.find?_congr fun d' _ => ?_).trans (h.topology d hd)
      by_cases hd' : d'.name = d.name
      · simp [hd', hne]
      · simp [hd']
    · have hvalid := h.placed p hp
      obtain ⟨p, msg⟩ := p
      cases p with
      | queue name' =>
        have hne : name' ≠ name := fun heq => hempty msg (heq ▸ hp)
        obtain ⟨d, hd, heq⟩ := List.any_eq_true.mp hvalid
        refine List.any_eq_true.mpr ⟨d, List.mem_filter.mpr ⟨hd, ?_⟩, heq⟩
        have heq : d.name = name' := by simpa using heq
        simpa [heq] using hne
      | unacked c j => exact hvalid
  | _ => exact h.of_declared rfl h.placed

end LakiraBackend.Queue
