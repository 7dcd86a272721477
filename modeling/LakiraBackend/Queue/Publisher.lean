import LakiraBackend.Queue.RetryPolicy
import LakiraBackend.Concurrency.EventSystem

/-!
# `RabbitMQPublisher`

The publisher as an event system: calls of `publish`, what the broker and the channel do to
the messages of the calls, and the calls going on.  Any number of calls are open at once, and
a message id comes back once the call that had it is over.

A call that is over has had the right answer as long as no return comes in after its own call
is over: the id it leaves behind in `returned` is then taken for one of a later call.
-/

namespace LakiraBackend.Queue.Publisher

open LakiraBackend.Concurrency

/-! ### Messages -/

structure PublishOptions : Type where
  routingKey : String
  messageId : Option String
  headers : Option Headers
  deriving DecidableEq, Repr

/-- What `this.channel.publish` is called with. -/
structure Outgoing : Type where
  exchange : String
  routingKey : String
  content : String
  persistent : Bool
  mandatory : Bool
  contentType : String
  messageId : String
  headers : Option Headers
  deriving DecidableEq, Repr

def REQUEST_ID_HEADER : String := "x-request-id"

/-- `{ [REQUEST_ID_HEADER]: requestId, ...headers }`: a header the caller passes wins. -/
def withRequestId (requestId : String) (headers : Headers) : Headers :=
  if headers.any fun h => h.1 = REQUEST_ID_HEADER then headers
  else (REQUEST_ID_HEADER, .other (some requestId)) :: headers

def publishHeaders (requestId : Option String) (headers : Option Headers) : Option Headers :=
  match requestId with
  | none => headers
  | some id => if id = "" then headers else some (withRequestId id (headers.getD []))

/-- The message of a publish: `content` is `JSON.stringify(payload)`, `uuid` what `randomUUID`
gives, `requestId` what `requestIdStorage` holds. -/
def outgoing (exchange content : String) (options : PublishOptions) (requestId : Option String)
    (uuid : String) : Outgoing where
  exchange := exchange
  routingKey := options.routingKey
  content := content
  persistent := true
  mandatory := true
  contentType := "application/json"
  messageId := options.messageId.getD uuid
  headers := publishHeaders requestId options.headers

/-! ### Calls -/

/-- Why the channel rejects a publish. -/
inductive ChannelError : Type
  /-- No confirm within `PUBLISH_TIMEOUT_MS`. -/
  | timeout
  /-- The broker refused the message. -/
  | nack
  | closed
  deriving DecidableEq, Repr

inductive PublishError : Type
  | channel (e : ChannelError)
  /-- `UnroutableMessageError`. -/
  | unroutable (exchange routingKey : String)
  deriving DecidableEq, Repr

/-- Where a call of `publish` is. -/
inductive Phase : Type
  /-- It waits for the channel. -/
  | waiting
  /-- The channel's promise is settled, and the call has not gone on. -/
  | settled (rejected : Option ChannelError)
  /-- It has resolved, `none`, or failed. -/
  | ended (error : Option PublishError)
  deriving DecidableEq, Repr

/-- A call of `publish`.  `answered`, `inTime` and `wasReturned` are bookkeeping for the
properties: what the broker has done with its message. -/
structure Call : Type where
  message : Outgoing
  phase : Phase
  answered : Bool
  /-- The broker confirmed it while the call was waiting. -/
  inTime : Bool
  wasReturned : Bool
  deriving DecidableEq, Repr

def Call.isOpen (c : Call) : Bool :=
  match c.phase with
  | .ended _ => false
  | _ => true

/-- The channel's promise is settled, if it was not. -/
def Call.settle (c : Call) (rejected : Option ChannelError) : Call :=
  match c.phase with
  | .waiting => { c with phase := .settled rejected, inTime := rejected.isNone }
  | _ => c

structure State : Type where
  calls : List Call
  /-- Ids the broker returned, until the publish that sent each one reads it. -/
  returned : List String
  /-- False from a channel error until the channel connects again. -/
  available : Bool
  deriving DecidableEq, Repr

namespace State

variable (s : State)

/-- `isEnabled`, in an environment with the queue on or off. -/
def isEnabled (RABBITMQ_ENABLED : Bool) : Bool := RABBITMQ_ENABLED && s.available

/-- `this.returned.add`. -/
def addReturned (messageId : String) : List String :=
  if messageId ∈ s.returned then s.returned else s.returned ++ [messageId]

/-- `this.returned.delete`. -/
def deleteReturned (messageId : String) : List String := s.returned.filter fun id => id ≠ messageId

/-- A publish with the id is not over. -/
def isUsed (messageId : String) : Bool :=
  s.calls.any fun c => c.isOpen && c.message.messageId = messageId

/-- The call at `i` is now `c`. -/
def replace (i : Nat) (c : Call) (returned : List String) : State :=
  { s with calls := s.calls.set i c, returned := returned }

end State

/-- What the call makes of the settled promise. -/
def goOn (s : State) (i : Nat) (c : Call) : Option State :=
  let messageId := c.message.messageId
  match c.phase with
  | .settled (some e) =>
    some (s.replace i { c with phase := .ended (some (.channel e)) } (s.deleteReturned messageId))
  | .settled none =>
    if messageId ∈ s.returned then
      let error := .unroutable c.message.exchange c.message.routingKey
      some (s.replace i { c with phase := .ended (some error) } (s.deleteReturned messageId))
    else some (s.replace i { c with phase := .ended none } s.returned)
  | _ => none

/-! ### Events -/

inductive Event : Type
  | publish (exchange content : String) (options : PublishOptions) (requestId : Option String)
      (uuid : String)
  /-- The broker returns the message of the call: no queue is bound for it. -/
  | basicReturn (i : Nat)
  | confirm (i : Nat)
  | nack (i : Nat)
  /-- The channel gives the publish up. -/
  | reject (i : Nat) (e : ChannelError)
  /-- The call goes on after the channel's promise. -/
  | goOn (i : Nat)
  /-- `error` and `connect` of the channel. -/
  | error
  | connect
  deriving DecidableEq, Repr

def step (s : State) : Event → Option State
  | .publish exchange content options requestId uuid =>
    let message := outgoing exchange content options requestId uuid
    if s.isUsed message.messageId then none
    else some { s with calls := s.calls ++ [⟨message, .waiting, false, false, false⟩] }
  | .basicReturn i =>
    match s.calls[i]? with
    -- the return of a message comes before its confirm
    | some c =>
      if c.message.mandatory ∧ ¬ c.answered then
        some (s.replace i { c with wasReturned := true } (s.addReturned c.message.messageId))
      else none
    | none => none
  | .confirm i =>
    match s.calls[i]? with
    | some c =>
      if c.answered then none
      else some (s.replace i { c.settle none with answered := true } s.returned)
    | none => none
  | .nack i =>
    match s.calls[i]? with
    | some c =>
      if c.answered then none
      else some (s.replace i { c.settle (some .nack) with answered := true } s.returned)
    | none => none
  | .reject i e =>
    match s.calls[i]? with
    | some c =>
      if c.phase = .waiting then some (s.replace i (c.settle (some e)) s.returned) else none
    | none => none
  | .goOn i =>
    match s.calls[i]? with
    | some c => goOn s i c
    | none => none
  | .error => some { s with available := false }
  | .connect => some { s with available := true }

/-- The publisher of a process. -/
def system : EventSystem State Event := ⟨⟨[], [], true⟩, step⟩

/-! ### What a publish promises -/

structure Exact (s : State) : Prop where
  /-- A call resolves if and only if its message was confirmed in time and not returned. -/
  resolved : ∀ c ∈ s.calls, ∀ error, c.phase = .ended error →
    (error = none ↔ c.inTime ∧ ¬ c.wasReturned)
  /-- A return fails no other call. -/
  own : ∀ c ∈ s.calls, ∀ exchange routingKey,
    c.phase = .ended (some (.unroutable exchange routingKey)) → c.wasReturned
  /-- A returned id belongs to a call that is not over and was returned. -/
  tracked : ∀ id ∈ s.returned, ∃ c ∈ s.calls, c.isOpen ∧ c.message.messageId = id ∧ c.wasReturned

/-- No return comes in after its own call is over, unless its id is there already. -/
def OnTime (s : State) : Event → Prop
  | .basicReturn i => ∀ c, s.calls[i]? = some c → ¬ c.isOpen → c.message.messageId ∈ s.returned
  | _ => True

/-! ### The invariant -/

variable {s t : State} {i : Nat} {c d : Call} {r : List String} {id : String}

/-- What the phase of a call says of its message. -/
def Call.Sound (c : Call) : Prop :=
  match c.phase with
  | .waiting => c.answered = false ∧ c.inTime = false
  | .settled none => c.answered = true ∧ c.inTime = true
  | .settled (some _) => c.inTime = false
  | .ended none => c.answered = true ∧ c.inTime = true ∧ c.wasReturned = false
  | .ended (some (.unroutable _ _)) => c.wasReturned = true
  | .ended (some (.channel _)) => c.inTime = false

/-- The id is in `returned` on account of the call. -/
def Call.Holds (c : Call) (id : String) : Prop :=
  c.isOpen = true ∧ c.message.messageId = id ∧ c.wasReturned = true

structure Inv (s : State) : Prop where
  sound : ∀ c ∈ s.calls, c.Sound
  /-- Two open calls have two ids. -/
  distinct : ∀ (i j : Nat) (c d : Call), s.calls[i]? = some c → s.calls[j]? = some d →
    c.isOpen = true → d.isOpen = true → c.message.messageId = d.message.messageId → i = j
  tracked : ∀ id, id ∈ s.returned ↔ ∃ c ∈ s.calls, c.Holds id

theorem Call.Sound.resolved {error : Option PublishError} (h : c.Sound)
    (hp : c.phase = .ended error) : error = none ↔ c.inTime ∧ ¬ c.wasReturned := by
  rw [Call.Sound, hp] at h
  rcases error with _ | ⟨e⟩ | ⟨exchange, routingKey⟩
  · simp [h]
  · simp [h]
  · simp [h]

theorem Inv.exact (h : Inv s) : Exact s where
  resolved := fun c hc _ hp => (h.sound c hc).resolved hp
  own := by
    intro c hc exchange routingKey hp
    have hs := h.sound c hc
    rwa [Call.Sound, hp] at hs
  tracked := by
    intro id hid
    obtain ⟨c, hc, ho, hm, hr⟩ := (h.tracked id).mp hid
    exact ⟨c, hc, ho, hm, hr⟩

theorem Inv.init : Inv system.init where
  sound := by
    intro c hc
    cases hc
  distinct := by
    intro i j c d hi
    simp [system] at hi
  tracked := by
    intro id
    simp [system]

/-! ### One call changes -/

theorem mem_replace (hi : s.calls[i]? = some c) {e : Call} :
    e ∈ (s.replace i d r).calls ↔ e = d ∨ ∃ j, j ≠ i ∧ s.calls[j]? = some e := by
  rw [List.mem_iff_getElem?]
  constructor
  · rintro ⟨j, hj⟩
    rcases of_getElem?_set hi hj with ⟨_, he⟩ | ⟨hji, hj⟩
    · exact Or.inl he
    · exact Or.inr ⟨j, hji, hj⟩
  · rintro (rfl | ⟨j, hji, hj⟩)
    · exact ⟨i, (getElem?_set_of_some hi e i).trans (if_pos rfl)⟩
    · exact ⟨j, (getElem?_set_of_some hi d j).trans ((if_neg fun h => hji h.symm).trans hj)⟩

/-- One call changes: its id stays, it does not open again, and `returned` follows what the
call holds. -/
theorem Inv.replace (h : Inv s) (hi : s.calls[i]? = some c)
    (hid : d.message = c.message) (hopen : d.isOpen = true → c.isOpen = true) (hd : d.Sound)
    (hr : ∀ id, id ∈ r ↔ d.Holds id ∨ id ∈ s.returned ∧ ¬ c.Holds id) :
    Inv (s.replace i d r) where
  sound := by
    intro e he
    rcases (mem_replace hi).mp he with rfl | ⟨j, _, hj⟩
    · exact hd
    · exact h.sound e (List.mem_of_getElem? hj)
  distinct := by
    intro j k a b hj hk ha hb hab
    -- a call that changed stands for the one it was
    have back : ∀ {n : Nat} {e : Call}, (s.replace i d r).calls[n]? = some e →
        e.isOpen = true → ∃ e', s.calls[n]? = some e' ∧ e'.isOpen = true ∧
          e'.message.messageId = e.message.messageId := by
      intro n e hn he
      rcases of_getElem?_set hi hn with ⟨rfl, rfl⟩ | ⟨_, hn⟩
      · exact ⟨c, hi, hopen he, by rw [hid]⟩
      · exact ⟨e, hn, he, rfl⟩
    obtain ⟨a', hj', ha', haid⟩ := back hj ha
    obtain ⟨b', hk', hb', hbid⟩ := back hk hb
    exact h.distinct j k a' b' hj' hk' ha' hb' (haid.trans (hab.trans hbid.symm))
  tracked := by
    intro id
    change id ∈ r ↔ _
    rw [hr]
    constructor
    · rintro (hh | ⟨hmem, hno⟩)
      · exact ⟨d, (mem_replace hi).mpr (Or.inl rfl), hh⟩
      · obtain ⟨e, he, heh⟩ := (h.tracked id).mp hmem
        obtain ⟨j, hj⟩ := List.mem_iff_getElem?.mp he
        have hji : j ≠ i := by
          rintro rfl
          rw [hi] at hj
          exact hno (Option.some.inj hj ▸ heh)
        exact ⟨e, (mem_replace hi).mpr (Or.inr ⟨j, hji, hj⟩), heh⟩
    · rintro ⟨e, he, heh⟩
      rcases (mem_replace hi).mp he with rfl | ⟨j, hji, hj⟩
      · exact Or.inl heh
      · refine Or.inr ⟨(h.tracked id).mpr ⟨e, List.mem_of_getElem? hj, heh⟩, ?_⟩
        intro hch
        exact hji (h.distinct j i e c hj hi heh.1 hch.1 (heh.2.1.trans hch.2.1.symm))

/-! ### Steps -/

@[simp] theorem Call.message_settle {e : Option ChannelError} :
    (c.settle e).message = c.message := by
  unfold settle
  split <;> rfl

@[simp] theorem Call.isOpen_settle {e : Option ChannelError} :
    (c.settle e).isOpen = c.isOpen := by
  unfold settle
  split
  · rename_i hp
    simp [isOpen, hp]
  · rfl

@[simp] theorem Call.wasReturned_settle {e : Option ChannelError} :
    (c.settle e).wasReturned = c.wasReturned := by
  unfold settle
  split <;> rfl

/-- The broker answers, or the channel gives up: what is returned stays as it is. -/
theorem Inv.keep (h : Inv s) (hi : s.calls[i]? = some c) (hm : d.message = c.message)
    (ho : d.isOpen = c.isOpen) (hw : d.wasReturned = c.wasReturned) (hd : d.Sound) :
    Inv (s.replace i d s.returned) := by
  refine h.replace hi hm (fun hopen => ho ▸ hopen) hd fun id => ?_
  have hiff : d.Holds id ↔ c.Holds id := by rw [Call.Holds, Call.Holds, hm, ho, hw]
  rw [hiff]
  constructor
  · intro hid
    by_cases hc : c.Holds id
    · exact Or.inl hc
    · exact Or.inr ⟨hid, hc⟩
  · rintro (hc | ⟨hid, _⟩)
    · exact (h.tracked id).mpr ⟨c, List.mem_of_getElem? hi, hc⟩
    · exact hid

/-- An answer in time settles the promise; a late one finds it settled. -/
theorem Call.Sound.answer {e : Option ChannelError} (h : c.Sound) (hc : c.answered = false) :
    Call.Sound { c.settle e with answered := true } := by
  obtain ⟨message, phase, answered, inTime, wasReturned⟩ := c
  obtain rfl : answered = false := hc
  rcases phase with _ | (_ | e') | (_ | ⟨e'⟩ | ⟨exchange, routingKey⟩)
  · cases e with
    | none => exact ⟨rfl, rfl⟩
    | some e => exact (rfl : (some e).isNone = false)
  · exact absurd h.1 Bool.false_ne_true
  · exact h
  · exact absurd h.1 Bool.false_ne_true
  · exact h
  · exact h

theorem Inv.answer {e : Option ChannelError} (h : Inv s) (hi : s.calls[i]? = some c)
    (hc : c.answered = false) :
    Inv (s.replace i { c.settle e with answered := true } s.returned) :=
  h.keep hi Call.message_settle Call.isOpen_settle Call.wasReturned_settle
    ((h.sound c (List.mem_of_getElem? hi)).answer hc)

theorem Inv.reject {e : ChannelError} (h : Inv s) (hi : s.calls[i]? = some c)
    (hp : c.phase = .waiting) : Inv (s.replace i (c.settle (some e)) s.returned) := by
  refine h.keep hi Call.message_settle Call.isOpen_settle Call.wasReturned_settle ?_
  rw [Call.settle, hp]
  exact (rfl : (some e).isNone = false)

/-- A return in time is held for its own call. -/
theorem Call.Sound.returned (h : c.Sound) (hc : c.answered = false) :
    Call.Sound { c with wasReturned := true } := by
  obtain ⟨message, phase, answered, inTime, wasReturned⟩ := c
  obtain rfl : answered = false := hc
  rcases phase with _ | (_ | e') | (_ | ⟨e'⟩ | ⟨exchange, routingKey⟩)
  · exact h
  · exact h
  · exact h
  · exact absurd h.1 Bool.false_ne_true
  · exact h
  · exact (rfl : true = true)

theorem mem_addReturned {messageId : String} :
    id ∈ s.addReturned messageId ↔ id = messageId ∨ id ∈ s.returned := by
  unfold State.addReturned
  split
  · rename_i hmem
    constructor
    · exact Or.inr
    · rintro (rfl | hid)
      · exact hmem
      · exact hid
  · rw [List.mem_append, List.mem_singleton, or_comm]

theorem Inv.basicReturn (h : Inv s) (hi : s.calls[i]? = some c) (hc : c.answered = false)
    (hok : c.isOpen = false → c.message.messageId ∈ s.returned) :
    Inv (s.replace i { c with wasReturned := true } (s.addReturned c.message.messageId)) := by
  have hsound := (h.sound c (List.mem_of_getElem? hi)).returned hc
  refine h.replace hi rfl (fun hopen => hopen) hsound fun id => ?_
  rw [mem_addReturned]
  cases ho : c.isOpen with
  | true =>
      have hd : Call.Holds { c with wasReturned := true } id ↔ id = c.message.messageId :=
        ⟨fun hh => hh.2.1.symm, fun he => ⟨ho, he.symm, rfl⟩⟩
      rw [hd]
      constructor
      · rintro (he | hid)
        · exact Or.inl he
        · by_cases he : id = c.message.messageId
          · exact Or.inl he
          · exact Or.inr ⟨hid, fun hh => he hh.2.1.symm⟩
      · rintro (he | ⟨hid, _⟩)
        · exact Or.inl he
        · exact Or.inr hid
  | false =>
      have hd : ¬ Call.Holds { c with wasReturned := true } id :=
        fun hh => absurd (ho.symm.trans hh.1) Bool.false_ne_true
      have hn : ¬ c.Holds id := fun hh => absurd (ho.symm.trans hh.1) Bool.false_ne_true
      constructor
      · rintro (rfl | hid)
        · exact Or.inr ⟨hok ho, hn⟩
        · exact Or.inr ⟨hid, hn⟩
      · rintro (hh | ⟨hid, _⟩)
        · exact absurd hh hd
        · exact Or.inr hid

/-- A call is over: it takes its own id with it. -/
theorem Inv.finish (h : Inv s) (hi : s.calls[i]? = some c) (ho : c.isOpen = true)
    (hm : d.message = c.message) (hd : d.isOpen = false) (hsound : d.Sound)
    (hr : ∀ id, id ∈ r ↔ id ∈ s.returned ∧ id ≠ c.message.messageId) : Inv (s.replace i d r) := by
  have hclosed : d.isOpen = true → False :=
    fun hopen => absurd (hd.symm.trans hopen) Bool.false_ne_true
  refine h.replace hi hm (fun hopen => (hclosed hopen).elim) hsound fun id => ?_
  rw [hr]
  constructor
  · rintro ⟨hid, hne⟩
    exact Or.inr ⟨hid, fun hh => hne hh.2.1.symm⟩
  · rintro (hh | ⟨hid, hno⟩)
    · exact (hclosed hh.1).elim
    · refine ⟨hid, ?_⟩
      rintro rfl
      -- the call that holds the id is open, and the only open one with it
      obtain ⟨e, he, heh⟩ := (h.tracked _).mp hid
      obtain ⟨j, hj⟩ := List.mem_iff_getElem?.mp he
      obtain rfl := h.distinct j i e c hj hi heh.1 ho heh.2.1
      rw [hi] at hj
      exact hno (Option.some.inj hj ▸ heh)

theorem mem_deleteReturned {messageId : String} :
    id ∈ s.deleteReturned messageId ↔ id ∈ s.returned ∧ id ≠ messageId := by
  simp [State.deleteReturned]

theorem Inv.goOn (h : Inv s) (hi : s.calls[i]? = some c) (ht : goOn s i c = some t) : Inv t := by
  have hs := h.sound c (List.mem_of_getElem? hi)
  unfold Publisher.goOn at ht
  cases hp : c.phase with
  | waiting =>
      rw [hp] at ht
      cases ht
  | ended error =>
      rw [hp] at ht
      cases ht
  | settled rejected =>
      have ho : c.isOpen = true := by rw [Call.isOpen, hp]
      rw [Call.Sound, hp] at hs
      rw [hp] at ht
      cases rejected with
      | some e =>
          cases ht
          exact h.finish hi ho rfl rfl hs fun id => mem_deleteReturned
      | none =>
          simp only at ht
          split at ht
          · rename_i hmem
            cases ht
            -- what is there under the call's id is its own return
            obtain ⟨e, he, heh⟩ := (h.tracked _).mp hmem
            obtain ⟨j, hj⟩ := List.mem_iff_getElem?.mp he
            obtain rfl := h.distinct j i e c hj hi heh.1 ho heh.2.1
            obtain rfl : c = e := Option.some.inj (hi.symm.trans hj)
            exact h.finish hi ho rfl rfl heh.2.2 fun id => mem_deleteReturned
          · rename_i hmem
            cases ht
            have hw : c.wasReturned = false := by
              cases hw : c.wasReturned with
              | false => rfl
              | true =>
                  exact absurd ((h.tracked _).mpr ⟨c, List.mem_of_getElem? hi, ho, rfl, hw⟩) hmem
            refine h.finish hi ho rfl rfl ⟨hs.1, hs.2, hw⟩ fun id => ?_
            exact ⟨fun hid => ⟨hid, fun he => hmem (he ▸ hid)⟩, And.left⟩

theorem Inv.publish {message : Outgoing} (h : Inv s) (hu : s.isUsed message.messageId = false) :
    Inv { s with calls := s.calls ++ [⟨message, .waiting, false, false, false⟩] } := by
  have hnew : ∀ e ∈ s.calls, e.isOpen = true → e.message.messageId ≠ message.messageId := by
    intro e he ho hm
    have hused : s.isUsed message.messageId = true :=
      List.any_eq_true.mpr ⟨e, he, by simp [ho, hm]⟩
    exact absurd (hu.symm.trans hused) Bool.false_ne_true
  constructor
  · intro e he
    rcases List.mem_append.mp he with he | he
    · exact h.sound e he
    · obtain rfl := List.mem_singleton.mp he
      exact ⟨rfl, rfl⟩
  · intro j k a b hj hk ha hb hab
    rcases of_getElem?_concat hj with hj | ⟨rfl, rfl⟩ <;>
      rcases of_getElem?_concat hk with hk | ⟨rfl, rfl⟩
    · exact h.distinct j k a b hj hk ha hb hab
    · exact absurd hab (hnew a (List.mem_of_getElem? hj) ha)
    · exact absurd hab.symm (hnew b (List.mem_of_getElem? hk) hb)
    · rfl
  · intro id
    constructor
    · intro hid
      obtain ⟨e, he, heh⟩ := (h.tracked id).mp hid
      exact ⟨e, List.mem_append_left _ he, heh⟩
    · rintro ⟨e, he, heh⟩
      rcases List.mem_append.mp he with he | he
      · exact (h.tracked id).mpr ⟨e, he, heh⟩
      · obtain rfl := List.mem_singleton.mp he
        exact absurd heh.2.2 Bool.false_ne_true

/-- What an event of the call at `i` needs: a call there. -/
theorem of_call {f : Call → Option State}
    (h : (match s.calls[i]? with | some c => f c | none => none) = some t) :
    ∃ c, s.calls[i]? = some c ∧ f c = some t := by
  cases hi : s.calls[i]? with
  | none =>
      rw [hi] at h
      cases h
  | some c =>
      rw [hi] at h
      exact ⟨c, rfl, h⟩

theorem Inv.step (e : Event) (h : Inv s) (hok : OnTime s e) (ht : step s e = some t) : Inv t := by
  cases e with
  | publish exchange content options requestId uuid =>
      simp only [Publisher.step] at ht
      split at ht
      · cases ht
      · rename_i hu
        cases ht
        exact h.publish (eq_false_of_ne_true hu)
  | basicReturn i =>
      obtain ⟨c, hi, hc⟩ := of_call ht
      split at hc
      · rename_i hguard
        cases hc
        refine h.basicReturn hi (eq_false_of_ne_true hguard.2) fun ho => ?_
        exact hok c hi (by rw [ho]; exact Bool.false_ne_true)
      · cases hc
  | confirm i =>
      obtain ⟨c, hi, hc⟩ := of_call ht
      split at hc
      · cases hc
      · rename_i ha
        cases hc
        exact h.answer hi (eq_false_of_ne_true ha)
  | nack i =>
      obtain ⟨c, hi, hc⟩ := of_call ht
      split at hc
      · cases hc
      · rename_i ha
        cases hc
        exact h.answer hi (eq_false_of_ne_true ha)
  | reject i e =>
      obtain ⟨c, hi, hc⟩ := of_call ht
      split at hc
      · rename_i hp
        cases hc
        exact h.reject hi hp
      · cases hc
  | goOn i =>
      obtain ⟨c, hi, hc⟩ := of_call ht
      exact h.goOn hi hc
  | error =>
      cases ht
      exact ⟨h.sound, h.distinct, h.tracked⟩
  | connect =>
      cases ht
      exact ⟨h.sound, h.distinct, h.tracked⟩

/-- A late return of an id that is not there leaves it there for no call. -/
theorem Inv.onTime (e : Event) (h : Inv s) (ht : Publisher.step s e = some t) (hE : Exact t) :
    OnTime s e := by
  cases e with
  | basicReturn i =>
      intro c hi ho
      obtain ⟨c', hi', hc⟩ := of_call ht
      obtain rfl : c = c' := Option.some.inj (hi.symm.trans hi')
      split at hc
      · cases hc
        obtain ⟨e, he, heo, hem, her⟩ := hE.tracked c.message.messageId
          (mem_addReturned.mpr (Or.inl rfl))
        rcases (mem_replace hi).mp he with rfl | ⟨j, _, hj⟩
        · exact absurd heo ho
        · exact (h.tracked _).mpr ⟨e, List.mem_of_getElem? hj, heo, hem, her⟩
      · cases hc
  | _ => trivial

/-- **A call resolves if and only if its own message was confirmed in time and not returned, a
return fails no other call, and no id outlives its call, in every state of exactly those runs
in which no return comes in after its own call is over** (or the id is there already, of a
later call that was itself returned). -/
theorem exact_iff_onTime (events : List Event) :
    system.Always Exact events ↔ system.Meets OnTime events :=
  EventSystem.always_iff_meets Inv.init (fun _ e _ h hok ht => h.step e hok ht)
    (fun _ h => h.exact) (fun _ e _ h ht hE => h.onTime e ht hE) events

/-! ### A return that comes late -/

/-- A retry copy: it carries the id of the message that failed. -/
def retryOptions : PublishOptions := ⟨"lakira.auth.send-invite-email.retry.1000", some "job", none⟩

/-- The first publish times out.  Its message comes back while the second is on its way. -/
def lateReturn : List Event :=
  [.publish "" "\x7b\x7d" retryOptions none "", .reject 0 .timeout, .goOn 0,
    .publish "" "\x7b\x7d" retryOptions none "", .basicReturn 0, .confirm 1, .goOn 1]

/-- The second publish is confirmed in time and never returned, and fails. -/
theorem lateReturn_fails_later : ¬ system.Always Exact lateReturn := by
  intro h
  have hs : ∃ s, system.run lateReturn = some s ∧ ∃ c, s.calls[1]? = some c ∧
      c.phase = .ended (some (.unroutable "" "lakira.auth.send-invite-email.retry.1000")) ∧
      c.wasReturned = false := ⟨_, rfl, _, rfl, rfl, rfl⟩
  obtain ⟨s, hs, c, hc, hp, hw⟩ := hs
  have hown := (h.last hs).own c (List.mem_of_getElem? hc) _ _ hp
  exact absurd (hw.symm.trans hown) Bool.false_ne_true

end LakiraBackend.Queue.Publisher
