import LakiraBackend.Queue.Steps
import LakiraBackend.Concurrency.History

/-!
# How a delivery is settled

The preconditions of the calls a delivery makes: it settles once, what it holds; it
acknowledges what was handled, or what its one copy was confirmed of; it refuses
without requeueing; and it publishes the copy the policy decides, to a tier it has
declared.  `consume` meets them, whatever the broker and the other deliveries do
(`legal_of_reachable`).
-/

namespace LakiraBackend.Queue

open LakiraBackend.Concurrency

/-! ### What an event is -/

/-- The call is a settlement that was answered. -/
def settlement : (op : Op) → Except QueueError op.Answer → Bool
  | .ack _ _, .ok _ => true
  | .nack _ _ _, .ok _ => true
  | _, _ => false

def settled (e : QueueEvent) : Bool :=
  match e.act with
  | .call op r => settlement op r
  | .crash => false

/-- The consumer that tries to settle its message. -/
def attempt (e : QueueEvent) : Option Consumer :=
  match e.act with
  | .call (.ack c _) _ => some c
  | .call (.nack c _ _) _ => some c
  | _ => none

/-- A handler has ended, whatever with. -/
def handlerEnds (e : QueueEvent) : Bool :=
  match e.act with
  | .call (.handler _ _) _ => true
  | _ => false

def handles (msg : Message) (e : QueueEvent) : Bool :=
  match e.act with
  | .call (.handler _ m) (.ok _) => m = msg
  | _ => false

/-- What is published: for which consumer, a copy of what, under which id. -/
def published (e : QueueEvent) : Option (Consumer × Message × String) :=
  match e.act with
  | .call (.publish c msg messageId _ _ _) _ => some (c, msg, messageId)
  | _ => none

/-- A publish ends well. -/
def confirms (e : QueueEvent) : Bool :=
  match e.act with
  | .call (.confirm _ _) (.ok _) => true
  | _ => false

def declares (c : Consumer) (d : QueueDeclaration) (e : QueueEvent) : Bool :=
  match e.act with
  | .call (.assertQueue c' d') (.ok _) => c' = c ∧ d' = d
  | _ => false

/-- The message that comes into the world. -/
def created (e : QueueEvent) : Option Message :=
  match e.act with
  | .call (.accept _ messageId headers content) (.ok _) =>
    some ⟨e.before.next, messageId, headers, content⟩
  | .call (.publish _ _ messageId _ headers content) (.ok _) =>
    if e.before.next < e.after.next then some ⟨e.before.next, some messageId, headers, content⟩ else none
  | _ => none

/-! ### What a thread has done -/

def Unsettled (l : List QueueEvent) : Prop := ∀ e ∈ l, settled e = false

def Unpublished (l : List QueueEvent) : Prop := ∀ e ∈ l, published e = none

/-- Nothing was published but this. -/
def OnlyCopies (x : Consumer × Message × String) (l : List QueueEvent) : Prop :=
  ∀ e ∈ l, ∀ y, published e = some y → y = x

def Handled (msg : Message) (l : List QueueEvent) : Prop := ∃ e ∈ l, handles msg e = true

def Confirmed (l : List QueueEvent) : Prop := ∃ e ∈ l, confirms e = true

def Attempted (c : Consumer) (l : List QueueEvent) : Prop := ∃ e ∈ l, attempt e = some c

def Unhandled (l : List QueueEvent) : Prop := ∀ e ∈ l, handlerEnds e = false

/-- The message came into the world. -/
def Made (msg : Message) (hist : List QueueEvent) : Prop := ∃ e ∈ hist, created e = some msg

/-- The consumer has the message, unless its channel has died. -/
def Holding (w : World) (i : Nat) (c : Consumer) (msg : Message) : Prop :=
  c.channel ∈ w.closed ∨ (.unacked c i, msg) ∈ w.messages

/-- The copy is what the policy decides for the message, and its tier was declared. -/
def Decided (S : Settings) (c : Consumer) (msg : Message) (routingKey : String) (headers : Headers)
    (l : List QueueEvent) : Prop :=
  ∃ error count next delayMs, readRetryCount msg.headers = some count ∧
    decideOnFailure S error count = .retry next delayMs ∧
    routingKey = retryQueueFor c.queue delayMs ∧
    headers = msg.headers.set RETRY_COUNT_HEADER (.number next) ∧
    ∃ e ∈ l, declares c (retryTier c.queue delayMs) e = true

def queuePre (S : Settings) : Nat → Request → Op → QueueState → Prop := fun i _ op s => match op with
  | .ack c msg => Holding s.world i c msg ∧ Unsettled (own i s.hist) ∧
      (Handled msg (own i s.hist) ∨
        Confirmed (own i s.hist) ∧ ∃ messageId, OnlyCopies (c, msg, messageId) (own i s.hist))
  | .nack c msg requeue => requeue = false ∧ Holding s.world i c msg ∧ Unsettled (own i s.hist)
  | .assertQueue c d => c.queue ∈ workQueues S ∧ ∃ delayMs, d = retryTier c.queue delayMs
  | .publish c msg messageId routingKey headers content => Unpublished (own i s.hist) ∧
      Made msg s.hist ∧ msg.messageId = some messageId ∧
      S.reserialize msg.content = some content ∧ Decided S c msg routingKey headers (own i s.hist)
  | .confirm c messageId => ∃ msg, OnlyCopies (c, msg, messageId) (own i s.hist)
  | _ => True

abbrev queueContract (S : Settings) : Contract (queueMachine S) :=
  Contract.guarded (queueMachine S) (fun w => w = World.init S) (queuePre S)

abbrev LegalQueue (S : Settings) (hist : List QueueEvent) : Prop :=
  Legal (queueMachine S) (queuePre S) (World.init S) hist

variable {S : Settings} {i j : Nat} {q : Request} {s : QueueState} {w w' : World} {c : Consumer}
  {msg : Message} {hist past l : List QueueEvent} {e : QueueEvent}

/-! ### Facts of a run -/

/-- An entry is a call that steps, or a crash. -/
theorem step_of_obeys (h : Obeys (queueMachine S) (queuePre S) e past) :
    (∃ op r, e.act = .call op r ∧ queuePre S e.tid e.req op ⟨e.before, past⟩ ∧
      Step S e.tid op r e.before e.after) ∨
    (e.act = .crash ∧ e.after = e.before.crash e.tid) := by
  unfold Obeys at h
  split at h
  · rename_i op r ha
    obtain ⟨hpre, inp, hexec⟩ := h
    exact .inl ⟨op, r, ha, hpre, step_of_exec hexec⟩
  · rename_i ha
    exact .inr ⟨ha, h⟩

theorem created_publish {messageId routingKey content : String} {headers : Headers} :
    created ⟨i, q, .call (.publish c msg messageId routingKey headers content) (.ok ()), w, w'⟩ =
      if w.next < w'.next then some ⟨w.next, some messageId, headers, content⟩ else none := rfl

/-- A message is one that was there, or comes into the world. -/
theorem Step.message {op : Op} {r : Except QueueError op.Answer} (h : Step S i op r w w')
    {p : Place × Message} (hp : p ∈ w'.messages) :
    (∃ p' ∈ w.messages, p'.2 = p.2) ∨ created ⟨i, q, .call op r, w, w'⟩ = some p.2 := by
  have hmove : ∀ {p' queue}, p' ∈ w.messages → p ∈ (w.move p' queue).messages →
      ∃ p' ∈ w.messages, p'.2 = p.2 := by
    intro p' queue hp' hp
    rcases mem_move hp with hp | ⟨name, _, rfl⟩
    · exact ⟨p, hp, rfl⟩
    · exact ⟨p', hp', rfl⟩
  cases h with
  | receive _ hm =>
    rcases List.mem_append.mp hp with hp | hp
    · exact .inl ⟨p, List.mem_of_mem_erase hp, rfl⟩
    · obtain rfl := List.mem_singleton.mp hp
      exact .inl ⟨_, hm, rfl⟩
  | closed _ =>
    rcases mem_close hp with hp | ⟨c, j, hp, _⟩
    · exact .inl ⟨p, hp, rfl⟩
    · exact .inl ⟨_, hp, rfl⟩
  | acked hm => exact .inl (hmove hm hp)
  | nacked hm => exact .inl (hmove hm hp)
  | routed _ =>
    rcases List.mem_append.mp hp with hp | hp
    · exact .inl ⟨p, hp, rfl⟩
    · obtain rfl := List.mem_singleton.mp hp
      exact .inr (if_pos (Nat.lt_succ_self _))
  | accepted _ =>
    rcases List.mem_append.mp hp with hp | hp
    · exact .inl ⟨p, hp, rfl⟩
    · obtain rfl := List.mem_singleton.mp hp
      exact .inr rfl
  | expired _ _ hm => exact .inl (hmove hm hp)
  | _ => exact .inl ⟨p, hp, rfl⟩

theorem Made.cons (h : Made msg hist) : Made msg (e :: hist) := by
  obtain ⟨e', he', hc⟩ := h
  exact ⟨e', List.mem_cons_of_mem e he', hc⟩

/-- Every message there is came into the world. -/
theorem made_of_legal (h : LegalQueue S hist) :
    ∀ p ∈ (worldAfter (World.init S) hist).messages, Made p.2 hist := by
  refine h.invariant (P := fun hist w => ∀ p ∈ w.messages, Made p.2 hist) (fun _ h => absurd h List.not_mem_nil)
    fun e past hl hpast p hp => ?_
  obtain ⟨i, q, act, w, w'⟩ := e
  rcases step_of_obeys hl.2.1 with ⟨op, r, rfl, _, hstep⟩ | ⟨_, hcrash⟩
  · rcases hstep.message (q := q) hp with ⟨p', hp', heq⟩ | hc
    · exact heq ▸ (hpast p' hp').cons
    · exact ⟨_, List.mem_cons_self, hc⟩
  · obtain rfl : w' = w.crash i := hcrash
    exact (hpast p hp).cons

/-- A message is not taken from a consumer but by its own settlement. -/
theorem Holding.step {op : Op} {r : Except QueueError op.Answer} (h : Holding w i c msg)
    (hstep : Step S j op r w w') (hj : j ≠ i ∨ settlement op r = false) : Holding w' i c msg := by
  rcases h with h | h
  · cases hstep with
    | closed _ => exact .inl (List.mem_cons_of_mem _ h)
    | _ => exact .inl h
  · have herase : ∀ {p : Place × Message}, p ≠ (.unacked c i, msg) →
        (.unacked c i, msg) ∈ w.messages.erase p := fun hne =>
      (List.mem_erase_of_ne hne.symm).mpr h
    have hne : ∀ {c' : Consumer} {msg' : Message}, j ≠ i →
        ((.unacked c' j, msg') : Place × Message) ≠ (.unacked c i, msg) := fun hj heq =>
      hj (Place.unacked.inj (Prod.mk.inj heq).1).2
    cases hstep with
    | receive _ _ => exact .inr (List.mem_append_left _ (herase nofun))
    | @closed _ op r channel _ =>
      by_cases hc : c.channel = channel
      · exact .inl (List.mem_cons.mpr (.inl hc))
      · exact .inr (List.mem_map.mpr ⟨_, h, if_neg hc⟩)
    | acked _ =>
      rcases hj with hj | hj
      · exact .inr (List.mem_append_left _ (herase (hne hj)))
      · cases hj
    | nacked _ =>
      rcases hj with hj | hj
      · exact .inr (List.mem_append_left _ (herase (hne hj)))
      · cases hj
    | routed _ => exact .inr (List.mem_append_left _ h)
    | accepted _ => exact .inr (List.mem_append_left _ h)
    | expired _ _ _ => exact .inr (List.mem_append_left _ (herase nofun))
    | _ => exact .inr h

/-! ### The thread of a delivery -/

/-- The delivery has its message, and has done what `P` says. -/
def At (i : Nat) (c : Consumer) (msg : Message) (P : List QueueEvent → Prop) (s : QueueState) : Prop :=
  Holding s.world i c msg ∧ Made msg s.hist ∧ P (own i s.hist)

theorem stable_at (P : List QueueEvent → Prop) : (queueContract S).Stable i (At i c msg P) := by
  intro s t hst ⟨hold, hmade, hP⟩
  refine ⟨?_, Contract.Stable.mem_hist i _ hst hmade, Contract.stable_own P hst hP⟩
  cases hst with
  | call hj _ _ he => exact hold.step (step_of_exec he) (.inl hj)
  | crash _ _ => exact hold

theorem At.mono {P Q : List QueueEvent → Prop} (hPQ : ∀ l, P l → Q l) (h : At i c msg P s) :
    At i c msg Q s := ⟨h.1, h.2.1, hPQ _ h.2.2⟩

/-- A call that settles nothing. -/
theorem wp_at {P : List QueueEvent → Prop} (op : Op) {Q : op.Answer → List QueueEvent → Prop}
    {E : QueueError → List QueueEvent → Prop} (hs : At i c msg P s)
    (hkeep : ∀ r, settlement op r = false) (hpre : ∀ t, At i c msg P t → queuePre S i q op t)
    (hok : ∀ a w w' l, P l → Q a (⟨i, q, .call op (.ok a), w, w'⟩ :: l))
    (herr : ∀ e w w' l, P l → E e (⟨i, q, .call op (.error e), w, w'⟩ :: l)) :
    (queueContract S).wp i q (Prog.await op) (fun a t => At i c msg (Q a) t)
      (fun e t => At i c msg (E e) t) s := by
  refine Contract.wp_await (stable_at P) hs (fun t _ ht => hpre t ht) (fun t _ a w _ ht he => ?_)
    fun t _ e w _ ht he => ?_
  all_goals
    refine ⟨ht.1.step (step_of_exec he) (.inr (hkeep _)), ht.2.1.cons, ?_⟩
    rw [own_push]
  · exact hok a _ _ _ ht.2.2
  · exact herr e _ _ _ ht.2.2

/-- A settlement: if it throws, it has changed nothing. -/
theorem wp_settle {P : List QueueEvent → Prop} {op : Op} {Q : op.Answer → QueueState → Prop}
    {E : QueueError → QueueState → Prop} (hs : At i c msg P s)
    (hpre : ∀ t, At i c msg P t → queuePre S i q op t)
    (hok : ∀ t a w, At i c msg P t → Q a (t.push i q (.call op (.ok a)) w))
    (herr : ∀ t e w, At i c msg P t → Step S i op (.error e) t.world w →
      E e (t.push i q (.call op (.error e)) w)) :
    (queueContract S).wp i q (Prog.await op) Q E s :=
  Contract.wp_await (stable_at P) hs (fun t _ ht => hpre t ht) (fun t _ a w _ ht _ => hok t a w ht)
    fun t _ e w _ ht he => herr t e w ht (step_of_exec he)

/-- Nothing was settled, and nothing published. -/
def Fresh (l : List QueueEvent) : Prop := Unsettled l ∧ Unpublished l

theorem Unsettled.cons (h : Unsettled l) (he : settled e = false) : Unsettled (e :: l) :=
  List.forall_mem_cons.mpr ⟨he, h⟩

theorem Fresh.cons (h : Fresh l) (he : settled e = false) (hp : published e = none) :
    Fresh (e :: l) := ⟨h.1.cons he, List.forall_mem_cons.mpr ⟨hp, h.2⟩⟩

theorem Attempted.cons_self (h : attempt e = some c) : Attempted c (e :: l) :=
  ⟨e, List.mem_cons_self, h⟩

theorem wp_nack (hs : At i c msg Unsettled s) :
    (queueContract S).wp i q (await (.nack c msg false)) (fun _ t => Attempted c (own i t.hist))
      (fun _ t => Attempted c (own i t.hist)) s := by
  refine wp_settle hs (fun t ht => ⟨rfl, ht.1, ht.2.2⟩) (fun t a w _ => ?_) fun t e w _ _ => ?_
  all_goals
    rw [own_push]
    exact .cons_self rfl

/-- What an acknowledgement needs to have happened. -/
def Justified (c : Consumer) (msg : Message) (l : List QueueEvent) : Prop :=
  Handled msg l ∨ Confirmed l ∧ ∃ messageId, OnlyCopies (c, msg, messageId) l

theorem wp_publishRetry {messageId : String} {error : QueueError} {count next : JavaScript.Whole}
    {delayMs : Nat} (hq : c.queue ∈ workQueues S) (hid : msg.messageId = some messageId)
    (hcount : readRetryCount msg.headers = some count)
    (hdecide : decideOnFailure S error count = .retry next delayMs) (hs : At i c msg Fresh s) :
    (queueContract S).wp i q (publishRetry S c msg messageId next delayMs)
      (fun _ t => At i c msg (fun l => Unsettled l ∧ Justified c msg l) t)
      (fun _ t => At i c msg Unsettled t) s := by
  have htier := wp_at (S := S) (q := q) (.assertQueue c (retryTier c.queue delayMs))
    (Q := fun _ l => Fresh l ∧ ∃ e ∈ l, declares c (retryTier c.queue delayMs) e = true)
    (E := fun _ => Unsettled) hs (fun _ => rfl) (fun _ _ => ⟨hq, delayMs, rfl⟩)
    (fun _ _ _ l h => ⟨h.cons rfl rfl, _, List.mem_cons_self, by simp [declares]⟩)
    fun _ _ _ l h => h.1.cons rfl
  refine Contract.wp_seq htier (fun _ _ h => h) fun _ t ht => ?_
  split
  · exact ht.mono fun l h => h.1.1
  · rename_i content hcontent
    have hpublish := wp_at (S := S) (q := q) (.publish c msg messageId (retryQueueFor c.queue delayMs)
      (msg.headers.set RETRY_COUNT_HEADER (.number next)) content)
      (Q := fun _ l => Unsettled l ∧ OnlyCopies (c, msg, messageId) l)
      (E := fun _ => Unsettled) ht (fun _ => rfl)
      (fun t ht => ⟨ht.2.2.1.2, ht.2.1, hid, hcontent, error, count, next, delayMs, hcount, hdecide,
        rfl, rfl, ht.2.2.2⟩)
      (fun _ _ _ l h => ⟨h.1.1.cons rfl, List.forall_mem_cons.mpr
        ⟨fun y hy => (Option.some.inj hy).symm, fun e he y hy => by rw [h.1.2 e he] at hy; cases hy⟩⟩)
      fun _ _ _ l h => h.1.1.cons rfl
    refine Contract.wp_seq hpublish (fun _ _ h => h) fun _ t ht => ?_
    exact wp_at (S := S) (q := q) (.confirm c messageId) ht (fun _ => rfl)
      (fun t ht => ⟨msg, ht.2.2.2⟩)
      (fun _ _ _ l h => ⟨h.1.cons rfl, .inr ⟨⟨_, List.mem_cons_self, rfl⟩, messageId,
        List.forall_mem_cons.mpr ⟨fun y hy => (nomatch hy), h.2⟩⟩⟩)
      fun _ _ _ l h => h.1.cons rfl

theorem wp_onFailure {error : QueueError} {count : JavaScript.Whole} (hq : c.queue ∈ workQueues S)
    (hcount : readRetryCount msg.headers = some count) (hs : At i c msg Fresh s) :
    (queueContract S).wp i q (onFailure S c msg count error)
      (fun _ t => Attempted c (own i t.hist)) (fun _ t => Attempted c (own i t.hist)) s := by
  have hnack := wp_nack (S := S) (q := q) (hs.mono fun l h => h.1)
  unfold onFailure
  split
  · exact hnack
  · rename_i next delayMs hdecide
    split
    · exact hnack
    · rename_i messageId hid
      split
      · exact hnack
      · have htry : (queueContract S).wp i q
            (tryCatch (do publishRetry S c msg messageId next delayMs; pure true) fun _ => pure false)
            (fun b t => At i c msg (fun l => Unsettled l ∧ (b = true → Justified c msg l)) t)
            (fun _ _ => False) s := by
          refine Contract.wp_handle.mpr (Contract.wp_seq
            (wp_publishRetry hq hid hcount hdecide hs) (fun _ t ht => ?_) fun _ t ht => ?_)
          · exact Contract.wp_done.mpr (ht.mono fun l h => ⟨h, nofun⟩)
          · exact Contract.wp_done.mpr (ht.mono fun l h => ⟨h.1, fun _ => h.2⟩)
        refine Contract.wp_seq htry (fun _ _ h => h.elim) fun b t ht => ?_
        split
        · rename_i hb
          refine wp_settle ht (fun t ht => ⟨ht.1, ht.2.2.1, ht.2.2.2 hb⟩) (fun t a w _ => ?_)
            fun t e w _ _ => ?_
          all_goals
            rw [own_push]
            exact .cons_self rfl
        · exact wp_nack (ht.mono fun l h => h.1)

/-- What is left of a message that is handled is an attempt to settle it. -/
theorem wp_handle {count : JavaScript.Whole} (hq : c.queue ∈ workQueues S)
    (hcount : readRetryCount msg.headers = some count) (hs : At i c msg Fresh s) :
    (queueContract S).wp i q (handle S c msg count) (fun _ t => Attempted c (own i t.hist))
      (fun _ _ => False) s := by
  have hhandler := wp_at (S := S) (q := q) (.handler c msg)
    (Q := fun _ l => Fresh l ∧ Handled msg l) (E := fun _ => Fresh) hs (fun _ => rfl)
    (fun _ _ => trivial)
    (fun _ _ _ l h => ⟨h.cons rfl rfl, _, List.mem_cons_self, by simp [handles]⟩)
    fun _ _ _ l h => h.cons rfl rfl
  refine Contract.wp_handle.mpr (Contract.wp_mono (fun _ _ h => h) (fun _ _ h => h)
    (Contract.wp_handle.mpr (Contract.wp_seq hhandler
      (fun error t ht => wp_onFailure hq hcount ht) fun _ t ht => ?_)))
  refine wp_settle ht (fun t ht => ⟨ht.1, ht.2.2.1.1, .inl ht.2.2.2⟩) (fun t a w _ => ?_)
    fun t e w ht hstep => ?_
  · rw [own_push]
    exact .cons_self rfl
  · -- the channel has died, and the handler's success is treated as a failure
    refine wp_onFailure hq hcount ⟨ht.1.step hstep (.inr rfl), ht.2.1.cons, ?_⟩
    rw [own_push]
    exact ht.2.2.1.cons rfl rfl

/-- **A delivery** ends with an attempt to settle its message, or before its handler. -/
theorem wp_consume (hnew : own i s.hist = []) :
    (queueContract S).wp i q (consume S c) (fun _ t => Attempted c (own i t.hist))
      (fun _ t => Unhandled (own i t.hist)) s := by
  have hreceive : (queueContract S).wp i q (await (.receive c))
      (fun (msg : Message) t => c.queue ∈ workQueues S ∧
        At i c msg (fun l => Fresh l ∧ Unhandled l) t)
      (fun _ t => Unhandled (own i t.hist)) s := by
    refine Contract.wp_await (Contract.stable_own (fun l => l = [])) hnew (fun _ _ _ => trivial)
      (fun t inp msg w hinv ht he => ?_) fun t inp e w _ ht _ => ?_
    · obtain ⟨w₀, rfl, hw, hl⟩ := hinv
      have he' : exec S i inp (.receive c) t.world = some (.ok msg, w) := he
      have hstep := step_of_exec he'
      cases hstep with
      | receive hq hm =>
        refine ⟨hq, .inr (List.mem_append_right _ List.mem_cons_self),
          (made_of_legal hl _ (hw ▸ hm)).cons, ?_⟩
        rw [own_push, ht]
        exact ⟨⟨List.forall_mem_singleton.mpr rfl, List.forall_mem_singleton.mpr rfl⟩,
          List.forall_mem_singleton.mpr rfl⟩
      | closed hop => cases hop
    · rw [own_push, ht]
      exact List.forall_mem_singleton.mpr rfl
  refine Contract.wp_seq hreceive (fun _ _ h => h) fun msg t ht => ?_
  split
  · exact ht.2.2.2.2
  · rename_i count hcount
    exact Contract.wp_mono (fun _ _ h => h) (fun _ _ h => h.elim)
      (wp_handle ht.1 hcount (ht.2.mono fun l h => h.1))

/-! ### Every run -/

theorem meets_await {op : Op} (h : ∀ t, queuePre S i q op t) (s : QueueState) :
    (queueContract S).wp i q (await op) (fun _ _ => True) (fun _ _ => True) s :=
  Contract.Meets.await h s

/-- **The history of a run is legal**; a delivery that is over has tried to settle its
message, or has not got to its handler, or its process has died. -/
theorem legal_of_reachable {C : QueueConfig}
    (h : (queueMachine S).Reachable (fun w => w = World.init S) C) :
    (C.state.world = worldAfter (World.init S) C.state.hist ∧ LegalQueue S C.state.hist) ∧
      ∀ (i : Nat) (c : Consumer) (p : Async Unit), C.threads[i]? = some (.deliver c, p) →
        (∀ a, p = .done a → Attempted c (own i C.state.hist)) ∧
        ∀ e, p = .fail e → e = .crashed ∨ Unhandled (own i C.state.hist) := by
  have hreq : ∀ i q (s : QueueState), own i s.hist = [] →
      (queueContract S).wp i q ((queueMachine S).prog q)
        (fun _ t => ∀ c, q = .deliver c → Attempted c (own i t.hist))
        (fun e t => ∀ c, q = .deliver c → e = .crashed ∨ Unhandled (own i t.hist)) s := by
    intro i q s hnew
    cases q with
    | deliver c =>
      refine Contract.wp_mono (fun _ t ht c' hc => ?_) (fun _ t ht c' hc => .inr ht)
        (wp_consume (c := c) hnew)
      exact Request.deliver.inj hc ▸ ht
    | _ =>
      exact Contract.wp_mono (fun _ _ _ _ hc => nomatch hc) (fun _ _ _ _ hc => nomatch hc)
        (meets_await (by exact fun _ => trivial) s)
  obtain ⟨⟨w₀, rfl, hw, hl⟩, hthreads⟩ := (queueContract S).sound
    (Q := fun i q _ s => ∀ c, q = .deliver c → Attempted c (own i s.hist))
    (E := fun i q e s => ∀ c, q = .deliver c → e = .crashed ∨ Unhandled (own i s.hist))
    (fun w hw => ⟨w, hw, rfl, trivial⟩) (fun i q s _ _ hnew => hreq i q s (own_nil_of_new hnew))
    (fun i q _ => Contract.stable_own fun l => ∀ c, q = .deliver c → Attempted c l)
    (fun i q e => Contract.stable_own fun l => ∀ c, q = .deliver c → e = .crashed ∨ Unhandled l)
    (fun _ _ _ _ _ _ => .inl rfl) h
  refine ⟨⟨hw, hl⟩, fun i c p hp => ⟨?_, ?_⟩⟩
  · rintro a rfl
    exact hthreads i _ _ hp c rfl
  · rintro e rfl
    exact hthreads i _ _ hp c rfl

end LakiraBackend.Queue
