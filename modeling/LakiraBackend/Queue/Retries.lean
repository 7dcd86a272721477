import LakiraBackend.Queue.Accounting
import Mathlib.Data.List.Chain

/-!
# How often a message is retried, and where it waits

A copy carries the count of its original and one more, so a chain of copies is no longer
than the retries there are (`retries_bounded`), as long as the counts are numbers that a
double holds exactly: past `2 ^ 53` adding one changes nothing (`retryCount_stuck`).
-/

namespace LakiraBackend.Queue

open LakiraBackend.Concurrency LakiraBackend.JavaScript

/-- The copy was published, of the original, and a queue has taken it. -/
def CopyOf (hist : List QueueEvent) (a b : Message) : Prop :=
  ∃ e ∈ hist, (∃ c messageId, published e = some (c, a, messageId)) ∧ created e = some b

/-- **Retries are bounded, and land on a tier that is there.** -/
structure RetriesBounded (S : Settings) (n : Nat) (C : QueueConfig) : Prop where
  /-- A message that is retried has a count below the bound, and its copy has the next. -/
  counted : ∀ a b, CopyOf C.state.hist a b → ∃ k < n, readRetryCount a.headers = some (.nat k) ∧
    readRetryCount b.headers = some (.nat (k + 1))
  /-- No chain of copies is longer than the bound. -/
  chain : ∀ (a : Nat) (l : List Nat),
    List.IsChain (fun a b => (a, b) ∈ C.state.world.copies) (a :: l) → l.length ≤ n
  /-- A retry waits the delay of its count, in a queue its consumer has declared with that
  delay for its time to live. -/
  tier : ∀ (e : QueueEvent) (past : List QueueEvent) (c : Consumer) (msg : Message)
    (messageId routingKey : String) (headers : Headers) (content : String)
    (r : Except QueueError Unit), (e :: past) <:+ C.state.hist →
    e.act = .call (.publish c msg messageId routingKey headers content) r →
    ∃ k < n, readRetryCount msg.headers = some (.nat k) ∧
      ∃ delayMs, delayMs = retryDelayMs (.nat k) S.retryBaseDelayMs ∧
        routingKey = retryQueueFor c.queue delayMs ∧
        ∃ d ∈ own e.tid past, declares c (retryTier c.queue delayMs) d = true
  /-- The listed delays are those that can be chosen, each once, in order, and capped. -/
  listed : n ≤ MAX_ARRAY_LENGTH →
    ∃ delays, retryDelaysMs S.maxRetries S.retryBaseDelayMs = some delays ∧
      delays.Pairwise (· < ·) ∧ (∀ d ∈ delays, d ≤ MAX_RETRY_DELAY_MS) ∧
      ∀ d, d ∈ delays ↔ ∃ error count next, decideOnFailure S error count = .retry next d

variable {S : Settings} {n k : Nat} {hist past : List QueueEvent} {e : QueueEvent} {a b : Message}

/-- The publish of a copy. -/
theorem publish_of_published {c : Consumer} {messageId : String}
    (h : published e = some (c, a, messageId)) : ∃ routingKey headers content r,
      e.act = .call (.publish c a messageId routingKey headers content) r := by
  unfold published at h
  split at h
  · rename_i ha
    simp only [Option.some.injEq, Prod.mk.injEq] at h
    obtain ⟨rfl, rfl, rfl⟩ := h
    exact ⟨_, _, _, _, ha⟩
  · cases h

/-- **What is published**: the count read is below the bound, and the copy has the next. -/
theorem decided_of_legal (hl : LegalQueue S hist) (hmax : S.maxRetries = .nat n) (hn : n ≤ 2 ^ 53)
    {c : Consumer} {messageId routingKey : String} {headers : Headers} {content : String}
    {r : Except QueueError Unit} (hs : (e :: past) <:+ hist)
    (ha : e.act = .call (.publish c a messageId routingKey headers content) r) :
    ∃ k < n, readRetryCount a.headers = some (.nat k) ∧
      headers = a.headers.set RETRY_COUNT_HEADER (.number (.nat (k + 1))) ∧
      routingKey = retryQueueFor c.queue (retryDelayMs (.nat k) S.retryBaseDelayMs) ∧
      ∃ d ∈ own e.tid past,
        declares c (retryTier c.queue (retryDelayMs (.nat k) S.retryBaseDelayMs)) d = true := by
  obtain ⟨_, _, _, _, error, count, next, delayMs, hcount, hdecide, hkey, hheaders, hdeclared⟩ :=
    (hl.obeys hs).pre ha
  obtain ⟨k, rfl, hk, rfl, rfl⟩ := retry_count hmax hn hdecide
  exact ⟨k, hk, hcount, hheaders, hkey, hdeclared⟩

theorem counted_of_legal (hl : LegalQueue S hist) (hmax : S.maxRetries = .nat n) (hn : n ≤ 2 ^ 53)
    (h : CopyOf hist a b) : ∃ k < n, readRetryCount a.headers = some (.nat k) ∧
      readRetryCount b.headers = some (.nat (k + 1)) := by
  obtain ⟨e, he, ⟨c, messageId, hp⟩, hc⟩ := h
  obtain ⟨past, hs⟩ := exists_past he
  obtain ⟨routingKey, headers, content, r, ha⟩ := publish_of_published hp
  obtain ⟨k, hk, hcount, rfl, _⟩ := decided_of_legal hl hmax hn hs ha
  refine ⟨k, hk, hcount, ?_⟩
  unfold created at hc
  rw [ha] at hc
  cases r with
  | error _ => cases hc
  | ok _ =>
    dsimp only at hc
    split at hc
    · obtain rfl := Option.some.inj hc
      exact readRetryCount_set (by omega)
    · cases hc

/-! ### Chains of copies -/

/-- **A serial number belongs to one message.** -/
theorem made_unique (hl : LegalQueue S hist) (ha : Made a hist) (hb : Made b hist)
    (hserial : a.serial = b.serial) : a = b := by
  obtain ⟨e, he, hea⟩ := ha
  obtain ⟨e', he', heb⟩ := hb
  obtain ⟨past, hs⟩ := exists_past he
  obtain ⟨past', hs'⟩ := exists_past he'
  have hnext : ∀ {e : QueueEvent} {past : List QueueEvent} {m : Message}, (e :: past) <:+ hist →
      created e = some m → m.serial = e.before.next ∧ e.after.next = e.before.next + 1 := by
    intro e past m hs hc
    obtain ⟨i, q, act, w, w'⟩ := e
    rcases step_of_obeys (hl.obeys hs) with ⟨op, r, rfl, _, hstep⟩ | ⟨hcrash, _⟩
    · exact created_serial hstep hc
    · obtain rfl : act = .crash := hcrash
      cases hc
  -- the number of the earlier message is given out before the later one's
  have hlt : ∀ {e e' : QueueEvent} {past past' : List QueueEvent} {m m' : Message},
      (e' :: past') <:+ hist → (e :: past) <:+ past' → created e = some m →
      created e' = some m' → m.serial < m'.serial := by
    intro e e' past past' m m' hs' hle hc hc'
    have hpast' : past' <:+ hist := (List.suffix_cons e' past').trans hs'
    obtain ⟨h₁, h₂⟩ := hnext (hle.trans hpast') hc
    obtain ⟨h₃, -⟩ := hnext hs' hc'
    have hle' : e.after.next ≤ (worldAfter (World.init S) past').next :=
      still_of_legal (P := fun w => e.after.next ≤ w.next) (hl.suffix hpast')
        (fun hstep h => h.trans (next_of_step hstep)) (fun _ _ h => h) hle (Nat.le_refl _)
    rw [← hl.before hs'] at hle'
    omega
  rcases List.suffix_or_suffix_of_suffix hs hs' with hle | hle
  · rcases List.suffix_cons_iff.mp hle with heq | hle
    · obtain ⟨rfl, -⟩ := List.cons.inj heq
      exact Option.some.inj (hea.symm.trans heb)
    · have := hlt hs' hle hea heb
      omega
  · rcases List.suffix_cons_iff.mp hle with heq | hle
    · obtain ⟨rfl, -⟩ := List.cons.inj heq
      exact Option.some.inj (hea.symm.trans heb)
    · have := hlt hs hle heb hea
      omega

/-- Two numbers in the bookkeeping are those of a message and its copy. -/
theorem copyOf_of_copies (hl : LegalQueue S hist) :
    ∀ x ∈ (worldAfter (World.init S) hist).copies, ∃ a b, Made a hist ∧ CopyOf hist a b ∧
      a.serial = x.1 ∧ b.serial = x.2 := by
  refine hl.invariant (P := fun hist w => ∀ x ∈ w.copies, ∃ a b, Made a hist ∧ CopyOf hist a b ∧
    a.serial = x.1 ∧ b.serial = x.2) (fun _ h => absurd h List.not_mem_nil)
    fun e past hl hpast => ?_
  have hold : ∀ x ∈ e.before.copies, ∃ a b, Made a (e :: past) ∧ CopyOf (e :: past) a b ∧
      a.serial = x.1 ∧ b.serial = x.2 := by
    intro x hx
    obtain ⟨a, b, hmade, ⟨e', he', hcopy⟩, hserial⟩ := hpast x hx
    exact ⟨a, b, hmade.cons, ⟨e', List.mem_cons_of_mem e he', hcopy⟩, hserial⟩
  obtain ⟨i, q, act, w, w'⟩ := e
  rcases step_of_obeys hl.2.1 with ⟨op, r, rfl, hpre, hstep⟩ | ⟨_, hcrash⟩
  · dsimp only at hold hstep ⊢
    cases hstep with
    | @routed _ c msg messageId routingKey content headers hd =>
      intro x hx
      rcases List.mem_append.mp hx with hx | hx
      · exact hold x hx
      · obtain rfl := List.mem_singleton.mp hx
        exact ⟨msg, ⟨w.next, some messageId, headers, content⟩, hpre.2.1.cons,
          ⟨_, List.mem_cons_self, ⟨c, messageId, rfl⟩, if_pos (Nat.lt_succ_self _)⟩, rfl, rfl⟩
    | _ => exact hold
  · obtain rfl : w' = w.crash i := hcrash
    exact hold

/-- The copies after a message with count `k`. -/
theorem chain_of_legal (hl : LegalQueue S hist) (hmax : S.maxRetries = .nat n) (hn : n ≤ 2 ^ 53)
    {l : List Nat} {x : Nat}
    (h : List.IsChain (fun a b => (a, b) ∈ (worldAfter (World.init S) hist).copies) (x :: l))
    (ha : Made a hist) (hserial : a.serial = x) (hcount : readRetryCount a.headers = some (.nat k))
    (hk : k ≤ n) : k + l.length ≤ n := by
  induction l generalizing a x k with
  | nil => exact hk
  | cons y l ih =>
    obtain ⟨hcopy, hchain⟩ := List.isChain_cons_cons.mp h
    obtain ⟨a', b, ha', hcopyOf, ha's, hbs⟩ := copyOf_of_copies hl _ hcopy
    obtain rfl := made_unique hl ha' ha (ha's.trans hserial.symm)
    obtain ⟨k', hk', hread, hnext⟩ := counted_of_legal hl hmax hn hcopyOf
    obtain rfl : k' = k := Whole.nat.inj (Option.some.inj (hread.symm.trans hcount))
    obtain ⟨e, he, _, hb⟩ := hcopyOf
    have := ih hchain ⟨e, he, hb⟩ hbs hnext (by omega)
    simp only [List.length_cons]
    omega

/-- **Retries are bounded, and land on a tier that is there**, while counts are exact. -/
theorem retries_bounded {C : QueueConfig}
    (h : (queueMachine S).Reachable (fun w => w = World.init S) C) (hbase : S.Admitted)
    (hmax : S.maxRetries = .nat n) (hn : n ≤ 2 ^ 53) : RetriesBounded S n C := by
  obtain ⟨⟨hw, hl⟩, _⟩ := legal_of_reachable h
  refine ⟨fun a b hcopy => counted_of_legal hl hmax hn hcopy, fun x l hchain => ?_,
    fun e past c msg messageId routingKey headers content r hs ha => ?_,
    fun hlen => retryDelaysMs_eq hmax hlen hbase⟩
  · rw [hw] at hchain
    cases l with
    | nil => exact Nat.zero_le n
    | cons y l =>
      obtain ⟨a, b, hmade, hcopyOf, hserial, _⟩ :=
        copyOf_of_copies hl _ (List.isChain_cons_cons.mp hchain).1
      obtain ⟨k, hk, hcount, _⟩ := counted_of_legal hl hmax hn hcopyOf
      have := chain_of_legal hl hmax hn hchain hmade hserial hcount (Nat.le_of_lt hk)
      omega
  · obtain ⟨k, hk, hcount, _, hkey, hdeclared⟩ := decided_of_legal hl hmax hn hs ha
    exact ⟨k, hk, hcount, _, rfl, hkey, hdeclared⟩

/-- A job fails, and waits in its tier. -/
theorem retries_bounded_retried :
    ∃ C, runQueue ([.spawn acceptInvite, .spawn (.deliver (inviteConsumer 1))] ++ calls 0 1 ++
      calls 1 6) = some C ∧ C.state.world.copies = [(0, 1)] ∧ RetriesBounded lakira 5 C := by
  have hrun : (runQueue ([.spawn acceptInvite, .spawn (.deliver (inviteConsumer 1))] ++ calls 0 1 ++
      calls 1 6)).map (fun C => C.state.world.copies) = some [(0, 1)] := by decide +kernel
  obtain ⟨C, hC, hcopies⟩ := Option.map_eq_some_iff.mp hrun
  exact ⟨C, hC, hcopies, retries_bounded (reachable_of_runQueue hC) (nofun) rfl (by decide)⟩

/-- Settings the environment's schema admits. -/
def lakiraUnbounded : Settings := ⟨"lakira", .nat (2 ^ 54), .nat 2000, some⟩

/-- **A count can stand still**: a message with the count `2 ^ 53` is sent round again with
the same. -/
theorem retryCount_stuck : lakiraUnbounded.Admitted ∧
    ∃ C, (queueMachine lakiraUnbounded).Reachable (fun w => w = World.init lakiraUnbounded) C ∧
      ∃ a b, CopyOf C.state.hist a b ∧ readRetryCount a.headers = some (.nat (2 ^ 53)) ∧
        readRetryCount b.headers = some (.nat (2 ^ 53)) := by
  have hrun : ((queueMachine lakiraUnbounded).run (Machine.boot (World.init lakiraUnbounded))
      ([.spawn (.accept "lakira.auth.send-invite-email" (some "job")
          [(RETRY_COUNT_HEADER, .number (.nat (2 ^ 53)))] "\x7b\x7d"),
        .spawn (.deliver (inviteConsumer 1))] ++ calls 0 1 ++ calls 1 4)).any (fun C =>
      C.state.hist.any fun e => (published e).any fun x => (created e).any fun b =>
        readRetryCount x.2.1.headers = some (.nat (2 ^ 53)) ∧
          readRetryCount b.headers = some (.nat (2 ^ 53))) = true := by decide +kernel
  obtain ⟨C, hC, hval⟩ := (Option.any_eq_true _ _).mp hrun
  obtain ⟨e, he, hval⟩ := List.any_eq_true.mp hval
  obtain ⟨⟨c, a, messageId⟩, hp, hval⟩ := (Option.any_eq_true _ _).mp hval
  obtain ⟨b, hb, hval⟩ := (Option.any_eq_true _ _).mp hval
  have hboot : (queueMachine lakiraUnbounded).Reachable
      (fun w => w = World.init lakiraUnbounded) _ := .boot rfl
  have hreach := hboot.run hC
  exact ⟨nofun, C, hreach, a, b, ⟨e, he, ⟨c, messageId, hp⟩, hb⟩,
    of_decide_eq_true hval⟩

end LakiraBackend.Queue
