import LakiraBackend.Auth.Guards

/-!
# A job takes effect once

`runOnce` records the message and does the work in one transaction.  The primary key
of `processed_messages` makes a second record wait for the first transaction, and
refuses it when that has committed.  So of all runs under one key, in the worker and
in the requests, one commits at most, the others answer a duplicate only after it,
and a run that fails leaves nothing (`runOnce_once`).
-/

namespace LakiraBackend.Auth

open LakiraBackend.Concurrency
open scoped List

/-- What a message is recorded under: its id and its queue. -/
abbrev JobKey : Type := MessageId × String

def ProcessedMessage.key (p : ProcessedMessage) : JobKey := (p.messageId, p.queue)

def Processed (k : JobKey) (d : Db) : Prop := ∃ p ∈ d.processedMessages, p.key = k

instance (k : JobKey) (d : Db) : Decidable (Processed k d) :=
  inferInstanceAs (Decidable (∃ p ∈ d.processedMessages, p.key = k))

/-- The records, by their keys. -/
def processedNames (D : Deps) : Naming (schema D) JobKey Unit where
  names := fun d => d.processedMessages.map fun p => (p.key, ())
  gives := fun wr => match wr with
    | .createProcessedMessage p => some (p.key, ())
    | _ => none
  names_of_gives := by
    intro wr n d h
    cases wr with
    | createProcessedMessage p =>
      cases h
      exact List.map_append
    | _ => cases h
  names_of_keeps := by
    intro wr d h
    cases wr with
    | createProcessedMessage p => cases h
    | _ => exact List.Sublist.refl _

/-- The key of the record the event asks for, if it asks for one. -/
def claims (e : AuthEvent) : Option JobKey :=
  match e.act with
  | .call (.call (.write _ (.createProcessedMessage p))) _ => some p.key
  | _ => none

/-- The event commits a run under the key: the record is among the writes it commits. -/
def commitsRun (k : JobKey) (e : AuthEvent) : Bool :=
  match e.act with
  | .call (.call .commit) _ =>
    ((e.before.store.pendingOf e.tid).any fun wr => match wr with
      | .createProcessedMessage p => p.key = k
      | _ => false) && e.after.store.db.processedMessages.any fun p => p.key = k
  | _ => false

/-- Whether a request runs a job: the worker's do, and those that run what they could
not publish. -/
def Request.runsJobs (D : Deps) : Request → Bool
  | .inviteUserToOrganization _ => D.queueEnabled
  | .requestPasswordReset _ => true
  | .verificationJob _ _ => true
  | .sendPasswordResetEmail _ _ => true
  | .sendVerificationEmail _ _ => true
  | .sendInviteEmail _ _ => true
  | .generateDummyMetricLogs _ _ => true
  | _ => false

/-! ### What a run does -/

/-- The thread has no uncommitted writes. -/
def NoWrites (i : Nat) (w : World) : Prop := w.store.pendingOf i = []

/-- The first of the thread's uncommitted writes is the record of its message. -/
def InRun (i : Nat) (w : World) : Prop :=
  ∃ p ws, w.store.pendingOf i = .createProcessedMessage p :: ws

/-- Where a write may be: in a run, or outside of any transaction. -/
def WritesIn (tx : Bool) (i : Nat) (w : World) : Prop := if tx then InRun i w else NoWrites i w

def begins (e : AuthEvent) : Bool :=
  match e.act with
  | .call (.call .begin) _ => true
  | _ => false

/-- What has happened since BEGIN. -/
def sinceBegin (l : List AuthEvent) : List AuthEvent := l.takeWhile fun e => !begins e

def answered (e : AuthEvent) : Bool :=
  match e.act with
  | .call _ (.ok _) => true
  | _ => false

/-- No call has failed since BEGIN. -/
def Untroubled (l : List AuthEvent) : Prop := ∀ e ∈ sinceBegin l, answered e = true

/-- A message is recorded first in a transaction; a request that runs jobs writes in a
transaction only after that, and commits only what has not failed. -/
def jobPre (D : Deps) : Precondition := fun i q op s => match op with
  | .call (.write tx wr) =>
      (wr.table = .processedMessages → q.runsJobs D = true ∧ tx = true ∧ NoWrites i s.world) ∧
      (wr.table ≠ .processedMessages → q.runsJobs D = true → WritesIn tx i s.world)
  | .call (.finishUpdate tx _) => q.runsJobs D = true → WritesIn tx i s.world
  | .call .commit => q.runsJobs D = true → InRun i s.world ∧ Untroubled (own i s.hist)
  | _ => True

variable {D : Deps} {init : World → Prop} {i : Nat} {q : Request} {s : AuthState} {w₀ : World}
  {hist past l : List AuthEvent} {e : AuthEvent} {k : JobKey}

/-- The calls of a job's work, and, with `tx` false, those outside of any run. -/
def InTx (tx : Bool) (op : Op) : Prop :=
  match op with
  | .call (.write t wr) => t = tx ∧ wr.table ≠ .processedMessages
  | .call (.startUpdate t _) => t = tx
  | .call (.finishUpdate t _) => t = tx
  | .call .begin => False
  | .call .commit => False
  | .call .rollback => False
  | _ => True

/-- A job's work throws what a call of it throws, and nothing else. -/
abbrev Work (tx : Bool) {α : Type} (p : Async α) : Prop := p.Strict (InTx tx) fun _ => False

/-! ### The work of the jobs -/

theorem work_update {tx : Bool} {u : Update} : Work tx (update u tx) :=
  .bind (.await (by simp [InTx])) fun _ => .await (by simp [InTx])

theorem work_createToken {kind : TokenKind} {userId : Uuid} {h : TokenHash} {t : Time} {tx : Bool} :
    Work tx (OneTimeTokenRepository.create kind userId h t tx) :=
  .bind (.await trivial) fun _ => .bind (.await (by simp [InTx, Write.table])) fun _ => .done

theorem work_issueResetToken {user : AuthUser} {tx : Bool} : Work tx (issueResetToken D user tx) :=
  .bind (.await trivial) fun _ => .bind work_update fun _ => .bind (.await trivial) fun _ =>
    .bind work_createToken fun _ => .done

theorem work_sendPasswordReset {userId : Uuid} :
    Work true (sendPasswordResetInTransaction D userId) := by
  refine .bind (.await trivial) fun user => ?_
  cases user with
  | none => exact .done
  | some user => exact .bind work_issueResetToken fun _ => .await trivial

theorem work_issueVerificationToken {userId : Uuid} {tx : Bool} :
    Work tx (issueVerificationToken D userId tx) := by
  refine .bind (.await trivial) fun user => ?_
  cases user with
  | none => exact .done
  | some user =>
    dsimp only
    split
    · exact .done
    · exact .bind (.await trivial) fun _ => .bind work_update fun _ => .bind (.await trivial)
        fun _ => .bind work_createToken fun _ => .done

theorem work_sendVerification {userId : Uuid} :
    Work true (sendVerificationInTransaction D userId) := by
  refine .bind work_issueVerificationToken fun m => ?_
  cases m with
  | none => exact .done
  | some m => exact .await trivial

theorem work_sendInvite {inviteId : Uuid} : Work true (sendInviteInTransaction D inviteId) := by
  refine (strict_sendInvite inviteId).mono fun op hop => ?_
  cases op with
  | call c =>
    cases c with
    | write tx wr =>
      cases wr with
      | replaceInviteTokenHash id tokenHash => exact ⟨hop, by simp [Write.table]⟩
      | _ => exact hop.elim
    | _ => trivial
  | _ => trivial

theorem work_createDummyLogs {job : DummyLogsJob} {n : Nat} :
    Work true (createDummyLogs job n) := by
  induction n with
  | zero => exact .done
  | succ n ih =>
    refine .bind (.await trivial) fun _ => .bind (.await trivial) fun _ =>
      .bind (.await trivial) fun _ => .bind (.await trivial) fun _ => .bind ?_ fun _ => ih
    exact .bind (.await trivial) fun _ => .bind (.await (by simp [InTx, Write.table])) fun _ => .done

/-! ### What the calls do to a run -/

theorem stable_pendingOf (P : List Write → Prop) :
    (guard D init (jobPre D)).Stable i fun s => P (s.world.store.pendingOf i) := by
  intro s t h hs
  cases h with
  | @call j q op inp r w hj _ _ he =>
    have he' : exec D j inp op s.world = some (r, w) := he
    change P (w.store.pendingOf i)
    rw [(exec_store he').pendingOf_ne (Ne.symm hj)]
    exact hs
  | @crash j q hj _ =>
    change P ((s.world.store.drop j).pendingOf i)
    rw [Store.pendingOf_drop, Store.pendingOf_rollback_ne _ (Ne.symm hj)]
    exact hs

theorem stable_noWrites : (guard D init (jobPre D)).Stable i fun s => NoWrites i s.world :=
  stable_pendingOf fun ws => ws = []

theorem stable_inRun : (guard D init (jobPre D)).Stable i fun s => InRun i s.world :=
  stable_pendingOf fun ws => ∃ p ws', ws = .createProcessedMessage p :: ws'

section Calls

variable {op : Op} {inp : Input} {w w' : World}

theorem InTx.ends_false {tx : Bool} (h : InTx tx op) : op.ends = false := by
  cases op with
  | call c => cases c <;> first | rfl | exact h.elim
  | _ => rfl

theorem NoWrites.exec {r : Except Err op.Answer} (h : NoWrites i w) (hop : InTx false op)
    (he : exec D i inp op w = some (r, w')) : NoWrites i w' := by
  rcases (exec_store he).pendingOf_self with ⟨_, hp⟩ | ⟨wr, rfl, _⟩ | ⟨st, rfl, _, _⟩ | ⟨hends, _⟩
  · exact hp.trans h
  · cases hop.1
  · cases hop
  · rw [hop.ends_false] at hends
    cases hends

theorem InRun.exec {tx : Bool} {r : Except Err op.Answer} (h : InRun i w) (hop : InTx tx op)
    (he : exec D i inp op w = some (r, w')) : InRun i w' := by
  obtain ⟨p, ws, h⟩ := h
  rcases (exec_store he).pendingOf_self with ⟨_, hp⟩ | ⟨wr, _, hp⟩ | ⟨st, _, _, hp⟩ | ⟨hends, _⟩
  · exact ⟨p, ws, hp.trans h⟩
  · exact ⟨p, ws ++ [wr], by rw [hp, h]; rfl⟩
  · exact ⟨p, ws ++ [st.write], by rw [hp, h]; rfl⟩
  · rw [hop.ends_false] at hends
    cases hends

/-- A transaction that is ended, however the call ends, has no writes left. -/
theorem noWrites_of_ends (op : Op) {r : Except Err op.Answer} (hop : op.ends = true)
    (he : exec D i inp op w = some (r, w')) : NoWrites i w' := by
  rcases (exec_store he).pendingOf_self with ⟨hends, _⟩ | ⟨wr, rfl, _⟩ | ⟨st, rfl, _, _⟩ | ⟨_, hp⟩
  · rw [hop] at hends
    cases hends
  · cases hop
  · cases hop
  · exact hp

/-- The error is not taken for a duplicate. -/
def NotDuplicate (e : Err) : Prop := e ≠ .duplicateMessage

theorem refuse_notDuplicate {wr : Write} {d : Db} {err : Err} (h : wr.refuse D d = some err) :
    NotDuplicate err := by
  rintro rfl
  have hcolumns : ∀ {old : Option AuthUser} {u : AuthUser} {other : Option Err},
      (Write.refuseColumns D old u <|> other) = some .duplicateMessage →
        other = some .duplicateMessage := by
    intro old u other h
    cases hc : Write.refuseColumns D old u with
    | none => rwa [hc] at h
    | some e =>
      rw [hc] at h
      obtain ⟨m, rfl⟩ := Write.refuseColumns_cases hc
      cases h
  cases wr with
  | createUser u =>
    have h := hcolumns h
    (repeat' split at h) <;> cases h
  | saveUser u =>
    simp only [Write.refuse] at h
    split at h
    · cases h
    · have h := hcolumns h
      (repeat' split at h) <;> cases h
  | _ =>
    simp only [Write.refuse] at h
    (repeat' split at h) <;> cases h

theorem write_notDuplicate {tx : Bool} {wr : Write} {st : AuthStore} {err : Err} {st' : AuthStore}
    (h : st.write (schema D) i tx wr = some (.error err, st')) : NotDuplicate err := by
  rcases Store.write_cases h with ⟨err', herr, _, href⟩ | ⟨hok, _⟩
  · cases herr
    exact refuse_notDuplicate href
  · cases hok

/-- No call answers that a message is a duplicate. -/
theorem exec_notDuplicate (op : Op) {err : Err} (h : exec D i inp op w = some (.error err, w')) :
    NotDuplicate err := by
  cases op with
  | call c =>
    simp only [exec] at h
    split at h
    · cases c with
      | write tx wr =>
        obtain ⟨⟨r, st⟩, hs, hr⟩ := Option.map_eq_some_iff.mp h
        cases hr
        exact write_notDuplicate hs
      | finishUpdate tx u =>
        obtain ⟨st, _, h⟩ := Option.bind_eq_some_iff.mp h
        obtain ⟨⟨r, st'⟩, hs, hr⟩ := Option.map_eq_some_iff.mp h
        cases hr
        exact write_notDuplicate hs
      | findRefreshTokenForUpdate hash =>
        obtain ⟨t, _, hr⟩ := Option.map_eq_some_iff.mp h
        cases hr
      | _ => cases h
    · cases h
      intro h
      cases h
    · obtain ⟨t, _, hr⟩ := Option.map_eq_some_iff.mp h
      cases hr
      intro h
      cases h
  | _ => cases h

end Calls

theorem jobPre_inTx (tx : Bool) {op : Op} (hop : InTx tx op)
    (h : q.runsJobs D = true → WritesIn tx i s.world) : jobPre D i q op s := by
  cases op with
  | call c =>
    cases c with
    | write t wr =>
      obtain ⟨rfl, ht⟩ := hop
      exact ⟨fun h' => absurd h' ht, fun _ => h⟩
    | finishUpdate t u =>
      have ht : t = tx := hop
      exact ht ▸ h
    | commit => exact hop.elim
    | _ => trivial
  | _ => trivial

/-! ### The answers of the calls so far -/

theorem untroubled_cons {op : Op} {a : op.Answer} {w w' : World} (h : Untroubled l) :
    Untroubled (⟨i, q, .call op (.ok a), w, w'⟩ :: l) := by
  intro e he
  by_cases hb : begins ⟨i, q, .call op (.ok a), w, w'⟩ = true
  · rw [sinceBegin, List.takeWhile_cons_of_neg (by simpa using hb)] at he
    cases he
  · rw [sinceBegin, List.takeWhile_cons_of_pos (by simpa using hb)] at he
    rcases List.mem_cons.mp he with rfl | he
    · rfl
    · exact h e he

theorem untroubled_begin {r : Except Err Unit} {w w' : World} :
    Untroubled (⟨i, q, .call (.call .begin) r, w, w'⟩ :: l) := by
  intro e he
  rw [sinceBegin, List.takeWhile_cons_of_neg (by simp [begins])] at he
  cases he

/-- The thread has asked for no record yet. -/
def NoClaims (l : List AuthEvent) : Prop := ∀ e ∈ l, claims e = none

/-- The record that the thread has asked for was refused. -/
def Refused (l : List AuthEvent) : Prop :=
  ∃ p c, (∃ e ∈ l, e.act = .call (.call (.write true (.createProcessedMessage p)))
    (.error (.uniqueConstraint c))) ∧ ∀ e ∈ l, ∀ k, claims e = some k → k = p.key

theorem claims_of_op {op : Op} {r : Except Err op.Answer} {w w' : World}
    (h : ∀ tx wr, op = .call (.write tx wr) → wr.table ≠ .processedMessages) :
    claims ⟨i, q, .call op r, w, w'⟩ = none := by
  unfold claims
  split
  · rename_i ha
    obtain ⟨rfl, _⟩ := Act.call.inj ha
    exact absurd rfl (h _ _ rfl)
  · rfl

theorem NoClaims.cons (h : NoClaims l) (he : claims e = none) : NoClaims (e :: l) := by
  intro e' h'
  rcases List.mem_cons.mp h' with rfl | h'
  · exact he
  · exact h e' h'

theorem Refused.cons (h : Refused l) (he : claims e = none) : Refused (e :: l) := by
  obtain ⟨p, c, ⟨e', he', ha⟩, hall⟩ := h
  refine ⟨p, c, ⟨e', List.mem_cons_of_mem e he', ha⟩, fun e'' h'' k hk => ?_⟩
  rcases List.mem_cons.mp h'' with rfl | h''
  · rw [he] at hk
    cases hk
  · exact hall e'' h'' k hk

theorem refused_of_claim {p : ProcessedMessage} {c : String} {w w' : World} (h : NoClaims l) :
    Refused (⟨i, q, .call (.call (.write true (.createProcessedMessage p)))
      (.error (.uniqueConstraint c)), w, w'⟩ :: l) := by
  refine ⟨p, c, ⟨_, List.mem_cons_self, rfl⟩, fun e he k hk => ?_⟩
  rcases List.mem_cons.mp he with rfl | he
  · exact (Option.some.inj hk).symm
  · rw [h e he] at hk
    cases hk

/-- **A program outside of any run.** -/
theorem wp_outside {R : List AuthEvent → Prop} (hR : ∀ e l, claims e = none → R l → R (e :: l))
    {α : Type} {p : Async α} (hp : p.Calls (InTx false))
    (hs : NoWrites i s.world ∧ R (own i s.hist)) :
    (guard D init (jobPre D)).wp i q p (fun _ t => NoWrites i t.world ∧ R (own i t.hist))
      (fun _ t => NoWrites i t.world ∧ R (own i t.hist)) s := by
  refine Contract.wp_of_calls (stable_noWrites.and (Contract.stable_own R))
    (fun _ _ hop _ ht => jobPre_inTx false hop fun _ => ht.1) (fun op t inp r w hop _ ht he => ?_)
    hp hs
  refine ⟨ht.1.exec hop he, ?_⟩
  rw [own_push]
  refine hR _ _ (claims_of_op fun tx wr hwr => ?_) ht.2
  subst hwr
  exact hop.2

/-! ### The use cases meet the contract -/

/-- What a run's error means. -/
def FailedRun (i : Nat) (e : Err) (s : AuthState) : Prop :=
  e = .duplicateMessage → Refused (own i s.hist)

theorem FailedRun.of_not {e : Err} (h : NotDuplicate e) : FailedRun i e s := fun he => absurd he h

theorem wp_begin (hs : NoWrites i s.world) (hno : NoClaims (own i s.hist)) :
    (guard D init (jobPre D)).wp i q (await .begin)
      (fun _ t => NoWrites i t.world ∧ NoClaims (own i t.hist) ∧ Untroubled (own i t.hist))
      (FailedRun i) s := by
  refine Contract.wp_await (stable_noWrites.and (Contract.stable_own NoClaims)) ⟨hs, hno⟩
    (fun _ _ _ => trivial) (fun t inp a w _ ht he => ?_)
    fun _ _ _ _ _ _ he => .of_not (exec_notDuplicate (.call .begin) he)
  have he' : exec D i inp (.call .begin) t.world = some (.ok a, w) := he
  cases exec_call_ok he'
  refine ⟨ht.1, ?_, ?_⟩
  · rw [own_push]
    exact ht.2.cons (claims_of_op fun _ _ h => nomatch h)
  · rw [own_push]
    exact untroubled_begin

theorem wp_claimMessage {p : ProcessedMessage} (hq : q.runsJobs D = true)
    (hs : NoWrites i s.world ∧ NoClaims (own i s.hist) ∧ Untroubled (own i s.hist)) :
    (guard D init (jobPre D)).wp i q (claimMessage p)
      (fun _ t => InRun i t.world ∧ Untroubled (own i t.hist)) (FailedRun i) s := by
  have hwrites : (guard D init (jobPre D)).Stable i fun s => NoWrites i s.world := stable_noWrites
  have hstable := hwrites.and ((Contract.stable_own NoClaims).and (Contract.stable_own Untroubled))
  refine Contract.wp_handle.mpr (Contract.wp_mono (fun _ _ h => h) (fun e t h => ?_)
    (Contract.wp_await (E := fun e t => NotDuplicate e ∧ ∀ c, e = .uniqueConstraint c →
      Refused (own i t.hist)) hstable hs
      (fun t _ ht => ⟨fun _ => ⟨hq, rfl, ht.1⟩, fun h => absurd rfl h⟩)
      (fun t inp a w _ ht he => ?_) fun t inp e w _ ht he => ⟨exec_notDuplicate (.call (.write _ _)) he, ?_⟩))
  · cases e with
    | uniqueConstraint c => exact fun _ => h.2 c rfl
    | _ => exact .of_not h.1
  · obtain ⟨htakes, rfl⟩ := exec_write_ok (D := D) he
    refine ⟨⟨p, [], ?_⟩, ?_⟩
    · change (t.world.store.put (schema D) i _).pendingOf i = _
      rw [Store.pendingOf_put_self, show t.world.store.pendingOf i = [] from ht.1]
      rfl
    · rw [own_push]
      exact untroubled_cons ht.2.2
  · rintro c rfl
    rw [own_push]
    exact refused_of_claim ht.2.1

theorem wp_work {work : Async Unit} (hw : Work true work)
    (hs : InRun i s.world ∧ Untroubled (own i s.hist)) :
    (guard D init (jobPre D)).wp i q work
      (fun _ t => InRun i t.world ∧ Untroubled (own i t.hist)) (FailedRun i) s := by
  refine Contract.wp_of_strict (stable_inRun.and (Contract.stable_own Untroubled))
    (fun op t hop _ ht => jobPre_inTx true hop fun _ => ht.1) (fun op t inp a w hop _ ht he => ⟨?_, ?_⟩)
    (fun op t inp e w _ _ he => .of_not (exec_notDuplicate op he)) (fun _ _ he => he.elim) hw hs
  · exact ht.1.exec hop he
  · rw [own_push]
    exact untroubled_cons ht.2

theorem wp_commit (hs : InRun i s.world ∧ Untroubled (own i s.hist)) :
    (guard D init (jobPre D)).wp i q (await .commit) (fun _ t => NoWrites i t.world)
      (FailedRun i) s :=
  Contract.wp_await (stable_inRun.and (Contract.stable_own Untroubled)) hs (fun _ _ ht _ => ht)
    (fun _ _ _ _ _ _ he => noWrites_of_ends (.call .commit) rfl he)
    fun _ _ _ _ _ _ he => .of_not (exec_notDuplicate (.call .commit) he)

/-- A rollback, whether it is answered or not. -/
theorem wp_rollback {e : Err} (hs : FailedRun i e s) :
    (guard D init (jobPre D)).wp i q (tryCatch (await .rollback) fun _ => pure ())
      (fun _ t => NoWrites i t.world ∧ FailedRun i e t) (fun _ _ => False) s := by
  have hkeep : ∀ {t : AuthState} {r : Except Err Unit} {w : World}, FailedRun i e t →
      FailedRun i e (t.push i q (.call (.call .rollback) r) w) := by
    intro t r w ht he
    rw [own_push]
    exact (ht he).cons (claims_of_op fun _ _ h => nomatch h)
  exact Contract.wp_handle.mpr (Contract.wp_await
    (Contract.stable_own fun l => e = .duplicateMessage → Refused l) hs (fun _ _ _ => trivial)
    (fun t _ _ _ _ ht he => ⟨noWrites_of_ends (.call .rollback) rfl he, hkeep ht⟩)
    fun t _ _ _ _ ht he => ⟨noWrites_of_ends (.call .rollback) rfl he, hkeep ht⟩)

/-- **A run.** -/
theorem wp_run {work : Async Unit} {messageId : JsonValue} {queue : String} {org : Option Uuid}
    (hq : q.runsJobs D = true) (hw : Work true work) (hs : NoWrites i s.world)
    (hno : NoClaims (own i s.hist)) :
    (guard D init (jobPre D)).wp i q (runOnce D messageId queue org work)
      (fun o t => NoWrites i t.world ∧ (o = .duplicate → Refused (own i t.hist)))
      (fun _ t => NoWrites i t.world) s := by
  unfold runOnce
  split
  · exact hs
  · rename_i id _
    have hbody : (guard D init (jobPre D)).wp i q
        (runInTransaction ((claimMessage ⟨id, queue, org⟩).bind fun _ => work))
        (fun _ t => NoWrites i t.world) (fun e t => NoWrites i t.world ∧ FailedRun i e t) s := by
      refine Contract.wp_handle.mpr (Contract.wp_mono (fun _ _ h => h) (fun e t h => ?_)
        (Contract.wp_seq (wp_begin hs hno) (fun _ _ h => h) fun _ t ht => Contract.wp_seq
          (Contract.wp_seq (wp_claimMessage hq ht) (fun _ _ h => h) fun _ t ht => wp_work hw ht)
          (fun _ _ h => h) fun _ t ht => Contract.wp_seq (wp_commit ht) (fun _ _ h => h)
            fun _ _ h => h))
      exact Contract.wp_seq (wp_rollback h) (fun _ _ h => h.elim) fun _ _ h => h
    refine Contract.wp_handle.mpr (Contract.wp_mono (fun _ _ h => h) (fun e t h => ?_)
      (Contract.wp_seq hbody (fun _ _ h => h) fun _ t ht => ⟨ht, fun h => nomatch h⟩))
    cases e with
    | duplicateMessage => exact ⟨h.1, fun _ => h.2 rfl⟩
    | _ => exact h.1

/-- A thread that has neither uncommitted writes nor asked for a record. -/
def Fresh (i : Nat) (s : AuthState) : Prop := NoWrites i s.world ∧ NoClaims (own i s.hist)

/-- A thread that is over has no uncommitted writes, and answers a duplicate only when
its record was refused. -/
def RunOver (i : Nat) (a : Reply) (s : AuthState) : Prop :=
  NoWrites i s.world ∧ (a = .job (some .duplicate) → Refused (own i s.hist))

theorem wp_fresh {α : Type} {p : Async α} (hp : p.Calls (InTx false)) (hs : Fresh i s) :
    (guard D init (jobPre D)).wp i q p (fun _ t => Fresh i t) (fun _ t => Fresh i t) s :=
  wp_outside (fun _ _ he h => h.cons he) hp hs

/-- A request whose job is run. -/
theorem wp_jobRequest {work : Async Unit} {messageId : JsonValue} {queue : String}
    {org : Option Uuid} (hq : q.runsJobs D = true) (hw : Work true work) (hs : Fresh i s) :
    (guard D init (jobPre D)).wp i q
      ((runOnce D messageId queue org work).bind fun o => pure (.job (some o)))
      (fun a t => RunOver i a t) (fun _ t => NoWrites i t.world) s :=
  Contract.wp_seq (wp_run hq hw hs.1 hs.2) (fun _ _ h => h) fun _ _ ht =>
    ⟨ht.1, fun ho => ht.2 (Option.some.inj (Reply.job.inj ho))⟩

theorem wp_handleIdJob {name message queue : String} {work : Uuid → Async Unit}
    {msg : IncomingMessage} (hq : q.runsJobs D = true) (hw : ∀ id, Work true (work id))
    (hs : Fresh i s) :
    (guard D init (jobPre D)).wp i q
      ((handleIdJob D name message work msg queue).bind fun o => pure (.job (some o)))
      (fun a t => RunOver i a t) (fun _ t => NoWrites i t.world) s := by
  unfold handleIdJob
  split
  · exact hs.1
  · exact wp_jobRequest hq (hw _) hs

theorem wp_generateDummyMetricLogs {msg : IncomingMessage} {queue : String}
    (hq : q.runsJobs D = true) (hs : Fresh i s) :
    (guard D init (jobPre D)).wp i q
      ((generateDummyMetricLogs D msg queue).bind fun o => pure (.job (some o)))
      (fun a t => RunOver i a t) (fun _ t => NoWrites i t.world) s := by
  unfold generateDummyMetricLogs
  split
  · exact hs.1
  · rename_i job _
    have haccess : (tryCatch (ensureMetricOwnership job.userId job.organizationId job.metricId)
        terminalIfRefused : Async Unit).Calls (InTx false) := by
      refine .handle (.bind (.await trivial) fun m => ?_) fun e => ?_
      · cases m with
        | none => trivial
        | some m => dsimp only; split <;> trivial
      · cases e with
        | domain kind message => simp only [terminalIfRefused]; split <;> trivial
        | _ => trivial
    have hcache : (invalidateCache D job).Calls (InTx false) := by
      unfold invalidateCache
      split
      · exact .await trivial
      · trivial
    have hbody : (guard D init (jobPre D)).wp i q
        ((tryCatch (ensureMetricOwnership job.userId job.organizationId job.metricId)
          terminalIfRefused).bind fun _ =>
            (runOnce D msg.messageId queue (some job.organizationId)
              (createDummyLogs job job.count)).bind fun outcome =>
                (invalidateCache D job).bind fun _ => pure outcome)
        (fun o t => NoWrites i t.world ∧ (o = .duplicate → Refused (own i t.hist)))
        (fun _ t => NoWrites i t.world) s := by
      refine Contract.wp_seq (wp_fresh haccess hs) (fun _ _ h => h.1) fun _ t ht => ?_
      refine Contract.wp_seq (wp_run hq work_createDummyLogs ht.1 ht.2) (fun _ _ h => h)
        fun o t ht => ?_
      exact Contract.wp_seq (wp_outside (R := fun l => o = .duplicate → Refused l)
        (fun _ _ he h ho => (h ho).cons he) hcache ht) (fun _ _ h => h.1) fun _ _ h => h
    exact Contract.wp_seq hbody (fun _ _ h => h) fun _ _ ht =>
      ⟨ht.1, fun ho => ht.2 (Option.some.inj (Reply.job.inj ho))⟩

theorem wp_requestPasswordReset {input : RequestPasswordResetInput} (hq : q.runsJobs D = true)
    (hs : Fresh i s) :
    (guard D init (jobPre D)).wp i q
      ((requestPasswordReset D input).bind fun o => pure (.job o))
      (fun a t => RunOver i a t) (fun _ t => NoWrites i t.world) s := by
  have hover : ∀ {t : AuthState}, Fresh i t → RunOver i (.job none) t :=
    fun ht => ⟨ht.1, fun h => nomatch h⟩
  refine Contract.wp_seq (Q := fun o t => RunOver i (.job o) t) ?_ (fun _ _ h => h) fun _ _ h => h
  refine Contract.wp_seq (wp_fresh (.await trivial) hs) (fun _ _ h => h.1) fun user t ht => ?_
  cases user with
  | none => exact hover ht
  | some user =>
    dsimp only
    split
    · refine Contract.wp_seq (wp_fresh (.await trivial) ht) (fun _ _ h => h.1) fun id t ht => ?_
      refine Contract.wp_seq (wp_fresh (.handle (.bind (.await trivial) fun _ => trivial)
        fun _ => trivial) ht) (fun _ _ h => h.1) fun published t ht => ?_
      cases published with
      | ok _ => exact hover ht
      | error e =>
        refine Contract.wp_handle.mpr (Contract.wp_mono (fun _ _ h => h)
          (fun _ _ h => ⟨h, fun ho => nomatch ho⟩) (Contract.wp_seq
            (wp_run hq work_sendPasswordReset ht.1 ht.2) (fun _ _ h => h) fun o t ht => ?_))
        exact ⟨ht.1, fun ho => ht.2 (Option.some.inj (Reply.job.inj ho))⟩
    · refine Contract.wp_seq (wp_fresh (.bind (work_issueResetToken).calls fun _ =>
        .handle (.await trivial) fun _ => trivial) ht) (fun _ _ h => h.1) fun _ _ h => hover h

theorem calls_saveInvite {org : Uuid} {email : String} {role : InviteRole} {h : TokenHash}
    {t : Time} : (OrganizationInviteRepository.save org email role h t false).Calls (InTx false) := by
  refine .bind (.await trivial) fun _ => .bind (.handle (.await (by simp [InTx, Write.table]))
    fun e => ?_) fun _ => trivial
  split <;> trivial

theorem wp_inviteUserToOrganization {input : InviteUserToOrganizationInput}
    (hq : (Request.inviteUserToOrganization input).runsJobs D = true) (hs : Fresh i s) :
    (guard D init (jobPre D)).wp i (.inviteUserToOrganization input)
      ((inviteUserToOrganization D input).bind fun o => pure (.job o))
      (fun a t => RunOver i a t) (fun _ t => NoWrites i t.world) s := by
  have hqueue : D.queueEnabled = true := hq
  have hwrite : ∀ {wr : Write}, wr.table ≠ .processedMessages →
      (await (.write false wr)).Calls (InTx false) := fun h => .await ⟨rfl, h⟩
  refine Contract.wp_seq (Q := fun o t => RunOver i (.job o) t) ?_ (fun _ _ h => h) fun _ _ h => h
  unfold inviteUserToOrganization
  split
  · exact hs.1
  · refine Contract.wp_seq (wp_fresh (.await trivial) hs) (fun _ _ h => h.1) fun org t ht => ?_
    cases org with
    | none => exact ht.1
    | some org =>
      refine Contract.wp_seq (wp_fresh (.await trivial) ht) (fun _ _ h => h.1) fun now t ht => ?_
      refine Contract.wp_seq (wp_fresh (hwrite (by simp [Write.table])) ht) (fun _ _ h => h.1)
        fun _ t ht => ?_
      refine Contract.wp_seq (wp_fresh (.bind (.await trivial) fun _ => .await trivial) ht)
        (fun _ _ h => h.1) fun pending t ht => ?_
      dsimp only
      split
      · exact ht.1
      · refine Contract.wp_seq (wp_fresh (.bind (.await trivial) fun _ => trivial) ht)
          (fun _ _ h => h.1) fun token t ht => ?_
        obtain ⟨rawToken, tokenHash⟩ := token
        dsimp only
        rw [hqueue, if_neg (by simp)]
        refine Contract.wp_seq (wp_fresh calls_saveInvite ht) (fun _ _ h => h.1) fun v t ht => ?_
        refine Contract.wp_seq (wp_fresh (.await trivial) ht) (fun _ _ h => h.1) fun id t ht => ?_
        refine Contract.wp_seq (wp_fresh (.handle (.bind (.await trivial) fun _ => trivial)
          fun _ => trivial) ht) (fun _ _ h => h.1) fun published t ht => ?_
        cases published with
        | ok _ =>
          refine ⟨ht.1, fun h => ?_⟩
          cases h
        | error e =>
          refine Contract.wp_seq (Contract.wp_handle.mpr (Contract.wp_mono (fun _ _ h => h)
            (fun _ t ht => ?_) (wp_run hq work_sendInvite ht.1 ht.2))) (fun _ _ h => h)
            fun o t ht => ⟨ht.1, fun ho => ht.2 (Option.some.inj (Reply.job.inj ho))⟩
          exact Contract.wp_seq (wp_outside (R := fun _ => True) (fun _ _ _ _ => trivial)
            (hwrite (by simp [Write.table])) ⟨ht, trivial⟩) (fun _ _ h => h.1) fun _ _ h => h.1

/-! ### Every request meets the contract -/

theorem jobPre_free (hq : q.runsJobs D = false) (op : Op) (s : AuthState)
    (h : op.table ≠ some .processedMessages) : jobPre D i q op s := by
  have hno : q.runsJobs D = true → False := fun h => nomatch hq.symm.trans h
  cases op with
  | call c =>
    cases c with
    | write tx wr => exact ⟨fun ht => absurd (congrArg some ht) h, fun _ hr => (hno hr).elim⟩
    | finishUpdate tx u => exact fun hr => (hno hr).elim
    | commit => exact fun hr => (hno hr).elim
    | _ => trivial
  | _ => trivial

/-- Without the queue, an invite is mailed in the request, and there is no job to run. -/
theorem uses_invite_without_queue (input : InviteUserToOrganizationInput)
    (h : D.queueEnabled = false) : Uses [.invites] (inviteUserToOrganization D input) := by
  unfold inviteUserToOrganization
  split
  · trivial
  · refine .bind uses_read fun org => ?_
    split
    · trivial
    · refine .bind uses_newDate fun now => .bind (uses_write (by simp [Write.table])) fun _ =>
        .bind (.bind uses_newDate fun _ => uses_read) fun pending => ?_
      split
      · trivial
      · refine .bind uses_mintToken fun token => ?_
        obtain ⟨rawToken, tokenHash⟩ := token
        dsimp only
        rw [h, if_pos (by simp)]
        exact .bind (uses_runInTransaction (.bind (uses_saveInvite (by simp)) fun _ =>
          uses_send (by simp [inviteMessage, MailBody.table]))) fun _ => .done

theorem uses_handle_without_jobs (hq : q.runsJobs D = false) :
    ∃ Ts, .processedMessages ∉ Ts ∧ Uses Ts (handle D q) := by
  cases q with
  | inviteUserToOrganization input =>
    exact ⟨_, by simp, .bind (uses_invite_without_queue input hq) fun _ => .done⟩
  | requestPasswordReset _ => cases hq
  | verificationJob _ _ => cases hq
  | sendPasswordResetEmail _ _ => cases hq
  | sendVerificationEmail _ _ => cases hq
  | sendInviteEmail _ _ => cases hq
  | generateDummyMetricLogs _ _ => cases hq
  | _ => exact ⟨_, by simp [Request.footprint], uses_handle _⟩

theorem wp_handle_job (hq : q.runsJobs D = true) (hs : Fresh i s) :
    (guard D init (jobPre D)).wp i q (handle D q) (fun a t => RunOver i a t)
      (fun _ t => NoWrites i t.world) s := by
  cases q with
  | inviteUserToOrganization input => exact wp_inviteUserToOrganization hq hs
  | requestPasswordReset input => exact wp_requestPasswordReset hq hs
  | verificationJob userId messageId => exact wp_jobRequest hq work_sendVerification hs
  | sendPasswordResetEmail msg queue =>
    exact wp_handleIdJob hq (fun _ => work_sendPasswordReset) hs
  | sendVerificationEmail msg queue => exact wp_handleIdJob hq (fun _ => work_sendVerification) hs
  | sendInviteEmail msg queue => exact wp_handleIdJob hq (fun _ => work_sendInvite) hs
  | generateDummyMetricLogs msg queue => exact wp_generateDummyMetricLogs hq hs
  | _ => cases hq

theorem wp_handle_jobs (hs : Fresh i s) :
    (guard D init (jobPre D)).wp i q (handle D q)
      (fun a t => q.runsJobs D = true → RunOver i a t)
      (fun _ t => q.runsJobs D = true → NoWrites i t.world) s := by
  by_cases hq : q.runsJobs D = true
  · exact Contract.wp_mono (fun _ _ h _ => h) (fun _ _ h _ => h) (wp_handle_job hq hs)
  · obtain ⟨Ts, hT, hp⟩ := uses_handle_without_jobs (Bool.eq_false_iff.mpr hq)
    exact Contract.wp_mono (fun _ _ _ h => absurd h hq) (fun _ _ _ h => absurd h hq)
      (meets_untouched (jobPre_free (Bool.eq_false_iff.mpr hq)) hT hp s)

/-! ### The threads of a run -/

theorem attributed_of_legal {Pre : Precondition} (hstart : w₀.store.pending = [])
    (h : LegalHistory D Pre w₀ hist) : Attributed ⟨worldAfter w₀ hist, hist⟩ := by
  induction hist with
  | nil =>
    intro l hl
    rw [show (worldAfter w₀ ([] : List AuthEvent)).store.pending = [] from hstart] at hl
    cases hl
  | cons e past ih =>
    obtain ⟨tid, req, act, before, after⟩ := e
    obtain ⟨hbefore, hobeys, hpast⟩ := h
    have ha : Attributed ⟨before, past⟩ := by
      have hworld : before = worldAfter w₀ past := hbefore
      exact hworld ▸ ih hpast
    cases act with
    | call op r =>
      obtain ⟨_, inp, he⟩ := hobeys
      exact ha.call (q := req) he
    | crash =>
      have hafter : after = { before with store := before.store.drop tid } := hobeys
      subst hafter
      exact ha.crash (q := req)

theorem stable_runOver (a : Reply) : (guard D init (jobPre D)).Stable i (RunOver i a) :=
  stable_noWrites.and (Contract.stable_own fun l => a = .job (some .duplicate) → Refused l)

theorem fresh_of_new {d : Db} (hinv : (guard D (StartsFrom d) (jobPre D)).Inv s)
    (hnew : ∀ e ∈ s.hist, e.tid ≠ i) : Fresh i s := by
  obtain ⟨w₀, hw₀, hworld, hl⟩ := hinv
  have ha := attributed_of_legal (by rw [show w₀ = _ from hw₀]; rfl) hl
  rw [← hworld] at ha
  refine ⟨ha.pendingOf_new hnew, ?_⟩
  rw [own_nil_of_new hnew]
  exact fun _ h => nomatch h

/-- **The history of a run, and its threads that are over.** -/
theorem jobs_of_reachable {d : Db} {c : AuthConfig}
    (h : (authMachine D).Reachable (StartsFrom d) c) :
    (∃ w₀, StartsFrom d w₀ ∧ c.state.world = worldAfter w₀ c.state.hist ∧
      LegalHistory D (jobPre D) w₀ c.state.hist) ∧
    (∀ i q a, c.threads[i]? = some (q, .done a) → q.runsJobs D = true → RunOver i a c.state) ∧
    ∀ i q e, c.threads[i]? = some (q, .fail e) → q.runsJobs D = true →
      NoWrites i c.state.world := by
  obtain ⟨hinv, hthreads⟩ := (guard D (StartsFrom d) (jobPre D)).sound
    (Q := fun i q a s => q.runsJobs D = true → RunOver i a s)
    (E := fun i q _ s => q.runsJobs D = true → NoWrites i s.world)
    (fun w hw => ⟨w, hw, rfl, trivial⟩)
    (fun i q s hinv _ hnew => wp_handle_jobs (fresh_of_new hinv hnew))
    (fun i q a _ _ hst h hq => stable_runOver a hst (h hq))
    (fun i q _ _ _ hst h hq => stable_noWrites hst (h hq))
    (fun i q s _ _ => s.world.store.pendingOf_rollback_self) h
  exact ⟨hinv, fun i q a ht => hthreads i q _ ht, fun i q e ht => hthreads i q _ ht⟩

/-! ### The records -/

theorem updates_keep_records (st : Statement) : (processedNames D).gives st.write = none := by
  obtain ⟨tx, u, ids⟩ := st
  cases u <;> rfl

theorem processed_iff_names {d : Db} : Processed k d ↔ (k, ()) ∈ (processedNames D).names d := by
  constructor
  · rintro ⟨p, hp, rfl⟩
    exact List.mem_map_of_mem (f := fun p : ProcessedMessage => (p.key, ())) hp
  · intro h
    obtain ⟨p, hp, heq⟩ := List.mem_map.mp h
    exact ⟨p, hp, (Prod.mk.inj heq).1⟩

theorem gives_record {wr : Write} {n : JobKey × Unit} (h : (processedNames D).gives wr = some n) :
    ∃ p, wr = .createProcessedMessage p ∧ n.1 = p.key := by
  cases wr with
  | createProcessedMessage p => cases h; exact ⟨p, rfl, rfl⟩
  | _ => cases h

/-- The database refuses a record whose key is there, and only that. -/
theorem refuse_record {p : ProcessedMessage} {d : Db} :
    (Write.createProcessedMessage p).refuse D d =
      if Processed p.key d then some (.uniqueConstraint "processed_messages_pkey") else none := by
  have hany : (d.processedMessages.any fun q =>
      q.messageId = p.messageId && q.queue = p.queue) = true ↔ Processed p.key d := by
    simp [Processed, ProcessedMessage.key]
  by_cases hp : Processed p.key d
  · rw [if_pos hp]
    exact if_pos (hany.mpr hp)
  · rw [if_neg hp]
    exact if_neg fun h => hp (hany.mp h)

theorem Processed.apply {d : Db} (wr : Write) (h : Processed k d) : Processed k (wr.apply D d) := by
  cases wr with
  | createProcessedMessage p =>
    obtain ⟨q, hq, hk⟩ := h
    exact ⟨q, List.mem_append_left _ hq, hk⟩
  | _ => exact h

theorem processed_foldl {ws : List Write} {d : Db} :
    Processed k (ws.foldl (fun d wr => (schema D).apply wr d) d) ↔
      Processed k d ∨ ∃ p, .createProcessedMessage p ∈ ws ∧ p.key = k := by
  induction ws generalizing d with
  | nil => simp
  | cons wr ws ih =>
    rw [List.foldl_cons, ih]
    cases wr with
    | createProcessedMessage p =>
      have happly : Processed k ((schema D).apply (.createProcessedMessage p) d) ↔
          Processed k d ∨ p.key = k := by
        simp [Processed, schema, Write.apply, Write.onProcessedMessages, or_and_right, exists_or]
      rw [happly]
      simp [or_and_right, exists_or, or_assoc]
    | _ => simp [schema, Processed, Write.apply, Write.onProcessedMessages]

/-- A write that the database takes records what nobody has recorded. -/
theorem record_new {wr : Write} {m n : JobKey × Unit} {st : AuthStore}
    (ht : st.Takes (schema D) i true wr) (hn : (processedNames D).gives wr = some n)
    (hm : (processedNames D).Known st m) : m.1 ≠ n.1 := by
  obtain ⟨p, rfl, hp⟩ := gives_record hn
  rw [hp]
  have hnot : ∀ {d : Db}, (Write.createProcessedMessage p).refuse D d = none → ¬ Processed p.key d := by
    intro d h
    rw [refuse_record] at h
    intro hproc
    rw [if_pos hproc] at h
    cases h
  have hview : ∀ j, Processed m.1 (st.view (schema D) j) → m.1 = p.key →
      (Write.createProcessedMessage p).refuse D (st.view (schema D) j) = none → False :=
    fun j h heq href => hnot href (heq ▸ h)
  intro heq
  rcases hm with hm | ⟨⟨j, v⟩, hv, hg⟩
  · refine hview i (processed_foldl.mpr (.inl ?_)) heq ht.accepted
    exact processed_iff_names.mpr hm
  · obtain ⟨p', hwr, hp'⟩ := gives_record hg
    have hmem : .createProcessedMessage p' ∈ st.pendingOf j := st.mem_pendingOf.mpr (hwr ▸ hv)
    have hproc : Processed m.1 (st.view (schema D) j) :=
      processed_foldl.mpr (.inr ⟨p', hmem, hp'.symm⟩)
    by_cases hj : j = i
    · subst hj
      exact hview j hproc heq ht.accepted
    · exact hview j hproc heq (ht.uncontested j v hj hv)

/-- **No two runs have recorded one key.** -/
theorem distinct_records {d : Db} (hkeys : (d.processedMessages.map ProcessedMessage.key).Nodup)
    (h : LegalHistory D (jobPre D) (World.init d) hist) :
    (processedNames D).Distinct (worldAfter (World.init d) hist).store := by
  induction hist with
  | nil =>
    refine ⟨?_, (fun _ h => nomatch h), .nil⟩
    have hnames : ((processedNames D).names d).map Prod.fst =
        d.processedMessages.map ProcessedMessage.key := List.map_map
    exact hnames ▸ hkeys
  | cons e past ih =>
    have hd : (processedNames D).Distinct e.before.store := h.1 ▸ ih h.2.2
    rcases store_of_obeys h.2.1 with ⟨op, r, ha, hstep⟩ | ⟨_, hdrop⟩
    · refine distinct_of_storeStep updates_keep_records hstep hd fun tx wr hop ht n hn m hm => ?_
      subst hop
      obtain ⟨p, rfl, _⟩ := gives_record hn
      have htx : tx = true := ((h.2.1.pre ha).1 rfl).2.1
      exact record_new (htx ▸ ht) hn hm
    · have hstore : (worldAfter (World.init d) (e :: past)).store = e.before.store.drop e.tid := hdrop
      rw [hstore]
      exact hd.mono rfl List.filter_sublist

theorem commitsRun_iff : commitsRun k e = true ↔
    (∃ r, e.act = .call (.call .commit) r) ∧
      (∃ p, .createProcessedMessage p ∈ e.before.store.pendingOf e.tid ∧ p.key = k) ∧
      Processed k e.after.store.db := by
  unfold commitsRun
  split
  · rename_i r ha
    simp only [Bool.and_eq_true, List.any_eq_true, decide_eq_true_eq]
    constructor
    · rintro ⟨⟨wr, hwr, hk⟩, hp⟩
      refine ⟨⟨r, ha⟩, ?_, hp⟩
      split at hk
      · exact ⟨_, hwr, by simpa using hk⟩
      · cases hk
    · rintro ⟨_, ⟨p, hp, hk⟩, hproc⟩
      exact ⟨⟨_, hp, by simpa using hk⟩, hproc⟩
  · rename_i hno
    refine iff_of_false (fun h => nomatch h) ?_
    rintro ⟨⟨r, ha⟩, _⟩
    exact hno r ha

/-- **What a step does to the records**: it adds those of the run it commits. -/
theorem processed_step (hd : (processedNames D).Distinct e.before.store)
    (h : Obeys (authMachine D) (jobPre D) e past) :
    (Processed k e.after.store.db ↔ Processed k e.before.store.db ∨ commitsRun k e = true) ∧
      (commitsRun k e = true → ¬ Processed k e.before.store.db) := by
  have hnew : commitsRun k e = true → ¬ Processed k e.before.store.db := by
    intro hc hp
    obtain ⟨_, ⟨p, hmem, rfl⟩, _⟩ := commitsRun_iff.mp hc
    exact hd.pending_new (e.tid, _) (e.before.store.mem_pendingOf.mp hmem) (p.key, ()) rfl _
      (processed_iff_names.mp hp) rfl
  refine ⟨?_, hnew⟩
  have hsame : e.after.store.db.processedMessages = e.before.store.db.processedMessages →
      (Processed k e.after.store.db ↔ Processed k e.before.store.db ∨ commitsRun k e = true) := by
    intro heq
    have hiff : Processed k e.after.store.db ↔ Processed k e.before.store.db := by
      rw [Processed, heq, Processed]
    rw [hiff]
    refine ⟨.inl, fun h => h.resolve_right fun hc => hnew hc (hiff.mp (commitsRun_iff.mp hc).2.2)⟩
  rcases store_of_obeys h with ⟨op, r, ha, hstep⟩ | ⟨_, hdrop⟩
  · rcases hstep.db_cases with hdb | ⟨wr, rfl, _, hdb⟩ | ⟨st, _, _, _, _, hdb⟩ | ⟨rfl, hs⟩
    · exact hsame (congrArg Db.processedMessages hdb)
    · refine hsame ?_
      rw [hdb]
      cases wr with
      | createProcessedMessage p => exact nomatch ((h.pre ha).1 rfl).2.1
      | _ => rfl
    · refine hsame ?_
      rw [hdb]
      obtain ⟨tx, u, ids⟩ := st
      cases u <;> rfl
    · have hafter : Processed k e.after.store.db ↔ Processed k e.before.store.db ∨
          ∃ p, .createProcessedMessage p ∈ e.before.store.pendingOf e.tid ∧ p.key = k := by
        rw [hs]
        exact processed_foldl
      rw [hafter]
      refine or_congr_right ⟨fun hp => commitsRun_iff.mpr ⟨⟨r, ha⟩, hp, hafter.mpr (.inr hp)⟩,
        fun hc => (commitsRun_iff.mp hc).2.1⟩
  · exact hsame (congrArg (fun s => s.db.processedMessages) hdrop)

/-- **At most one run under a key commits**, and the record tells whether one has. -/
theorem commits_of_legal {d : Db} (hkeys : (d.processedMessages.map ProcessedMessage.key).Nodup)
    (h : LegalHistory D (jobPre D) (World.init d) hist) :
    (Processed k (worldAfter (World.init d) hist).store.db ↔
      Processed k d ∨ 0 < hist.countP (commitsRun k)) ∧
    hist.countP (commitsRun k) ≤ 1 ∧ (Processed k d → hist.countP (commitsRun k) = 0) := by
  induction hist with
  | nil => exact ⟨by simp [worldAfter, World.init], by simp, by simp⟩
  | cons e past ih =>
    obtain ⟨hiff, hle, hstart⟩ := ih h.2.2
    have hd : (processedNames D).Distinct e.before.store := h.1 ▸ distinct_records hkeys h.2.2
    obtain ⟨hstep, hnew⟩ := processed_step (k := k) hd h.2.1
    rw [h.1, hiff] at hstep hnew
    by_cases hc : commitsRun k e = true
    · have hnone := hnew hc
      rw [List.countP_cons_of_pos hc]
      refine ⟨hstep.trans (iff_of_true (.inr hc) (.inr (Nat.succ_pos _))), ?_, ?_⟩
      · have : past.countP (commitsRun k) = 0 := by
          by_contra hne
          exact hnone (.inr (Nat.pos_of_ne_zero hne))
        omega
      · exact fun hp => absurd (.inl hp) hnone
    · rw [List.countP_cons_of_neg hc]
      exact ⟨hstep.trans (or_iff_left hc), hle, hstart⟩

/-! ### Every run -/

/-- A record is refused for one that is there. -/
theorem processed_of_refused {p : ProcessedMessage} {c : String} {inp : Input} {w w' : World}
    (hw : NoWrites i w) (h : exec D i inp (.call (.write true (.createProcessedMessage p))) w =
      some (.error (.uniqueConstraint c), w')) : Processed p.key w.store.db := by
  simp only [exec] at h
  split at h
  · obtain ⟨⟨r, st⟩, hs, hr⟩ := Option.map_eq_some_iff.mp h
    cases hr
    rcases Store.write_cases hs with ⟨e, _, _, href⟩ | ⟨hok, _⟩
    · have hbase : w.store.base (schema D) i true = w.store.db := w.store.view_of_pendingOf_nil _ hw
      have href' : (Write.createProcessedMessage p).refuse D w.store.db = some e := hbase ▸ href
      rw [refuse_record] at href'
      by_contra hno
      rw [if_neg hno] at href'
      cases href'
    · cases hok
  · cases h
  · obtain ⟨t, _, hr⟩ := Option.map_eq_some_iff.mp h
    cases hr

theorem processed_of_refused_legal {d : Db} (h : LegalHistory D (jobPre D) (World.init d) hist)
    (hr : Refused (own i hist)) : ∃ k, (∃ e ∈ own i hist, claims e = some k) ∧
      (∀ e ∈ own i hist, ∀ k', claims e = some k' → k' = k) ∧
      Processed k (worldAfter (World.init d) hist).store.db := by
  obtain ⟨p, c, ⟨e, he, ha⟩, hall⟩ := hr
  refine ⟨p.key, ⟨e, he, by rw [claims, ha]⟩, hall, ?_⟩
  obtain ⟨past, hs⟩ := exists_past (mem_of_mem_own he).1
  have hobeys := h.obeys hs
  obtain ⟨inp, hexec⟩ := hobeys.exec ha
  have hpast : Processed p.key (worldAfter (World.init d) past).store.db := by
    rw [← h.before hs]
    exact processed_of_refused ((hobeys.pre ha).1 rfl).2.2 hexec
  exact kept_of_legal (fun wr _ => Processed.apply wr) h
    ((List.suffix_cons e past).trans hs) hpast

/-- What a run's thread changes, it changes outside of the run, or by committing a run
none of whose calls has failed. -/
theorem effect_of_legal (h : LegalHistory D (jobPre D) w₀ hist) (hs : (e :: past) <:+ hist)
    (hq : e.req.runsJobs D = true) (hdb : e.after.store.db ≠ e.before.store.db) :
    NoWrites e.tid e.before ∨ ((∃ r, e.act = .call (.call .commit) r) ∧ InRun e.tid e.before ∧
      Untroubled (own e.tid past)) := by
  have hobeys := h.obeys hs
  rcases store_of_obeys hobeys with ⟨op, r, ha, hstep⟩ | ⟨_, hdrop⟩
  · rcases hstep.db_cases with hsame | ⟨wr, rfl, _, _⟩ | ⟨st, rfl, _, _, _, _⟩ | ⟨rfl, _⟩
    · exact absurd hsame hdb
    · by_cases ht : wr.table = .processedMessages
      · exact nomatch ((hobeys.pre ha).1 ht).2.1
      · exact .inl ((hobeys.pre ha).2 ht hq)
    · exact .inl (hobeys.pre ha hq)
    · exact .inr ⟨⟨r, ha⟩, hobeys.pre ha hq⟩
  · exact absurd (congrArg Store.db hdrop) hdb

/-- **A job takes effect at most once.**  Of the runs under a key one commits at most; a
run is a duplicate only after one has; and a run that fails changes nothing, so another
can still be made. -/
theorem runOnce_once {d : Db} (hkeys : (d.processedMessages.map ProcessedMessage.key).Nodup)
    {c : AuthConfig} (h : (authMachine D).Reachable (StartsFrom d) c) :
    (∀ k, c.state.hist.countP (commitsRun k) ≤ 1 ∧
      (Processed k d → c.state.hist.countP (commitsRun k) = 0) ∧
      (Processed k c.state.world.store.db ↔
        Processed k d ∨ 0 < c.state.hist.countP (commitsRun k))) ∧
    (∀ i q, c.threads[i]? = some (q, .done (.job (some .duplicate))) → q.runsJobs D = true →
      ∃ k, (∃ e ∈ own i c.state.hist, claims e = some k) ∧
        (∀ e ∈ own i c.state.hist, ∀ k', claims e = some k' → k' = k) ∧
        (Processed k d ∨ 0 < c.state.hist.countP (commitsRun k))) ∧
    (∀ e past, (e :: past) <:+ c.state.hist → e.req.runsJobs D = true →
      e.after.store.db ≠ e.before.store.db →
      NoWrites e.tid e.before ∨ ((∃ r, e.act = .call (.call .commit) r) ∧ InRun e.tid e.before ∧
        Untroubled (own e.tid past))) ∧
    (∀ i q, ((∃ a, c.threads[i]? = some (q, .done a)) ∨ ∃ e, c.threads[i]? = some (q, .fail e)) →
      q.runsJobs D = true → NoWrites i c.state.world) := by
  obtain ⟨⟨w₀, rfl, hworld, hl⟩, hdone, hfail⟩ := jobs_of_reachable h
  have hcommits := fun k => commits_of_legal (k := k) hkeys hl
  refine ⟨fun k => ?_, fun i q ht hq => ?_, fun e past hs hq hdb => effect_of_legal hl hs hq hdb, ?_⟩
  · rw [hworld]
    exact ⟨(hcommits k).2.1, (hcommits k).2.2, (hcommits k).1⟩
  · obtain ⟨k, hclaims, honly, hp⟩ := processed_of_refused_legal hl ((hdone i q _ ht hq).2 rfl)
    exact ⟨k, hclaims, honly, (hcommits k).1.mp hp⟩
  · rintro i q (⟨a, ht⟩ | ⟨e, ht⟩) hq
    · exact (hdone i q a ht hq).1
    · exact hfail i q e ht hq

/-- A message delivered twice, and its job run in a request too: the first run fails as it
sends its mail, while the second waits for the record. -/
def verificationRuns : List (Label Input Request) :=
  let msg : IncomingMessage := ⟨.object [("userId", .uuid (.seed 1))], .uuid (.seed 7)⟩
  let queue := "lakira.auth.send-verification-email"
  [.spawn (.sendVerificationEmail msg queue), .spawn (.sendVerificationEmail msg queue),
    .spawn (.verificationJob (.seed 1) (.seed 7))] ++
  steps 0 2 ++ steps 1 1 ++ steps 0 7 ++ [.step 0 ⟨.failed, 0, 0⟩] ++ steps 0 1 ++ steps 1 10 ++
    steps 2 3

theorem runOnce_once_verification :
    ∃ c, runFrom sampleDeps sampleDb verificationRuns = some c ∧ c.state.hist.length = 25 ∧
      c.state.hist.countP (commitsRun (.ofUuid (.seed 7), "lakira.auth.send-verification-email")) ≤
        1 := by
  have hrun : (runFrom sampleDeps sampleDb verificationRuns).map (fun c => c.state.hist.length) =
      some 25 := by decide +kernel
  obtain ⟨c, hc, hlen⟩ := Option.map_eq_some_iff.mp hrun
  have hstart : StartsFrom sampleDb (World.init sampleDb) := rfl
  exact ⟨c, hc, hlen, ((runOnce_once (by decide) (Machine.reachable_of_run hstart hc)).1 _).1⟩

end LakiraBackend.Auth
