import LakiraBackend.Auth.Guards

/-!
# What becomes of an invite that was mailed

When the publishing of an invite's job fails, the request runs the job itself, and
deletes the invite when that fails.  A worker may have run the job all the same.  The
request then deletes an invite whose mail is out, exactly when its own run fails after
the other has committed, or the other commits before the request has cleaned up
(`Overtaken`); in every other run a mailed invite stays (`mailedInvite_kept`).
-/

namespace LakiraBackend.Auth

open LakiraBackend.Concurrency

/-- The event is a failed call of a request that sends its invite itself.  A failed
publishing or ROLLBACK fails nothing, and a refused record is a duplicate. -/
def failsSending (e : AuthEvent) : Bool :=
  match e.act with
  | .call (.call (.publish _ _ _)) _ => false
  | .call (.call .rollback) _ => false
  | .call (.call (.write _ (.deleteInvite _))) _ => false
  | .call (.call (.write _ (.createProcessedMessage _))) (.error (.uniqueConstraint _)) => false
  | .call _ (.error _) => true
  | _ => false

/-- The event creates the invite. -/
def makesInvite (v : Uuid) (e : AuthEvent) : Bool :=
  match e.act with
  | .call (.call (.write _ (.createInvite x))) (.ok _) => x.id = v
  | _ => false

/-- The event is a request's attempt to delete its invite. -/
def cleansUp (e : AuthEvent) : Bool :=
  match e.act with
  | .call (.call (.write _ (.deleteInvite _))) _ => true
  | _ => false

/-- The mail carries the token that was hashed. -/
def EmailMessage.carries (h : TokenHash) (m : EmailMessage) : Bool :=
  match m.body with
  | .organizationInvite raw _ _ => raw = h.raw
  | _ => false

/-- The event commits a run of the invite's job whose mail was accepted: its record is
there, and it gives the invite a token that is in a mail. -/
def commitsMailed (v : Uuid) (e : AuthEvent) : Bool :=
  match e.act with
  | .call (.call .commit) _ =>
    ((e.before.store.pendingOf e.tid).any fun wr => match wr with
      | .createProcessedMessage p => e.after.store.db.processedMessages.contains p
      | _ => false) &&
    (e.before.store.pendingOf e.tid).any fun wr => match wr with
      | .replaceInviteTokenHash id h => id = v && e.before.outbox.any fun m => m.carries h
      | _ => false
  | _ => false

def HasInvite (v : Uuid) (d : Db) : Prop := ∃ x ∈ d.invites, x.id = v

instance (v : Uuid) (d : Db) : Decidable (HasInvite v d) :=
  inferInstanceAs (Decidable (∃ x ∈ d.invites, x.id = v))

/-- The event deletes the invite. -/
def Deletes (v : Uuid) (e : AuthEvent) : Prop :=
  HasInvite v e.before.store.db ∧ ¬ HasInvite v e.after.store.db

instance (v : Uuid) (e : AuthEvent) : Decidable (Deletes v e) := inferInstanceAs (Decidable (_ ∧ ¬ _))

/-- The thread has made the invite. -/
def Made (v : Uuid) (l : List AuthEvent) : Prop := ∃ e ∈ l, makesInvite v e = true

instance (v : Uuid) (l : List AuthEvent) : Decidable (Made v l) :=
  inferInstanceAs (Decidable (∃ e ∈ l, makesInvite v e = true))

def Failed (l : List AuthEvent) : Prop := ∃ e ∈ l, failsSending e = true

def Uncleaned (l : List AuthEvent) : Prop := ∀ e ∈ l, cleansUp e = false

/-- The request's own run fails when another has committed and mailed the invite, or
another does so when the request's has failed, and the invite is not deleted yet. -/
def Overtaken (v : Uuid) (e : AuthEvent) (past : List AuthEvent) : Prop :=
  (failsSending e = true ∧ Made v (own e.tid past) ∧
    ∃ c ∈ e :: past, commitsMailed v c = true) ∨
  (commitsMailed v e = true ∧ ∃ m ∈ past, makesInvite v m = true ∧ Failed (own m.tid past) ∧
    Uncleaned (own m.tid past))

instance (v : Uuid) (e : AuthEvent) (past : List AuthEvent) : Decidable (Overtaken v e past) :=
  inferInstanceAs (Decidable ((_ ∧ _ ∧ _) ∨
    (_ ∧ ∃ m ∈ past, _ ∧ (∃ f ∈ own m.tid past, _) ∧ ∀ f ∈ own m.tid past, _)))

/-- A request that has made an invite deletes no expired ones; it makes one while no call
has failed, and deletes it once, when one has. -/
def cleanupPre : Precondition := fun i _ op s => match op with
  | .call (.write _ (.createInvite _)) => ¬ Failed (own i s.hist)
  | .call (.write tx (.deleteExpiredInvites _ _ _)) =>
      tx = false ∧ ∀ v, ¬ Made v (own i s.hist)
  | .call (.write tx (.deleteInvite _)) =>
      tx = false ∧ Failed (own i s.hist) ∧ Uncleaned (own i s.hist)
  | _ => True

variable {D : Deps} {init : World → Prop} {i : Nat} {q : Request} {s : AuthState} {w₀ : World}
  {hist past l : List AuthEvent} {e : AuthEvent} {v : Uuid}

/-! ### Calls that need nothing -/

/-- The call neither creates nor deletes an invite. -/
def KeepsInvites : Op → Prop
  | .call (.write _ (.createInvite _)) => False
  | .call (.write _ (.deleteExpiredInvites _ _ _)) => False
  | .call (.write _ (.deleteInvite _)) => False
  | _ => True

theorem KeepsInvites.pre (q : Request) {op : Op} (h : KeepsInvites op) (s : AuthState) :
    cleanupPre i q op s := by
  cases op with
  | call c =>
    cases c with
    | write tx wr => cases wr <;> trivial
    | _ => trivial
  | _ => trivial

theorem keepsInvites_of_table {op : Op} (h : op.table ≠ some .invites) : KeepsInvites op := by
  cases op with
  | call c =>
    cases c with
    | write tx wr => cases wr <;> trivial
    | _ => trivial
  | _ => trivial

theorem meets_keepsInvites {α : Type} {p : Async α} (hp : p.Calls KeepsInvites) :
    (guard D init cleanupPre).Meets i q p :=
  fun _ => Contract.wp_of_calls (Contract.Stable.true i) (fun _ t hop _ _ => hop.pre q t)
    (fun _ _ _ _ _ _ _ _ _ => trivial) hp trivial

/-! ### What a thread has done so far -/

/-- No call has failed, and nothing was deleted. -/
def Sending (l : List AuthEvent) : Prop := ¬ Failed l ∧ Uncleaned l

theorem Sending.cons (h : Sending l) (hf : failsSending e = false) (hc : cleansUp e = false) :
    Sending (e :: l) := by
  refine ⟨?_, fun e' he' => ?_⟩
  · rintro ⟨e', he', hf'⟩
    rcases List.mem_cons.mp he' with rfl | he'
    · rw [hf] at hf'
      cases hf'
    · exact h.1 ⟨e', he', hf'⟩
  · rcases List.mem_cons.mp he' with rfl | he'
    · exact hc
    · exact h.2 e' he'

theorem failsSending_ok {op : Op} {a : op.Answer} {w w' : World} :
    failsSending ⟨i, q, .call op (.ok a), w, w'⟩ = false := by
  unfold failsSending
  split <;> first | rfl | cases ‹_ = _›

theorem cleansUp_of_op {op : Op} {r : Except Err op.Answer} {w w' : World}
    (h : ∀ tx u, op ≠ .call (.write tx (.deleteInvite u))) :
    cleansUp ⟨i, q, .call op r, w, w'⟩ = false := by
  unfold cleansUp
  split
  · rename_i ha
    exact absurd (Act.call.inj ha).1 (h _ _)
  · rfl

theorem makesInvite_of_op {op : Op} {r : Except Err op.Answer} {w w' : World}
    (h : ∀ tx x, op ≠ .call (.write tx (.createInvite x))) :
    makesInvite v ⟨i, q, .call op r, w, w'⟩ = false := by
  unfold makesInvite
  split
  · rename_i ha
    exact absurd (Act.call.inj ha).1 (h _ _)
  · rfl

/-- Nothing has failed, and no invite was made. -/
def Preparing (l : List AuthEvent) : Prop := (∀ v, ¬ Made v l) ∧ Sending l

theorem Preparing.nil : Preparing [] := by
  refine ⟨?_, ?_, fun _ h => nomatch h⟩
  · rintro v ⟨_, h, _⟩
    cases h
  · rintro ⟨_, h, _⟩
    cases h

/-- The calls of a request before it makes its invite. -/
def Prepares : Op → Prop
  | .call (.write _ (.createInvite _)) => False
  | .call (.write tx (.deleteExpiredInvites _ _ _)) => tx = false
  | .call (.write _ (.deleteInvite _)) => False
  | _ => True

theorem Prepares.pre (q : Request) {op : Op} (h : Prepares op) (hs : Preparing (own i s.hist)) :
    cleanupPre i q op s := by
  cases op with
  | call c =>
    cases c with
    | write tx wr => cases wr <;> first | trivial | exact ⟨h, hs.1⟩
    | _ => trivial
  | _ => trivial

theorem Prepares.ne {op : Op} (h : Prepares op) : (∀ tx x, op ≠ .call (.write tx (.createInvite x))) ∧
    ∀ tx u, op ≠ .call (.write tx (.deleteInvite u)) :=
  ⟨fun _ _ hop => by subst hop; exact h, fun _ _ hop => by subst hop; exact h⟩

theorem Prepares.ok {op : Op} (h : Prepares op) {t : AuthState} {a : op.Answer} {w : World}
    (ht : Preparing (own i t.hist)) :
    Preparing (own i (t.push i q (.call op (.ok a)) w).hist) := by
  rw [own_push]
  refine ⟨fun v => ?_, ht.2.cons failsSending_ok (cleansUp_of_op h.ne.2)⟩
  rintro ⟨e, he, hm⟩
  rcases List.mem_cons.mp he with rfl | he
  · rw [makesInvite_of_op h.ne.1] at hm
    cases hm
  · exact ht.1 v ⟨e, he, hm⟩

/-- What a request does before it makes its invite: an error ends it. -/
theorem wp_prepare {α : Type} {p : Async α} (hp : p.Strict Prepares fun _ => True)
    (hs : Preparing (own i s.hist)) :
    (guard D init cleanupPre).wp i q p (fun _ t => Preparing (own i t.hist)) (fun _ _ => True) s := by
  refine Contract.wp_of_strict (Contract.stable_own Preparing) (fun _ _ hop _ ht => hop.pre q ht)
    (fun op t inp a w hop _ ht _ => ?_) (fun _ _ _ _ _ _ _ _ => trivial) (fun _ _ _ => trivial) hp hs
  exact hop.ok ht

/-- A call of a request that has made its invite and sends it. -/
theorem wp_sending (op : Op) (hop : KeepsInvites op) (hs : Sending (own i s.hist))
    {E : Err → AuthState → Prop} (herr : ∀ (t : AuthState) inp e w, Sending (own i t.hist) →
      exec D i inp op t.world = some (.error e, w) → E e (t.push i q (.call op (.error e)) w)) :
    (guard D init cleanupPre).wp i q (Prog.await op) (fun _ t => Sending (own i t.hist)) E s := by
  refine Contract.wp_await (Contract.stable_own Sending) hs (fun t _ _ => hop.pre q t)
    (fun t inp a w _ ht _ => ?_) fun t inp e w _ ht he => herr t inp e w ht he
  rw [own_push]
  exact ht.cons failsSending_ok (cleansUp_of_op fun _ _ h => by subst h; exact hop)

/-! ### The job in the request -/

/-- A call has failed, and nothing was deleted. -/
def GivenUp (l : List AuthEvent) : Prop := Failed l ∧ Uncleaned l

theorem Sending.fail (h : Sending l) (hf : failsSending e = true) (hc : cleansUp e = false) :
    GivenUp (e :: l) := by
  refine ⟨⟨e, List.mem_cons_self, hf⟩, fun e' he' => ?_⟩
  rcases List.mem_cons.mp he' with rfl | he'
  · exact hc
  · exact h.2 e' he'

theorem GivenUp.cons (h : GivenUp l) (hc : cleansUp e = false) : GivenUp (e :: l) := by
  obtain ⟨f, hf, hfail⟩ := h.1
  refine ⟨⟨f, List.mem_cons_of_mem e hf, hfail⟩, fun e' he' => ?_⟩
  rcases List.mem_cons.mp he' with rfl | he'
  · exact hc
  · exact h.2 e' he'

/-- A call whose error ends the run. -/
def EndsRun : Op → Prop
  | .call (.publish _ _ _) => False
  | .call .rollback => False
  | .call (.write _ (.createProcessedMessage _)) => False
  | op => KeepsInvites op

theorem EndsRun.keeps {op : Op} (h : EndsRun op) : KeepsInvites op := by
  cases op with
  | call c =>
    cases c with
    | write tx wr => cases wr <;> first | exact h | trivial
    | _ => trivial
  | _ => trivial

theorem EndsRun.fails {op : Op} (h : EndsRun op) {err : Err} {w w' : World} :
    failsSending ⟨i, q, .call op (.error err), w, w'⟩ = true := by
  cases op with
  | call c =>
    cases c with
    | write tx wr => cases wr <;> first | rfl | exact h.elim
    | publish _ _ _ => exact h.elim
    | rollback => exact h.elim
    | _ => rfl
  | _ => rfl

theorem EndsRun.error {op : Op} (h : EndsRun op) {t : AuthState} {err : Err} {w : World}
    (ht : Sending (own i t.hist)) : GivenUp (own i (t.push i q (.call op (.error err)) w).hist) := by
  rw [own_push]
  exact ht.fail h.fails (cleansUp_of_op fun _ _ ho => by subst ho; exact h)

theorem endsRun_sendInvite {inviteId : Uuid} :
    (sendInviteInTransaction D inviteId).Strict EndsRun fun _ => False := by
  refine (strict_sendInvite inviteId).mono fun op hop => ?_
  cases op with
  | call c =>
    cases c with
    | write tx wr => cases wr <;> trivial
    | _ => trivial
  | _ => trivial

/-- What an error of the run means. -/
def FailedSend (i : Nat) (e : Err) (s : AuthState) : Prop :=
  e ≠ .duplicateMessage → GivenUp (own i s.hist)

theorem wp_claimInRequest {p : ProcessedMessage} (hs : Sending (own i s.hist)) :
    (guard D init cleanupPre).wp i q (claimMessage p) (fun _ t => Sending (own i t.hist))
      (FailedSend i) s := by
  refine Contract.wp_handle.mpr (Contract.wp_mono (fun _ _ h => h) (fun e t h => ?_)
    (wp_sending (.call (.write true (.createProcessedMessage p))) trivial hs
      (E := fun e t => (∀ c, e ≠ .uniqueConstraint c) → GivenUp (own i t.hist))
      fun t inp e w ht _ hne => ?_))
  · cases e with
    | uniqueConstraint c => exact fun hne => absurd rfl hne
    | _ => exact fun _ => h fun _ => nofun
  · rw [own_push]
    refine ht.fail ?_ (cleansUp_of_op fun _ _ => nofun)
    cases e with
    | uniqueConstraint c => exact absurd rfl (hne c)
    | _ => rfl

theorem wp_workInRequest {α : Type} {p : Async α} (hw : p.Strict EndsRun fun _ => False)
    (hs : Sending (own i s.hist)) :
    (guard D init cleanupPre).wp i q p (fun _ t => Sending (own i t.hist)) (FailedSend i) s := by
  refine Contract.wp_of_strict (Contract.stable_own Sending)
    (fun _ t hop _ _ => hop.keeps.pre q t) (fun op t inp a w hop _ ht _ => ?_)
    (fun op t inp e w hop ht _ _ => hop.error ht) (fun _ _ h => h.elim) hw hs
  rw [own_push]
  exact ht.cons failsSending_ok (cleansUp_of_op fun _ _ h => by subst h; exact hop)

/-- **A run in the request**: it ends with an error only when a call of it has failed. -/
theorem wp_runInRequest {work : Async Unit} (hw : work.Strict EndsRun fun _ => False) {id : Uuid}
    {queue : String} {org : Option Uuid} (hs : Sending (own i s.hist)) :
    (guard D init cleanupPre).wp i q (runOnce D (.uuid id) queue org work) (fun _ _ => True)
      (fun _ t => GivenUp (own i t.hist)) s := by
  have hrollback : ∀ e t, FailedSend i e t → (guard D init cleanupPre).wp i q
      (tryCatch (await .rollback) fun _ => pure ()) (fun _ t => FailedSend i e t)
      (fun _ _ => False) t := by
    intro e t ht
    have hkeep : ∀ (t : AuthState) inp r w, (guard D init cleanupPre).Inv t → FailedSend i e t →
        exec D i inp (.call .rollback) t.world = some (r, w) →
        FailedSend i e (t.push i q (.call (.call .rollback) r) w) := by
      intro t inp r w _ ht _ hne
      rw [own_push]
      exact (ht hne).cons (cleansUp_of_op fun _ _ => nofun)
    exact Contract.wp_handle.mpr (Contract.wp_mono (fun _ _ h => h) (fun _ _ h => h)
      (wp_keep (Contract.stable_own fun l => e ≠ .duplicateMessage → GivenUp l) ht
        (fun _ _ _ => trivial) hkeep))
  have hbody : (guard D init cleanupPre).wp i q
      (runInTransaction ((claimMessage ⟨.ofUuid id, queue, org⟩).bind fun _ => work))
      (fun _ _ => True) (FailedSend i) s := by
    refine Contract.wp_handle.mpr (Contract.wp_mono (fun _ _ h => h) (fun e t h => ?_)
      (Contract.wp_seq (wp_workInRequest (p := await .begin) (.await trivial) hs)
        (fun _ _ h => h) fun _ t ht => Contract.wp_seq (Contract.wp_seq (wp_claimInRequest ht)
          (fun _ _ h => h) fun _ t ht => wp_workInRequest hw ht) (fun _ _ h => h) fun _ t ht =>
            Contract.wp_seq (wp_workInRequest (p := await .commit) (.await trivial) ht)
              (fun _ _ h => h) fun _ _ _ => trivial))
    exact Contract.wp_seq (hrollback e t h) (fun _ _ h => h.elim) fun _ _ h => h
  refine Contract.wp_handle.mpr (Contract.wp_mono (fun _ _ h => h) (fun e t h => ?_)
    (Contract.wp_seq hbody (fun _ _ h => h) fun _ _ _ => trivial))
  cases e with
  | duplicateMessage => trivial
  | _ => exact h nofun

/-! ### Every request meets the contract -/

theorem wp_saveInvite {org : Uuid} {email : String} {role : InviteRole} {h : TokenHash} {t : Time}
    {tx : Bool} (hs : Preparing (own i s.hist)) :
    (guard D init cleanupPre).wp i q (OrganizationInviteRepository.save org email role h t tx)
      (fun _ t => Sending (own i t.hist)) (fun _ _ => True) s := by
  refine Contract.wp_seq (wp_prepare (.await trivial) hs) (fun _ _ _ => trivial) fun id t ht => ?_
  refine Contract.wp_seq (Q := fun _ t => Sending (own i t.hist)) (F := fun _ _ => True) ?_
    (fun _ _ h => h) fun _ _ h => h
  refine Contract.wp_handle.mpr (Contract.wp_mono (fun _ _ h => h) (fun e t _ => ?_)
    (Contract.wp_await (E := fun _ _ => True) (Contract.stable_own Preparing) ht
      (fun _ _ ht => ht.2.1) (fun t inp a w _ ht _ => ?_) fun _ _ _ _ _ _ _ => trivial))
  · split <;> trivial
  · rw [own_push]
    exact ht.2.cons failsSending_ok (cleansUp_of_op fun _ _ => nofun)

/-- A publishing, whether it fails or not. -/
theorem wp_publishInvite {routingKey : String} {id : MessageId} {job : Job}
    (hs : Sending (own i s.hist)) :
    (guard D init cleanupPre).wp i q (attempt (await (.publish routingKey id job)))
      (fun _ t => Sending (own i t.hist)) (fun _ _ => False) s := by
  refine Contract.wp_handle.mpr (Contract.wp_seq (wp_keep (Contract.stable_own Sending) hs
    (fun _ _ _ => trivial) fun t inp r w _ ht _ => ?_) (fun _ _ h => h) fun _ _ h => h)
  rw [own_push]
  exact ht.cons rfl (cleansUp_of_op fun _ _ => nofun)

theorem wp_sendInviteInRequest {inviteId messageId : Uuid} (hs : Sending (own i s.hist)) :
    (guard D init cleanupPre).wp i q (sendInviteInRequest D inviteId messageId) (fun _ _ => True)
      (fun _ _ => True) s := by
  refine Contract.wp_handle.mpr (Contract.wp_mono (fun _ _ h => h) (fun e t ht => ?_)
    (wp_runInRequest endsRun_sendInvite hs))
  refine Contract.wp_seq (wp_keep_true (Contract.stable_own GivenUp) ht fun t _ ht => ?_)
    (fun _ _ h => h) fun _ _ _ => trivial
  exact ⟨rfl, ht⟩

theorem wp_inviteUser {input : InviteUserToOrganizationInput} (hnew : own i s.hist = []) :
    (guard D init cleanupPre).wp i q (inviteUserToOrganization D input) (fun _ _ => True)
      (fun _ _ => True) s := by
  have hs : Preparing (own i s.hist) := hnew ▸ Preparing.nil
  unfold inviteUserToOrganization
  split
  · trivial
  · refine Contract.wp_seq (wp_prepare (.await trivial) hs) (fun _ _ h => h) fun org t ht => ?_
    cases org with
    | none => trivial
    | some org =>
      refine Contract.wp_seq (wp_prepare (.await trivial) ht) (fun _ _ h => h) fun now t ht => ?_
      refine Contract.wp_seq (wp_prepare (.await rfl) ht) (fun _ _ h => h) fun _ t ht => ?_
      refine Contract.wp_seq (wp_prepare (.bind (.await trivial) fun _ => .await trivial) ht)
        (fun _ _ h => h) fun pending t ht => ?_
      dsimp only
      split
      · trivial
      · refine Contract.wp_seq (wp_prepare (.bind (.await trivial) fun _ => .done) ht)
          (fun _ _ h => h) fun ⟨rawToken, tokenHash⟩ t ht => ?_
        dsimp only
        split
        · refine Contract.wp_seq (Q := fun _ _ => True) (F := fun _ _ => True) ?_ (fun _ _ h => h)
            fun _ _ _ => trivial
          refine wp_inTransaction (Contract.stable_own Preparing) ht
            (fun op t hop => (keepsInvites_of_table (by simp [hop])).pre q t)
            (fun t inp a w ht _ => @Prepares.ok _ _ (.call .begin) trivial _ _ _ ht) fun t ht => ?_
          exact Contract.wp_seq (wp_saveInvite ht) (fun _ _ h => h) fun _ t _ =>
            meets_keepsInvites (p := await (.send _)) (.await trivial) t
        · refine Contract.wp_seq (wp_saveInvite ht) (fun _ _ h => h) fun v t ht => ?_
          refine Contract.wp_seq (wp_sending .random trivial ht (E := fun _ _ => True)
            fun _ _ _ _ _ _ => trivial) (fun _ _ h => h) fun id t ht => ?_
          refine Contract.wp_seq (wp_publishInvite ht) (fun _ _ _ => trivial) fun published t ht => ?_
          cases published with
          | ok _ => trivial
          | error e =>
            exact Contract.wp_seq (wp_sendInviteInRequest ht) (fun _ _ h => h) fun _ _ _ => trivial

theorem calls_acceptInvite {input : AcceptInviteInput} :
    (acceptInvite D input).Calls KeepsInvites := by
  refine .bind (.await trivial) fun v => ?_
  split
  · trivial
  · split
    · trivial
    · refine .bind (.await trivial) fun now => ?_
      split
      · trivial
      · refine .bind (.await trivial) fun u => ?_
        split
        · trivial
        · split
          · trivial
          · refine .bind (.await trivial) fun m => ?_
            split
            · exact .bind (.await trivial) fun _ => .await trivial
            · exact .bind (.bind (.await trivial) fun _ => .bind (.await trivial) fun _ =>
                .bind (.await trivial) fun _ => trivial) fun _ =>
                  .bind (.await trivial) fun _ => .await trivial

theorem wp_handle_cleanup (hnew : own i s.hist = []) :
    (guard D init cleanupPre).wp i q (handle D q) (fun _ _ => True) (fun _ _ => True) s := by
  have hfree : ∀ q op (t : AuthState), op.table ≠ some .invites → cleanupPre i q op t :=
    fun q op t hop => (keepsInvites_of_table hop).pre q t
  cases q with
  | acceptInvite input =>
    exact meets_keepsInvites (.bind calls_acceptInvite fun _ => .done) s
  | inviteUserToOrganization input =>
    exact Contract.wp_seq (wp_inviteUser hnew) (fun _ _ h => h) fun _ _ _ => trivial
  | sendInviteEmail msg queue =>
    refine Contract.Meets.bind ?_ (fun _ => .done) s
    unfold sendInviteEmail handleIdJob
    split
    · exact .fail
    · refine meets_runOnce (fun op t hop => hfree (.sendInviteEmail msg queue) op t fun h => ?_)
        (meets_keepsInvites (endsRun_sendInvite.calls.mono fun _ => EndsRun.keeps))
      simpa using hop _ h
  | _ => exact meets_untouched (hfree _) (by simp [Request.footprint]) (uses_handle _) s

/-! ### Every run -/

/-- The uncommitted writes delete no invite. -/
def KeepsRow : Write → Prop
  | .deleteInvite _ => False
  | .deleteExpiredInvites _ _ _ => False
  | _ => True

theorem HasInvite.apply {wr : Write} {d : Db} (hwr : KeepsRow wr) (h : HasInvite v d) :
    HasInvite v (wr.apply D d) := by
  obtain ⟨x, hx, hv⟩ := h
  have hmap : ∀ f : OrganizationInvite → OrganizationInvite, (∀ y, (f y).id = y.id) →
      ∃ y ∈ d.invites.map f, y.id = v :=
    fun f hf => ⟨f x, List.mem_map_of_mem hx, (hf x).trans hv⟩
  cases wr with
  | createInvite y => exact ⟨x, List.mem_append_left _ hx, hv⟩
  | replaceInviteTokenHash id h => exact hmap _ fun y => by split <;> rfl
  | acceptInvite id now => exact hmap _ fun y => by split <;> rfl
  | deleteInvite id => exact hwr.elim
  | deleteExpiredInvites email org now => exact hwr.elim
  | _ => exact ⟨x, hx, hv⟩

theorem HasInvite.foldl {ws : List Write} {d : Db} (hws : ∀ wr ∈ ws, KeepsRow wr)
    (h : HasInvite v d) : HasInvite v (ws.foldl (fun d wr => (schema D).apply wr d) d) := by
  induction ws generalizing d with
  | nil => exact h
  | cons wr ws ih =>
    exact ih (fun wr' h' => hws wr' (List.mem_cons_of_mem wr h')) (h.apply (hws wr List.mem_cons_self))

theorem pending_keep {d : Db} (h : LegalHistory D cleanupPre (World.init d) hist) :
    ∀ l ∈ (worldAfter (World.init d) hist).store.pending, KeepsRow l.2 := by
  refine pending_of_legal (P := KeepsRow) (fun _ h => nomatch h) (fun i q wr s hpre => ?_)
    (fun st => ?_) h
  · cases wr with
    | deleteInvite id => exact nomatch hpre.1
    | deleteExpiredInvites email org now => exact nomatch hpre.1
    | _ => trivial
  · obtain ⟨tx, u, ids⟩ := st
    cases u <;> trivial

/-- **A request deletes its invite by cleaning up** after a failure, and only so. -/
theorem given_up_of_deletes {d : Db} (h : LegalHistory D cleanupPre (World.init d) (e :: past))
    (hmade : Made v (own e.tid past)) (hd : Deletes v e) : GivenUp (own e.tid past) := by
  have hkept : e.after.store.db = e.before.store.db → False := fun hdb => hd.2 (hdb ▸ hd.1)
  rcases store_of_obeys h.2.1 with ⟨op, r, ha, hstep⟩ | ⟨_, hdrop⟩
  · rcases hstep.db_cases with hdb | ⟨wr, rfl, _, hdb⟩ | ⟨st, _, _, _, _, hdb⟩ | ⟨rfl, hs⟩
    · exact (hkept hdb).elim
    · have hpre := h.2.1.pre ha
      have hrow : KeepsRow wr → False := fun hwr => hd.2 (hdb ▸ hd.1.apply hwr)
      cases wr with
      | deleteInvite id => exact hpre.2
      | deleteExpiredInvites email org now => exact absurd hmade (hpre.2 v)
      | _ => exact (hrow trivial).elim
    · obtain ⟨tx, u, ids⟩ := st
      refine absurd ?_ hd.2
      rw [hdb]
      cases u <;> exact hd.1.apply trivial
    · refine absurd ?_ hd.2
      rw [hs]
      refine hd.1.foldl fun wr hwr => ?_
      exact pending_keep h.2.2 (e.tid, wr) (h.1 ▸ e.before.store.mem_pendingOf.mp hwr)
  · exact (hkept (hdrop ▸ rfl)).elim

theorem makes_iff : makesInvite v e = true ↔
    ∃ tx x a, e.act = .call (.call (.write tx (.createInvite x))) (.ok a) ∧ x.id = v := by
  unfold makesInvite
  split
  · rename_i ha
    simp [ha]
  · rename_i hno
    refine iff_of_false (fun h => nomatch h) ?_
    rintro ⟨tx, x, a, ha, _⟩
    exact hno _ _ _ ha

/-- What fails, fails after the invite was made. -/
theorem made_before_failure {d : Db}
    (h : LegalHistory D cleanupPre (World.init d) hist) {f : AuthEvent} {pastf : List AuthEvent}
    (hs : (f :: pastf) <:+ hist) (hf : failsSending f = true) (hmade : Made v (own f.tid hist)) :
    Made v (own f.tid pastf) := by
  obtain ⟨m, hm, hmakes⟩ := hmade
  obtain ⟨hmem, htid⟩ := mem_of_mem_own hm
  obtain ⟨pastm, hsm⟩ := exists_past hmem
  obtain ⟨tx, x, a, ha, _⟩ := makes_iff.mp hmakes
  have hnot : ¬ Failed (own m.tid pastm) := (h.obeys hsm).pre ha
  have hfm : (f :: pastf) <:+ pastm → False := by
    intro hle
    refine hnot ⟨f, ?_, hf⟩
    rw [htid]
    exact own_subset hle (by rw [own_cons_self rfl]; exact List.mem_cons_self)
  have hmf : (m :: pastm) <:+ pastf := by
    rcases List.suffix_or_suffix_of_suffix hs hsm with hle | hle
    · rcases List.suffix_cons_iff.mp hle with heq | hle
      · -- the same event neither fails nor is done
        rw [(List.cons.inj heq).1] at hf
        unfold failsSending at hf
        rw [ha] at hf
        cases hf
      · exact (hfm hle).elim
    · rcases List.suffix_cons_iff.mp hle with heq | hle
      · rw [← (List.cons.inj heq).1] at hf
        unfold failsSending at hf
        rw [ha] at hf
        cases hf
      · exact hle
  exact ⟨m, own_subset hmf (by rw [← htid, own_cons_self rfl]; exact List.mem_cons_self), hmakes⟩

/-- **A mailed invite stays**, unless its request is overtaken. -/
theorem mailedInvite_kept {d : Db} {c : AuthConfig}
    (h : (authMachine D).Reachable (StartsFrom d) c) (v : Uuid)
    (hno : Throughout (fun e past => ¬ Overtaken v e past) c.state.hist) :
    ∀ e past, (e :: past) <:+ c.state.hist → Made v (own e.tid past) → Deletes v e →
      ∀ r ∈ past, commitsMailed v r = false := by
  obtain ⟨w₀, rfl, _, hl⟩ := Contract.legal_of_reachable (M := authMachine D)
    (fun _ _ _ hnew => wp_handle_cleanup (D := D) hnew) h
  intro e past hs hmade hd r hr
  obtain ⟨⟨f, hf, hfails⟩, huncleaned⟩ := given_up_of_deletes (hl.suffix hs) hmade hd
  obtain ⟨hfmem, hftid⟩ := mem_of_mem_own hf
  obtain ⟨pastf, hsf⟩ := exists_past hfmem
  obtain ⟨pastr, hsr⟩ := exists_past hr
  have hpast : past <:+ c.state.hist := (List.suffix_cons e past).trans hs
  have hmadef : Made v (own f.tid pastf) :=
    made_before_failure (hl.suffix hpast) hsf hfails (hftid ▸ hmade)
  by_contra hmailed
  have hmailed : commitsMailed v r = true := by simpa using hmailed
  have hfirst : (r :: pastr) <:+ (f :: pastf) → False := fun hle =>
    hno.at (hsf.trans hpast) (.inl ⟨hfails, hmadef, r, hle.mem List.mem_cons_self, hmailed⟩)
  rcases List.suffix_or_suffix_of_suffix hsf hsr with hle | hle
  · rcases List.suffix_cons_iff.mp hle with heq | hle
    · exact hfirst (heq ▸ List.suffix_refl _)
    · -- the request had failed when the other run committed
      obtain ⟨m, hm, hmakes⟩ := hmadef
      obtain ⟨hmmem, hmtid⟩ := mem_of_mem_own hm
      have hmpast : m ∈ pastr := hle.mem (List.mem_cons_of_mem f hmmem)
      refine hno.at (hsr.trans hpast) (.inr ⟨hmailed, m, hmpast, hmakes, ⟨f, ?_, hfails⟩, ?_⟩)
      · rw [hmtid]
        exact own_subset hle (by rw [own_cons_self rfl]; exact List.mem_cons_self)
      · intro u hu
        rw [hmtid, hftid] at hu
        exact huncleaned u (own_subset ((List.suffix_cons r pastr).trans hsr) hu)
  · exact hfirst hle

def queueDeps : Deps := { sampleDeps with queueEnabled := true }

/-- Ann invites Bob; the broker takes the message, but the publishing times out. -/
def inviteBob : List (Label Input Request) :=
  [.spawn (.inviteUserToOrganization ⟨.seed 2, "bob@x.io", .member, .seed 1, "owner"⟩)] ++
    steps 0 9 ++ [.step 0 ⟨.lost, 0, 0⟩]

/-- The worker gets the message of `inviteBob`. -/
def mailBob : Label Input Request :=
  .spawn (.sendInviteEmail ⟨.object [("inviteId", .uuid (.drawn 0 1))], .uuid (.drawn 0 2)⟩
    "lakira.auth.send-invite-email")

/-- The request's own run fails, and the invite is gone when the worker looks for it. -/
theorem mailedInvite_kept_cleanedUp :
    ∃ c, runFrom queueDeps sampleDb (inviteBob ++ [mailBob, .step 0 ⟨.failed, 0, 0⟩] ++ steps 0 2 ++
        steps 1 4) = some c ∧ c.state.hist.length = 17 ∧
      ∀ e past, (e :: past) <:+ c.state.hist → Made (.drawn 0 1) (own e.tid past) →
        Deletes (.drawn 0 1) e → ∀ r ∈ past, commitsMailed (.drawn 0 1) r = false := by
  have hrun : (runFrom queueDeps sampleDb (inviteBob ++ [mailBob, .step 0 ⟨.failed, 0, 0⟩] ++
      steps 0 2 ++ steps 1 4)).map (fun c => (c.state.hist.length,
        decide (Throughout (fun e past => ¬ Overtaken (.drawn 0 1) e past) c.state.hist))) =
      some (17, true) := by decide +kernel
  obtain ⟨c, hc, hval⟩ := Option.map_eq_some_iff.mp hrun
  obtain ⟨hlen, hno⟩ := Prod.mk.inj hval
  have hstart : StartsFrom sampleDb (World.init sampleDb) := rfl
  exact ⟨c, hc, hlen, mailedInvite_kept (Machine.reachable_of_run hstart hc) _
    (of_decide_eq_true hno)⟩

/-- **A mailed invite is deleted**: the worker has committed when the request's own run
fails. -/
theorem mailedInvite_deleted :
    ∃ c ∈ runFrom queueDeps sampleDb (inviteBob ++ [mailBob] ++ steps 1 9 ++
        [.step 0 ⟨.failed, 0, 0⟩] ++ steps 0 2),
      ∃ e ∈ c.state.hist.head?, Made (.drawn 0 1) (own e.tid c.state.hist.tail) ∧
        Deletes (.drawn 0 1) e ∧ ∃ r ∈ c.state.hist.tail, commitsMailed (.drawn 0 1) r = true := by
  decide +kernel

end LakiraBackend.Auth
