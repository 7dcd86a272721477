import LakiraBackend.Auth.UserRow
import LakiraBackend.Concurrency.Redemption

/-!
# Password-reset tokens are used once

`ResetPassword` checks that its token is unused, saves the new password, and marks
the token used, in three calls.  Two calls that check before either marks both
change the password, and so does one that comes after a call whose mark has failed
(`token_used_twice`).

These are the only ways (`resetPassword_once_iff`).
-/

namespace LakiraBackend.Auth

open LakiraBackend.Concurrency

/-- The row of the token made of a raw value. -/
def resetToken (raw : Uuid) (d : Db) : Option PasswordResetToken :=
  d.passwordResetTokens.find? fun t => t.tokenHash = .sha256 raw

/-- Whether the request presents this password-reset token. -/
def Request.resetsWith (raw : Uuid) : Request → Bool
  | .resetPassword input => input.token = raw
  | _ => false

/-- A password-reset token, as the `ResetPassword` calls that present it redeem it: the
row is found unused, the user is saved, the row is marked. -/
def resetRedemption (raw : Uuid) : Redemption Op Op.Answer Err World Request where
  checks := fun e => e.req.resetsWith raw && match e.act with
    | .call (.call (.read false (.findTokenByTokenHash .passwordReset h))) (.ok (some t)) =>
      h = .sha256 raw && !t.isUsed
    | _ => false
  acts := fun e _ => e.req.resetsWith raw && (savedUser e).isSome
  marks := fun e => e.req.resetsWith raw && match e.act with
    | .call (.call (.write _ (.markTokenUsed .passwordReset _ _))) _ =>
      (resetToken raw e.after.store.db).any (·.isUsed)
    | _ => false

/-- The request has found the token unused. -/
def Checked (raw : Uuid) (l : List AuthEvent) : Prop :=
  ∃ r ∈ l, (resetRedemption raw).checks r = true

/-- A user is saved by a call that has found the token it presents unused. -/
def resetPre : Precondition := fun i q op s => match op with
  | .call (.write _ (.saveUser _)) => ∀ raw, q.resetsWith raw = true → Checked raw (own i s.hist)
  | _ => True

/-- A call that is over has changed the password. -/
def ResetDone (q : Request) (l : List AuthEvent) : Prop :=
  ∀ raw, q.resetsWith raw = true → ∃ e ∈ l, ∀ past, (resetRedemption raw).acts e past = true

variable {D : Deps} {init : World → Prop} {i : Nat} {q : Request} {s : AuthState} {w₀ : World}
  {hist past : List AuthEvent} {e : AuthEvent} {raw : Uuid}

/-! ### The use case -/

/-- A save that is answered changes the row. -/
theorem savedUser_of_ok {u : AuthUser} {inp : Input} {w w' : World}
    (h : exec D i inp (.call (.write false (.saveUser u))) w = some (.ok (), w')) :
    savedUser ⟨i, q, .call (.call (.write false (.saveUser u))) (.ok ()), w, w'⟩ = some u := by
  obtain ⟨ht, rfl⟩ := exec_write_ok h
  have hrow : (userRow u.id w).isSome := by
    have haccepted : Write.refuse D (.saveUser u) w.store.db = none := ht.accepted
    simp only [Write.refuse] at haccepted
    split at haccepted
    · cases haccepted
    · rename_i hany
      simpa [userRow] using hany
  simp only [savedUser]
  exact if_pos ⟨hrow, rfl⟩

theorem Checked.cons (e : AuthEvent) (l : List AuthEvent) (h : Checked raw l) :
    Checked raw (e :: l) := h.imp fun _ hr => ⟨List.mem_cons_of_mem e hr.1, hr.2⟩

theorem ResetDone.cons (e : AuthEvent) (l : List AuthEvent) (h : ResetDone q l) :
    ResetDone q (e :: l) :=
  fun raw hraw => (h raw hraw).imp fun _ he => ⟨List.mem_cons_of_mem e he.1, he.2⟩

theorem wp_saveReset {input : ResetPasswordInput} {u : AuthUser}
    (hs : Checked input.token (own i s.hist)) :
    (guard D init resetPre).wp i (.resetPassword input) (UserRepository.save u)
      (fun _ s => ResetDone (.resetPassword input) (own i s.hist)) (fun _ _ => True) s := by
  refine Contract.wp_seq (Contract.wp_await (Contract.stable_own (Checked input.token)) hs
    (fun t _ ht raw hraw => ?_) (fun t inp a w _ ht he => ?_)
    fun _ _ _ _ _ _ _ => trivial) (fun _ _ h => h) fun _ _ h => h
  · have htoken : input.token = raw := by simpa [Request.resetsWith] using hraw
    exact htoken ▸ ht
  · intro raw hraw
    rw [own_push]
    refine ⟨_, List.mem_cons_self, fun past => ?_⟩
    have hsaved := savedUser_of_ok (q := .resetPassword input) he
    simp [resetRedemption, hraw, hsaved]

theorem wp_resetPassword {input : ResetPasswordInput} :
    (guard D init resetPre).wp i (.resetPassword input) (resetPassword input)
      (fun _ s => ResetDone (.resetPassword input) (own i s.hist)) (fun _ _ => True) s := by
  unfold resetPassword
  split
  · trivial
  · refine Contract.wp_seq (Contract.Meets.await (fun _ => trivial) s) (fun _ _ h => h)
      fun now s _ => ?_
    refine Contract.wp_seq (Contract.wp_call rfl fun _ _ _ => trivial) (fun _ _ _ => trivial)
      fun a s hown => ?_
    split
    · trivial
    · rename_i token
      split
      · trivial
      · rename_i husable
        have hs : Checked input.token (own i s.hist) := by
          obtain ⟨w, w', hown⟩ := hown
          rw [hown]
          refine ⟨_, List.mem_cons_self, ?_⟩
          simp only [Bool.or_eq_true, not_or, Bool.not_eq_true] at husable
          simp [resetRedemption, Request.resetsWith, husable.1]
        refine Contract.wp_seq (wp_keepOwn Checked.cons hs (fun _ _ => trivial) fun _ _ => trivial)
          (fun _ _ h => h) fun a s hs => ?_
        split
        · trivial
        · refine Contract.wp_seq (wp_keepOwn Checked.cons hs (fun _ _ => trivial)
            fun _ _ => trivial) (fun _ _ h => h) fun hash s hs => ?_
          exact Contract.wp_seq (wp_saveReset hs) (fun _ _ h => h) fun _ s hs =>
            wp_keepOwn ResetDone.cons hs (fun _ _ => trivial) fun _ _ => trivial

theorem resetPre_free (hq : ∀ input, q ≠ .resetPassword input) (op : Op) (s : AuthState) :
    resetPre i q op s := by
  have hno : ∀ raw, q.resetsWith raw = true → False := by
    intro raw hraw
    cases q with
    | resetPassword input => exact hq input rfl
    | _ => cases hraw
  unfold resetPre
  split
  · exact fun raw hraw => (hno raw hraw).elim
  · trivial

theorem wp_handle_reset (q : Request) :
    (guard D init resetPre).wp i q (handle D q) (fun _ s => ResetDone q (own i s.hist))
      (fun _ _ => True) s := by
  by_cases hq : ∃ input, q = .resetPassword input
  · obtain ⟨input, rfl⟩ := hq
    exact Contract.wp_seq wp_resetPassword (fun _ _ h => h) fun _ _ h => h
  · have hq' : ∀ input, q ≠ .resetPassword input := fun input h => hq ⟨input, h⟩
    refine Contract.wp_mono (fun _ _ _ raw hraw => ?_) (fun _ _ h => h)
      (Contract.Meets.free (resetPre_free hq') (handle D q) s)
    cases q with
    | resetPassword input => exact absurd rfl (hq' input)
    | _ => cases hraw

/-! ### A token stays used -/

/-- The token is there, and used. -/
def Used (raw : Uuid) (d : Db) : Prop := ∃ t, resetToken raw d = some t ∧ t.isUsed = true

theorem used_apply (wr : Write) (d : Db) (h : Used raw d) : Used raw (wr.apply D d) := by
  obtain ⟨t, ht, hused⟩ := h
  have hmap : ∀ f : OneTimeToken → OneTimeToken,
      (∀ t, (f t).tokenHash = t.tokenHash) → (∀ t, t.isUsed = true → (f t).isUsed = true) →
      ∃ t', (d.passwordResetTokens.map f).find? (fun t => t.tokenHash = .sha256 raw) = some t' ∧
        t'.isUsed = true := by
    intro f hhash hf
    refine ⟨f t, ?_, hf t hused⟩
    have hsame : ((fun t : OneTimeToken => decide (t.tokenHash = .sha256 raw)) ∘ f) =
        fun t => decide (t.tokenHash = .sha256 raw) := funext fun t => by simp [hhash t]
    rw [List.find?_map, hsame, ← resetToken, ht]
    rfl
  have hsame : (wr.onTokens .passwordReset d.passwordResetTokens = d.passwordResetTokens) →
      Used raw (wr.apply D d) := by
    intro h
    refine ⟨t, ?_, hused⟩
    rw [resetToken]
    change (wr.onTokens .passwordReset d.passwordResetTokens).find? _ = _
    rw [h]
    exact ht
  cases wr with
  | createToken kind t' =>
    by_cases hk : kind = .passwordReset
    · refine ⟨t, ?_, hused⟩
      have hfind : (d.passwordResetTokens ++ [t']).find? (fun t => t.tokenHash = .sha256 raw) =
          some t := by
        rw [List.find?_append, ← resetToken, ht]
        rfl
      simpa [resetToken, Write.apply, Write.onTokens, hk] using hfind
    · exact hsame (if_neg hk)
  | markTokenUsed kind id usedAt =>
    by_cases hk : kind = .passwordReset
    · have hmap' := hmap (fun t => if t.id = id then { t with usedAt := some usedAt } else t)
        (fun t => by split <;> rfl) fun t ht => by split <;> simp_all [OneTimeToken.isUsed]
      simpa [Used, resetToken, Write.apply, Write.onTokens, hk] using hmap'
    · exact hsame (if_neg hk)
  | useTokens kind userId now ids =>
    by_cases hk : kind = .passwordReset
    · have hmap' := hmap (fun t => if t.id ∈ ids ∧ t.userId = userId ∧ t.usedAt = none then
          { t with usedAt := some now } else t)
        (fun t => by split <;> rfl) fun t ht => by split <;> simp_all [OneTimeToken.isUsed]
      simpa [Used, resetToken, Write.apply, Write.onTokens, hk] using hmap'
    · exact hsame (if_neg hk)
  | _ => exact hsame rfl

theorem used_of_marks (h : (resetRedemption raw).marks e = true) : Used raw e.after.store.db := by
  simp only [resetRedemption, Bool.and_eq_true] at h
  obtain ⟨_, h⟩ := h
  split at h
  · exact (Option.any_eq_true _ _).mp h
  · cases h

/-- A token that is found unused has not been marked. -/
theorem unmarked_of_checks {Pre : Precondition} (h : LegalHistory D Pre w₀ (e :: past))
    (hc : (resetRedemption raw).checks e = true) :
    ∀ m ∈ e :: past, (resetRedemption raw).marks m = false := by
  simp only [resetRedemption, Bool.and_eq_true] at hc
  obtain ⟨_, hc⟩ := hc
  split at hc
  · rename_i hash t ha
    simp only [Bool.and_eq_true, decide_eq_true_eq, Bool.not_eq_true'] at hc
    obtain ⟨rfl, hunused⟩ := hc
    intro m hm
    by_contra hmarks
    have hmarks : (resetRedemption raw).marks m = true := by simpa using hmarks
    rcases List.mem_cons.mp hm with rfl | hm
    · simp [resetRedemption, ha] at hmarks
    · obtain ⟨past', hs⟩ := exists_past hm
      obtain ⟨t', ht', hused⟩ := kept_of_legal used_apply h.2.2 hs (used_of_marks hmarks)
      have hr : Reads (.findTokenByTokenHash .passwordReset (.sha256 raw)) (some t) e := ha
      have hfind : some t = resetToken raw e.before.store.db := (hr.eval h.2.1).1
      rw [h.1, ht'] at hfind
      cases hfind
      rw [hused] at hunused
      cases hunused
  · cases hc

/-! ### Every run -/

/-- Whether a thread has answered with success a request that presents the token. -/
def resetSucceeded (raw : Uuid) : Request × Async Reply → Bool
  | (q, .done _) => q.resetsWith raw
  | _ => false

theorem done_of_succeeded {p : Async Reply} (h : resetSucceeded raw (q, p) = true) :
    q.resetsWith raw = true ∧ ∃ a, p = .done a := by
  cases p with
  | done a => exact ⟨h, a, rfl⟩
  | _ => cases h

theorem exists_two_of_countP {α : Type} {p : α → Bool} {l : List α} (h : 2 ≤ l.countP p) :
    ∃ (i j : Nat) (a b : α), i ≠ j ∧ l[i]? = some a ∧ l[j]? = some b ∧ p a = true ∧ p b = true := by
  induction l with
  | nil => simp at h
  | cons x l ih =>
    by_cases hx : p x = true
    · rw [List.countP_cons_of_pos hx] at h
      obtain ⟨b, hb, hpb⟩ := List.countP_pos_iff.mp (show 0 < l.countP p by omega)
      obtain ⟨j, hj⟩ := List.getElem?_of_mem hb
      exact ⟨0, j + 1, x, b, by omega, rfl, hj, hx, hpb⟩
    · rw [List.countP_cons_of_neg hx] at h
      obtain ⟨i, j, a, b, hne, hi, hj, hpa, hpb⟩ := ih h
      exact ⟨i + 1, j + 1, a, b, by omega, hi, hj, hpa, hpb⟩

/-- **A password-reset token is used once**: of the calls that present it, at most one
changes the password and at most one succeeds, exactly when none changes it on a
reading of the token that is out of date. -/
theorem resetPassword_once_iff {d : Db} {c : AuthConfig}
    (h : (authMachine D).Reachable (StartsFrom d) c) (raw : Uuid) :
    ((resetRedemption raw).actions c.state.hist ≤ 1 ∧ c.threads.countP (resetSucceeded raw) ≤ 1) ↔
      Throughout (fun e past => ¬ (resetRedemption raw).Stale e past) c.state.hist := by
  obtain ⟨⟨w₀, _, _, hl⟩, hdone⟩ := Contract.legal_and_done (M := authMachine D)
    (R := fun q _ => ResetDone q) (fun _ q _ _ => wp_handle_reset (D := D) q) h
  have honce : (resetRedemption raw).actions c.state.hist ≤ 1 ↔
      Throughout (fun e past => ¬ (resetRedemption raw).Stale e past) c.state.hist :=
    Redemption.actions_le_one_iff (fun e past hs ha => ?_) fun r past hs hc => unmarked_of_checks (hl.suffix hs) hc
  · rw [← honce, and_iff_left_iff_imp]
    intro hone
    -- two calls that succeed have changed the password twice
    by_contra hmany
    obtain ⟨i, j, ⟨q, p⟩, ⟨q', p'⟩, hne, hi, hj, hp, hp'⟩ :=
      exists_two_of_countP (Nat.lt_of_not_le hmany)
    obtain ⟨hq, a, rfl⟩ := done_of_succeeded hp
    obtain ⟨hq', a', rfl⟩ := done_of_succeeded hp'
    obtain ⟨e, he, hacts⟩ := hdone i q a hi raw hq
    obtain ⟨e', he', hacts'⟩ := hdone j q' a' hj raw hq'
    obtain ⟨hmem, htid⟩ := mem_of_mem_own he
    obtain ⟨hmem', htid'⟩ := mem_of_mem_own he'
    obtain ⟨past, hs⟩ := exists_past hmem
    obtain ⟨past', hs'⟩ := exists_past hmem'
    have htwo := Redemption.two_le_actions hs (hacts past) hs' (hacts' past')
      (by rw [htid, htid']; exact hne)
    omega
  · simp only [resetRedemption, Bool.and_eq_true] at ha
    obtain ⟨hreq, hsaved⟩ := ha
    obtain ⟨u, hu⟩ := Option.isSome_iff_exists.mp hsaved
    obtain ⟨⟨tx, r, ha⟩, _⟩ := savedUser_eq hu
    obtain ⟨r, hr, hc⟩ := (hl.obeys hs).pre ha raw hreq
    exact ⟨r, (mem_of_mem_own hr).1, (mem_of_mem_own hr).2, hc⟩

/-- One after the other, the second call is refused. -/
theorem resetPassword_once_inTurn :
    ∃ c : AuthConfig, runFrom sampleDeps resetDb
        ([.spawn resetAnn, .spawn resetAnn] ++ steps 0 6 ++ steps 1 2) = some c ∧
      c.state.hist.length = 8 ∧
      (resetRedemption (.seed 8)).actions c.state.hist ≤ 1 ∧
        c.threads.countP (resetSucceeded (.seed 8)) ≤ 1 := by
  have hrun : (runFrom sampleDeps resetDb
      ([.spawn resetAnn, .spawn resetAnn] ++ steps 0 6 ++ steps 1 2)).map (fun c =>
        (c.state.hist.length, decide (Throughout (fun e past =>
          ¬ (resetRedemption (.seed 8)).Stale e past) c.state.hist))) = some (8, true) := by
    decide +kernel
  obtain ⟨c, hc, hval⟩ := Option.map_eq_some_iff.mp hrun
  obtain ⟨hlen, hno⟩ := Prod.mk.inj hval
  have hstart : StartsFrom resetDb (World.init resetDb) := rfl
  exact ⟨c, hc, hlen, (resetPassword_once_iff (Machine.reachable_of_run hstart hc) (.seed 8)).mpr
    (of_decide_eq_true hno)⟩

/-- **A token used twice.**  Two calls check the token, and both change the password. -/
theorem token_used_twice :
    ∃ c ∈ runFrom sampleDeps resetDb
        ([.spawn resetAnn, .spawn resetAnn] ++ steps 0 2 ++ steps 1 2 ++ steps 0 4 ++ steps 1 4),
      (resetRedemption (.seed 8)).actions c.state.hist = 2 ∧
        c.threads.countP (resetSucceeded (.seed 8)) = 2 := by
  decide +kernel

end LakiraBackend.Auth
