import LakiraBackend.Auth.Guards

/-!
# Lost updates on the users row

`UpdateProfile`, `ResetPassword` and `VerifyEmail` load the row of a user, change
some of its fields, and save all of them.  A save that comes after another call's
puts back the old value of every field the other has set and it has not
(`password_reverted`).

A field has, in every state of a run, the value that the last call to set it has
saved, exactly when no save finds it other than its call has loaded it
(`fields_kept_iff`).
-/

namespace LakiraBackend.Auth

open LakiraBackend.Concurrency

/-- The columns that `save` writes. -/
inductive UserField : Type
  | email
  | username
  | passwordHash
  | isPublicProfile
  | emailVerifiedAt
  deriving DecidableEq, Repr

abbrev UserField.Value : UserField → Type
  | .email => String
  | .username => String
  | .passwordHash => PasswordHash
  | .isPublicProfile => Bool
  | .emailVerifiedAt => Option Time

instance : (f : UserField) → DecidableEq f.Value
  | .email => inferInstanceAs (DecidableEq String)
  | .username => inferInstanceAs (DecidableEq String)
  | .passwordHash => inferInstanceAs (DecidableEq PasswordHash)
  | .isPublicProfile => inferInstanceAs (DecidableEq Bool)
  | .emailVerifiedAt => inferInstanceAs (DecidableEq (Option Time))

def AuthUser.get (u : AuthUser) : (f : UserField) → f.Value
  | .email => u.email
  | .username => u.username
  | .passwordHash => u.passwordHash
  | .isPublicProfile => u.isPublicProfile
  | .emailVerifiedAt => u.emailVerifiedAt

/-- Whether a request sets a field: it carries a value for it. -/
def Request.sets : Request → UserField → Bool
  | .updateProfile input, .email => (truthy input.email).isSome
  | .updateProfile input, .username => (truthy input.username).isSome
  | .updateProfile input, .passwordHash => (truthy input.password).isSome
  | .updateProfile input, .isPublicProfile => input.isPublicProfile.isSome
  | .resetPassword _, .passwordHash => true
  | .verifyEmail _, .emailVerifiedAt => true
  | _, _ => false

def userRow (x : Uuid) (w : World) : Option AuthUser :=
  w.store.db.users.find? fun u => u.id = x

/-- The value of a field of a user's row. -/
def userValue (f : UserField) (x : Uuid) (w : World) : Option f.Value := (userRow x w).map (·.get f)

/-- The row the event saves, if it saves one. -/
def savedUser (e : AuthEvent) : Option AuthUser :=
  match e.act with
  | .call (.call (.write _ (.saveUser u))) _ =>
    if (userRow u.id e.before).isSome ∧
        e.after.store.db.users = (Write.saveUser u).onUsers e.before.store.db.users then some u
    else none
  | _ => none

/-- The value that the last call to set the field has saved, or the row was created with. -/
def lastSet (f : UserField) (x : Uuid) (w₀ : World) : List AuthEvent → Option f.Value
  | [] => userValue f x w₀
  | e :: past =>
    match savedUser e with
    | some u =>
      if u.id = x then if e.req.sets f then some (u.get f) else lastSet f x w₀ past
      else lastSet f x w₀ past
    | none =>
      if (userRow x e.before).isNone then userValue f x e.after else lastSet f x w₀ past

/-- The user the event loads, if it loads one, and whether in a transaction. -/
def loads (e : AuthEvent) : Option (Bool × AuthUser) :=
  match e.act with
  | .call (.call (.read tx (.findUserById _))) (.ok u) => u.map fun v => (tx, v)
  | _ => none

/-- The user a request has loaded last. -/
def loadedUser (l : List AuthEvent) : Option (Bool × AuthUser) := l.findSome? loads

/-- The event saves the user's row with a field that its call does not set, and that is
no longer as the call has loaded it. -/
def Overwrites (f : UserField) (x : Uuid) (e : AuthEvent) (past : List AuthEvent) : Prop :=
  (∃ u ∈ savedUser e, u.id = x) ∧ e.req.sets f = false ∧
    userValue f x e.before ≠ (loadedUser (own e.tid past)).map (·.2.get f)

instance (f : UserField) (x : Uuid) (e : AuthEvent) (past : List AuthEvent) :
    Decidable (Overwrites f x e past) :=
  inferInstanceAs (Decidable ((∃ _ ∈ _, _) ∧ _ ∧ _))

/-! ### What a save saves -/

/-- The row `u`, made of the loaded row `v` by setting the fields the request sets. -/
structure Edited (q : Request) (v u : AuthUser) : Prop where
  id_eq : u.id = v.id
  unset : ∀ f, q.sets f = false → u.get f = v.get f

/-- A user is created in a registration, or the row saved is the one loaded last with
the request's fields set. -/
def userPre : Precondition := fun i q op s => match op with
  | .call (.write tx wr) => wr.table = .users →
      (∃ u, wr = .createUser u ∧ u.emailVerifiedAt = none) ∨
      (tx = false ∧ ∃ u v, wr = .saveUser u ∧ loadedUser (own i s.hist) = some (false, v) ∧
        Edited q v u)
  | _ => True

variable {D : Deps} {init : World → Prop} {i : Nat} {q : Request} {s : AuthState} {w₀ : World}
  {hist past : List AuthEvent} {e : AuthEvent}

theorem userPre_free (i : Nat) (q : Request) (op : Op) (s : AuthState)
    (h : op.table ≠ some .users) : userPre i q op s := by
  cases op with
  | call c =>
    cases c with
    | write tx wr => exact fun ht => absurd (congrArg some ht) h
    | _ => trivial
  | _ => trivial

/-- Whether a call loads a user. -/
def Op.loadsUser : Op → Bool
  | .call (.read _ (.findUserById _)) => true
  | _ => false

theorem loadedUser_cons {op : Op} (hop : op.loadsUser = false) {r : Except Err op.Answer}
    {w w' : World} {l : List AuthEvent} :
    loadedUser (⟨i, q, .call op r, w, w'⟩ :: l) = loadedUser l := by
  have hno : loads ⟨i, q, .call op r, w, w'⟩ = none := by
    unfold loads
    split
    · rename_i h
      obtain ⟨rfl, _⟩ := Act.call.inj h
      cases hop
    · rfl
  rw [loadedUser, List.findSome?_cons, hno]
  rfl

theorem stable_loaded {K : Contract (authMachine D)} (l : Bool × AuthUser) :
    K.Stable i fun s => loadedUser (own i s.hist) = some l :=
  Contract.stable_own fun h => loadedUser h = some l

/-- A call that loads no user leaves the loaded one. -/
theorem wp_loaded {op : Op} (hop : op.loadsUser = false) (hfree : op.table = none)
    {l : Bool × AuthUser} (hs : loadedUser (own i s.hist) = some l) :
    (guard D init userPre).wp i q (Prog.await op)
      (fun _ t => loadedUser (own i t.hist) = some l) (fun _ _ => True) s := by
  refine Contract.wp_mono (fun _ _ h => h) (fun _ _ _ => trivial)
    (wp_keep (stable_loaded l) hs (fun t _ _ => userPre_free i q op t (by simp [hfree]))
      fun t _ r w _ ht _ => ?_)
  rw [own_push, loadedUser_cons hop]
  exact ht

theorem wp_saveUser {u v : AuthUser} (hs : loadedUser (own i s.hist) = some (false, v))
    (he : Edited q v u) :
    (guard D init userPre).wp i q (UserRepository.save u) (fun _ _ => True) (fun _ _ => True) s :=
  Contract.wp_seq (wp_keep_true (stable_loaded (false, v)) hs fun _ _ ht _ =>
    .inr ⟨rfl, u, v, rfl, ht, he⟩) (fun _ _ h => h) fun _ _ _ => trivial

/-- Loading a user. -/
theorem wp_loadUser {id : Uuid} {tx : Bool} :
    (guard D init userPre).wp i q (UserRepository.findById id tx)
      (fun a t => ∀ v, a = some v → loadedUser (own i t.hist) = some (tx, v)) (fun _ _ => True) s := by
  refine Contract.wp_mono (fun a t ht v hv => ?_) (fun _ _ _ => trivial)
    (Contract.wp_call rfl fun _ _ _ => trivial)
  obtain ⟨w, w', ht⟩ := ht
  subst hv
  rw [ht]
  rfl

/-! ### The use cases meet the contract -/

theorem Edited.refl (u : AuthUser) : Edited q u u := ⟨rfl, fun _ _ => rfl⟩

/-- Setting a field that the request sets. -/
theorem Edited.set {v u u' : AuthUser} {f : UserField} (h : Edited q v u) (hid : u'.id = u.id)
    (hf : q.sets f = true) (hother : ∀ g, g ≠ f → u'.get g = u.get g) : Edited q v u' where
  id_eq := hid.trans h.id_eq
  unset := fun g hg => by
    refine (hother g fun hgf => ?_).trans (h.unset g hg)
    rw [hgf, hf] at hg
    cases hg

theorem edited_changeEmail {v u u' : AuthUser} {trim lower : String → String} {next : String}
    (h : Edited q v u) (hf : q.sets .email = true) (hu : u.changeEmail trim lower next = .ok u') :
    Edited q v u' := by
  simp only [AuthUser.changeEmail] at hu
  split at hu
  · cases hu
  · cases hu
    exact h.set rfl hf fun g hg => by cases g <;> first | rfl | exact absurd rfl hg

theorem edited_changeUsername {v u u' : AuthUser} {trim : String → String} {next : String}
    (h : Edited q v u) (hf : q.sets .username = true) (hu : u.changeUsername trim next = .ok u') :
    Edited q v u' := by
  simp only [AuthUser.changeUsername] at hu
  split at hu
  · cases hu
  · cases hu
    exact h.set rfl hf fun g hg => by cases g <;> first | rfl | exact absurd rfl hg

section UpdateProfile

variable {input : UpdateProfileInput} {v u : AuthUser}

/-- What the parts of `UpdateProfile.execute` keep: the row loaded, and the row made
of it so far. -/
def Editing (i : Nat) (q : Request) (v u : AuthUser) (s : AuthState) : Prop :=
  loadedUser (own i s.hist) = some (false, v) ∧ Edited q v u

theorem wp_updateEmail (h : Editing i (.updateProfile input) v u s) :
    (guard D init userPre).wp i (.updateProfile input) (updateEmail D u input.email)
      (fun u' t => Editing i (.updateProfile input) v u' t) (fun _ _ => True) s := by
  unfold updateEmail
  split
  · exact h
  · rename_i email hemail
    have hset : (Request.updateProfile input).sets .email = true := by simp [Request.sets, hemail]
    split
    · exact h
    · refine Contract.wp_seq (wp_loaded rfl rfl h.1) (fun _ _ h => h) fun b t ht => ?_
      split
      · trivial
      · split
        · trivial
        · rename_i u' hu'
          exact ⟨ht, edited_changeEmail h.2 hset hu'⟩

theorem wp_updateUsername (h : Editing i (.updateProfile input) v u s) :
    (guard D init userPre).wp i (.updateProfile input) (updateUsername D u input.username)
      (fun u' t => Editing i (.updateProfile input) v u' t) (fun _ _ => True) s := by
  unfold updateUsername
  split
  · exact h
  · rename_i username hname
    have hset : (Request.updateProfile input).sets .username = true := by
      simp [Request.sets, hname]
    split
    · exact h
    · refine Contract.wp_seq (wp_loaded rfl rfl h.1) (fun _ _ h => h) fun b t ht => ?_
      split
      · trivial
      · split
        · trivial
        · rename_i u' hu'
          exact ⟨ht, edited_changeUsername h.2 hset hu'⟩

theorem wp_updatePassword (h : Editing i (.updateProfile input) v u s) :
    (guard D init userPre).wp i (.updateProfile input) (updatePassword u input.password)
      (fun u' t => Editing i (.updateProfile input) v u' t) (fun _ _ => True) s := by
  unfold updatePassword
  split
  · exact h
  · rename_i password hpass
    have hset : (Request.updateProfile input).sets .passwordHash = true := by
      simp [Request.sets, hpass]
    refine Contract.wp_seq (wp_loaded rfl rfl h.1) (fun _ _ h => h) fun b t ht => ⟨ht, ?_⟩
    exact h.2.set rfl hset fun g hg => by cases g <;> first | rfl | exact absurd rfl hg

theorem edited_isPublicProfile (h : Edited (.updateProfile input) v u) :
    Edited (.updateProfile input) v (match input.isPublicProfile with
      | some value => u.togglePublicProfile value
      | none => u) := by
  cases hpub : input.isPublicProfile with
  | none => exact h
  | some value =>
    refine h.set (f := .isPublicProfile) rfl (by simp [Request.sets, hpub]) fun g hg => ?_
    cases g <;> first | rfl | exact absurd rfl hg

theorem meets_updateProfile :
    (guard D init userPre).Meets i (.updateProfile input) (updateProfile D input) := by
  refine fun s => Contract.wp_seq wp_loadUser (fun _ _ h => h) fun a t hload => ?_
  split
  · trivial
  · rename_i v
    refine Contract.wp_seq (wp_updateEmail ⟨hload v rfl, .refl v⟩) (fun _ _ h => h) fun u t h => ?_
    refine Contract.wp_seq (wp_updateUsername h) (fun _ _ h => h) fun u t h => ?_
    refine Contract.wp_seq (wp_updatePassword ⟨h.1, edited_isPublicProfile h.2⟩) (fun _ _ h => h)
      fun u t h => ?_
    exact wp_saveUser h.1 h.2

end UpdateProfile

/-- A part of a use case that does not touch the users. -/
theorem meets_noUsers {α : Type} {Ts : List Table} {p : Async α} (hp : Uses Ts p)
    (hT : .users ∉ Ts) : (guard D init userPre).Meets i q p :=
  meets_untouched (userPre_free i q) hT hp

theorem meets_resetPassword {input : ResetPasswordInput} :
    (guard D init userPre).Meets i (.resetPassword input) (resetPassword input) := by
  have hno : ∀ {α : Type} {p : Async α}, Uses [.tokens .passwordReset] p →
      (guard D init userPre).Meets i (.resetPassword input) p := fun hp => meets_noUsers hp (by simp)
  unfold resetPassword
  split
  · exact .fail
  · refine .bind (hno uses_newDate) fun now => .bind (hno uses_read) fun a => ?_
    split
    · exact .fail
    · split
      · exact .fail
      · refine fun s => Contract.wp_seq wp_loadUser (fun _ _ h => h) fun a t hload => ?_
        split
        · trivial
        · rename_i v
          refine Contract.wp_seq (wp_loaded rfl rfl (hload v rfl)) (fun _ _ h => h)
            fun hash t ht => ?_
          have hedit : Edited (.resetPassword input) v (v.setPasswordHash hash) :=
            (Edited.refl v).set rfl rfl fun g hg => by
              cases g <;> first | rfl | exact absurd rfl hg
          exact Contract.wp_seq (wp_saveUser ht hedit) (fun _ _ h => h)
            fun _ t _ => hno (uses_write (by simp [Write.table])) t

theorem meets_verifyEmail {input : VerifyEmailInput} :
    (guard D init userPre).Meets i (.verifyEmail input) (verifyEmail input) := by
  have hno : ∀ {α : Type} {p : Async α}, Uses [.tokens .emailVerification] p →
      (guard D init userPre).Meets i (.verifyEmail input) p := fun hp => meets_noUsers hp (by simp)
  unfold verifyEmail
  refine .bind (hno uses_newDate) fun now => .bind (hno uses_read) fun a => ?_
  split
  · exact .fail
  · split
    · exact .fail
    · refine fun s => Contract.wp_seq wp_loadUser (fun _ _ h => h) fun a t hload => ?_
      split
      · trivial
      · rename_i v
        have hedit : Edited (.verifyEmail input) v (v.setEmailVerifiedAt now) :=
          (Edited.refl v).set rfl rfl fun g hg => by
            cases g <;> first | rfl | exact absurd rfl hg
        exact Contract.wp_seq (wp_saveUser (hload v rfl) hedit) (fun _ _ h => h)
          fun _ t _ => hno (uses_write (by simp [Write.table])) t

theorem meets_createUser {email username : String} {h : PasswordHash} {pub tx : Bool} :
    (guard D init userPre).Meets i q (UserRepository.create email username h pub tx) :=
  .bind (meets_noUsers uses_randomUUID (List.not_mem_nil (a := Table.users))) fun _ =>
    .bind (.await fun _ _ => .inl ⟨_, rfl, rfl⟩) fun _ => .done

theorem meets_registerUser_users {input : RegisterInput} :
    (guard D init userPre).Meets i q (registerUser D input) := by
  have hno : ∀ {α : Type} {p : Async α}, Uses [.organizations, .memberships, .refreshTokens] p →
      (guard D init userPre).Meets i q p := fun hp => meets_noUsers hp (by simp)
  unfold registerUser
  split
  · exact .fail
  · refine .bind (hno uses_read) fun b => ?_
    split
    · exact .fail
    · refine .bind (hno uses_read) fun b => ?_
      split
      · exact .fail
      · refine .bind (hno uses_hash) fun h => .bind (meets_runInTransaction
          (fun op t hop => userPre_free i q op t (by simp [hop])) ?_) fun _ =>
          .bind (hno uses_sign) fun _ => .done
        exact .bind meets_createUser fun _ =>
          .bind (hno (uses_createOrganization (by simp))) fun _ =>
            .bind (hno (uses_createMembership (by simp))) fun _ =>
              .bind (hno (uses_issueRefreshToken (by simp))) fun _ => .done

theorem meets_handle_users (q : Request) : (guard D init userPre).Meets i q (handle D q) := by
  cases q with
  | registerUser input => exact .bind meets_registerUser_users fun _ => .done
  | updateProfile input => exact .bind meets_updateProfile fun _ => .done
  | resetPassword input => exact .bind meets_resetPassword fun _ => .done
  | verifyEmail input => exact .bind meets_verifyEmail fun _ => .done
  | _ => exact meets_noUsers (uses_handle _) (by simp [Request.footprint])

/-! ### What a step does to a row -/

theorem userRow_onUsers_create {us : List AuthUser} {u : AuthUser} {x : Uuid}
    (h : (us.find? fun v => v.id = x).isSome) :
    ((Write.createUser u).onUsers us).find? (fun v => v.id = x) = us.find? fun v => v.id = x := by
  obtain ⟨v, hv⟩ := Option.isSome_iff_exists.mp h
  rw [Write.onUsers, List.find?_append, hv]
  rfl

theorem userRow_onUsers_save {us : List AuthUser} {u : AuthUser} {x : Uuid} :
    ((Write.saveUser u).onUsers us).find? (fun v => v.id = x) =
      if u.id = x then (us.find? fun v => v.id = x).map fun _ => u
      else us.find? fun v => v.id = x := by
  have hid : ∀ v : AuthUser, (if v.id = u.id then u else v).id = v.id := by
    intro v
    split
    · rename_i h
      exact h.symm
    · rfl
  induction us with
  | nil => split <;> rfl
  | cons v us ih =>
    rw [Write.onUsers, List.map_cons, List.find?_cons, List.find?_cons, hid]
    by_cases hv : v.id = x
    · by_cases hu : u.id = x
      · simp [hv, hu]
      · simp [hv, hu, Ne.symm hu]
    · simp only [hv, decide_false]
      exact ih

/-- The users a transaction creates leave the rows there are. -/
theorem userRow_foldl {ws : List Write} (hws : ∀ wr ∈ ws, wr.table = .users →
    ∃ u, wr = .createUser u) {d : Db} {x : Uuid} (h : (d.users.find? fun u => u.id = x).isSome) :
    (ws.foldl (fun d wr => (schema D).apply wr d) d).users.find? (fun u => u.id = x) =
      d.users.find? fun u => u.id = x := by
  induction ws generalizing d with
  | nil => rfl
  | cons wr ws ih =>
    have hone : ((schema D).apply wr d).users.find? (fun u => u.id = x) =
        d.users.find? fun u => u.id = x := by
      change (wr.onUsers d.users).find? _ = _
      by_cases ht : wr.table = .users
      · obtain ⟨u, rfl⟩ := hws wr List.mem_cons_self ht
        exact userRow_onUsers_create h
      · rw [Write.onUsers_of_table ht]
    rw [List.foldl_cons, ih (fun wr' h' => hws wr' (List.mem_cons_of_mem _ h')) (hone ▸ h), hone]

theorem savedUser_eq {u : AuthUser} (h : savedUser e = some u) :
    (∃ tx r, e.act = .call (.call (.write tx (.saveUser u))) r) ∧ (userRow u.id e.before).isSome ∧
      e.after.store.db.users = (Write.saveUser u).onUsers e.before.store.db.users := by
  unfold savedUser at h
  split at h
  · rename_i tx u' r ha
    split at h
    · rename_i hc
      cases h
      exact ⟨⟨tx, r, ha⟩, hc⟩
    · cases h
  · cases h

theorem userRow_of_saved {u : AuthUser} (h : savedUser e = some u) (x : Uuid) :
    userRow x e.after = if u.id = x then some u else userRow x e.before := by
  obtain ⟨_, hsome, hus⟩ := savedUser_eq h
  rw [userRow, hus, userRow_onUsers_save]
  split
  · rename_i hu
    obtain ⟨v, hv⟩ := Option.isSome_iff_exists.mp hsome
    rw [hu] at hv
    rw [← userRow, hv]
    rfl
  · rfl

/-- **A row is changed by a save of it alone.** -/
theorem userRow_step {x : Uuid} (hpend : w₀.store.pending = [])
    (h : LegalHistory D userPre w₀ (e :: past)) (hx : (userRow x e.before).isSome) :
    (∃ u, savedUser e = some u ∧ u.id = x) ∨ userRow x e.after = userRow x e.before := by
  rcases store_of_obeys h.2.1 with ⟨op, r, ha, hstep⟩ | ⟨_, hdrop⟩
  · rcases hstep.db_cases with hdb | ⟨wr, rfl, _, hdb⟩ | ⟨st, rfl, _, _, _, hdb⟩ | ⟨rfl, hs⟩
    · exact .inr (by rw [userRow, hdb]; rfl)
    · have hus : e.after.store.db.users = wr.onUsers e.before.store.db.users :=
        congrArg Db.users hdb
      by_cases ht : wr.table = .users
      · rcases h.2.1.pre ha ht with ⟨u, rfl, _⟩ | ⟨_, u, v, rfl, _⟩
        · exact .inr (by rw [userRow, hus]; exact userRow_onUsers_create hx)
        · by_cases hu : u.id = x
          · subst hu
            refine .inl ⟨u, ?_, rfl⟩
            unfold savedUser
            rw [ha]
            exact if_pos ⟨hx, hus⟩
          · right
            rw [userRow, hus, userRow_onUsers_save, if_neg hu]
            rfl
      · right
        rw [userRow, hus, Write.onUsers_of_table ht]
        rfl
    · have hus : e.after.store.db.users = st.write.onUsers e.before.store.db.users :=
        congrArg Db.users hdb
      have ht : st.write.table ≠ .users := by
        rw [statement_write_table]
        cases st.update <;> simp [Update.table]
      right
      rw [userRow, hus, Write.onUsers_of_table ht]
      rfl
    · right
      have hcreate := pending_of_legal (P := fun wr => wr.table = .users → ∃ u, wr = .createUser u)
        (by rw [hpend]; exact fun _ h => nomatch h)
        (fun i q wr s hpre ht => by
          rcases hpre ht with ⟨u, hu, _⟩ | ⟨hf, _⟩
          · exact ⟨u, hu⟩
          · cases hf)
        (fun st ht => by
          rw [statement_write_table] at ht
          cases hu : st.update <;> rw [hu] at ht <;> cases ht) h.2.2
      rw [userRow, hs]
      exact userRow_foldl (fun wr hwr => hcreate _ (h.1 ▸ e.before.store.mem_pendingOf.mp hwr)) hx
  · exact .inr (by rw [userRow, hdrop]; rfl)

/-- What a save writes is what its call has loaded, edited. -/
theorem saved_edited (h : LegalHistory D userPre w₀ (e :: past)) {u : AuthUser}
    (hu : savedUser e = some u) :
    ∃ v, loadedUser (own e.tid past) = some (false, v) ∧ Edited e.req v u := by
  obtain ⟨⟨tx, r, ha⟩, _⟩ := savedUser_eq hu
  rcases h.2.1.pre ha rfl with ⟨u', hu', _⟩ | ⟨_, u', v, hu', hload, hedit⟩
  · cases hu'
  · cases hu'
    exact ⟨v, hload, hedit⟩

/-- What a save writes to the fields its call does not set. -/
theorem saved_unset (h : LegalHistory D userPre w₀ (e :: past)) {u : AuthUser}
    (hu : savedUser e = some u) {f : UserField} (hf : e.req.sets f = false) :
    (loadedUser (own e.tid past)).map (·.2.get f) = some (u.get f) := by
  obtain ⟨v, hload, hedit⟩ := saved_edited h hu
  rw [hload, Option.map_some, hedit.unset f hf]

/-! ### Every run -/

/-- **One step keeps a field or overwrites it.** -/
theorem field_step {f : UserField} {x : Uuid} (hpend : w₀.store.pending = [])
    (h : LegalHistory D userPre w₀ (e :: past))
    (hkept : userValue f x (worldAfter w₀ past) = lastSet f x w₀ past) :
    userValue f x (worldAfter w₀ (e :: past)) = lastSet f x w₀ (e :: past) ↔
      ¬ Overwrites f x e past := by
  rw [← h.1] at hkept
  change userValue f x e.after = _ ↔ _
  rw [lastSet]
  cases hs : savedUser e with
  | some u =>
    have hrow := userRow_of_saved hs x
    by_cases hx : u.id = x
    · rw [if_pos hx] at hrow
      have hafter : userValue f x e.after = some (u.get f) := by rw [userValue, hrow]; rfl
      simp only [if_pos hx]
      rw [hafter]
      by_cases hset : e.req.sets f = true
      · rw [if_pos hset]
        exact iff_of_true rfl fun ho => by rw [ho.2.1] at hset; cases hset
      · rw [if_neg hset, ← hkept, Overwrites, saved_unset h hs (by simpa using hset)]
        simp [hs, hx, hset, eq_comm]
    · rw [if_neg hx] at hrow
      simp only [if_neg hx]
      refine iff_of_true ?_ fun ⟨⟨u', hu', hx'⟩, _⟩ => ?_
      · rw [userValue, hrow, ← hkept]
        rfl
      · rw [hs] at hu'
        exact hx (Option.some.inj hu' ▸ hx')
  | none =>
    refine iff_of_true ?_ fun ⟨⟨u', hu', _⟩, _⟩ => by rw [hs] at hu'; cases hu'
    cases hx : userRow x e.before with
    | none => simp
    | some v =>
      rcases userRow_step (x := x) hpend h (by rw [hx]; rfl) with ⟨u, hu, _⟩ | hrow
      · rw [hs] at hu
        cases hu
      · rw [userValue, hrow, ← userValue, hkept]
        simp

/-- **No lost update**, for a field of a user's row: in every state of a run it has the
value last set, exactly when no save of a call that does not set it overwrites it. -/
theorem fields_kept_iff {d : Db} {c : AuthConfig}
    (h : (authMachine D).Reachable (StartsFrom d) c) (f : UserField) (x : Uuid) :
    (∀ hist, hist <:+ c.state.hist → userValue f x (worldAfter (World.init d) hist) =
      lastSet f x (World.init d) hist) ↔
    Throughout (fun e past => ¬ Overwrites f x e past) c.state.hist := by
  obtain ⟨w₀, rfl, _, hl⟩ :=
    Contract.legal_of_reachable (M := authMachine D) (fun _ q s _ => meets_handle_users (D := D) q s) h
  refine throughout_iff rfl fun e past hs hpast => ?_
  exact field_step rfl (hl.suffix hs) (hpast past (List.suffix_refl past))

/-- A user with a password-reset token. -/
def resetDb : Db :=
  { sampleDb with passwordResetTokens := [⟨.seed 7, .seed 1, .sha256 (.seed 8), 1000, none⟩] }

/-- A change of the name that carries no password. -/
def renameAnn : Request := .updateProfile ⟨.seed 1, none, some "anna", none, none⟩

def resetAnn : Request := .resetPassword ⟨.seed 8, "new", "new"⟩

/-- One after the other, both keep what they set. -/
theorem fields_kept_reset :
    ∃ c : AuthConfig, runFrom sampleDeps resetDb
        ([.spawn renameAnn, .spawn resetAnn] ++ steps 0 3 ++ steps 1 6) = some c ∧
      userValue .passwordHash (.seed 1) c.state.world = some ⟨"new", .drawn 1 0⟩ ∧
      ∀ hist, hist <:+ c.state.hist →
        userValue .username (.seed 1) (worldAfter (World.init resetDb) hist) =
          lastSet .username (.seed 1) (World.init resetDb) hist := by
  have hrun : (runFrom sampleDeps resetDb
      ([.spawn renameAnn, .spawn resetAnn] ++ steps 0 3 ++ steps 1 6)).map (fun c =>
        (userValue .passwordHash (.seed 1) c.state.world, decide (Throughout (fun e past =>
          ¬ Overwrites .username (.seed 1) e past) c.state.hist))) =
      some (some ⟨"new", .drawn 1 0⟩, true) := by
    decide +kernel
  obtain ⟨c, hc, hval⟩ := Option.map_eq_some_iff.mp hrun
  obtain ⟨hpass, hno⟩ := Prod.mk.inj hval
  have hstart : StartsFrom resetDb (World.init resetDb) := rfl
  have hreach := Machine.reachable_of_run hstart hc
  exact ⟨c, hc, hpass, (fields_kept_iff hreach .username (.seed 1)).mpr (of_decide_eq_true hno)⟩

/-- **A new password undone.**  The profile is loaded, the password is reset, and the
profile is saved with the old one. -/
theorem password_reverted :
    ∃ c ∈ runFrom sampleDeps resetDb
        ([.spawn renameAnn, .spawn resetAnn] ++ steps 0 2 ++ steps 1 6 ++ steps 0 1),
      lastSet .passwordHash (.seed 1) (World.init resetDb) c.state.hist =
        some ⟨"new", .drawn 1 0⟩ ∧
      userValue .passwordHash (.seed 1) c.state.world = some ⟨"pw", .seed 0⟩ := by
  decide +kernel

end LakiraBackend.Auth
