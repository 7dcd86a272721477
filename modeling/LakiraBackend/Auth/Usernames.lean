import LakiraBackend.Auth.UserRow
import LakiraBackend.Concurrency.Serial
import LakiraBackend.JavaScript.Uri

/-!
# The names of users

`zUsername` asks for three characters of what is sent.  `RegisterUser` stores the name trimmed,
and checks that one; `UpdateProfile` checks the name as it is sent, and stores it trimmed.  Where
what is sent is its own trim, and long enough trimmed, every name in a run is trimmed and long
enough, has been checked before it was written, and an update fails with a client error
(`usernames_kept`).
-/

namespace LakiraBackend.Auth

open LakiraBackend.Concurrency

/-! ### Bodies that are accepted -/

def zUsername (s : String) : Bool := 3 ≤ utf16Length s

def zPassword (s : String) : Bool := 6 ≤ utf16Length s

/-- `createUserBody`; `zEmail` is `z.string().email()`. -/
def RegisterInput.accepted (zEmail : String → Bool) (input : RegisterInput) : Bool :=
  zUsername input.username && zEmail input.email && zPassword input.password &&
    zPassword input.passwordConfirmation && input.password = input.passwordConfirmation

/-- `updateUserBody`. -/
def UpdateProfileInput.accepted (zEmail : String → Bool) (input : UpdateProfileInput) : Bool :=
  input.username.all zUsername && input.email.all zEmail && input.password.all zPassword

/-- A request to register or to change a profile, with a body that is accepted. -/
def Request.accepted (zEmail : String → Bool) : Request → Bool
  | .registerUser input => input.accepted zEmail
  | .updateProfile input => input.accepted zEmail
  | _ => false

/-- The name is long enough once it is trimmed; a new one is sent trimmed, and a new name and
address are what their columns take. -/
def Request.plain (D : Deps) : Request → Bool
  | .registerUser input => zUsername (D.trim input.username)
  | .updateProfile input =>
    (input.username.all fun s => D.trim s = s && Write.fitsColumn s) && input.email.all fun s =>
      D.isEmail (D.toLowerCase (D.trim s)) && Write.fitsColumn (D.toLowerCase (D.trim s))
  | _ => true

/-- The status an error is answered with. -/
def Err.status : Err → Nat
  | .domain .validation _ => 400
  | .domain .unauthorized _ => 401
  | .domain .forbidden _ => 403
  | .domain .notFound _ => 404
  | .domain .conflict _ => 409
  | .app _ statusCode => statusCode
  | .uniqueConstraint _ => 409
  | _ => 500

def Err.isClientError (e : Err) : Bool := 400 ≤ e.status && e.status < 500

/-- A client error, or that of a call that has failed or of a process that has died. -/
def Expected (e : Err) : Prop := e.isClientError = true ∨ e = .repository ∨ e = .crashed

/-! ### Rows -/

/-- The user that a write stores. -/
def Write.user? : Write → Option AuthUser
  | .createUser u => some u
  | .saveUser u => some u
  | _ => none

theorem Write.user?_of_table {wr : Write} (h : wr.table ≠ .users) : wr.user? = none := by
  cases wr <;> first | rfl | exact absurd rfl h

structure WellNamed (D : Deps) (u : AuthUser) : Prop where
  trimmed : D.trim u.username = u.username
  long : zUsername u.username = true

/-- The columns take the row. -/
structure Storable (D : Deps) (u : AuthUser) : Prop where
  email : D.isEmail u.email = true
  fitsEmail : Write.fitsColumn u.email = true
  fitsUsername : Write.fitsColumn u.username = true

/-- A row, with a name of which something is known. -/
structure GoodUser (D : Deps) (P : String → Prop) (u : AuthUser) : Prop where
  named : WellNamed D u
  storable : Storable D u
  known : P u.username

/-- Every row is good, and so is every row that is not committed. -/
structure GoodStore (D : Deps) (P : String → Prop) (s : AuthStore) : Prop where
  rows : ∀ u ∈ s.db.users, GoodUser D P u
  pending : ∀ l ∈ s.pending, ∀ u ∈ l.2.user?, GoodUser D P u

variable {D : Deps} {P : String → Prop} {i : Nat} {q : Request} {s : AuthState}

theorem GoodUser.mono {P' : String → Prop} (hP : ∀ n, P n → P' n) {u : AuthUser}
    (h : GoodUser D P u) : GoodUser D P' u :=
  ⟨h.named, h.storable, hP _ h.known⟩

theorem GoodStore.mono {P' : String → Prop} (hP : ∀ n, P n → P' n) {st : AuthStore}
    (h : GoodStore D P st) : GoodStore D P' st :=
  ⟨fun u hu => (h.rows u hu).mono hP, fun l hl u hu => (h.pending l hl u hu).mono hP⟩

theorem mem_apply_users {wr : Write} {d : Db} {u : AuthUser} (h : u ∈ (wr.apply D d).users) :
    u ∈ d.users ∨ wr.user? = some u := by
  have h : u ∈ wr.onUsers d.users := h
  cases wr with
  | createUser v =>
    rcases List.mem_append.mp h with h | h
    · exact .inl h
    · exact .inr (congrArg some (List.mem_singleton.mp h).symm)
  | saveUser v =>
    obtain ⟨x, hx, rfl⟩ := List.mem_map.mp h
    split
    · exact .inr rfl
    · exact .inl hx
  | _ => exact .inl h

/-- What a session sees is good. -/
theorem GoodStore.view {st : AuthStore} (h : GoodStore D P st) (j : Nat) :
    ∀ u ∈ (st.view (schema D) j).users, GoodUser D P u := by
  have hfold : ∀ (ws : List Write) (d : Db), (∀ u ∈ d.users, GoodUser D P u) →
      (∀ wr ∈ ws, ∀ u ∈ wr.user?, GoodUser D P u) →
      ∀ u ∈ (ws.foldl (fun d wr => (schema D).apply wr d) d).users, GoodUser D P u := by
    intro ws
    induction ws with
    | nil => exact fun d hd _ => hd
    | cons wr ws ih =>
      intro d hd hws
      obtain ⟨hwr, hws⟩ := List.forall_mem_cons.mp hws
      refine ih _ (fun u hu => ?_) hws
      rcases mem_apply_users hu with hu | hu
      · exact hd u hu
      · exact hwr u hu
  exact hfold _ _ h.rows fun wr hwr => h.pending _ (st.mem_pendingOf.mp hwr)

theorem storable_of_refuseColumns {old : Option AuthUser} {u : AuthUser}
    (hold : ∀ v ∈ old, Storable D v) (h : Write.refuseColumns D old u = none) : Storable D u := by
  dsimp only [Write.refuseColumns] at h
  split at h
  · cases h
  · rename_i hemail
    split at h
    · cases h
    · rename_i hfits
      simp only [Bool.and_eq_true, Bool.or_eq_true, Bool.not_eq_true', not_and, not_or,
        Bool.not_eq_false] at hemail hfits
      cases old with
      | none => exact ⟨hemail rfl, hfits.1 rfl, hfits.2 rfl⟩
      | some v =>
        have hv := hold v rfl
        simp only [Option.all_some, decide_eq_true_eq] at hemail hfits
        by_cases he : v.email = u.email
        · by_cases hn : v.username = u.username
          · exact ⟨he ▸ hv.email, he ▸ hv.fitsEmail, hn ▸ hv.fitsUsername⟩
          · exact ⟨he ▸ hv.email, he ▸ hv.fitsEmail, hfits.2 hn⟩
        · by_cases hn : v.username = u.username
          · exact ⟨hemail he, hfits.1 he, hn ▸ hv.fitsUsername⟩
          · exact ⟨hemail he, hfits.1 he, hfits.2 hn⟩

theorem refuseColumns_of_storable {old : Option AuthUser} {u : AuthUser} (h : Storable D u) :
    Write.refuseColumns D old u = none := by
  dsimp only [Write.refuseColumns]
  rw [h.email, h.fitsEmail, h.fitsUsername]
  simp

/-- **What the database takes is storable.** -/
theorem storable_of_accepted {wr : Write} {d : Db} {u : AuthUser}
    (hd : ∀ v ∈ d.users, Storable D v) (h : wr.refuse D d = none) (hu : wr.user? = some u) :
    Storable D u := by
  have hnone : ∀ {a b : Option Err}, (a <|> b) = none → a = none := by
    intro a b hab
    cases a with
    | none => rfl
    | some e => cases hab
  cases wr with
  | createUser v =>
    cases hu
    exact storable_of_refuseColumns (fun v hv => absurd hv (Option.not_mem_none v)) (hnone h)
  | saveUser v =>
    cases hu
    simp only [Write.refuse] at h
    split at h
    · cases h
    · exact storable_of_refuseColumns (fun x hx => hd x (List.mem_of_find?_eq_some hx)) (hnone h)
  | _ => cases hu

/-- **A step keeps the store good**, if what it writes has a good name. -/
theorem GoodStore.step {op : Op} {st st' : AuthStore} (h : GoodStore D P st)
    (hstep : StoreStep D i st op st')
    (hwr : ∀ tx wr, op = .call (.write tx wr) → ∀ u ∈ wr.user?, WellNamed D u ∧ P u.username) :
    GoodStore D P st' := by
  have hview := h.view
  have hwritten : ∀ {tx : Bool} {wr : Write}, st.Takes (schema D) i tx wr →
      (∀ u ∈ wr.user?, WellNamed D u ∧ P u.username) →
      GoodStore D P (st.written (schema D) i tx wr) := by
    intro tx wr ht hwr
    have hbase : ∀ v ∈ (st.base (schema D) i tx).users, Storable D v := by
      cases tx with
      | false => exact fun v hv => (h.rows v hv).storable
      | true => exact fun v hv => (hview i v hv).storable
    have hgood : ∀ u ∈ wr.user?, GoodUser D P u := fun u hu =>
      ⟨(hwr u hu).1, storable_of_accepted hbase ht.accepted hu, (hwr u hu).2⟩
    cases tx with
    | false =>
      refine ⟨fun u hu => ?_, h.pending⟩
      rcases mem_apply_users hu with hu | hu
      · exact h.rows u hu
      · exact hgood u hu
    | true =>
      refine ⟨h.rows, fun l hl => ?_⟩
      rcases List.mem_append.mp hl with hl | hl
      · exact h.pending l hl
      · rw [List.mem_singleton.mp hl]
        exact hgood
  cases hstep with
  | same _ => exact h
  | lock _ _ => exact ⟨h.rows, h.pending⟩
  | @write tx wr ht => exact hwritten ht (hwr tx wr rfl)
  | commit => exact ⟨hview i, fun l hl => h.pending l (List.mem_of_mem_filter hl)⟩
  | rollback _ => exact ⟨h.rows, fun l hl => h.pending l (List.mem_of_mem_filter hl)⟩
  | start => exact ⟨h.rows, h.pending⟩
  | @finish st₀ _ ht =>
    have hnone : st₀.write.user? = none := Write.user?_of_table fun htable => by
      rw [statement_write_table] at htable
      cases hu : st₀.update <;> rw [hu] at htable <;> cases htable
    have hdone := hwritten ht fun u hu => by
      rw [hnone] at hu
      cases hu
    exact ⟨hdone.rows, hdone.pending⟩
  | stop _ => exact ⟨h.rows, h.pending⟩

/-- A call that has failed, or that has been refused. -/
theorem exec_error {c : Call} {inp : Input} {e : Err} {w w' : World}
    (h : exec D i inp (.call c) w = some (.error e, w')) :
    e = .repository ∨ perform D i c w = some (.error e, w') := by
  simp only [exec] at h
  split at h
  · exact .inr h
  · cases h
    exact .inl rfl
  · obtain ⟨⟨r, w₁⟩, _, hr⟩ := Option.map_eq_some_iff.mp h
    cases hr
    exact .inl rfl

/-! ### What is known of a name when it is written -/

/-- The event asks whether a user has the name, and none has. -/
abbrev FindsFree (name : String) (e : AuthEvent) : Prop := Reads (.existsByUsername name) false e

/-- The call has found the name free, or has loaded a row with it. -/
def NameChecked (name : String) (l : List AuthEvent) : Prop :=
  (∃ e ∈ l, FindsFree name e) ∨ ∃ v, loadedUser l = some (false, v) ∧ v.username = name

/-- The name was there at the start, or was found free. -/
def Origin (d : Db) (hist : List AuthEvent) (name : String) : Prop :=
  (∃ v ∈ d.users, v.username = name) ∨ ∃ e ∈ hist, FindsFree name e

/-- The event is a call to store the user, whatever came of it. -/
def Stores (u : AuthUser) (e : AuthEvent) : Prop :=
  ∃ tx wr r, e.act = .call (.call (.write tx wr)) r ∧ wr.user? = some u

/-- The names that the entry stores have been checked by its call. -/
def StoresChecked (e : AuthEvent) (past : List AuthEvent) : Prop :=
  ∀ u, Stores u e → NameChecked u.username (own e.tid past)

theorem Origin.cons {d : Db} {hist : List AuthEvent} {name : String} (e : AuthEvent)
    (h : Origin d hist name) : Origin d (e :: hist) name :=
  h.imp_right fun ⟨e', he', hf⟩ => ⟨e', List.mem_cons_of_mem e he', hf⟩

variable {d : Db}

/-- A user is stored with a name that is trimmed, long enough and checked. -/
def namePre (D : Deps) (d : Db) : Precondition := fun i _ op s => match op with
  | .call (.write _ wr) => ∀ u ∈ wr.user?, WellNamed D u ∧ Origin d s.hist u.username ∧
      NameChecked u.username (own i s.hist)
  | _ => True

theorem namePre_free (op : Op) (h : op.table ≠ some .users) : namePre D d i q op s := by
  cases op with
  | call c =>
    cases c with
    | write tx wr =>
      intro u hu
      rw [Write.user?_of_table fun ht => h (congrArg some ht)] at hu
      cases hu
    | _ => trivial
  | _ => trivial

def nameContract (D : Deps) (d : Db) : Contract (authMachine D) where
  Inv s := GoodStore D (Origin d s.hist) s.world.store ∧ Throughout StoresChecked s.hist
  Pre := namePre D d
  call_inv := fun {i q op s inp r w} ⟨hgood, hchecked⟩ hpre he => by
    have hstep : StoreStep D i s.world.store op w.store := exec_store he
    refine ⟨(hgood.step hstep fun tx wr hop u hu => ?_).mono fun n hn => hn.cons _, ?_, hchecked⟩
    · subst hop
      exact ⟨(hpre u hu).1, (hpre u hu).2.1⟩
    · rintro u ⟨tx, wr, r', ha, hu⟩
      obtain ⟨rfl, _⟩ := Act.call.inj ha
      exact (hpre u hu).2.2
  crash_inv := fun {i q s} ⟨hgood, hchecked⟩ => by
    refine ⟨?_, ?_, hchecked⟩
    · exact GoodStore.mono (fun n hn => hn.cons _)
        ⟨hgood.rows, fun l hl => hgood.pending l (List.mem_of_mem_filter hl)⟩
    · rintro u ⟨tx, wr, r', ha, _⟩
      cases ha

/-! ### Registering -/

/-- The call has found the name free. -/
def FoundFree (name : String) (l : List AuthEvent) : Prop := ∃ e ∈ l, FindsFree name e

theorem FoundFree.cons {name : String} (e : AuthEvent) (l : List AuthEvent)
    (h : FoundFree name l) : FoundFree name (e :: l) :=
  h.imp fun _ he => ⟨List.mem_cons_of_mem e he.1, he.2⟩

theorem FoundFree.origin {name : String} (h : FoundFree name (own i s.hist)) :
    Origin d s.hist name :=
  .inr (h.imp fun _ he => ⟨(mem_of_mem_own he.1).1, he.2⟩)

/-- A query whether a name is taken. -/
theorem wp_existsByUsername {name : String} {P : AuthState → Prop}
    (hP : (nameContract D d).Stable i P) (hs : P s)
    (hown : ∀ t inp r w, P t → exec D i inp (.call (.read false (.existsByUsername name))) t.world =
      some (r, w) → P (t.push i q (.call (.call (.read false (.existsByUsername name))) r) w))
    {E : Err → AuthState → Prop} (hE : ∀ t, E .repository t) :
    (nameContract D d).wp i q (UserRepository.existsByUsername name)
      (fun b t => P t ∧ (b = false → FoundFree name (own i t.hist))) E s := by
  refine Contract.wp_await hP hs (fun _ _ _ => trivial) (fun t inp b w _ ht he => ?_)
    fun t inp e w _ ht he => ?_
  · refine ⟨hown t inp _ w ht he, ?_⟩
    rintro rfl
    rw [own_push]
    exact ⟨_, List.mem_cons_self, rfl⟩
  · rcases exec_error he with rfl | hperform
    · exact hE _
    · cases hperform

theorem wp_createUser {email name : String} {h : PasswordHash} {pub tx : Bool}
    (htrim : D.trim name = name) (hlong : zUsername name = true)
    (hs : FoundFree name (own i s.hist)) :
    (nameContract D d).wp i q (UserRepository.create email name h pub tx) (fun _ _ => True)
      (fun _ _ => True) s := by
  refine Contract.wp_seq (wp_keepOwn FoundFree.cons hs (fun _ _ => trivial) fun _ _ => trivial)
    (fun _ _ h => h) fun id t ht => ?_
  refine Contract.wp_seq (wp_keep_true (Contract.stable_own (FoundFree name)) ht
    fun t _ ht u hu => ?_) (fun _ _ h => h) fun _ _ _ => trivial
  cases hu
  exact ⟨⟨htrim, hlong⟩, ht.origin, .inl ht⟩

/-- **A registration stores the name it has checked.** -/
theorem wp_registerUser_names {input : RegisterInput} (htrim : ∀ s, D.trim (D.trim s) = D.trim s)
    (hplain : zUsername (D.trim input.username) = true) :
    (nameContract D d).wp i q (registerUser D input) (fun _ _ => True) (fun _ _ => True) s := by
  have hfree : ∀ {α : Type} {p : Async α}, Uses [.organizations, .memberships, .refreshTokens] p →
      (nameContract D d).Meets i q p := fun hp s =>
    Contract.wp_mono (fun _ _ _ => trivial) (fun _ _ _ => trivial)
      (Contract.wp_of_calls (Contract.Stable.true i)
        (fun op t hw _ _ => namePre_free (q := q) op fun ht => absurd (hw _ ht) (by simp))
        (fun _ _ _ _ _ _ _ _ _ => trivial) hp trivial)
  unfold registerUser
  split
  · trivial
  · refine Contract.wp_seq (hfree uses_read s) (fun _ _ h => h) fun b s _ => ?_
    split
    · trivial
    · refine Contract.wp_seq (wp_existsByUsername (Contract.Stable.true i) trivial
        (fun _ _ _ _ _ _ => trivial) fun _ => trivial) (fun _ _ h => h) fun b s hb => ?_
      split
      · trivial
      · rename_i hfalse
        have hfound := hb.2 (by simpa using hfalse)
        refine Contract.wp_seq (wp_keepOwn FoundFree.cons hfound (fun _ _ => trivial)
          fun _ _ => trivial) (fun _ _ h => h) fun hash s hs => ?_
        refine Contract.wp_seq (wp_inTransaction
          (Contract.stable_own (FoundFree (D.trim input.username))) hs
          (fun op t hop => namePre_free (q := q) op (by simp [hop])) (fun t inp a w ht he => ?_)
          fun t ht => ?_) (fun _ _ h => h) fun r s _ => ?_
        · rw [own_push]
          exact ht.cons _ _
        · refine Contract.wp_seq (wp_createUser (htrim _) hplain ht) (fun _ _ h => h)
            fun user t _ => ?_
          exact Contract.Meets.bind (hfree (uses_createOrganization (by simp))) (fun _ =>
            .bind (hfree (uses_createMembership (by simp))) fun _ =>
              .bind (hfree (uses_issueRefreshToken (by simp))) fun _ => .done) t
        · exact Contract.Meets.bind (hfree uses_sign) (fun _ => .done) s

/-! ### Changing a profile -/

/-- What the parts of `UpdateProfile.execute` keep: the row that was loaded is still there, and the
row made of it so far is good, with a name that has been checked. -/
structure Updating (D : Deps) (d : Db) (i : Nat) (v u : AuthUser) (s : AuthState) : Prop where
  loaded : loadedUser (own i s.hist) = some (false, v)
  row : ∃ x ∈ s.world.store.db.users, x.id = v.id
  id_eq : u.id = v.id
  good : GoodUser D (Origin d s.hist) u
  checked : NameChecked u.username (own i s.hist)

/-- No write takes a row away. -/
theorem row_apply {id : Uuid} (wr : Write) (d : Db) (h : ∃ x ∈ d.users, x.id = id) :
    ∃ x ∈ (wr.apply D d).users, x.id = id := by
  obtain ⟨x, hx, hid⟩ := h
  change ∃ x ∈ wr.onUsers d.users, x.id = id
  cases wr with
  | createUser u => exact ⟨x, List.mem_append_left _ hx, hid⟩
  | saveUser u =>
    refine ⟨_, List.mem_map_of_mem hx, ?_⟩
    split
    · rename_i hu
      exact hu.symm.trans hid
    · exact hid
  | _ => exact ⟨x, hx, hid⟩

variable {v u : AuthUser}

theorem stable_updating : (nameContract D d).Stable i (Updating D d i v u) := by
  intro s t hstep h
  obtain ⟨e, hhist, he⟩ := hstep.hist
  have hown : own i t.hist = own i s.hist := by rw [hhist, own_cons_ne he]
  refine ⟨hown ▸ h.loaded, ?_, h.id_eq, h.good.mono fun n hn => hhist ▸ hn.cons e, hown ▸ h.checked⟩
  cases hstep with
  | call _ _ _ hexec => exact (exec_store hexec).db_kept row_apply h.row
  | crash _ _ => exact h.row

theorem Updating.push (h : Updating D d i v u s) {op : Op} (hop : op.loadsUser = false)
    {inp : Input} {r : Except Err op.Answer} {w : World}
    (he : exec D i inp op s.world = some (r, w)) :
    Updating D d i v u (s.push i q (.call op r) w) := by
  have hloaded : ∀ {b : Bool × AuthUser}, loadedUser (own i s.hist) = some b →
      loadedUser (own i (s.push i q (.call op r) w).hist) = some b := fun hb => by
    rw [own_push, loadedUser_cons hop, hb]
  refine ⟨hloaded h.loaded, (exec_store he).db_kept row_apply h.row, h.id_eq,
    h.good.mono fun n hn => hn.cons _, ?_⟩
  rcases h.checked with hfound | ⟨x, hx, hname⟩
  · rw [own_push]
    exact .inl (FoundFree.cons _ _ hfound)
  · exact .inr ⟨x, hloaded hx, hname⟩

theorem expected_repository : Expected .repository := .inr (.inl rfl)

theorem expected_conflict (message : String) : Expected (conflictError message) := .inl rfl

/-- A call that loads and stores no user. -/
theorem wp_updating {c : Call} (hload : (Op.call c).loadsUser = false)
    (htable : (Op.call c).table ≠ some .users)
    (hperform : ∀ w e w', perform D i c w ≠ some (.error e, w')) (h : Updating D d i v u s) :
    (nameContract D d).wp i q (await c) (fun _ t => Updating D d i v u t) (fun e _ => Expected e)
      s := by
  refine Contract.wp_await stable_updating h (fun t _ _ => namePre_free (q := q) _ htable)
    (fun t inp a w _ ht he => ht.push hload he) fun t inp e w _ ht he => ?_
  rcases exec_error he with rfl | hfail
  · exact expected_repository
  · exact absurd hfail (hperform _ _ _)

theorem truthy_eq_some {text : Option String} {s : String} (h : truthy text = some s) :
    text = some s ∧ s ≠ "" := by
  obtain ⟨htext, hs⟩ := Option.filter_eq_some_iff.mp h
  exact ⟨htext, of_decide_eq_true hs⟩

theorem wp_updateEmail_names (hempty : D.isEmail "" = false) {email : Option String}
    (hplain : (email.all fun s => D.isEmail (D.toLowerCase (D.trim s)) &&
      Write.fitsColumn (D.toLowerCase (D.trim s))) = true) (h : Updating D d i v u s) :
    (nameContract D d).wp i q (updateEmail D u email) (fun u' t => Updating D d i v u' t)
      (fun e _ => Expected e) s := by
  unfold updateEmail
  split
  · exact h
  · rename_i sent hsent
    obtain ⟨rfl, _⟩ := truthy_eq_some hsent
    simp only [Option.all_some, Bool.and_eq_true] at hplain
    split
    · exact h
    · refine Contract.wp_seq (wp_updating rfl (by simp [Op.table]) (fun _ _ _ hp => by cases hp) h)
        (fun _ _ he => he) fun b t ht => ?_
      split
      · exact expected_conflict _
      · split
        · -- what is an address is not empty
          rename_i e hchange
          simp only [AuthUser.changeEmail] at hchange
          split at hchange
          · rename_i hnil
            rw [hnil, hempty] at hplain
            cases hplain.1
          · cases hchange
        · rename_i u' hchange
          simp only [AuthUser.changeEmail] at hchange
          split at hchange
          · cases hchange
          · cases hchange
            exact ⟨ht.loaded, ht.row, ht.id_eq, ⟨⟨ht.good.named.trimmed, ht.good.named.long⟩,
              ⟨hplain.1, hplain.2, ht.good.storable.fitsUsername⟩, ht.good.known⟩, ht.checked⟩

theorem wp_updateUsername_names {username : Option String} (hlong : username.all zUsername = true)
    (hplain : (username.all fun s => D.trim s = s && Write.fitsColumn s) = true)
    (h : Updating D d i v u s) :
    (nameContract D d).wp i q (updateUsername D u username) (fun u' t => Updating D d i v u' t)
      (fun e _ => Expected e) s := by
  unfold updateUsername
  split
  · exact h
  · rename_i sent hsent
    obtain ⟨rfl, hne⟩ := truthy_eq_some hsent
    simp only [Option.all_some, Bool.and_eq_true, decide_eq_true_eq] at hplain hlong
    split
    · exact h
    · refine Contract.wp_seq (wp_existsByUsername stable_updating h
        (fun t inp r w ht he => ht.push rfl he) fun _ => expected_repository) (fun _ _ he => he)
        fun b t ht => ?_
      split
      · exact expected_conflict _
      · rename_i hfalse
        have hfound := ht.2 (by simpa using hfalse)
        split
        · rename_i e hchange
          simp only [AuthUser.changeUsername, hplain.1, if_neg hne] at hchange
          cases hchange
        · rename_i u' hchange
          simp only [AuthUser.changeUsername, hplain.1, if_neg hne] at hchange
          cases hchange
          exact ⟨ht.1.loaded, ht.1.row, ht.1.id_eq, ⟨⟨hplain.1, hlong⟩,
            ⟨ht.1.good.storable.email, ht.1.good.storable.fitsEmail, hplain.2⟩, hfound.origin⟩,
            .inl hfound⟩

theorem wp_updatePassword_names {password : Option String} (h : Updating D d i v u s) :
    (nameContract D d).wp i q (updatePassword u password) (fun u' t => Updating D d i v u' t)
      (fun e _ => Expected e) s := by
  unfold updatePassword
  split
  · exact h
  · refine Contract.wp_seq (wp_updating rfl (by simp [Op.table]) (fun _ _ _ hp => by cases hp) h)
      (fun _ _ he => he) fun hash t ht => ?_
    exact ⟨ht.loaded, ht.row, ht.id_eq, ⟨⟨ht.good.named.trimmed, ht.good.named.long⟩,
      ⟨ht.good.storable.email, ht.good.storable.fitsEmail, ht.good.storable.fitsUsername⟩,
      ht.good.known⟩, ht.checked⟩

/-- A row that is there and storable is refused as a duplicate alone. -/
theorem refuse_saveUser {d : Db} {e : Err} (hrow : ∃ x ∈ d.users, x.id = u.id)
    (hu : Storable D u) (h : (Write.saveUser u).refuse D d = some e) : Expected e := by
  simp only [Write.refuse, refuseColumns_of_storable hu] at h
  split at h
  · rename_i hnone
    obtain ⟨x, hx, hid⟩ := hrow
    simp only [Bool.not_eq_true', List.any_eq_false, decide_eq_true_eq] at hnone
    exact absurd hid (hnone x hx)
  · change (if _ then _ else _) = _ at h
    split at h
    · cases h
      exact .inl rfl
    · split at h
      · cases h
        exact .inl rfl
      · cases h

theorem wp_saveUser_names (h : Updating D d i v u s) :
    (nameContract D d).wp i q (UserRepository.save u) (fun _ _ => True) (fun e _ => Expected e)
      s := by
  refine Contract.wp_seq (Q := fun _ _ => True) (Contract.wp_await stable_updating h
    (fun t _ ht u' hu' => ?_) (fun _ _ _ _ _ _ _ => trivial) fun t inp e w _ ht he => ?_)
    (fun _ _ he => he) fun _ _ _ => trivial
  · cases hu'
    exact ⟨ht.good.named, ht.good.known, ht.checked⟩
  · rcases exec_error he with rfl | hperform
    · exact expected_repository
    · obtain ⟨⟨r, st⟩, hwrite, hr⟩ := Option.map_eq_some_iff.mp hperform
      rcases Store.write_cases hwrite with ⟨e', rfl, _, hrefuse⟩ | ⟨rfl, _, _⟩
      · cases hr
        exact refuse_saveUser (ht.id_eq ▸ ht.row) ht.good.storable hrefuse
      · cases hr

/-- **An update stores a name it has checked**, and fails with a client error. -/
theorem wp_updateProfile_names {input : UpdateProfileInput} (hempty : D.isEmail "" = false)
    (hlong : input.username.all zUsername = true)
    (hplain : (Request.updateProfile input).plain D = true) :
    (nameContract D d).wp i q (updateProfile D input) (fun _ _ => True) (fun e _ => Expected e)
      s := by
  simp only [Request.plain, Bool.and_eq_true] at hplain
  have hload : (nameContract D d).wp i q (UserRepository.findById input.userId false)
      (fun a t => ∀ v, a = some v → Updating D d i v v t) (fun e _ => Expected e) s := by
    refine Contract.wp_await (Contract.Stable.true i) trivial (fun _ _ _ => trivial)
      (fun t inp a w hinv _ he v hv => ?_) fun t inp e w _ _ he => ?_
    · subst hv
      obtain ⟨ha, rfl⟩ := exec_read_ok he
      have hmem : v ∈ t.world.store.db.users := List.mem_of_find?_eq_some ha.symm
      have hloaded : loadedUser (own i (t.push i q (.call (.call (.read false
          (.findUserById input.userId))) (.ok (some v))) t.world).hist) = some (false, v) := by
        rw [own_push]
        rfl
      exact ⟨hloaded, ⟨v, hmem, rfl⟩, rfl, (hinv.1.rows v hmem).mono fun n hn => hn.cons _,
        .inr ⟨v, hloaded, rfl⟩⟩
    · rcases exec_error he with rfl | hperform
      · exact expected_repository
      · cases hperform
  refine Contract.wp_seq hload (fun _ _ he => he) fun a t hloaded => ?_
  split
  · exact .inl rfl
  · rename_i v
    refine Contract.wp_seq (wp_updateEmail_names hempty hplain.2 (hloaded v rfl)) (fun _ _ he => he)
      fun u t h => ?_
    refine Contract.wp_seq (wp_updateUsername_names hlong hplain.1 h) (fun _ _ he => he)
      fun u t h => ?_
    refine Contract.wp_seq (wp_updatePassword_names (v := v) ?_) (fun _ _ he => he) fun u t h => ?_
    · cases input.isPublicProfile with
      | none => exact h
      | some value =>
        exact ⟨h.loaded, h.row, h.id_eq, ⟨⟨h.good.named.trimmed, h.good.named.long⟩,
          ⟨h.good.storable.email, h.good.storable.fitsEmail, h.good.storable.fitsUsername⟩,
          h.good.known⟩, h.checked⟩
    · exact wp_saveUser_names h

/-! ### Every run -/

/-- Every stored name is trimmed, long enough, and was there at the start or found free; it was
checked by the call that stored it; and an update that fails does so with a client error, or as a
call of it has failed or the process has died. -/
structure UsernamesKept (D : Deps) (d : Db) (c : AuthConfig) : Prop where
  stored : ∀ u ∈ c.state.world.store.db.users, WellNamed D u ∧ Origin d c.state.hist u.username
  checked : Throughout StoresChecked c.state.hist
  fails : ∀ (i : Nat) (input : UpdateProfileInput) (e : Err),
    c.threads[i]? = some (.updateProfile input, .fail e) → Expected e

/-- **Names are kept** in every run of accepted requests that send what they would store. -/
theorem usernames_kept {zEmail : String → Bool} {c : AuthConfig}
    (htrim : D.trim = JavaScript.trim) (hempty : D.isEmail "" = false)
    (hd : ∀ u ∈ d.users, WellNamed D u ∧ Storable D u)
    (h : (authMachine D).ReachableBy (fun _ l => ∀ q, l = .spawn q →
      q.accepted zEmail = true ∧ q.plain D = true) (StartsFrom d) c) : UsernamesKept D d c := by
  have hsound := (nameContract D d).sound_by (Q := fun _ _ _ _ => True)
    (E := fun _ q e _ => ∀ input, q = .updateProfile input → Expected e) (fun w hw => ?_)
    (fun i q c _ hkind _ _ => ?_) (fun i _ _ => Contract.Stable.true i)
    (fun _ _ _ _ _ _ he => he) (fun _ _ _ _ _ _ => .inr (.inr rfl)) h
  · obtain ⟨⟨hgood, hchecked⟩, hthreads⟩ := hsound
    refine ⟨fun u hu => ⟨(hgood.rows u hu).named, (hgood.rows u hu).known⟩, hchecked, ?_⟩
    exact fun i input e ht => hthreads i _ _ ht input rfl
  · cases hw
    refine ⟨⟨fun u hu => ⟨(hd u hu).1, (hd u hu).2, .inl ⟨u, hu, rfl⟩⟩, fun _ hl => nomatch hl⟩,
      trivial⟩
  · obtain ⟨haccepted, hplain⟩ := hkind q rfl
    cases q with
    | registerUser input =>
      have htwice : ∀ s, D.trim (D.trim s) = D.trim s := by
        rw [htrim]
        exact JavaScript.trim_trim
      exact Contract.wp_mono (Q := fun _ _ => True) (fun _ _ _ => trivial)
        (fun _ _ _ _ hq => nomatch hq)
        (Contract.wp_seq (wp_registerUser_names htwice hplain) (fun _ _ h => h)
          fun _ _ _ => trivial)
    | updateProfile input =>
      simp only [Request.accepted, UpdateProfileInput.accepted, Bool.and_eq_true] at haccepted
      exact Contract.wp_mono (Q := fun _ _ => True) (fun _ _ _ => trivial) (fun e _ he _ _ => he)
        (Contract.wp_seq (wp_updateProfile_names hempty haccepted.1.1 hplain) (fun _ _ h => h)
          fun _ _ _ => trivial)
    | _ => cases haccepted

def nameDeps : Deps := { sampleDeps with trim := JavaScript.trim }

/-- Registering with a name of one letter among white space. -/
def registerA : Request := .registerUser ⟨"a@x.io", "secret", "secret", "  a ", none, sampleClient⟩

def renameBob : Request := .updateProfile ⟨.seed 1, none, some " bob", none, none⟩

def renameBlank : Request := .updateProfile ⟨.seed 1, none, some "   ", none, none⟩

/-- The names that have been looked up, newest first. -/
def lookedUp (hist : List AuthEvent) : List String :=
  hist.filterMap fun e => match e.act with
    | .call (.call (.read _ (.existsByUsername name))) _ => some name
    | _ => none

/-- The status that a thread has ended with. -/
def endStatus (c : AuthConfig) (i : Nat) : Option Nat :=
  (Machine.outcome c i).map fun
    | .ok _ => 200
    | .error e => e.status

/-- A name of one letter is stored, the name `bob` is stored without being looked up, and an update
fails as a fault of the server. -/
theorem usernames_not_kept :
    (∀ q ∈ [registerA, renameBob, renameBlank], q.accepted (fun _ => true) = true) ∧
    ∃ c ∈ runFrom nameDeps sampleDb ([.spawn registerA, .spawn renameBob, .spawn renameBlank] ++
        steps 0 18 ++ steps 1 3 ++ steps 2 2),
      c.state.world.store.db.users.map AuthUser.username = ["bob", "a"] ∧
        zUsername "a" = false ∧ lookedUp c.state.hist = ["   ", " bob", "a"] ∧
        endStatus c 2 = some 500 := by
  decide +kernel

def registerCarol : Request :=
  .registerUser ⟨"carol@x.io", "secret", "secret", " carol ", none, sampleClient⟩

/-- Registering, and renaming with a name that is trimmed. -/
theorem usernames_kept_trimmed :
    ∃ c ∈ runFrom nameDeps sampleDb ([.spawn registerCarol, .spawn renameAnn] ++ steps 0 18 ++
        steps 1 3),
      c.state.world.store.db.users.map AuthUser.username = ["anna", "carol"] ∧
        UsernamesKept nameDeps sampleDb c := by
  have hrun : (runFrom nameDeps sampleDb ([.spawn registerCarol, .spawn renameAnn] ++ steps 0 18 ++
      steps 1 3)).map (fun c => c.state.world.store.db.users.map AuthUser.username) =
        some ["anna", "carol"] := by
    decide +kernel
  obtain ⟨c, hc, hnames⟩ := Option.map_eq_some_iff.mp hrun
  have hgood : ∀ u ∈ sampleDb.users, WellNamed nameDeps u ∧ Storable nameDeps u := by
    intro u hu
    rw [List.mem_singleton.mp hu]
    exact ⟨⟨by decide +kernel, by decide +kernel⟩,
      ⟨by decide +kernel, by decide +kernel, by decide +kernel⟩⟩
  have hplain : ∀ q ∈ [registerCarol, renameAnn],
      q.accepted (fun _ => true) = true ∧ q.plain nameDeps = true := by
    decide +kernel
  have hstart : StartsFrom sampleDb (World.init sampleDb) := rfl
  refine ⟨c, hc, hnames, @usernames_kept nameDeps sampleDb (fun _ => true) c rfl
    (by decide +kernel) hgood (Machine.ReachableBy.run (.boot hstart) (fun l hl c q hq => ?_) hc)⟩
  rw [List.mem_append, List.mem_append] at hl
  rcases hl with (hl | hl) | hl
  · have hmem : q ∈ [registerCarol, renameAnn] := by
      rcases List.mem_pair.mp hl with rfl | rfl
      · exact Label.spawn.inj hq ▸ List.mem_cons_self
      · exact Label.spawn.inj hq ▸ List.mem_cons_of_mem _ List.mem_cons_self
    exact hplain q hmem
  · rw [List.eq_of_mem_replicate hl] at hq
    cases hq
  · rw [List.eq_of_mem_replicate hl] at hq
    cases hq

end LakiraBackend.Auth
