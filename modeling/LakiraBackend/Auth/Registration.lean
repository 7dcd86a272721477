import LakiraBackend.Auth.Families
import LakiraBackend.Auth.TokenIds

/-!
# A registration is one unit of work

Every write of a registration is handed its transaction.  So its thread changes the committed data
by its COMMIT alone, and by then the transaction holds the four writes of a `Registration`
(`registerPre`).  However the other requests interleave, whatever fails or is lost, and wherever
the process dies, a registration has changed nothing, or has added its four rows in one step; and
where it has answered it has added them (`registration_atomic`).
-/

namespace LakiraBackend.Auth

open LakiraBackend.Concurrency

variable {D : Deps} {init : World → Prop} {Pre : Precondition} {i j : Nat} {q : Request}
  {s t : AuthState} {w w' w₀ : World} {d d' : Db} {hist : List AuthEvent} {α : Type}

/-- What a registration adds: a user, an organization, the user's membership as its owner, and
a refresh token of the user for it. -/
structure Registration : Type where
  user : AuthUser
  organization : Organization
  membership : Membership
  refreshToken : RefreshToken
  member : membership.userId = user.id
  ofOrganization : membership.organizationId = organization.id
  owner : membership.role = .owner
  active : membership.status = .active
  tokenUser : refreshToken.userId = user.id
  tokenOrganization : refreshToken.organizationId = some organization.id

namespace Registration

def writes (r : Registration) : List Write :=
  [.createUser r.user, .createOrganization r.organization, .createMembership r.membership,
    .upsertRefreshToken r.refreshToken]

/-- The database with exactly these rows more. -/
def added (r : Registration) (d : Db) : Db :=
  { d with
    users := d.users ++ [r.user]
    organizations := d.organizations ++ [r.organization]
    memberships := d.memberships ++ [r.membership]
    refreshTokens := d.refreshTokens ++ [r.refreshToken] }

theorem foldl_writes (r : Registration)
    (hnew : ∀ a ∈ d.refreshTokens, a.id ≠ r.refreshToken.id) :
    r.writes.foldl (fun d wr => wr.apply D d) d = r.added d := by
  have htokens : Write.onRefreshTokens (.upsertRefreshToken r.refreshToken) d.refreshTokens =
      d.refreshTokens ++ [r.refreshToken] := upsert_new hnew
  simp only [writes, List.foldl_cons, List.foldl_nil]
  exact congrArg (fun ts => { r.added d with refreshTokens := ts }) htokens

end Registration

/-- The committed data has got the rows of one registration, and nothing else. -/
def Registered (d d' : Db) : Prop := ∃ r : Registration, d' = r.added d

theorem Registered.ne (h : Registered d d') : d' ≠ d := by
  obtain ⟨r, rfl⟩ := h
  intro heq
  have := congrArg (fun d : Db => d.users.length) heq
  simp [Registration.added] at this

/-- The committed data is the same after it. -/
def Still (e : AuthEvent) : Prop := e.after.store.db = e.before.store.db

/-- **At most one registration**: the events leave the committed data alone, but for one that
registers. -/
def Once (hist : List AuthEvent) : Prop :=
  ∃ later e earlier, hist = later ++ e :: earlier ∧
    Registered e.before.store.db e.after.store.db ∧ ∀ e' ∈ later ++ earlier, Still e'

/-! ### What a registration owes when it calls -/

def registerPre (i : Nat) : Op → AuthState → Prop
  | .call .commit, s => (∀ e ∈ own i s.hist, Still e) ∧ ∃ r : Registration,
      s.world.store.pendingOf i = r.writes ∧ NewToken r.refreshToken.id s.world
  | .call (.write tx _), _ => tx = true
  | .call (.finishUpdate _ _), _ => False
  | _, _ => True

def registrationPre : Precondition := fun i q op s => tokenIdPre i op s.world ∧
  ∀ input, q = .registerUser input → registerPre i op s

theorem registrationPre_asks : AsksIds registrationPre := fun _ _ _ _ h => h.1

/-- The requests that register nobody only owe the ids. -/
theorem registrationPre_other (hq : ∀ input, q ≠ .registerUser input) {op : Op}
    (h : tokenIdPre i op s.world) : registrationPre i q op s :=
  ⟨h, fun input hreq => absurd hreq (hq input)⟩

/-- A call that saves no refresh token. -/
def SavesNone (op : Op) : Prop := ∀ i w, tokenIdPre i op w

theorem savesNone_of_table {op : Op} (h : op.table ≠ some .refreshTokens) : SavesNone op := by
  intro i w
  cases op with
  | call c =>
    cases c with
    | write tx wr =>
      cases wr with
      | upsertRefreshToken t => exact absurd rfl h
      | _ => trivial
    | _ => trivial
  | _ => trivial

theorem quiet_free {op : Op} (hop : op.Quiet) : registrationPre i q op s := by
  cases op with
  | call c =>
    cases c with
    | write tx wr => exact hop.elim
    | commit => exact hop.elim
    | finishUpdate tx u => exact hop.elim
    | _ => exact ⟨trivial, fun _ _ => trivial⟩
  | _ => exact ⟨trivial, fun _ _ => trivial⟩

theorem tokenIds_of_startsFrom (hd : TokensSeeded d) : ∀ w, StartsFrom d w → TokenIds w := by
  rintro w rfl
  exact tokenIds_init hd

abbrev registering (D : Deps) (d : Db) : Contract (authMachine D) :=
  guard D (StartsFrom d) registrationPre

/-! ### The other requests -/

section Others

variable {u : Uuid}

theorem meets_of_savesNone (hq : ∀ input, q ≠ .registerUser input) {p : Async α}
    (hp : p.Calls SavesNone) : (registering D d).Meets i q p :=
  fun _ => Contract.wp_of_calls (Contract.Stable.true i)
    (fun _ t hop _ _ => registrationPre_other hq (hop i t.world))
    (fun _ _ _ _ _ _ _ _ _ => trivial) hp trivial

theorem meets_other_call (hq : ∀ input, q ≠ .registerUser input) {op : Op} (hop : SavesNone op) :
    (registering D d).Meets i q (Prog.await op) :=
  .await fun t => registrationPre_other hq (hop i t.world)

/-- What the other requests know of an id they keep, whatever they call. -/
theorem wp_mayName {K : Contract (authMachine D)} (hK : K.Stable i fun t => MayName i u t.world)
    {Q : α → AuthState → Prop} {E : Err → AuthState → Prop} {p : Async α}
    (h : K.wp i q p Q E s) (hs : MayName i u s.world) :
    K.wp i q p (fun a t => Q a t ∧ MayName i u t.world) (fun _ _ => True) s :=
  Contract.wp_mono (fun _ _ h => h) (fun _ _ _ => trivial)
    (Contract.wp_frame hK (fun _ _ _ _ _ ht he => ht.mono (exec_draws he) (id_kept (exec_store he)))
      h hs)

/-- A value that is drawn may be given. -/
theorem wp_drawMayName (hq : ∀ input, q ≠ .registerUser input) :
    (registering D d).wp i q (Prog.await Op.random) (fun u t => MayName i u t.world)
      (fun _ _ => True) s := by
  have hrandom : SavesNone .random := fun _ _ => trivial
  refine Contract.wp_await (Contract.Stable.true i) trivial
    (fun t _ _ => registrationPre_other hq (hrandom i t.world)) (fun t inp u w _ _ he => ?_)
    fun _ _ _ _ _ _ _ => trivial
  have he' : exec D i inp .random t.world = some (.ok u, w) := he
  obtain ⟨hu, rfl⟩ := exec_random he'
  cases hu
  exact .inl ⟨_, Nat.lt_succ_self _, rfl⟩

/-- A refresh token that is made has an id that its thread may give. -/
theorem wp_issueMayName (hq : ∀ input, q ≠ .registerUser input) {userId : Uuid} {h : TokenHash}
    {familyId org : Option Uuid} {ttl : Option Int} {client : Client} :
    (registering D d).wp i q (RefreshToken.issue userId h familyId org ttl client)
      (fun r t => MayName i r.id t.world) (fun _ _ => True) s := by
  have hnow : SavesNone .now := fun _ _ => trivial
  have hrandom : SavesNone .random := fun _ _ => trivial
  refine Contract.wp_seq (meets_other_call hq hnow s) (fun _ _ h => h) fun now t _ =>
    Contract.wp_seq (wp_drawMayName hq) (fun _ _ h => h) fun id t hid => ?_
  cases familyId with
  | some f => exact hid
  | none =>
    exact Contract.wp_seq (wp_mayName stable_mayName (meets_other_call hq hrandom t) hid)
      (fun _ _ h => h) fun f t h => h.2

theorem savesNone_revokeFamily {f : Uuid} :
    (RefreshTokenRepository.revokeFamily f).Calls SavesNone :=
  .bind (.await fun _ _ => trivial) fun _ =>
    .bind (.await fun _ _ => trivial) fun _ => .await fun _ _ => trivial

theorem wp_saveMayName (hq : ∀ input, q ≠ .registerUser input) {r : RefreshToken} {tx : Bool}
    (hs : MayName i r.id s.world) :
    (registering D d).wp i q (RefreshTokenRepository.save r tx) (fun _ _ => True)
      (fun _ _ => True) s :=
  Contract.wp_await stable_mayName hs (fun _ _ ht => registrationPre_other hq ht)
    (fun _ _ _ _ _ _ _ => trivial) fun _ _ _ _ _ _ _ => trivial

theorem meets_issueRefreshToken (hq : ∀ input, q ≠ .registerUser input)
    {input : IssueRefreshTokenInput} {tx : Bool} :
    (registering D d).Meets i q (issueRefreshToken D input tx) := by
  have hrandom : SavesNone .random := fun _ _ => trivial
  refine .bind (meets_other_call hq hrandom) fun raw s =>
    Contract.wp_seq (wp_issueMayName hq) (fun _ _ h => h) fun r t hr => ?_
  exact Contract.wp_seq (wp_saveMayName hq hr) (fun _ _ h => h) fun _ _ _ => trivial

/-- A token that is replaced may be saved again. -/
theorem wp_replaceMayName (hq : ∀ input, q ≠ .registerUser input) {e : RefreshToken}
    (he : MayName i e.id s.world) {org : Uuid} {client : Client} :
    (registering D d).wp i q (replaceRefreshToken D e org client) (fun _ _ => True)
      (fun _ _ => True) s := by
  have hnow : SavesNone .now := fun _ _ => trivial
  refine Contract.wp_seq (wp_mayName stable_mayName (meets_other_call hq hnow s) he)
    (fun _ _ h => h) fun now t ht => ?_
  refine Contract.wp_seq (wp_mayName stable_mayName (meets_issueRefreshToken hq t) ht.2)
    (fun _ _ h => h) fun p t ht => ?_
  obtain ⟨raw, r⟩ := p
  dsimp only
  split
  · trivial
  · rename_i e' he'
    have hid : e'.id = e.id := by
      unfold RefreshToken.replaceWith at he'
      split at he'
      · cases he'
      · rw [← Except.ok.inj he']
        rfl
    exact Contract.wp_seq (wp_saveMayName hq (hid ▸ ht.2)) (fun _ _ h => h) fun _ _ _ => trivial

/-- The token a rotation finds is on a row, or the thread has given its id. -/
theorem wp_findMayName (hq : ∀ input, q ≠ .registerUser input) (hd : TokensSeeded d)
    {h : TokenHash} :
    (registering D d).wp i q (RefreshTokenRepository.findByTokenHashForUpdate h)
      (fun a t => ∀ e ∈ a, MayName i e.id t.world) (fun _ _ => True) s := by
  refine Contract.wp_await (Contract.Stable.true i) trivial
    (fun t _ _ => registrationPre_other hq trivial) (fun t inp a w hinv _ he => ?_)
    fun _ _ _ _ _ _ _ => trivial
  have he' : exec D i inp (.call (.findRefreshTokenForUpdate h)) t.world = some (.ok a, w) := he
  have hids : TokenIds t.world :=
    tokenIds_of_inv registrationPre_asks (tokenIds_of_startsFrom hd) hinv
  rintro e rfl
  refine MayName.mono (w := t.world) ?_ (exec_draws he') (id_kept (exec_store he'))
  rcases lockRefreshToken_cases (exec_lock_ok he') with ⟨h, _⟩ | ⟨e', he'', hf, _, _⟩
  · cases h
  · cases he''
    rcases id_of_foldl (D := D) (List.mem_of_find?_eq_some hf) with hb | ⟨r, hr, hid⟩
    · exact .inr (not_newToken.mpr hb)
    · exact hid ▸ hids.pending i r (t.world.store.mem_pendingOf.mp hr)

theorem meets_rotateInTransaction (hq : ∀ input, q ≠ .registerUser input) (hd : TokensSeeded d)
    {rawToken : Uuid} {client : Client} :
    (registering D d).Meets i q (rotateInTransaction D rawToken client) := by
  have hnow : SavesNone .now := fun _ _ => trivial
  have hcall : ∀ {c : Call}, (Op.call c).table = none → (registering D d).Meets i q (await c) :=
    fun hc => meets_other_call hq (savesNone_of_table (by rw [hc]; exact fun h => nomatch h))
  refine fun s => Contract.wp_seq (wp_findMayName hq hd) (fun _ _ h => h) fun a t ht => ?_
  split
  · trivial
  · rename_i e
    have he : MayName i e.id t.world := ht e rfl
    split
    · trivial
    · refine Contract.wp_seq (wp_mayName stable_mayName (meets_other_call hq hnow t) he)
        (fun _ _ h => h) fun now t ht => ?_
      split
      · trivial
      · refine Contract.wp_seq (wp_mayName stable_mayName (hcall rfl t) ht.2)
          (fun _ _ h => h) fun user t ht => ?_
        split
        · trivial
        · have horg : (registering D d).Meets i q (organizationOf e) := by
            unfold organizationOf
            split
            · refine .bind (hcall rfl) fun m => ?_
              split
              · exact .fail
              · split
                · exact .done
                · exact .fail
            · refine .bind (hcall rfl) fun m => ?_
              split
              · exact .fail
              · exact .done
          refine Contract.wp_seq (wp_mayName stable_mayName (horg t) ht.2)
            (fun _ _ h => h) fun org t ht => ?_
          refine Contract.wp_seq (wp_replaceMayName hq ht.2) (fun _ _ h => h) fun raw t _ => ?_
          exact Contract.Meets.bind (hcall rfl) (fun _ => .done) t

/-- **The other requests** may give the ids they give. -/
theorem meets_handle_other (hq : ∀ input, q ≠ .registerUser input) (hd : TokensSeeded d) :
    (registering D d).Meets i q (handle D q) := by
  have hcall : ∀ {c : Call}, (Op.call c).table = none → (registering D d).Meets i q (await c) :=
    fun hc => meets_other_call hq (savesNone_of_table (by rw [hc]; exact fun h => nomatch h))
  have hfree : ∀ op (t : AuthState), op.table = none → registrationPre i q op t :=
    fun op t hop => registrationPre_other hq
      (savesNone_of_table (by rw [hop]; exact fun h => nomatch h) i t.world)
  cases q with
  | registerUser input => exact absurd rfl (hq input)
  | loginUser input =>
    refine .bind ?_ fun _ => .done
    have hrefuse : (registering D d).Meets i (.loginUser input) (refuseLogin input.email) :=
      .bind (hcall rfl) fun _ => .fail
    refine .bind (hcall rfl) fun user => ?_
    split
    · exact hrefuse
    · refine .bind (hcall rfl) fun valid => ?_
      split
      · exact hrefuse
      · refine .bind (hcall rfl) fun m => ?_
        split
        · exact .fail
        · exact .bind (hcall rfl) fun token => .bind (meets_issueRefreshToken hq) fun _ =>
            .bind (hcall rfl) fun _ => .done
  | rotateRefreshToken input =>
    refine .bind (.bind (meets_runInTransaction hfree (meets_rotateInTransaction hq hd))
      fun result => ?_) fun _ => .done
    cases result with
    | rotated s => exact .done
    | revoke f reason =>
      exact .bind (meets_of_savesNone hq savesNone_revokeFamily) fun _ => .fail
  | revokeRefreshTokenFamily raw =>
    refine .bind (.bind (hcall rfl) fun a => ?_) fun _ => .done
    cases a with
    | none => exact .fail
    | some e => exact meets_of_savesNone hq savesNone_revokeFamily
  | switchOrganization input =>
    have hnow : SavesNone .now := fun _ _ => trivial
    refine .bind (.bind (hcall rfl) fun m => ?_) fun _ => .done
    split
    · exact .fail
    · refine .bind (hcall rfl) fun user => ?_
      split
      · exact .fail
      · refine .bind (.bind (meets_other_call hq hnow) fun now => hcall rfl) fun tokens => ?_
        refine .bind (meets_of_savesNone hq (calls_promiseAll (fun _ _ => trivial) fun p hp => ?_))
          fun _ => .bind (hcall rfl) fun token => .bind (meets_issueRefreshToken hq) fun _ => .done
        obtain ⟨f, _, rfl⟩ := List.mem_map.mp hp
        exact savesNone_revokeFamily
  | _ =>
    exact meets_untouched (T := .refreshTokens)
      (fun op t hop => registrationPre_other hq (savesNone_of_table hop i t.world))
      (by simp [Request.footprint]) (uses_handle _)

end Others

/-! ### The thread that registers -/

section Registering

variable {input : RegisterInput} {ws : List Write} {r : Registration} {u : Uuid}

/-- A thread that has left the committed data alone, with the writes of its transaction. -/
def Writing (i : Nat) (ws : List Write) (s : AuthState) : Prop :=
  (∀ e ∈ own i s.hist, Still e) ∧ s.world.store.pendingOf i = ws

theorem stable_writing : (registering D d).Stable i (Writing i ws) := by
  refine (Contract.stable_own fun l => ∀ e ∈ l, Still e).and fun s t h hs => ?_
  cases h with
  | @call j q op inp r w hj _ _ he =>
    have he' : exec D j inp op s.world = some (r, w) := he
    exact ((exec_store he').pendingOf_ne (Ne.symm hj)).trans hs
  | crash hj _ => exact (s.world.store.pendingOf_rollback_ne (Ne.symm hj)).trans hs

theorem Writing.push {q : Request} {a : Act Op Op.Answer Err} (h : Writing i ws s) (w : World)
    (hdb : w.store.db = s.world.store.db) {ws' : List Write} (hws : w.store.pendingOf i = ws') :
    Writing i ws' (s.push i q a w) := by
  refine ⟨fun e he => ?_, hws⟩
  rw [own_push] at he
  rcases List.mem_cons.mp he with rfl | he
  · exact hdb
  · exact h.1 e he

/-- A call that leaves the store alone. -/
theorem wp_quietWriting {op : Op} (hop : op.Quiet) (hs : Writing i ws s) :
    (registering D d).wp i q (Prog.await op) (fun _ t => Writing i ws t) (fun _ _ => True) s := by
  refine Contract.wp_await stable_writing hs (fun _ _ _ => quiet_free hop)
    (fun t inp a w _ ht he => ?_) fun _ _ _ _ _ _ _ => trivial
  have he' : exec D i inp op t.world = some (.ok a, w) := he
  have hstore := (exec_store he').quiet hop
  exact ht.push w (by rw [hstore]) (by rw [hstore]; exact ht.2)

/-- A write of the transaction. -/
theorem wp_writing {wr : Write} (hwr : SavesNone (.call (.write true wr))) (hs : Writing i ws s) :
    (registering D d).wp i q (await (.write true wr)) (fun _ t => Writing i (ws ++ [wr]) t)
      (fun _ _ => True) s := by
  refine Contract.wp_await stable_writing hs (fun t _ _ => ⟨hwr i t.world, fun _ _ => rfl⟩)
    (fun t inp a w _ ht he => ?_) fun _ _ _ _ _ _ _ => trivial
  have he' : exec D i inp (.call (.write true wr)) t.world = some (.ok a, w) := he
  obtain ⟨_, rfl⟩ := exec_write_ok he'
  have hput := (t.world.store.pendingOf_put_self (schema D) (w := wr) (i := i)).trans
    (congrArg (· ++ [wr]) ht.2)
  exact ht.push { t.world with store := t.world.store.put (schema D) i wr } rfl hput

/-- An id of the thread's own that is on no row. -/
def FreshId (i : Nat) (u : Uuid) (s : AuthState) : Prop :=
  u.By i s.world.draws ∧ NewToken u s.world

theorem stable_fresh (hd : TokensSeeded d) : (registering D d).Stable i (FreshId i u) :=
  stable_newToken registrationPre_asks (tokenIds_of_startsFrom hd)

/-- The id of the refresh token is new when it is drawn. -/
theorem wp_drawFresh (hd : TokensSeeded d) (hs : Writing i ws s) :
    (registering D d).wp i q randomUUID (fun u t => Writing i ws t ∧ FreshId i u t)
      (fun _ _ => True) s := by
  refine Contract.wp_await stable_writing hs (fun _ _ _ => quiet_free trivial)
    (fun t inp u w hinv ht he => ?_) fun _ _ _ _ _ _ _ => trivial
  have he' : exec D i inp .random t.world = some (.ok u, w) := he
  obtain ⟨hu, rfl⟩ := exec_random he'
  cases hu
  have hids : TokenIds t.world :=
    tokenIds_of_inv registrationPre_asks (tokenIds_of_startsFrom hd) hinv
  exact ⟨ht.push { t.world with draws := t.world.draws + 1 } rfl ht.2,
    ⟨_, Nat.lt_succ_self _, rfl⟩, newToken_of_draw (i := i) hids⟩

/-- The id stays new while the thread leaves the store alone. -/
theorem wp_quietFresh (hd : TokensSeeded d) {op : Op} (hop : op.Quiet)
    (hs : Writing i ws s ∧ FreshId i u s) :
    (registering D d).wp i q (Prog.await op) (fun _ t => Writing i ws t ∧ FreshId i u t)
      (fun _ _ => True) s := by
  refine Contract.wp_await (stable_writing.and (stable_fresh hd)) hs (fun _ _ _ => quiet_free hop)
    (fun t inp a w _ ht he => ?_) fun _ _ _ _ _ _ _ => trivial
  have he' : exec D i inp op t.world = some (.ok a, w) := he
  have hstore := (exec_store he').quiet hop
  refine ⟨ht.1.push w (by rw [hstore]) (by rw [hstore]; exact ht.1.2),
    ht.2.1.mono (exec_draws he'), fun b hb => ht.2.2 b ?_⟩
  rwa [State.push_world, hstore] at hb

/-- The refresh token of a registration is the last of its writes. -/
theorem wp_issueRegistered (hd : TokensSeeded d) {userId org : Uuid} {client : Client}
    (hs : Writing i ws s) :
    (registering D d).wp i q (issueRefreshToken D ⟨userId, none, some org, client⟩ true)
      (fun p t => Writing i (ws ++ [.upsertRefreshToken p.2]) t ∧ FreshId i p.2.id t ∧
        p.2.userId = userId ∧ p.2.organizationId = some org) (fun _ _ => True) s := by
  refine Contract.wp_seq (wp_quietWriting trivial hs) (fun _ _ h => h) fun raw t ht => ?_
  have hissue : (registering D d).wp i q (RefreshToken.issue userId (.sha256 raw) none (some org)
      (some D.refreshTokenTtlDays) client) (fun r t => (Writing i ws t ∧ FreshId i r.id t) ∧
        r.userId = userId ∧ r.organizationId = some org) (fun _ _ => True) t := by
    refine Contract.wp_seq (wp_quietWriting trivial ht) (fun _ _ h => h) fun now t ht =>
      Contract.wp_seq (wp_drawFresh hd ht) (fun _ _ h => h) fun id t ht =>
      Contract.wp_seq (wp_quietFresh hd trivial ht) (fun _ _ h => h) fun f t ht => ?_
    exact ⟨ht, rfl, rfl⟩
  refine Contract.wp_seq hissue (fun _ _ h => h) fun r t ht => ?_
  obtain ⟨ht, huser, horg⟩ := ht
  refine Contract.wp_seq (Q := fun _ t => Writing i (ws ++ [.upsertRefreshToken r]) t ∧
    FreshId i r.id t) (Contract.wp_await (stable_writing.and (stable_fresh hd)) ht
      (fun _ _ ht => ⟨.inl ht.2.1, fun _ _ => rfl⟩) (fun t inp a w _ ht he => ?_)
      fun _ _ _ _ _ _ _ => trivial) (fun _ _ h => h) fun _ t ht => ⟨ht.1, ht.2, huser, horg⟩
  have he' : exec D i inp (.call (.write true (.upsertRefreshToken r))) t.world =
      some (.ok a, w) := he
  obtain ⟨_, rfl⟩ := exec_write_ok he'
  have hput := (t.world.store.pendingOf_put_self (schema D) (w := .upsertRefreshToken r)
    (i := i)).trans (congrArg (· ++ [_]) ht.1.2)
  exact ⟨ht.1.push { t.world with store := t.world.store.put (schema D) i _ } rfl hput, ht.2⟩

/-- **The transaction holds a registration** when its body is over. -/
theorem wp_registration (hd : TokensSeeded d) {email username : String} {h : PasswordHash}
    {pub : Bool} {client : Client} (hs : Writing i [] s) :
    (registering D d).wp i q (registerInTransaction D email username h pub client)
      (fun _ t => ∃ r : Registration, Writing i r.writes t ∧ FreshId i r.refreshToken.id t)
      (fun _ _ => True) s := by
  have hrandom : Op.random.Quiet := trivial
  have hnow : Op.now.Quiet := trivial
  have husers : (registering D d).wp i q (UserRepository.create email username h pub true)
      (fun u t => Writing i [.createUser u] t) (fun _ _ => True) s :=
    Contract.wp_seq (wp_quietWriting hrandom hs) (fun _ _ h => h) fun id t ht =>
      Contract.wp_seq (wp_writing (fun _ _ => trivial) ht) (fun _ _ h => h) fun _ _ h => h
  refine Contract.wp_seq husers (fun _ _ h => h) fun user t ht => ?_
  have horg : (registering D d).wp i q
      (OrganizationRepository.create username (slugOf D username user.id) true)
      (fun o t => Writing i [.createUser user, .createOrganization o] t) (fun _ _ => True) t :=
    Contract.wp_seq (wp_quietWriting hrandom ht) (fun _ _ h => h) fun id t ht =>
      Contract.wp_seq (wp_writing (fun _ _ => trivial) ht) (fun _ _ h => h) fun _ _ h => h
  refine Contract.wp_seq horg (fun _ _ h => h) fun org t ht => ?_
  have hmember : (registering D d).wp i q
      (MembershipRepository.create user.id org.id .owner (some .active) true)
      (fun m t => Writing i [.createUser user, .createOrganization org, .createMembership m] t ∧
        m.userId = user.id ∧ m.organizationId = org.id ∧ m.role = .owner ∧ m.status = .active)
      (fun _ _ => True) t :=
    Contract.wp_seq (wp_quietWriting hrandom ht) (fun _ _ h => h) fun id t ht =>
      Contract.wp_seq (wp_quietWriting hnow ht) (fun _ _ h => h) fun joinedAt t ht =>
      Contract.wp_seq (wp_writing (fun _ _ => trivial) ht) (fun _ _ h => h)
        fun _ _ h => ⟨h, rfl, rfl, rfl, rfl⟩
  refine Contract.wp_seq hmember (fun _ _ h => h) fun member t ht => ?_
  obtain ⟨ht, hmu, hmo, hrole, hstatus⟩ := ht
  refine Contract.wp_seq (wp_issueRegistered hd ht) (fun _ _ h => h) fun p t ht => ?_
  obtain ⟨ht, hfresh, htu, hto⟩ := ht
  exact ⟨⟨user, org, member, p.2, hmu, hmo, hrole, hstatus, htu, hto⟩, ht, hfresh⟩

/-- The thread's COMMIT is done. -/
def Commits (e : AuthEvent) : Prop := e.act = .call (.call .commit) (.ok ())

/-- **The transaction of a registration** is over when it is committed. -/
theorem wp_registerTransaction (hd : TokensSeeded d) {email username : String} {h : PasswordHash}
    {pub : Bool} {client : Client} (hs : Writing i [] s) :
    (registering D d).wp i q
      (runInTransaction (registerInTransaction D email username h pub client))
      (fun _ t => ∃ e ∈ own i t.hist, Commits e) (fun _ _ => True) s := by
  refine Contract.wp_handle.mpr (Contract.wp_mono (fun _ _ h => h) (fun e t _ => ?_)
    (Contract.wp_seq (wp_quietWriting (show Op.Quiet (.call .begin) from trivial) hs) (fun _ _ h => h)
      fun _ t ht => Contract.wp_seq (wp_registration hd ht) (fun _ _ h => h) fun a t ht => ?_))
  · -- an error, wherever it comes from, rolls back
    have hfree : ∀ t, (registering D d).Pre i q (.call .rollback) t :=
      fun _ => ⟨trivial, fun _ _ => trivial⟩
    have hback : (registering D d).Meets i q (await .rollback) := .await hfree
    exact Contract.wp_seq (Contract.Meets.handle hback (fun _ => .done) t) (fun _ _ h => h)
      fun _ _ _ => trivial
  · obtain ⟨r, ht⟩ := ht
    refine Contract.wp_seq (Q := fun _ t => ∃ e ∈ own i t.hist, Commits e)
      (Contract.wp_await (stable_writing.and (stable_fresh hd)) ht
      (fun t _ ht => ⟨trivial, fun _ _ => ⟨ht.1.1, r, ht.1.2, ht.2.2⟩⟩)
      (fun t inp a w _ _ _ => ?_) fun _ _ _ _ _ _ _ => trivial) (fun _ _ h => h) fun _ _ h => h
    rw [own_push]
    exact ⟨_, List.mem_cons_self, rfl⟩

theorem wp_registered (hd : TokensSeeded d) (hs : Writing i [] s) :
    (registering D d).wp i q (registerUser D input)
      (fun _ t => ∃ e ∈ own i t.hist, Commits e) (fun _ _ => True) s := by
  unfold registerUser
  split
  · trivial
  · refine Contract.wp_seq (wp_quietWriting trivial hs) (fun _ _ h => h) fun b t ht => ?_
    split
    · trivial
    · refine Contract.wp_seq (wp_quietWriting trivial ht) (fun _ _ h => h) fun b t ht => ?_
      split
      · trivial
      · refine Contract.wp_seq (wp_quietWriting trivial ht) (fun _ _ h => h) fun h t ht =>
          Contract.wp_seq (wp_registerTransaction hd ht) (fun _ _ h => h) fun p t ht => ?_
        have hsign : ∀ payload, (Op.call (.sign payload)).Quiet := fun _ => trivial
        exact Contract.wp_seq (wp_keepOwn (P := fun l => ∃ e ∈ l, Commits e)
          (fun e l ⟨e', he', h⟩ => ⟨e', List.mem_cons_of_mem e he', h⟩) ht
          (fun _ _ => quiet_free (hsign _)) fun _ _ => trivial) (fun _ _ h => h) fun _ _ h => h

end Registering

/-! ### Every run -/

section Runs

variable {c : AuthConfig} {e : AuthEvent} {past : List AuthEvent} {input : RegisterInput}

theorem attributed_of_inv (h : (registering D d).Inv s) : Attributed s := by
  obtain ⟨w₀, rfl, hworld, hl⟩ := h
  have hall : Attributed ⟨worldAfter (World.init d) s.hist, s.hist⟩ := by
    refine hl.invariant (P := fun hist w => Attributed ⟨w, hist⟩) (fun _ h => nomatch h)
      fun e past hl hatt => ?_
    obtain ⟨tid, req, act, before, after⟩ := e
    cases act with
    | call op r =>
      obtain ⟨_, inp, he⟩ := hl.2.1
      exact Attributed.call hatt he
    | crash =>
      have hafter : after = { before with store := before.store.drop tid } := hl.2.1
      exact hafter ▸ Attributed.crash hatt
  intro l hlp
  exact hall l (hworld ▸ hlp)

/-- The history of a run is legal, and a registration that has answered has committed. -/
theorem registering_sound (hd : TokensSeeded d) (h : (authMachine D).Reachable (StartsFrom d) c) :
    (registering D d).Inv c.state ∧ ∀ i input a,
      c.threads[i]? = some (.registerUser input, .done a) →
        ∃ e ∈ own i c.state.hist, Commits e := by
  have hreq : ∀ i q s, (registering D d).Inv s → (authMachine D).admits q s.world = true →
      (∀ e ∈ s.hist, e.tid ≠ i) → (registering D d).wp i q (handle D q)
        (fun _ s => ∀ input, q = .registerUser input → ∃ e ∈ own i s.hist, Commits e)
        (fun _ _ => True) s := by
    intro i q s hinv _ hnew
    by_cases hq : ∃ input, q = .registerUser input
    · obtain ⟨input, rfl⟩ := hq
      have hown : own i s.hist = [] := own_nil_of_new hnew
      have hs : Writing i [] s :=
        ⟨fun e he => (List.not_mem_nil (hown ▸ he)).elim,
          (attributed_of_inv hinv).pendingOf_new hnew⟩
      exact Contract.wp_seq (wp_registered hd hs) (fun _ _ h => h) fun _ _ h _ _ => h
    · have hother : ∀ input, q ≠ .registerUser input := fun input heq => hq ⟨input, heq⟩
      exact Contract.wp_mono (fun _ _ _ input heq => absurd heq (hother input)) (fun _ _ h => h)
        (meets_handle_other hother hd s)
  obtain ⟨hinv, hthreads⟩ := (registering D d).sound
    (Q := fun i q _ s => ∀ input, q = .registerUser input → ∃ e ∈ own i s.hist, Commits e)
    (E := fun _ _ _ _ => True) (fun w hw => ⟨w, hw, rfl, trivial⟩) hreq
    (fun i q _ s t hst hs input hq => Contract.stable_own (fun l => ∃ e ∈ l, Commits e) hst
      (hs input hq)) (fun _ _ _ => Contract.Stable.true _) (fun _ _ _ _ => trivial) h
  exact ⟨hinv, fun i input a ht => hthreads i _ _ ht input rfl⟩

/-- **A step of a registration** leaves the committed data alone, or is its first to change it
and registers. -/
theorem still_or_registers (h : Obeys (authMachine D) registrationPre e past)
    (hreq : e.req = .registerUser input) :
    Still e ∨ Registered e.before.store.db e.after.store.db ∧
      ∀ e' ∈ own e.tid past, Still e' := by
  rcases store_of_obeys h with ⟨op, r, ha, hstep⟩ | ⟨_, hdrop⟩
  · have hpre : registerPre e.tid op ⟨e.before, past⟩ := (h.pre ha).2 input hreq
    rcases hstep.db_cases with hdb | ⟨wr, rfl, _, _⟩ | ⟨st, rfl, _⟩ | ⟨rfl, hcommit⟩
    · exact .inl hdb
    · cases hpre
    · exact hpre.elim
    · obtain ⟨hstill, r, hpending, hnew⟩ := hpre
      refine .inr ⟨⟨r, ?_⟩, hstill⟩
      have hview : e.before.store.view (schema D) e.tid = r.added e.before.store.db := by
        rw [Store.view, hpending]
        exact r.foldl_writes hnew
      rw [hcommit]
      exact hview
  · have hdb : e.after.store.db = (e.before.store.drop e.tid).db := congrArg Store.db hdrop
    exact .inl hdb

/-- A COMMIT of a registration that is done registers. -/
theorem registered_of_commits (h : Obeys (authMachine D) registrationPre e past)
    (hreq : e.req = .registerUser input) (hc : Commits e) : ¬ Still e := by
  obtain ⟨_, r, hpending, hnew⟩ := (h.pre hc).2 input hreq
  obtain ⟨inp, he⟩ := h.exec hc
  have he' : exec D e.tid inp (.call .commit) e.before = some (.ok (), e.after) := he
  have hafter : e.after = { e.before with store := e.before.store.commit (schema D) e.tid } :=
    (Prod.mk.inj (Option.some.inj (exec_call_ok he'))).2.symm
  have hreg : Registered e.before.store.db e.after.store.db := by
    refine ⟨r, ?_⟩
    rw [hafter]
    change e.before.store.view (schema D) e.tid = _
    rw [Store.view, hpending]
    exact r.foldl_writes hnew
  exact hreg.ne

/-- **What a registration does**, all told: nothing, or it registers once. -/
theorem still_or_once (hl : LegalHistory D registrationPre w₀ hist)
    (hreq : ∀ e ∈ own i hist, ∃ input, e.req = .registerUser input) :
    (∀ e ∈ own i hist, Still e) ∨ Once (own i hist) := by
  induction hist with
  | nil => exact .inl fun e he => nomatch he
  | cons e past ih =>
    have hpast := ih hl.2.2 fun e' he' => hreq e' (mem_own_cons he')
    by_cases htid : e.tid = i
    · rw [own_cons_self htid] at hreq ⊢
      obtain ⟨input, he⟩ := hreq e List.mem_cons_self
      rcases still_or_registers hl.2.1 he with hstill | ⟨hreg, hall⟩
      · refine hpast.imp (fun hall => List.forall_mem_cons.mpr ⟨hstill, hall⟩) ?_
        rintro ⟨later, e₁, earlier, hown, hreg, hall⟩
        exact ⟨e :: later, e₁, earlier, congrArg _ hown, hreg,
          List.forall_mem_cons.mpr ⟨hstill, hall⟩⟩
      · exact .inr ⟨[], e, own i past, rfl, hreg, htid ▸ hall⟩
    · rwa [own_cons_ne htid]

/-- Alone, it leaves the database as it was, or with one registration more. -/
theorem db_of_alone (hl : LegalHistory D registrationPre w₀ hist)
    (halone : own i hist = hist) :
    ((∀ e ∈ own i hist, Still e) → (worldAfter w₀ hist).store.db = w₀.store.db) ∧
    (Once (own i hist) → Registered w₀.store.db (worldAfter w₀ hist).store.db) := by
  rw [halone]
  constructor
  · intro hall
    have hdb : (worldAfter w₀ (hist ++ [])).store.db = (worldAfter w₀ []).store.db :=
      Legal.unchanged (f := fun w : World => w.store.db) (by rwa [List.append_nil]) hall
    rwa [List.append_nil] at hdb
  · rintro ⟨later, e, earlier, rfl, hreg, hall⟩
    have hafter : (worldAfter w₀ (later ++ e :: earlier)).store.db =
        (worldAfter w₀ (e :: earlier)).store.db :=
      Legal.unchanged (f := fun w : World => w.store.db) hl
        fun e' he' => hall e' (List.mem_append_left _ he')
    have hpast : LegalHistory D registrationPre w₀ (e :: earlier) :=
      hl.suffix (List.suffix_append later _)
    have hbefore : (worldAfter w₀ (earlier ++ [])).store.db = (worldAfter w₀ []).store.db :=
      Legal.unchanged (f := fun w : World => w.store.db)
        (by rw [List.append_nil]; exact hpast.2.2)
        fun e' he' => hall e' (List.mem_append_right _ he')
    rw [List.append_nil] at hbefore
    have hb : e.before.store.db = w₀.store.db :=
      (congrArg (fun w : World => w.store.db) hpast.1).trans hbefore
    rw [← hb]
    exact hafter ▸ hreg

/-- **Registering is atomic.**  However the requests interleave, and whatever fails on the way, a
registration has left the committed data alone and has not answered, or one of its steps has added
a user, an organization, the user's membership as its owner and a refresh token of the user for it,
and the others have changed nothing.  Where nothing else has run, the database is the one it
started from, or has just these four rows more. -/
theorem registration_atomic (hd : TokensSeeded d)
    (h : (authMachine D).Reachable (StartsFrom d) c) {p : Async Reply}
    (ht : c.threads[i]? = some (.registerUser input, p)) :
    ((∀ e ∈ own i c.state.hist, Still e) ∧ (∀ r, p ≠ .done r) ∨ Once (own i c.state.hist)) ∧
    ((∀ e ∈ c.state.hist, e.tid = i) →
      c.state.world.store.db = d ∧ (∀ r, p ≠ .done r) ∨
        Registered d c.state.world.store.db) := by
  obtain ⟨⟨w₀, rfl, hworld, hl⟩, hdone⟩ := registering_sound hd h
  have hreq : ∀ e ∈ own i c.state.hist, e.req = .registerUser input := by
    intro e he
    obtain ⟨hmem, rfl⟩ := mem_of_mem_own he
    obtain ⟨p', hp'⟩ := Contract.thread_of_event h e hmem
    exact (Prod.mk.inj (Option.some.inj (hp'.symm.trans ht))).1
  have hanswered : (∀ e ∈ own i c.state.hist, Still e) → ∀ r, p ≠ .done r := by
    rintro hall r rfl
    obtain ⟨e, he, hc⟩ := hdone i input r ht
    obtain ⟨past, hs⟩ := exists_past (mem_of_mem_own he).1
    exact registered_of_commits (hl.obeys hs) (hreq e he) hc (hall e he)
  have honce := still_or_once hl fun e he => ⟨input, hreq e he⟩
  refine ⟨honce.imp_left fun hall => ⟨hall, hanswered hall⟩, fun halone => ?_⟩
  have hown : own i c.state.hist = c.state.hist :=
    List.filter_eq_self.mpr fun e he => by simpa using halone e he
  obtain ⟨hkept, hadded⟩ := db_of_alone hl hown
  rw [hworld]
  exact honce.imp (fun hall => ⟨hkept hall, hanswered hall⟩) hadded

end Runs

/-! ### A registration -/

def registerBob : Request := .registerUser ⟨"bob@x.io", "pw2", "pw2", "bob", none, sampleClient⟩

/-- Whether a thread has ended with a value. -/
def hasAnswered : Async Reply → Bool
  | .done _ => true
  | _ => false

/-- Bob registers, next to Ann. -/
theorem registration_atomic_bob :
    ∃ c ∈ runFrom sampleDeps sampleDb ([.spawn registerBob] ++ steps 0 18),
      c.state.world.store.db.users.map AuthUser.username = ["ann", "bob"] ∧
        Registered sampleDb c.state.world.store.db := by
  have hrun : (runFrom sampleDeps sampleDb ([.spawn registerBob] ++ steps 0 18)).map
      (fun c => (c.state.world.store.db.users.map AuthUser.username,
        c.state.hist.all fun e => e.tid == 0, c.threads.map fun t => hasAnswered t.2)) =
      some (["ann", "bob"], true, [true]) := by
    decide +kernel
  obtain ⟨c, hc, hfacts⟩ := Option.map_eq_some_iff.mp hrun
  obtain ⟨hnames, hfacts⟩ := Prod.mk.inj hfacts
  obtain ⟨halone, hanswered⟩ := Prod.mk.inj hfacts
  have hreq : (runFrom sampleDeps sampleDb ([.spawn registerBob] ++ steps 0 18)).map
      (fun c => c.threads.map Prod.fst) = some [registerBob] := rfl
  rw [hc] at hreq
  have hseeded : TokensSeeded sampleDb := fun _ h => nomatch h
  have hstart : StartsFrom sampleDb (World.init sampleDb) := rfl
  have hreach : (authMachine sampleDeps).Reachable (StartsFrom sampleDb) c :=
    Machine.reachable_of_run hstart hc
  obtain ⟨⟨q, p⟩, hthreads, hq⟩ := List.map_eq_singleton_iff.mp (Option.some.inj hreq)
  obtain rfl : q = registerBob := hq
  rw [hthreads] at hanswered
  have hp : hasAnswered p = true := (List.cons.inj hanswered).1
  have hall : ∀ e ∈ c.state.hist, e.tid = 0 :=
    fun e he => beq_iff_eq.mp (List.all_eq_true.mp halone e he)
  refine ⟨c, hc, hnames, ?_⟩
  have hatomic := (registration_atomic hseeded hreach (i := 0) (congrArg (·[0]?) hthreads)).2 hall
  refine hatomic.resolve_left fun ⟨_, hnot⟩ => ?_
  cases p with
  | done r => exact hnot r rfl
  | fail e => cases hp
  | call op k => cases hp

end LakiraBackend.Auth
