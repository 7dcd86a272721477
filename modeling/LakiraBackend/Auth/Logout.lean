import LakiraBackend.Auth.Routes
import LakiraBackend.Concurrency.EventSystem
import LakiraBackend.Concurrency.Serial

/-!
# Logging out, with the client's cookies

A client keeps the refresh cookie it was given, and sends it where the cookie's path matches the
path of a request.  It makes one request after the other, and no call of the database fails.

The cookie is set for `/api/v1/auth/refresh`, and `logout` is served at `/api/v1/auth/logout`: no
client sends it there, so logging out revokes nothing (`logout_ends_iff`).
-/

namespace LakiraBackend.Auth.Logout

open LakiraBackend.Concurrency
open LakiraBackend.Auth.Routes

/-! ### Cookies -/

def REFRESH_COOKIE_PATH : String := "/api/v1/auth/refresh"

/-- Where `createAuthRouter` is mounted. -/
def AUTH_ROUTER : String := "/api/v1/auth"

/-- Whether a request's path matches a cookie's: it is that path, or goes on below it. -/
def pathMatches (cookiePath requestPath : String) : Bool :=
  requestPath = cookiePath ||
    cookiePath.toList.isPrefixOf requestPath.toList &&
      (cookiePath.toList.getLast? = some '/' ||
        requestPath.toList[cookiePath.toList.length]? = some '/')

/-- A refresh cookie. -/
structure Cookie : Type where
  path : String
  value : Uuid
  deriving DecidableEq, Repr

/-- A client's refresh cookies, of different paths. -/
abbrev Jar : Type := List Cookie

namespace Jar

variable (jar : Jar)

/-- `clearRefreshCookie`: a cookie of the path that is over. -/
def clear (path : String) : Jar := jar.filter fun c => c.path ≠ path

/-- A cookie takes the place of the one of its path. -/
def store (c : Cookie) : Jar := c :: jar.clear c.path

/-- What `req.cookies` has of them. -/
def sent (requestPath : String) : Option Uuid :=
  (jar.find? fun c => pathMatches c.path requestPath).map Cookie.value

/-- `setRefreshCookie`. -/
def setRefreshCookie (rawToken : Uuid) : Jar := jar.store ⟨REFRESH_COOKIE_PATH, rawToken⟩

/-- What the controllers set, after a request that is answered so. -/
def answered : Except Err Reply → Jar
  | .ok (.login r) => jar.setRefreshCookie r.rawRefreshToken
  | .ok (.session s) => jar.setRefreshCookie s.rawRefreshToken
  | _ => jar

end Jar

/-! ### The client -/

inductive ClientRequest : Type
  | register (input : RegisterInput)
  | login (input : LoginInput)
  | refresh (client : Client)
  | switchOrg (authorization : Option String) (organizationId : Uuid) (client : Client)
  | logout
  /-- A cookie's `Max-Age` is over, or the client drops it. -/
  | forget (path : String)

structure Browser : Type where
  jar : Jar
  server : ServerConfig

/-- What is committed. -/
def Browser.db (s : Browser) : Db := s.server.state.world.store.db

section

variable (D : Deps) (jwtVerify : JwtVerify)

/-- A request runs to its end; no call of it fails. -/
def serve (s : Browser) (q : HttpRequest) (inps : List Input) :
    Option (Except Err Reply × ServerConfig) :=
  if ∀ inp ∈ inps, inp.outcome = .ok then
    (serverMachine D jwtVerify).serve (fun _ _ => true) s.server q inps
  else none

/-- A request, and what the response does to the cookies. -/
def ask (s : Browser) (q : HttpRequest) (inps : List Input) : Option Browser :=
  (serve D jwtVerify s q inps).map fun r => ⟨s.jar.answered r.1, r.2⟩

def step (s : Browser) (e : ClientRequest × List Input) : Option Browser :=
  match e.1 with
  -- the mail of a registration goes after its response
  | .register input => ask D jwtVerify s (.direct (.registerUser input)) e.2
  | .login input => ask D jwtVerify s (.direct (.loginUser input)) e.2
  | .refresh client => match s.jar.sent (AUTH_ROUTER ++ "/refresh") with
    -- refused with 401
    | none => some s
    | some rawToken => ask D jwtVerify s (.direct (.rotateRefreshToken ⟨rawToken, client⟩)) e.2
  | .switchOrg authorization organizationId client =>
    ask D jwtVerify s (.switchOrg authorization organizationId client) e.2
  | .logout => match s.jar.sent (AUTH_ROUTER ++ "/logout") with
    | none => some ⟨s.jar.clear REFRESH_COOKIE_PATH, s.server⟩
    -- what is thrown is logged
    | some rawToken =>
      (serve D jwtVerify s (.direct (.revokeRefreshTokenFamily rawToken)) e.2).map fun r =>
        ⟨s.jar.clear REFRESH_COOKIE_PATH, r.2⟩
  | .forget path => some ⟨s.jar.clear path, s.server⟩

/-- A client without cookies, and a server on a database. -/
def system (d : Db) : EventSystem Browser (ClientRequest × List Input) :=
  ⟨⟨[], Machine.boot (World.init d)⟩, step D jwtVerify⟩

/-! ### Sessions -/

/-- The client holds a token of the family. -/
def Holds (s : Browser) (familyId : Uuid) : Prop :=
  ∃ c ∈ s.jar, ∃ t ∈ s.db.refreshTokens, t.tokenHash = .sha256 c.value ∧ t.familyId = familyId

/-- No token of the family is unrevoked. -/
def Ended (s : Browser) (familyId : Uuid) : Prop :=
  ∀ t ∈ s.db.refreshTokens, t.familyId = familyId → t.isRevoked = true

/-- Each logout of the run has ended what the client held. -/
def LogoutEnds (d : Db) (events : List (ClientRequest × List Input)) : Prop :=
  ∀ past e rest s t, events = past ++ e :: rest → (system D jwtVerify d).run past = some s →
    step D jwtVerify s e = some t → e.1 = .logout → ∀ f, Holds s f → Ended t f

/-- A logout has nothing to end. -/
def NothingToEnd (s : Browser) (e : ClientRequest × List Input) : Prop :=
  e.1 = .logout → ∀ f, Holds s f → Ended s f

end

/-! ### Where the cookie goes -/

variable {D : Deps} {jwtVerify : JwtVerify} {s t : Browser} {jar : Jar}

/-- The client's cookies are as they are set. -/
def OnPath (jar : Jar) : Prop := ∀ c ∈ jar, c.path = REFRESH_COOKIE_PATH

theorem OnPath.clear (h : OnPath jar) (path : String) : OnPath (jar.clear path) :=
  fun c hc => h c (List.mem_filter.mp hc).1

theorem OnPath.setRefreshCookie (h : OnPath jar) (rawToken : Uuid) :
    OnPath (jar.setRefreshCookie rawToken) := by
  intro c hc
  rcases List.mem_cons.mp hc with rfl | hold
  · rfl
  · exact h.clear _ c hold

theorem OnPath.answered (h : OnPath jar) (x : Except Err Reply) : OnPath (jar.answered x) := by
  cases x with
  | error e => exact h
  | ok reply =>
    cases reply with
    | login r => exact h.setRefreshCookie _
    | session s => exact h.setRefreshCookie _
    | unit => exact h
    | user u => exact h
    | job outcome => exact h

theorem OnPath.ask {q : HttpRequest} {inps : List Input} (h : OnPath s.jar)
    (hs : ask D jwtVerify s q inps = some t) : OnPath t.jar := by
  obtain ⟨r, _, rfl⟩ := Option.map_eq_some_iff.mp hs
  exact h.answered r.1

theorem onPath_step {e : ClientRequest × List Input} (h : OnPath s.jar)
    (hs : step D jwtVerify s e = some t) : OnPath t.jar := by
  obtain ⟨q, inps⟩ := e
  cases q with
  | register input => exact h.ask hs
  | login input => exact h.ask hs
  | refresh client =>
    simp only [step] at hs
    split at hs
    · obtain rfl := Option.some.inj hs
      exact h
    · exact h.ask hs
  | switchOrg authorization organizationId client => exact h.ask hs
  | logout =>
    simp only [step] at hs
    split at hs
    · obtain rfl := Option.some.inj hs
      exact h.clear _
    · obtain ⟨r, _, rfl⟩ := Option.map_eq_some_iff.mp hs
      exact h.clear _
  | forget path =>
    obtain rfl := Option.some.inj hs
    exact h.clear _

/-- **No client sends the cookie to `logout`.** -/
theorem sent_logout (h : OnPath jar) : jar.sent (AUTH_ROUTER ++ "/logout") = none := by
  have hno : pathMatches REFRESH_COOKIE_PATH (AUTH_ROUTER ++ "/logout") = false := by decide
  rw [Jar.sent, Option.map_eq_none_iff, List.find?_eq_none]
  intro c hc
  rw [h c hc, hno]
  exact Bool.false_ne_true

example :
    (Jar.setRefreshCookie [] (.seed 0)).sent (AUTH_ROUTER ++ "/refresh") = some (.seed 0) := by
  decide

/-- A logout leaves the server as it is. -/
theorem server_of_logout {e : ClientRequest × List Input} (h : OnPath s.jar) (he : e.1 = .logout)
    (hs : step D jwtVerify s e = some t) : t.server = s.server := by
  rw [step, he] at hs
  simp only [sent_logout h] at hs
  obtain rfl := Option.some.inj hs
  rfl

/-- **A logout ends the session exactly where nothing is left of it**, in every run. -/
theorem logout_ends_iff (D : Deps) (jwtVerify : JwtVerify) (d : Db)
    (events : List (ClientRequest × List Input)) :
    LogoutEnds D jwtVerify d events ↔ (system D jwtVerify d).Meets NothingToEnd events := by
  have hjar : (system D jwtVerify d).Always (fun s => OnPath s.jar) events :=
    EventSystem.always (fun _ h => absurd h List.not_mem_nil) (fun _ _ _ => onPath_step)
      (fun _ h => h) events
  have hsame : ∀ past e rest s t, events = past ++ e :: rest →
      (system D jwtVerify d).run past = some s → step D jwtVerify s e = some t → e.1 = .logout →
      ∀ f, Ended t f ↔ Ended s f := by
    intro past e rest s t hevents hrun hs he f
    rw [Ended, Ended, Browser.db, Browser.db,
      server_of_logout (hjar past (e :: rest) s hevents hrun) he hs]
  constructor
  · intro h past e rest s t hevents hrun hs he f hf
    have hended := h past e rest s t hevents hrun hs he f hf
    exact (hsame past e rest s t hevents hrun hs he f).mp hended
  · intro h past e rest s t hevents hrun hs he f hf
    have hended := h past e rest s t hevents hrun hs he f hf
    exact (hsame past e rest s t hevents hrun hs he f).mpr hended

/-! ### A session that stays -/

/-- Ann logs in. -/
def annLogsIn : ClientRequest × List Input :=
  (.login ⟨"ann@x.io", "pw", sampleClient⟩, List.replicate 10 ⟨.ok, 0, 0⟩)

/-- The token of her session. -/
def annsToken : RefreshToken where
  id := .drawn 0 1
  userId := .seed 1
  organizationId := some (.seed 2)
  familyId := .drawn 0 2
  tokenHash := .sha256 (.drawn 0 0)
  issuedAt := 0
  expiresAt := 30 * day
  revokedAt := none
  replacedById := none
  userAgent := none
  ip := none

/-- She logs in and out, and her token is not revoked. -/
theorem logout_revokes_nothing :
    ¬ LogoutEnds sampleDeps sampleVerify sampleDb [annLogsIn, (.logout, [])] := by
  intro h
  have hrun : ((system sampleDeps sampleVerify sampleDb).run [annLogsIn]).map
      (fun s => (s.jar, s.db.refreshTokens)) =
      some ([⟨REFRESH_COOKIE_PATH, .drawn 0 0⟩], [annsToken]) := by
    decide +kernel
  obtain ⟨s, hs, heq⟩ := Option.map_eq_some_iff.mp hrun
  have hjar : s.jar = [⟨REFRESH_COOKIE_PATH, .drawn 0 0⟩] := congrArg Prod.fst heq
  have htokens : s.db.refreshTokens = [annsToken] := congrArg Prod.snd heq
  have hpath : OnPath s.jar := by
    rw [hjar]
    exact fun c hc => congrArg Cookie.path (List.mem_singleton.mp hc)
  have hstep : step sampleDeps sampleVerify s (.logout, []) =
      some ⟨s.jar.clear REFRESH_COOKIE_PATH, s.server⟩ := by
    simp only [step, sent_logout hpath]
  have hholds : Holds s (.drawn 0 2) :=
    ⟨⟨REFRESH_COOKIE_PATH, .drawn 0 0⟩, by rw [hjar]; exact List.mem_singleton.mpr rfl,
      annsToken, by rw [htokens]; exact List.mem_singleton.mpr rfl, rfl, rfl⟩
  have hended := h [annLogsIn] (.logout, []) [] s _ rfl hs hstep rfl (.drawn 0 2) hholds
  have hmem : annsToken ∈ s.db.refreshTokens := by
    rw [htokens]
    exact List.mem_singleton.mpr rfl
  exact absurd (hended annsToken hmem rfl) (by decide)

end LakiraBackend.Auth.Logout
