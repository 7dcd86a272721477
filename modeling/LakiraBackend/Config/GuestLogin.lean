import LakiraBackend.Config.RabbitMQ

/-!
# The guest login

Outside development no user and no password that is `guest` is accepted.  The client also logs
in as guest where the address has no credentials: a URL without them is refused, but two empty
variables are accepted, and the address made of them has none.  So the login is not the guest's
exactly where the address has some (`noGuest_iff`); `RABBITMQ_HOST` may hold them too, before an
at sign.
-/

namespace LakiraBackend.Config

open LakiraBackend.JavaScript

variable {P : Platform}

/-- Neither the user nor the password is the default. -/
def NoGuest (login : List Char × List Char) : Prop :=
  login.1 ≠ "guest".toList ∧ login.2 ≠ "guest".toList

instance (login : List Char × List Char) : Decidable (NoGuest login) :=
  inferInstanceAs (Decidable (_ ∧ _))

/-- Where guests are refused. -/
def Env.Guarded (env : Env) : Prop :=
  (env.NODE_ENV = .production ∨ env.NODE_ENV = .staging) ∧ env.RABBITMQ_ENABLED = true

/-- What of `RABBITMQ_HOST` is in the authority of the address. -/
def Env.hostAuthority (env : Env) : List Char :=
  env.RABBITMQ_HOST.takeWhile fun c => !Url.endsAuthority c

/-- A URL is given, the user or the password is not empty, or the host holds credentials. -/
def Env.NamesLogin (env : Env) : Prop :=
  env.givenUrl ≠ none ∨ env.RABBITMQ_USER ≠ [] ∨ env.RABBITMQ_PASSWORD ≠ [] ∨
    '@' ∈ env.hostAuthority

/-! ### What is accepted -/

theorem noGuest_of_refuseGuest {env : Env} (h : refuseGuest P env = []) (hguarded : env.Guarded)
    {login : RabbitMQLogin} (hlogin : rabbitMQLogin P env = some login) :
    NoGuest (login.user, login.password) := by
  have hguard : (env.NODE_ENV = .production ∨ env.NODE_ENV = .staging) ∧
    env.RABBITMQ_ENABLED = true := hguarded
  rw [refuseGuest, if_pos hguard, hlogin] at h
  obtain ⟨huser, hpassword⟩ := List.append_eq_nil_iff.mp h
  refine ⟨fun heq => ?_, fun heq => ?_⟩
  · rw [if_pos heq] at huser
    exact absurd huser (List.cons_ne_nil _ _)
  · rw [if_pos heq] at hpassword
    exact absurd hpassword (List.cons_ne_nil _ _)

/-- A URL alone makes the login. -/
theorem rabbitMQLogin_congr {env env' : Env} {text : List Char} (h : env.givenUrl = some text)
    (h' : env'.givenUrl = some text) : rabbitMQLogin P env = rabbitMQLogin P env' := by
  rw [rabbitMQLogin, rabbitMQLogin, h, h']

/-- What an accepted environment is: the parsed one, or one with the fields of its URL. -/
theorem accepted_cases {raw : ProcessEnv} {env : Env} (h : buildEnv P raw = some env)
    (hguarded : env.Guarded) :
    (env.givenUrl = none ∧ NoGuest (env.RABBITMQ_USER, env.RABBITMQ_PASSWORD)) ∨
      ∃ text login, env.givenUrl = some text ∧ rabbitMQLogin P env = some login ∧
        NoGuest (login.user, login.password) := by
  obtain ⟨parsed, hparsed, hnormalize⟩ := Option.bind_eq_some_iff.mp h
  have hrefuse : refuseGuest P parsed = [] := of_decide_eq_true (Option.filter_eq_some_iff.mp hparsed).2
  rw [normalizeRabbitMQConfig] at hnormalize
  cases hurl : parsed.givenUrl with
  | none =>
    rw [hurl] at hnormalize
    cases hnormalize
    exact .inl ⟨hurl, noGuest_of_refuseGuest hrefuse hguarded (by rw [rabbitMQLogin, hurl])⟩
  | some text =>
    rw [hurl] at hnormalize
    obtain ⟨url, -, hnormalize⟩ := Option.bind_eq_some_iff.mp hnormalize
    split at hnormalize
    · obtain ⟨login, hlogin, hnormalize⟩ := Option.bind_eq_some_iff.mp hnormalize
      obtain ⟨vhost, -, hnormalize⟩ := Option.bind_eq_some_iff.mp hnormalize
      cases hnormalize
      refine .inr ⟨text, login, hurl, ?_, noGuest_of_refuseGuest hrefuse hguarded hlogin⟩
      rw [← hlogin]
      exact rabbitMQLogin_congr hurl hurl
    · cases hnormalize

/-- The client logs in as a given URL is read. -/
theorem credentialsFromUrl_of_rabbitMQLogin {env : Env} {text : List Char}
    (hurl : env.givenUrl = some text) {login : RabbitMQLogin}
    (h : rabbitMQLogin P env = some login) :
    credentialsFromUrl P text = some (login.user, login.password) := by
  rw [rabbitMQLogin, hurl] at h
  obtain ⟨url, hparse, h⟩ := Option.bind_eq_some_iff.mp h
  rw [credentialsFromUrl, hparse, Option.map_some]
  split at h
  · rename_i hempty
    rw [if_pos hempty, ← Option.some.inj h]
  · rename_i hempty
    obtain ⟨user, huser, h⟩ := Option.bind_eq_some_iff.mp h
    obtain ⟨password, hpassword, h⟩ := Option.bind_eq_some_iff.mp h
    rw [if_neg hempty, ← Option.some.inj h, unescape, unescape, huser, hpassword]
    rfl

/-! ### The address that is made -/

/-- What comes after the at sign of the credentials. -/
def Env.afterCredentials (env : Env) : List Char :=
  env.RABBITMQ_HOST ++ ':' :: (portText env.RABBITMQ_PORT ++ '/' ::
    if env.RABBITMQ_VHOST = ['/'] then ['/'] else encodeURIComponent env.RABBITMQ_VHOST)

theorem unescape_encodeURIComponent (s : List Char) : unescape (encodeURIComponent s) = s := by
  rw [unescape, decodeURIComponent_encodeURIComponent]
  rfl

theorem encodeURIComponent_eq_nil {s : List Char} : encodeURIComponent s = [] ↔ s = [] := by
  refine ⟨fun h => ?_, fun h => by rw [h]; rfl⟩
  rw [← unescape_encodeURIComponent s, h]
  rfl

theorem plain_encodeURIComponent (s : List Char) : ∀ c ∈ encodeURIComponent s, Url.Plain c :=
  fun _ hc => Url.plain_of_isEncoded (Url.isEncoded_of_mem hc)

/-! #### The port -/

theorem ne_at_of_isDigit {c : Char} (h : c.isDigit = true) : c ≠ '@' := by
  rintro rfl
  exact absurd h (by decide)

theorem ne_at_of_mem_toDigits {n : Nat} {c : Char} (h : c ∈ Nat.toDigits 10 n) : c ≠ '@' :=
  ne_at_of_isDigit (Nat.isDigit_of_mem_toDigits (by decide) (by decide) h)

theorem ne_at_of_mem_shortestDigits {n : Nat} {c : Char} (h : c ∈ (Whole.shortestDigits n).1) :
    c ≠ '@' := by
  simp only [Whole.shortestDigits] at h
  split at h
  · have hkept := List.dropWhile_subset _ (List.mem_reverse.mp h)
    exact ne_at_of_mem_toDigits (List.mem_reverse.mp hkept)
  · exact ne_at_of_mem_toDigits h

theorem at_not_mem_text (n : Whole) : '@' ∉ n.text := by
  intro h
  cases n with
  | infinity => exact absurd h (by decide)
  | nat n =>
    rcases Nat.lt_or_ge n (10 ^ 21) with hlt | hge
    · rw [Whole.text_of_lt hlt] at h
      exact ne_at_of_mem_toDigits h rfl
    · have htext : (Whole.nat n).text = Whole.exponentText n := if_neg (Nat.not_lt.mpr hge)
      rw [htext, Whole.exponentText] at h
      split at h
      · cases h
      · rename_i d ds exponent heq
        have hdigits : ∀ c ∈ d :: ds, c ≠ '@' := fun c hc =>
          ne_at_of_mem_shortestDigits (n := n) (by rw [heq]; exact hc)
        rcases List.mem_append.mp h with h | h
        · rcases List.mem_append.mp h with h | h
          · rcases List.mem_cons.mp h with h | h
            · exact hdigits d List.mem_cons_self h.symm
            · split at h
              · cases h
              · rcases List.mem_cons.mp h with h | h
                · exact absurd h (by decide)
                · exact hdigits _ (List.mem_cons_of_mem d h) rfl
          · exact absurd h (by decide)
        · exact ne_at_of_mem_toDigits h rfl

theorem at_not_mem_portText (port : Bool × Whole) : '@' ∉ portText port := by
  intro h
  rw [portText] at h
  split at h
  · rcases List.mem_cons.mp h with h | h
    · exact absurd h (by decide)
    · exact at_not_mem_text _ h
  · exact at_not_mem_text _ h

/-! #### The credentials in the host -/

/-- The vhost is written without a blank at the end. -/
theorem afterCredentials_eq (env : Env) :
    ∃ s c, env.afterCredentials = s ++ [c] ∧ 0x20 < c.toNat := by
  let vhost := if env.RABBITMQ_VHOST = ['/'] then ['/'] else encodeURIComponent env.RABBITMQ_VHOST
  have hplain : ∀ c ∈ '/' :: vhost, 0x20 < c.toNat := by
    intro c hc
    rcases List.mem_cons.mp hc with rfl | hc
    · decide
    · by_cases h : env.RABBITMQ_VHOST = ['/']
      · rw [show vhost = ['/'] from if_pos h] at hc
        rw [List.mem_singleton.mp hc]
        decide
      · rw [show vhost = encodeURIComponent env.RABBITMQ_VHOST from if_neg h] at hc
        exact (plain_encodeURIComponent _ c hc).blank
  refine ⟨env.RABBITMQ_HOST ++ ':' :: (portText env.RABBITMQ_PORT ++ ('/' :: vhost).dropLast),
    ('/' :: vhost).getLast (List.cons_ne_nil _ _), ?_, hplain _ (List.getLast_mem _)⟩
  rw [List.append_assoc, List.cons_append, List.append_assoc, List.dropLast_append_getLast]
  rfl

/-- The at signs of the authority that is parsed are those of the host. -/
theorem at_mem_afterCredentials (env : Env) :
    '@' ∈ (Url.cleanedEnd env.afterCredentials).takeWhile (fun c => !Url.endsAuthority c) ↔
      '@' ∈ env.hostAuthority := by
  obtain ⟨s, c, heq, hc⟩ := afterCredentials_eq env
  have hcleaned : Url.cleanedEnd env.afterCredentials =
      env.afterCredentials.filter fun c => !Url.isTabOrNewline c := by
    rw [heq, Url.cleanedEnd_of_blank hc]
  have hends : ∀ c, (!Url.isTabOrNewline c) = false → (!Url.endsAuthority c) = true := by
    intro c hc
    rw [Bool.not_eq_false', Url.isTabOrNewline] at hc
    have htab : c.toNat ∈ [0x09, 0x0A, 0x0D] := of_decide_eq_true hc
    have hall : ∀ n ∈ [0x09, 0x0A, 0x0D], (!Url.endsAuthority (Char.ofNat n)) = true := by decide
    have := hall c.toNat htab
    rwa [Char.ofNat_toNat] at this
  rw [hcleaned, Url.mem_takeWhile_filter (by decide) hends]
  refine Url.mem_takeWhile_append (fun h => ?_) env.RABBITMQ_HOST
  rw [List.takeWhile_cons_of_pos (by decide)] at h
  rcases List.mem_cons.mp h with h | h
  · exact absurd h (by decide)
  · have hport := (Url.mem_takeWhile_append
      (by rw [List.takeWhile_cons_of_neg (by decide)]; exact List.not_mem_nil) _).mp h
    exact at_not_mem_portText _ (List.takeWhile_subset _ hport)

/-- **The login of an address that is made**: the user as it is, and the password as it is unless
the host holds more of it. -/
theorem credentialsFromUrl_afterCredentials {env : Env} (hurl : env.givenUrl = none)
    {login : List Char × List Char} (h : credentialsFromUrl P (buildAmqpUrl env) = some login) :
    (¬ env.NamesLogin → login = ("guest".toList, "guest".toList)) ∧
      (env.NamesLogin → login.1 = env.RABBITMQ_USER ∧
        (login.2 = env.RABBITMQ_PASSWORD ∨ '@' ∈ login.2)) := by
  have haddress : buildAmqpUrl env = "amqp://".toList ++ (encodeURIComponent env.RABBITMQ_USER ++
      ':' :: (encodeURIComponent env.RABBITMQ_PASSWORD ++ '@' :: env.afterCredentials)) := by
    rw [buildAmqpUrl, hurl]
    rfl
  obtain ⟨url, hparse, rfl⟩ := Option.map_eq_some_iff.mp h
  rw [haddress] at hparse
  obtain ⟨huser, hpassword, hmore⟩ := Url.parse_authority (plain_encodeURIComponent _)
    (plain_encodeURIComponent _) hparse
  rw [at_mem_afterCredentials] at hpassword hmore
  refine ⟨fun hnone => ?_, fun hnames => ?_⟩
  · simp only [Env.NamesLogin, not_or, not_not] at hnone
    obtain ⟨-, hu, hp, hat⟩ := hnone
    rw [if_pos]
    rw [huser, hpassword hat, hu, hp]
    rfl
  · by_cases hat : '@' ∈ env.hostAuthority
    · obtain ⟨more, hmore⟩ := hmore hat
      rw [if_neg (by rw [hmore]; simp)]
      refine ⟨by rw [huser, unescape_encodeURIComponent], .inr ?_⟩
      rw [hmore]
      exact mem_unescape (c := '@') (by decide) _ more
    · have hne : ¬ (decide (url.username = []) && decide (url.password = [])) = true := by
        rw [huser, hpassword hat, Bool.and_eq_true, decide_eq_true_eq, decide_eq_true_eq,
          encodeURIComponent_eq_nil, encodeURIComponent_eq_nil]
        rintro ⟨hu, hp⟩
        rcases hnames with h | h | h | h
        · exact h hurl
        · exact h hu
        · exact h hp
        · exact hat h
      rw [if_neg hne, huser, hpassword hat, unescape_encodeURIComponent,
        unescape_encodeURIComponent]
      exact ⟨rfl, .inl rfl⟩

/-- **The broker client is no guest outside development**, exactly where the address it is given
has credentials. -/
theorem noGuest_iff {raw : ProcessEnv} {env : Env} (haccepted : buildEnv P raw = some env)
    (hguarded : env.Guarded) {login : List Char × List Char}
    (hlogin : credentialsFromUrl P (buildAmqpUrl env) = some login) :
    NoGuest login ↔ env.NamesLogin := by
  rcases accepted_cases haccepted hguarded with ⟨hurl, hrefused⟩ | ⟨text, named, hurl, hnamed, hrefused⟩
  · obtain ⟨hguest, hnames⟩ := credentialsFromUrl_afterCredentials hurl hlogin
    refine ⟨fun hno => ?_, fun hnamed => ?_⟩
    · by_contra hnone
      rw [hguest hnone] at hno
      exact hno.1 rfl
    · obtain ⟨huser, hpassword⟩ := hnames hnamed
      refine ⟨huser ▸ hrefused.1, ?_⟩
      rcases hpassword with hpassword | hat
      · exact hpassword ▸ hrefused.2
      · intro heq
        rw [heq] at hat
        exact absurd hat (by decide)
  · have hnames : env.NamesLogin := .inl (by rw [hurl]; exact Option.some_ne_none _)
    refine ⟨fun _ => hnames, fun _ => ?_⟩
    rw [buildAmqpUrl, hurl, credentialsFromUrl_of_rabbitMQLogin hurl hnamed] at hlogin
    rw [← Option.some.inj hlogin]
    exact hrefused

/-! ### Two environments -/

/-- A platform for texts of ASCII, and hosts without brackets. -/
def asciiPlatform : Platform := ⟨List.map Char.toLower, fun _ => none⟩

/-- Production with a broker; the login alone is set. -/
def production (user password : String) : ProcessEnv where
  NODE_ENV := some "production".toList
  RABBITMQ_URL := none
  RABBITMQ_ENABLED := some "true".toList
  RABBITMQ_HOST := some "broker".toList
  RABBITMQ_PORT := none
  RABBITMQ_USER := some user.toList
  RABBITMQ_PASSWORD := some password.toList
  RABBITMQ_VHOST := none

def productionEnv (user password : String) : Env where
  NODE_ENV := .production
  RABBITMQ_URL := none
  RABBITMQ_ENABLED := true
  RABBITMQ_HOST := "broker".toList
  RABBITMQ_PORT := (false, .nat 5672)
  RABBITMQ_USER := user.toList
  RABBITMQ_PASSWORD := password.toList
  RABBITMQ_VHOST := "/".toList

theorem noGuest_iff_named :
    NoGuest ("app".toList, "a@b/c".toList) ↔ (productionEnv "app" "a@b/c").NamesLogin := by
  have haccepted : buildEnv asciiPlatform (production "app" "a@b/c") =
      some (productionEnv "app" "a@b/c") := by decide +kernel
  exact noGuest_iff haccepted ⟨.inl rfl, rfl⟩ (by decide +kernel)

/-- Two empty variables are accepted, and log in as guest. -/
theorem guest_of_empty :
    buildEnv asciiPlatform (production "" "") = some (productionEnv "" "") ∧
      (productionEnv "" "").Guarded ∧
      credentialsFromUrl asciiPlatform (buildAmqpUrl (productionEnv "" "")) =
        some ("guest".toList, "guest".toList) ∧
      ¬ NoGuest ("guest".toList, "guest".toList) :=
  ⟨by decide +kernel, ⟨.inl rfl, rfl⟩, by decide +kernel, by decide⟩

end LakiraBackend.Config
