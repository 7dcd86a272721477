import LakiraBackend.JavaScript.Url

/-!
# The broker login of the environment

What `buildEnv` makes of the variables for RabbitMQ, when those of the other features are
accepted, and what the broker client then logs in with.  A variable that is not set has its
default; one that is set to nothing is the empty text.
-/

namespace LakiraBackend.Config

open LakiraBackend.JavaScript

inductive NodeEnv : Type
  | development
  | test
  | staging
  | production
  deriving DecidableEq

/-- What the platform gives: `toLowerCase`, and how an IPv6 address in brackets is read. -/
structure Platform : Type where
  toLowerCase : List Char → List Char
  ipv6 : List Char → Option (List Char)

/-- The variables, as they are set. -/
structure ProcessEnv : Type where
  NODE_ENV : Option (List Char)
  RABBITMQ_URL : Option (List Char)
  RABBITMQ_ENABLED : Option (List Char)
  RABBITMQ_HOST : Option (List Char)
  RABBITMQ_PORT : Option (List Char)
  RABBITMQ_USER : Option (List Char)
  RABBITMQ_PASSWORD : Option (List Char)
  RABBITMQ_VHOST : Option (List Char)

structure Env : Type where
  NODE_ENV : NodeEnv
  RABBITMQ_URL : Option (List Char)
  RABBITMQ_ENABLED : Bool
  RABBITMQ_HOST : List Char
  /-- Whether it is negative, and its size. -/
  RABBITMQ_PORT : Bool × Whole
  RABBITMQ_USER : List Char
  RABBITMQ_PASSWORD : List Char
  RABBITMQ_VHOST : List Char
  deriving DecidableEq

variable (P : Platform)

/-! ### The schema -/

def nodeEnvSchema (value : Option (List Char)) : Option NodeEnv :=
  match value with
  | none => some .development
  | some text =>
    [(("development".toList : List Char), NodeEnv.development), ("test".toList, .test),
      ("staging".toList, .staging), ("production".toList, .production)].lookup (P.toLowerCase text)

def buildEnvSchema (env : ProcessEnv) : Option Env := do
  let nodeEnv ← nodeEnvSchema P env.NODE_ENV
  let port ← parseInt (env.RABBITMQ_PORT.getD "5672".toList)
  pure
    { NODE_ENV := nodeEnv
      RABBITMQ_URL := env.RABBITMQ_URL
      RABBITMQ_ENABLED := env.RABBITMQ_ENABLED.getD "false".toList = "true".toList
      RABBITMQ_HOST := env.RABBITMQ_HOST.getD "127.0.0.1".toList
      RABBITMQ_PORT := port
      RABBITMQ_USER := env.RABBITMQ_USER.getD "guest".toList
      RABBITMQ_PASSWORD := env.RABBITMQ_PASSWORD.getD "guest".toList
      RABBITMQ_VHOST := env.RABBITMQ_VHOST.getD "/".toList }

/-! ### The refusal -/

structure RabbitMQLogin : Type where
  user : List Char
  password : List Char
  fromUrl : Bool
  deriving DecidableEq

/-- A URL that is there and not empty. -/
def Env.givenUrl (env : Env) : Option (List Char) := env.RABBITMQ_URL.filter fun url => url ≠ []

/-- None where it throws. -/
def rabbitMQLogin (env : Env) : Option RabbitMQLogin :=
  match env.givenUrl with
  | none => some ⟨env.RABBITMQ_USER, env.RABBITMQ_PASSWORD, false⟩
  | some text =>
    (Url.parse P.ipv6 text).bind fun url =>
      if url.username = [] && url.password = [] then some ⟨"guest".toList, "guest".toList, true⟩
      else do
        let user ← decodeURIComponent url.username
        let password ← decodeURIComponent url.password
        pure ⟨user, password, true⟩

/-- The issues the refusal adds: the variables they name. -/
def refuseGuest (env : Env) : List (List Char) :=
  if (env.NODE_ENV = .production ∨ env.NODE_ENV = .staging) ∧ env.RABBITMQ_ENABLED = true then
    match rabbitMQLogin P env with
    | none => []
    | some login =>
      let user := if login.fromUrl then "RABBITMQ_URL".toList else "RABBITMQ_USER".toList
      let password := if login.fromUrl then "RABBITMQ_URL".toList else "RABBITMQ_PASSWORD".toList
      (if login.user = "guest".toList then [user] else []) ++
        if login.password = "guest".toList then [password] else []
  else []

/-! ### The fields of a URL -/

/-- A text that stands for a value unless it is empty. -/
def orKeep {α : Type} (text : List Char) (value : List Char → α) (kept : α) : α :=
  if text = [] then kept else value text

def normalizeRabbitMQConfig (env : Env) : Option Env :=
  match env.givenUrl with
  | none => some env
  | some text => do
    let url ← Url.parse P.ipv6 text
    if url.protocol = "amqp:".toList || url.protocol = "amqps:".toList then
      let login ← rabbitMQLogin P env
      let vhost := if url.pathname.head? = some '/' then url.pathname.tail else url.pathname
      let decoded ← orKeep vhost decodeURIComponent (some env.RABBITMQ_VHOST)
      pure
        { env with
          RABBITMQ_HOST := orKeep url.hostname id env.RABBITMQ_HOST
          RABBITMQ_PORT := orKeep url.port
            (fun digits => (false, .ofNat (Nat.ofDigitChars 10 digits 0))) env.RABBITMQ_PORT
          RABBITMQ_USER := login.user
          RABBITMQ_PASSWORD := login.password
          RABBITMQ_VHOST := decoded }
    else none

/-- None where it throws. -/
def buildEnv (env : ProcessEnv) : Option Env :=
  ((buildEnvSchema P env).filter fun parsed => refuseGuest P parsed = []).bind
    (normalizeRabbitMQConfig P)

/-! ### The connection -/

/-- A number in a template. -/
def portText (port : Bool × Whole) : List Char :=
  if port.1 ∧ port.2 ≠ .nat 0 then '-' :: port.2.text else port.2.text

def buildAmqpUrl (env : Env) : List Char :=
  match env.givenUrl with
  | some url => url
  | none =>
    "amqp://".toList ++ (encodeURIComponent env.RABBITMQ_USER ++ ':' ::
      (encodeURIComponent env.RABBITMQ_PASSWORD ++ '@' :: (env.RABBITMQ_HOST ++ ':' ::
        (portText env.RABBITMQ_PORT ++ '/' ::
          if env.RABBITMQ_VHOST = ['/'] then ['/'] else encodeURIComponent env.RABBITMQ_VHOST))))

/-- The broker client's login: none where the address is not a URL. -/
def credentialsFromUrl (text : List Char) : Option (List Char × List Char) :=
  (Url.parse P.ipv6 text).map fun url =>
    if url.username = [] && url.password = [] then ("guest".toList, "guest".toList)
    else (unescape url.username, unescape url.password)

end LakiraBackend.Config
