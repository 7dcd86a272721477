import LakiraBackend.JavaScript.RegExp
import LakiraBackend.Logging.Redaction
import LakiraBackend.Net.Address

/-!
# What leaves for Sentry

`scrubText` for free text, `scrubData` for attributes and breadcrumbs, and `scrubSentryEvent`, which
cleans an event before it is sent.  Which characters are letters and numbers, for addresses of
e-mail, is a parameter.
-/

namespace LakiraBackend.Logging.Sentry

open LakiraBackend.JavaScript
open RegExp (isOneOf isRange isLetter isDigit isWord isSpace isInLine sequence choice optional
  several literal folded)

/-- `\p{L}` and `\p{N}`, of code points, whatever the case. -/
structure Unicode : Type where
  letter : Nat → Bool
  number : Nat → Bool

/-- What they are in ASCII. -/
def Unicode.ascii : Unicode := ⟨isLetter, isDigit⟩

variable (U : Unicode)

/-! ### URLs -/

/-- Everything from the query string or the fragment on. -/
def stripQuery (url : Text) : Text :=
  RegExp.replaceFirst (sequence [.one (isOneOf "?#"), .many (fun _ => true) 0, .stop])
    (fun _ _ => []) url

def isSchemeChar (c : Nat) : Bool := isWord c || isOneOf "+.-" c

def isUserinfoChar (c : Nat) : Bool := !(isSpace c || isOneOf "/?#@" c)

/-- `/\b([a-z][\w+.-]{0,30}:\/\/)[^\s/?#@]{1,512}@/gi`. -/
def USERINFO_IN_TEXT : RegExp :=
  sequence [.boundary,
    .group (sequence [.one isLetter, several isSchemeChar 0 30, literal "://"]),
    several isUserinfoChar 1 512, literal "@"]

def stripUserinfo (s : Text) : Text :=
  RegExp.replaceAll USERINFO_IN_TEXT (fun _ scheme => scheme ++ text "[credentials]@") s

def MAX_TEXT : Nat := 16384

/-- `/(https?:\/\/[^\s?#'")<>]{1,2000})[?#][^\s'")<>]{0,4000}/gi`. -/
def URL_IN_TEXT : RegExp :=
  sequence [
    .group (sequence [folded "http", optional (folded "s"), literal "://",
      several (fun c => !(isSpace c || isOneOf "?#'\")<>" c)) 1 2000]),
    .one (isOneOf "?#"), several (fun c => !(isSpace c || isOneOf "'\")<>" c)) 0 4000]

/-- `/([^\s?#"'()<>]{1,2000})\?[\w.%[\]-]{1,64}=[^\s"')<>]{0,4000}/g`. -/
def QUERY_IN_TEXT : RegExp :=
  sequence [.group (several (fun c => !(isSpace c || isOneOf "?#\"'()<>" c)) 1 2000),
    literal "?", several (fun c => isWord c || isOneOf ".%[]-" c) 1 64, literal "=",
    several (fun c => !(isSpace c || isOneOf "\"')<>" c)) 0 4000]

/-- `/eyJ[\w-]{5,2000}\.[\w-]{5,4000}\.[\w-]{0,2000}(?:\.[\w-]{0,4000}){0,2}/g`. -/
def JWT_IN_TEXT : RegExp :=
  let char (c : Nat) : Bool := isWord c || isOneOf "-" c
  sequence [literal "eyJ", several char 5 2000, literal ".", several char 5 4000, literal ".",
    several char 0 2000, .times (sequence [literal ".", several char 0 4000]) 0 2]

/-- `/\b(Bearer|Basic)\s+[\w.~+/=-]{8,4000}/gi`. -/
def SCHEME_TOKEN_IN_TEXT : RegExp :=
  sequence [.boundary, .group (choice (folded "bearer") [folded "basic"]), .many isSpace 1,
    several (fun c => isWord c || isOneOf ".~+/=-" c) 8 4000]

/-! ### Addresses -/

/-- `/%[\w.-]+$/`. -/
def ZONE_ID : RegExp :=
  sequence [literal "%", .many (fun c => isWord c || isOneOf ".-" c) 1, .stop]

def stripZone (s : Text) : Text := RegExp.replaceFirst ZONE_ID (fun _ _ => []) s

def trim (s : Text) : Text := ((s.dropWhile isSpace).reverse.dropWhile isSpace).reverse

/-- `(?::\d{1,5})$`. -/
def PORT : RegExp := sequence [literal ":", several isDigit 1 5]

def isOneAddress (s : Text) : Bool :=
  let bare := stripZone (trim s)
  if !RegExp.test (.one fun c => isDigit c || isRange 'a' 'f' (RegExp.fold c)) bare then false
  else if Net.isIP bare ≠ 0 then true
  else
    -- "[2001:db8::1]", "[2001:db8::1]:443" and "203.0.113.9:443"
    match RegExp.search (sequence [.start, literal "[",
        .group (.many (fun c => !isOneOf "]" c) 1), literal "]", optional PORT, .stop]) [] bare with
    | some (_, _, bracketed, _) => Net.isIP (stripZone bracketed) != 0
    | none => Net.isIP (RegExp.replaceFirst (.seq PORT .stop) (fun _ _ => []) bare) == 4

def isAddress : Value → Bool
  | .string s => s.length ≤ 512 && trim s != [] && (s.splitOn ','.toNat).all isOneAddress
  | _ => false

/-- `/[^\s,;()<>"'=/@]{2,80}/g`. -/
def ADDRESS_CANDIDATE : RegExp :=
  several (fun c => !(isSpace c || isOneOf ",;()<>\"'=/@" c)) 2 80

/-- The stops and marks at the end of a text. -/
def tailOf (s : Text) : Text := (s.reverse.takeWhile (isOneOf ".!?")).reverse

def maskAddressRun (s : Text) : Text :=
  let tail := tailOf s
  let core := s.take (s.length - tail.length)
  if isOneAddress core then text "[address]" ++ tail else s

/-- Text with each address in it replaced. -/
def maskAddresses (s : Text) : Text :=
  RegExp.replaceAll ADDRESS_CANDIDATE (fun whole _ => maskAddressRun whole) s

/-! ### E-mail -/

/-- `/(?:"[^"\r\n]{1,64}"|[\p{L}\p{N}._%+'-]{1,64})(?:@|%40)[\p{L}\p{N}.-]{1,253}\.\p{L}{2,24}/giu`,
over code points. -/
def EMAIL_IN_TEXT : RegExp :=
  sequence [
    choice
      (sequence [literal "\"", several (fun c => !isOneOf "\"\r\n" c) 1 64, literal "\""])
      [several (fun c => U.letter c || U.number c || isOneOf "._%+'-" c) 1 64],
    choice (literal "@") [literal "%40"],
    several (fun c => U.letter c || U.number c || isOneOf ".-" c) 1 253, literal ".",
    several U.letter 2 24]

def maskEmails (s : Text) : Text :=
  Text.ofCodePoints (RegExp.replaceAll (EMAIL_IN_TEXT U) (fun _ _ => text "[email]") s.codePoints)

def cleanUrl (url : Text) : Text := maskEmails U (maskAddresses (stripUserinfo (stripQuery url)))

/-! ### Free text -/

/-- A text that is too long is cut. -/
def truncate (s : Text) : Text :=
  if MAX_TEXT < s.length then s.take MAX_TEXT ++ text "[Truncated]" else s

def scrubText (s : Text) : Text :=
  let s := stripUserinfo (truncate s)
  let s := RegExp.replaceAll URL_IN_TEXT (fun _ url => url) s
  let s := RegExp.replaceAll QUERY_IN_TEXT (fun _ path => path) s
  let s := RegExp.replaceAll JWT_IN_TEXT (fun _ _ => text "[token]") s
  let s := RegExp.replaceAll SCHEME_TOKEN_IN_TEXT (fun _ scheme => scheme ++ text " [token]") s
  maskAddresses (maskEmails U s)

/-! ### Values -/

def MAX_DEPTH : Nat := 5

/-- `Object.entries`, of what is no array. -/
def entries : Value → List (String × Value)
  | .object fields => fields
  | .error _ _ fields _ => fields
  | _ => []

mutual

/-- Every string of a context or of `extra` with its addresses masked. -/
def maskAddressesDeep : Value → Nat → Value
  | .string s, _ => .string (maskAddresses s)
  | .array items, depth =>
    if MAX_DEPTH ≤ depth then .array items else .array (maskItems items (depth + 1))
  | .object fields, depth =>
    if MAX_DEPTH ≤ depth then .object fields else .object (maskFields fields (depth + 1))
  | .error name message fields hidden, depth =>
    if MAX_DEPTH ≤ depth then .error name message fields hidden
    else .object (maskFields fields (depth + 1))
  | .date time, depth => if MAX_DEPTH ≤ depth then .date time else .object []
  | v, _ => v

def maskItems : List Value → Nat → List Value
  | [], _ => []
  | v :: items, depth => maskAddressesDeep v depth :: maskItems items depth

def maskFields : List (String × Value) → Nat → List (String × Value)
  | [], _ => []
  | (key, v) :: fields, depth => (key, maskAddressesDeep v depth) :: maskFields fields depth

end

/-- The values of a record of strings: the sensitive ones masked, the others scrubbed. -/
def redactRecord (record : List (String × Value)) : List (String × Value) :=
  record.foldl (fun out f => assign out f.1
    (if isSensitiveKey f.1 then .string REDACTED
    else match f.2 with
      | .string s => .string (scrubText U s)
      | v => v)) []

/-- `/(^|[._])(url|uri|target)([._]|$)/i`. -/
def URL_KEY : RegExp :=
  sequence [choice .start [.one (isOneOf "._")],
    choice (folded "url") [folded "uri", folded "target"],
    choice (.one (isOneOf "._")) [.stop]]

/-- `/^(url\.(query|fragment)|http\.query|db\.(statement|query\.(text|parameter.*))|`
`(.+\.)?(ip|ip_address|client_ip)|.+\.addr|client\.address|network\.(peer|local)\.address)$/i`. -/
def DROPPED_KEY : RegExp :=
  sequence [.start,
    choice (.seq (folded "url.") (choice (folded "query") [folded "fragment"]))
      [folded "http.query",
        .seq (folded "db.") (choice (folded "statement") [.seq (folded "query.")
          (choice (folded "text") [.seq (folded "parameter") (.many isInLine 0)])]),
        .seq (optional (.seq (.many isInLine 1) (literal ".")))
          (choice (folded "ip") [folded "ip_address", folded "client_ip"]),
        .seq (.many isInLine 1) (folded ".addr"),
        folded "client.address",
        sequence [folded "network.", choice (folded "peer") [folded "local"], folded ".address"]],
    .stop]

mutual

/-- One value of span attributes or breadcrumb data, at any depth. -/
def scrubValue (key : String) : Value → Nat → Value
  | .string s, _ =>
    if isAddress (.string s) then .string REDACTED
    else if RegExp.test URL_KEY (text key) then .string (cleanUrl U s)
    else if isSensitiveKey key then .string REDACTED
    else .string (scrubText U s)
  | .array items, depth =>
    if isSensitiveKey key then .string REDACTED
    else if MAX_DEPTH ≤ depth then .string TRUNCATED
    else .array (scrubItems key items (depth + 1))
  | .error _ message _ _, _ =>
    if isSensitiveKey key then .string REDACTED else .string (scrubText U message)
  | .object fields, depth =>
    if isSensitiveKey key then .string REDACTED
    else if MAX_DEPTH ≤ depth then .string TRUNCATED
    else .object (scrubData fields (depth + 1) [])
  | .date _, depth =>
    if isSensitiveKey key then .string REDACTED
    else if MAX_DEPTH ≤ depth then .string TRUNCATED
    else .object []
  | v, _ => if isSensitiveKey key then .string REDACTED else v

def scrubItems (key : String) : List Value → Nat → List Value
  | [], _ => []
  | v :: items, depth => scrubValue key v depth :: scrubItems key items depth

/-- The loop over the entries, with what it has built. -/
def scrubData : List (String × Value) → Nat → List (String × Value) → List (String × Value)
  | [], _, out => out
  | (key, v) :: data, depth, out =>
    if RegExp.test DROPPED_KEY (text key) || isAddress v then scrubData data depth out
    else scrubData data depth (assign out key (scrubValue key v depth))

end

/-- `typeof value === "object" && value !== null && !Array.isArray(value)`. -/
def isRecord : Value → Bool
  | .object _ | .error _ _ _ _ | .date _ => true
  | _ => false

/-- Whether a value counts as true. -/
def truthy : Value → Bool
  | .undefined | .null | .boolean false | .string [] | .number .nan => false
  | .number (.finite value) => value ≠ 0
  | _ => true

/-! ### Events -/

structure LogEntry : Type where
  message : Value
  params : Value

structure SentryRequest : Type where
  url : Value
  headers : Option (List (String × Value))
  cookies : Value
  data : Value
  query_string : Value

structure ScrubbableBreadcrumb : Type where
  message : Value
  data : Value

structure SentryException : Type where
  type : Option Text
  value : Value

structure ScrubbableEvent : Type where
  message : Value
  transaction : Value
  tags : Value
  logentry : Option LogEntry
  request : Option SentryRequest
  user : Option (List (String × Value))
  breadcrumbs : List ScrubbableBreadcrumb
  exception : List SentryException
  extra : Value
  contexts : Value

/-- A text scrubbed, where it is one. -/
def scrubString : Value → Value
  | .string s => .string (scrubText U s)
  | v => v

/-- A record scrubbed, where it is one. -/
def scrubRecord (v : Value) : Value :=
  if isRecord v then .object (scrubData U (entries v) 0 []) else v

def scrubRequest (r : SentryRequest) : SentryRequest where
  url := match r.url with
    | .string s => .string (cleanUrl U s)
    | v => v
  query_string := .undefined
  headers := r.headers.map (redactRecord U)
  cookies := .undefined
  data := redactObject r.data 0

/-- Only the id of a user is kept. -/
def scrubUser (user : List (String × Value)) : Option (List (String × Value)) :=
  match field "id" user with
  | .undefined | .null => none
  | id => some [("id", id)]

def scrubException (e : SentryException) : SentryException where
  type := e.type
  value := match e.value with
    | .string s =>
      let s := if e.type.any fun type => (text "Sequelize").isPrefixOf type then maskQuotedValues s
        else s
      .string (scrubText U s)
    | v => v

def scrubExtra (extra : Value) : Value :=
  if truthy extra then maskAddressesDeep (redactObject extra 0) 0 else extra

/-- `contexts.trace.data = data`, where `contexts.trace` is a record. -/
def setTraceData (data : List (String × Value)) : Value → Value
  | .object contexts => .object (contexts.map fun f =>
    match f.1, f.2 with
    | "trace", .object trace => ("trace", .object (assign trace "data" (.object data)))
    | key, v => (key, v))
  | v => v

def scrubContexts (contexts : Value) : Value :=
  if truthy contexts then
    let trace := contexts.get "trace"
    let traceData := trace.get "data"
    let redacted := maskAddressesDeep (redactObject contexts 0) 0
    -- the attributes of the root span are cleaned from the original
    if isRecord trace && isRecord traceData then
      setTraceData (scrubData U (entries traceData) 0 []) redacted
    else redacted
  else contexts

def scrubSentryEvent (event : ScrubbableEvent) : ScrubbableEvent where
  message := scrubString U event.message
  transaction := scrubString U event.transaction
  tags := scrubRecord U event.tags
  logentry := event.logentry.map fun logentry =>
    { message := scrubString U logentry.message
      params := match logentry.params with
        | .array params => scrubValue U "params" (.array params) 0
        | v => v }
  request := event.request.map (scrubRequest U)
  user := event.user.bind scrubUser
  breadcrumbs := event.breadcrumbs.map fun crumb =>
    { message := scrubString U crumb.message
      data := scrubRecord U crumb.data }
  exception := event.exception.map (scrubException U)
  extra := scrubExtra event.extra
  contexts := scrubContexts U event.contexts

end LakiraBackend.Logging.Sentry
