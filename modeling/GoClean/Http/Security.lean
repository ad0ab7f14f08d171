import GoClean.Auth.Bearer
import GoClean.Item.Idempotency
import GoClean.RateLimit.Limiter

/-!
# The security middleware

`securityMiddleware` verifies the credentials of a request, chooses the key
of the limiter and asks it. Failed credentials share one key. The limiter's
buckets are passed from request to request; each request brings the reading
its limiter call takes.
-/

namespace GoClean.Http

open Go Auth RateLimit

def challengeHeaderValue : GoString := "Bearer realm=\"api\""
def anonymousRateKey : GoString := "anonymous"
def principalKeyPrefix : GoString := "principal:"
def addressKeyPrefix : GoString := "address:"

/-- The parts of `net` that a peer address passes through: the host of
`SplitHostPort`, and the text of the address that `ParseIP` reads. -/
structure Net where
  splitHostPort : GoString → Option GoString
  parseIP : GoString → Option GoString

structure SecurityError where
  status : Nat
  code : GoString
  message : GoString
  deriving DecidableEq

abbrev Header := GoString × GoString

/-- How a request leaves the middleware: to the next handler with the context
it then has, or with an error. -/
inductive Verdict
  | next (principal : Option Principal) (context : Option Context)
  | abort (err : SecurityError)
  deriving DecidableEq

/-- A request, the contexts its checks see and the reading of its limiter
call. `request = none` is a nil request. -/
structure Incoming where
  now : Reading
  request : Option Request
  checks : CheckedContext := {}
  context : Context := Context.background

structure Handled where
  verdict : Verdict
  headers : List Header
  decision : Option Decision

def itoa (n : Int) : GoString := str (toString n)

def retryAfterSeconds (value : Duration) : Int :=
  if value ≤ 0 then 1
  else
    let seconds := value.tdiv Duration.second
    let seconds := if value.tmod Duration.second ≠ 0 then seconds + 1 else seconds
    if seconds < 1 then 1 else seconds

def resetHeader (reset : Time) : List Header :=
  if reset.isZero then [] else [("RateLimit-Reset", itoa reset.unix.toInt)]

def rateLimitedError : SecurityError := ⟨429, "rate_limited", "request rate limit exceeded"⟩
def unauthorizedError : SecurityError :=
  ⟨401, "unauthorized", "valid bearer credentials are required"⟩
def internalError : SecurityError := ⟨500, "internal_error", "internal server error"⟩

def writeSecurityError (headers : List Header) (decision : Option Decision) (err : SecurityError) :
    Handled :=
  ⟨.abort err, headers ++ [(str "Cache-Control", str "no-store")], decision⟩

def writeUnauthorized (headers : List Header) (decision : Option Decision) : Handled :=
  writeSecurityError (headers ++ [(str "WWW-Authenticate", challengeHeaderValue)])
    decision unauthorizedError

section
variable (H : Hashes) (net : Net)

def principalRateKey (subject : GoString) : GoString :=
  principalKeyPrefix ++ Hex.encodeToString (H.sum256 subject).toList

def clientRateKey : Option Request → GoString
  | none => anonymousRateKey
  | some request =>
    let address := trimSpace request.remoteAddr
    let address := (net.splitHostPort address).getD address
    match net.parseIP address with
    | some text => addressKeyPrefix ++ text
    | none => anonymousRateKey

/-- `allowSecurityRequest`, and then `allowed` if the request may go on. A nil
limiter allows everything. -/
def allowSecurityRequest (limiter : Option Limiter) (buckets : Buckets)
    (now : Reading) (key : GoString)
    (allowed : List Header → Option Decision → Handled) : Buckets × Handled :=
  match limiter with
  | none => (buckets, allowed [] none)
  | some limiter =>
    let outcome := limiter.allow buckets now key
    let decision := outcome.decision
    if decision.allowed then
      (outcome.buckets,
        allowed (("RateLimit-Remaining", itoa decision.remaining) :: resetHeader decision.reset)
        (some decision))
    else
      (outcome.buckets,
        writeSecurityError
          ([(str "Retry-After", itoa (retryAfterSeconds decision.retryAfter)),
            (str "RateLimit-Remaining", str "0")] ++
            resetHeader decision.reset)
          (some decision) rateLimitedError)

/-- The rest of the middleware once the caller is known: `principal` is empty
when authentication is disabled. -/
def proceed (limiter : Option Limiter) (buckets : Buckets) (r : Incoming)
    (principal : Option Principal) :
    Buckets × Handled :=
  let key := match principal with
    | some p => principalRateKey H p.subject
    | none => clientRateKey net r.request
  let context :=
    r.request.bind fun _ => withIdempotencyScope (some r.context) (str "items:create:" ++ key)
  allowSecurityRequest limiter buckets r.now key fun headers decision =>
    ⟨.next principal context, headers, decision⟩

def securityMiddleware (authenticator : Option BearerSHA256) (limiter : Option Limiter)
    (buckets : Buckets) (r : Incoming) : Buckets × Handled :=
  match authenticator with
  | none => proceed H net limiter buckets r none
  | some verifier =>
    if r.request.isNone then
      allowSecurityRequest limiter buckets r.now anonymousRateKey writeUnauthorized
    else
      match verifier.authenticate H (some r.checks) r.request with
      | .error _ => allowSecurityRequest limiter buckets r.now anonymousRateKey writeUnauthorized
      | .ok verified =>
        match contextWithPrincipal (some r.checks) verified with
        | .error _ => (buckets, writeSecurityError [] none internalError)
        | .ok principal => proceed H net limiter buckets r (some principal)

def isVersionedAPIPath (path : GoString) : Bool :=
  path == str "/api/v1" || hasPrefix path (str "/api/v1/")

/-- `apiSecurityMiddleware`: only versioned paths are protected; `none` is a
request that goes on untouched. -/
def apiSecurityMiddleware (authenticator : Option BearerSHA256) (limiter : Option Limiter)
    (buckets : Buckets) (r : Incoming) : Buckets × Option Handled :=
  if r.request.any fun request => isVersionedAPIPath request.path then
    let (buckets, handled) := securityMiddleware H net authenticator limiter buckets r
    (buckets, some handled)
  else (buckets, none)

end

end GoClean.Http
