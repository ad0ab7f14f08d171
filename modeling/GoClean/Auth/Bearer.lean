import GoClean.Go.Strings
import GoClean.Item.Errors

/-!
# Bearer credentials

`pkg/auth`: the parser of the Authorization header and the verifier of one
configured SHA-256 digest. A verifier carries the proof that its principal is
valid, which its constructors check.
-/

namespace GoClean.Auth

open Go

def maxBearerTokenBytes : Nat := 4096
def maxPrincipalSubjectBytes : Nat := 256
def maxPrincipalScopes : Nat := 128
def maxPrincipalScopeBytes : Nat := 256
def maxPrincipalScopeTotalBytes : Nat := 4096
def defaultBearerSubject : GoString := "configured-bearer"

inductive AuthError
  | invalidCredentials
  | missingCredentials
  | duplicateCredentials
  | unsupportedScheme
  | credentialsTooLong
  | nilContext
  | nilRequest
  | invalidDigest
  | invalidPrincipal
  /-- `ctx.Err()`, returned unchanged. -/
  | context (cause : ContextCause)
  deriving DecidableEq

def AuthError.isInvalidCredentials : AuthError → Bool
  | .invalidCredentials | .missingCredentials | .duplicateCredentials | .unsupportedScheme
  | .credentialsTooLong => true
  | _ => false

def failIf (fails : Bool) (err : AuthError) : Except AuthError Unit :=
  if fails then .error err else .ok ()

@[simp] theorem failIf_ok : failIf fails err = .ok u ↔ fails = false := by
  cases fails <;> simp [failIf]

-- ---------------------------------------------------------------------------
-- Principals
-- ---------------------------------------------------------------------------

structure Principal where
  subject : GoString
  scopes : List GoString := []
  deriving DecidableEq

def validatePrincipalText (value : GoString) (maxBytes : Nat) (requireNonEmpty : Bool) :
    Except AuthError Unit := do
  failIf (requireNonEmpty && value.isEmpty || decide (maxBytes < value.length) ||
    !validString value ||
    value != trimSpace value || hasControl value) .invalidPrincipal
  failIf (!requireNonEmpty && value.isEmpty) .invalidPrincipal

def validateScopes : Nat → List GoString → Except AuthError Unit
  | _, [] => .ok ()
  | totalBytes, scope :: rest => do
    validatePrincipalText scope maxPrincipalScopeBytes false
    failIf (decide (maxPrincipalScopeTotalBytes < totalBytes + scope.length)) .invalidPrincipal
    validateScopes (totalBytes + scope.length) rest

def Principal.validate (p : Principal) : Except AuthError Unit := do
  validatePrincipalText p.subject maxPrincipalSubjectBytes true
  failIf (decide (maxPrincipalScopes < p.scopes.length)) .invalidPrincipal
  validateScopes 0 p.scopes

-- ---------------------------------------------------------------------------
-- The header
-- ---------------------------------------------------------------------------

def isTokenCharacter (c : UInt8) : Bool :=
  decide (97 ≤ c ∧ c ≤ 122) || decide (65 ≤ c ∧ c ≤ 90) || isDigit c || (str "-._~+/").contains c

def validTokenTail : GoString → Bool
  | [] => true
  | c :: rest =>
    if isTokenCharacter c then validTokenTail rest
    else if c = 61 then rest.all (· == 61)
    else false

def validBearerToken (token : GoString) : Bool :=
  !(token.isEmpty || token.head? == some 61) && validTokenTail token

def parseBearerHeader : List GoString → Except AuthError GoString
  | [] => .error .missingCredentials
  | _ :: _ :: _ => .error .duplicateCredentials
  | [raw] => do
    failIf (decide (maxBearerTokenBytes + (str "Bearer ").length < raw.length)) .credentialsTooLong
    failIf raw.isEmpty .invalidCredentials
    failIf (raw != trimSpace raw || raw.any fun c => c == 9 || c == 13 || c == 10)
      .invalidCredentials
    match indexByte raw 32 with
    | none => .error .invalidCredentials
    | some separator =>
      let token := raw.drop (separator + 1)
      failIf (separator == 0 || separator == raw.length - 1 || (indexByte token 32).isSome)
        .invalidCredentials
      failIf (!equalFold (raw.take separator) "Bearer") .unsupportedScheme
      failIf token.isEmpty .invalidCredentials
      failIf (decide (maxBearerTokenBytes < token.length)) .credentialsTooLong
      failIf (!validBearerToken token) .invalidCredentials
      pure token

/-- `http.Request`, as far as the security code reads it. The header is a map
in the order it is walked in. -/
structure Request where
  header : List (GoString × List GoString)
  remoteAddr : GoString
  path : GoString

def parseBearerToken : Option Request → Except AuthError GoString
  | none => .error .nilRequest
  | some request =>
    parseBearerHeader
      ((request.header.filter fun e => equalFold e.1 "Authorization").flatMap Prod.snd)

-- ---------------------------------------------------------------------------
-- The verifier
-- ---------------------------------------------------------------------------

def parseSHA256Digest (raw : GoString) : Except AuthError Digest :=
  if raw.length ≠ 64 ∨ raw ≠ trimSpace raw then .error .invalidDigest
  else
    match Hex.decode raw with
    | none => .error .invalidDigest
    | some decoded => if h : decoded.length = 32 then .ok ⟨decoded, h⟩ else .error .invalidDigest

structure BearerSHA256 where
  digest : Digest
  principal : Principal
  valid : principal.validate = .ok ()

def newBearerSHA256FromDigest (digest : Digest) (subject : GoString) :
    Except AuthError BearerSHA256 :=
  match h : Principal.validate { subject } with
  | .error err => .error err
  | .ok () => .ok ⟨digest, { subject }, h⟩

theorem newBearerSHA256FromDigest_ok (digest : Digest)
    (h : Principal.validate { subject } = .ok ()) :
    newBearerSHA256FromDigest digest subject = .ok ⟨digest, { subject }, h⟩ := by
  unfold newBearerSHA256FromDigest
  split
  · next herr =>
    rw [h] at herr
    cases herr
  · rfl

def newBearerSHA256WithSubject (digestHex subject : GoString) : Except AuthError BearerSHA256 := do
  let digest ← parseSHA256Digest digestHex
  newBearerSHA256FromDigest digest subject

def newBearerSHA256 (digestHex : GoString) : Except AuthError BearerSHA256 :=
  newBearerSHA256WithSubject digestHex defaultBearerSubject

/-- A request context as the three checks of `Authenticate` find it. -/
structure CheckedContext where
  atStart : Option ContextCause := none
  afterParse : Option ContextCause := none
  afterCompare : Option ContextCause := none
  deriving DecidableEq

def ensureRunning : Option ContextCause → Except AuthError Unit
  | none => .ok ()
  | some cause => .error (.context cause)

section
variable (H : Hashes)

/-- `Authenticate` of a verifier that is not nil. -/
def BearerSHA256.authenticate (v : BearerSHA256) (ctx : Option CheckedContext)
    (request : Option Request) :
    Except AuthError Principal := do
  match ctx with
  | none => .error .nilContext
  | some ctx =>
    ensureRunning ctx.atStart
    failIf request.isNone .nilRequest
    let token ← parseBearerToken request
    ensureRunning ctx.afterParse
    failIf (H.sum256 token != v.digest) .invalidCredentials
    ensureRunning ctx.afterCompare
    pure v.principal

end

def contextWithPrincipal (ctx : Option CheckedContext) (principal : Principal) :
    Except AuthError Principal := do
  failIf ctx.isNone .nilContext
  principal.validate
  pure principal

end GoClean.Auth
