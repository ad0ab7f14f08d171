import GoClean.Go.Fmt
import GoClean.Go.Url
import GoClean.Item.Errors

/-!
# The configuration

`config.Config` with its `Validate`, check by check in the order of the
source. `url.Parse` is the parameter `parse`; `none` is its error.
-/

namespace GoClean.App

open Go

def defaultOTELTracesSampler : GoString := "parentbased_traceidratio"
def developmentCursorKey : GoString :=
  "000102030405060708090a0b0c0d0e0f101112131415161718191a1b1c1d1e1f"
def maxOTELServiceNameBytes : Nat := 128
def maxOTELSamplerBytes : Nat := 64
def maxOTLPEndpointBytes : Nat := 2048
def maxAuthDigestBytes : Nat := 64
def maxRateLimitRPS : ℚ := 100000
def maxRateLimitBurst : Int := 100000
def maxRateLimitMaxClients : Int := 1000000
def maxRateLimitIdleTTL : Duration := 24 * Duration.hour
def maxCursorSigningKeyBytes : Nat := 32

structure Config where
  appEnv : GoString
  httpPort : GoString
  logLevel : GoString
  databaseURL : GoString
  metricsEnabled : Bool
  otelServiceName : GoString
  otelExporterOTLPEndpoint : GoString
  otelExporterOTLPInsecure : Bool
  otelTracesSampler : GoString
  otelTracesSamplerArg : Float64
  authEnabled : Bool
  authBearerTokenSHA256 : GoString
  rateLimitEnabled : Bool
  rateLimitRequestsPerSecond : Float64
  rateLimitBurst : Int
  rateLimitMaxClients : Int
  rateLimitIdleTTL : Duration
  cursorSigningKey : GoString
  deriving DecidableEq

def validateText (name value : GoString) : Except Errorf Unit :=
  reject (!validString value || hasControl value)
    ⟨"config: %s contains invalid control or UTF-8 data", [.string name]⟩

def outside (x : Float64) (below above : Bool) : Bool := x.isNaN || x.isInf || below || above

section
variable (parse : GoString → Option URL)

/-- An endpoint without a scheme is checked as HTTPS, and its flag is free. -/
def validateOTLPEndpoint (raw : GoString) (insecure : Bool) : Except Errorf Unit :=
  let raw := trimSpace raw
  if raw = [] then .ok ()
  else do
    reject (hasSpace raw) ⟨"config: OTEL_EXPORTER_OTLP_ENDPOINT must not contain whitespace", []⟩
    let hasScheme := containsString raw "://"
    match parse (if hasScheme then raw else str "https://" ++ raw) with
    | none => .error ⟨"config: invalid OTEL_EXPORTER_OTLP_ENDPOINT", []⟩
    | some endpoint =>
      let scheme := toLower endpoint.scheme
      reject (scheme != str "http" && scheme != str "https")
        ⟨"config: OTEL_EXPORTER_OTLP_ENDPOINT scheme must be http or https", []⟩
      reject (endpoint.host.isEmpty || endpoint.hostname.isEmpty || endpoint.user ||
        endpoint.forceQuery ||
          !endpoint.rawQuery.isEmpty || !endpoint.fragment.isEmpty || !endpoint.opaquePart.isEmpty)
        ⟨"config: invalid OTEL_EXPORTER_OTLP_ENDPOINT", []⟩
      reject (!validPort endpoint.port) ⟨"config: invalid OTEL_EXPORTER_OTLP_ENDPOINT port", []⟩
      reject (hasScheme && (scheme == str "http") != insecure)
        ⟨"config: OTEL_EXPORTER_OTLP_ENDPOINT scheme and OTEL_EXPORTER_OTLP_INSECURE disagree", []⟩

def endpointUsesHTTP (raw : GoString) : Bool := hasPrefix (toLower (trimSpace raw)) (str "http://")

namespace Config

def textSettings (c : Config) : List (GoString × GoString) :=
  [("APP_ENV", c.appEnv), ("HTTP_PORT", c.httpPort), ("LOG_LEVEL", c.logLevel),
    ("DATABASE_URL", c.databaseURL),
   ("OTEL_SERVICE_NAME", c.otelServiceName),
   ("OTEL_EXPORTER_OTLP_ENDPOINT", c.otelExporterOTLPEndpoint),
   ("OTEL_TRACES_SAMPLER", c.otelTracesSampler),
   ("AUTH_BEARER_TOKEN_SHA256", c.authBearerTokenSHA256),
   ("CURSOR_SIGNING_KEY", c.cursorSigningKey)]

def production (c : Config) : Bool := trimSpace c.appEnv == str "production"

def validateAuthDigest (c : Config) : Except Errorf Unit :=
  if c.authBearerTokenSHA256 = [] then .ok ()
  else do
    reject (c.authBearerTokenSHA256.length != maxAuthDigestBytes)
      ⟨"config: AUTH_BEARER_TOKEN_SHA256 must be a %d-character SHA-256 hex digest",
        [.int maxAuthDigestBytes]⟩
    reject (Hex.decode c.authBearerTokenSHA256).isNone
      ⟨"config: AUTH_BEARER_TOKEN_SHA256 must be hexadecimal", []⟩

def validateCursorSigningKey (c : Config) : Except Errorf Unit :=
  let cursorSigningKey := trimSpace c.cursorSigningKey
  if cursorSigningKey ≠ [] then do
    reject (cursorSigningKey.length != maxCursorSigningKeyBytes * 2)
      ⟨"config: CURSOR_SIGNING_KEY must be a %d-character SHA-256 hex key",
        [.int (maxCursorSigningKeyBytes * 2)]⟩
    reject (Hex.decode cursorSigningKey).isNone
      ⟨"config: CURSOR_SIGNING_KEY must be hexadecimal", []⟩
    reject (c.production && equalFold cursorSigningKey developmentCursorKey)
      ⟨"config: CURSOR_SIGNING_KEY must not use the development placeholder in production", []⟩
  else reject c.production ⟨"config: CURSOR_SIGNING_KEY must be set in production", []⟩

def validateRateLimit (c : Config) : Except Errorf Unit :=
  let rps := c.rateLimitRequestsPerSecond
  if c.rateLimitEnabled then do
    reject (outside rps (rps.le (.finite 0)) (Float64.lt (.finite maxRateLimitRPS) rps))
      ⟨"config: RATE_LIMIT_REQUESTS_PER_SECOND must be greater than 0 and at most %g",
        [.float (.finite maxRateLimitRPS)]⟩
    reject (decide (c.rateLimitBurst < 1 ∨ maxRateLimitBurst < c.rateLimitBurst))
      ⟨"config: RATE_LIMIT_BURST must be between 1 and %d", [.int maxRateLimitBurst]⟩
    reject (decide (c.rateLimitMaxClients < 1 ∨ maxRateLimitMaxClients < c.rateLimitMaxClients))
      ⟨"config: RATE_LIMIT_MAX_CLIENTS must be between 1 and %d", [.int maxRateLimitMaxClients]⟩
    reject (decide (c.rateLimitIdleTTL < Duration.second ∨
      maxRateLimitIdleTTL < c.rateLimitIdleTTL))
      ⟨"config: RATE_LIMIT_IDLE_TTL must be between 1s and %s", [.duration maxRateLimitIdleTTL]⟩
  else do
    reject (outside rps (rps.lt (.finite 0)) (Float64.lt (.finite maxRateLimitRPS) rps))
      ⟨"config: RATE_LIMIT_REQUESTS_PER_SECOND is outside its allowed range", []⟩
    reject (decide (c.rateLimitBurst < 0 ∨ maxRateLimitBurst < c.rateLimitBurst))
      ⟨"config: RATE_LIMIT_BURST is outside its allowed range", []⟩
    reject (decide (c.rateLimitMaxClients < 0 ∨ maxRateLimitMaxClients < c.rateLimitMaxClients))
      ⟨"config: RATE_LIMIT_MAX_CLIENTS is outside its allowed range", []⟩
    reject (decide (c.rateLimitIdleTTL < 0 ∨ maxRateLimitIdleTTL < c.rateLimitIdleTTL))
      ⟨"config: RATE_LIMIT_IDLE_TTL is outside its allowed range", []⟩

def validate (c : Config) : Except Errorf Unit := do
  c.textSettings.forM fun (name, value) => validateText name value
  reject (decide (maxOTELServiceNameBytes < c.otelServiceName.length))
    ⟨"config: OTEL_SERVICE_NAME must be at most %d bytes", [.int maxOTELServiceNameBytes]⟩
  reject (decide (maxOTELSamplerBytes < c.otelTracesSampler.length))
    ⟨"config: OTEL_TRACES_SAMPLER must be at most %d bytes", [.int maxOTELSamplerBytes]⟩
  reject (decide (maxOTLPEndpointBytes < c.otelExporterOTLPEndpoint.length))
    ⟨"config: OTEL_EXPORTER_OTLP_ENDPOINT must be at most %d bytes", [.int maxOTLPEndpointBytes]⟩
  c.validateAuthDigest
  c.validateCursorSigningKey
  reject (trimSpace c.databaseURL).isEmpty ⟨"config: DATABASE_URL must not be empty", []⟩
  reject ((atoi (trimSpace c.httpPort)).all fun port => decide (port < 1 ∨ 65535 < port))
    ⟨"config: HTTP_PORT must be an integer between 1 and 65535 (got %q)", [.string c.httpPort]⟩
  reject (trimSpace c.appEnv).isEmpty ⟨"config: APP_ENV must not be empty", []⟩
  reject (trimSpace c.logLevel).isEmpty ⟨"config: LOG_LEVEL must not be empty", []⟩
  let sampler := trimSpace c.otelTracesSampler
  reject (!sampler.isEmpty && sampler != defaultOTELTracesSampler)
    ⟨"config: OTEL_TRACES_SAMPLER must be %q", [.string defaultOTELTracesSampler]⟩
  let ratio := c.otelTracesSamplerArg
  reject (outside ratio (ratio.lt (.finite 0)) (Float64.lt (.finite 1) ratio))
    ⟨"config: OTEL_TRACES_SAMPLER_ARG must be between 0 and 1", []⟩
  validateOTLPEndpoint parse c.otelExporterOTLPEndpoint c.otelExporterOTLPInsecure
  reject (c.production && c.otelExporterOTLPInsecure)
    ⟨"config: OTEL_EXPORTER_OTLP_INSECURE must be false in production", []⟩
  reject (c.production && endpointUsesHTTP c.otelExporterOTLPEndpoint)
    ⟨"config: OTEL_EXPORTER_OTLP_ENDPOINT must use HTTPS in production", []⟩
  reject (c.authEnabled && c.authBearerTokenSHA256.isEmpty)
    ⟨"config: AUTH_BEARER_TOKEN_SHA256 must be set when AUTH_ENABLED is true", []⟩
  c.validateRateLimit

/-- `CursorSigningKeyBytes`; no bytes for an empty setting. -/
def cursorSigningKeyBytes (c : Config) : Except Errorf (List UInt8) :=
  let value := trimSpace c.cursorSigningKey
  if value = [] then .ok []
  else
    match Hex.decode value with
    | some decoded =>
      if decoded.length ≠ maxCursorSigningKeyBytes then
        .error ⟨"config: invalid CURSOR_SIGNING_KEY", []⟩
      else .ok decoded
    | none => .error ⟨"config: invalid CURSOR_SIGNING_KEY", []⟩

end Config

end

end GoClean.App
