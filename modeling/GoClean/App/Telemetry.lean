import GoClean.Go.Fmt
import GoClean.Go.Url
import GoClean.Item.Errors

/-!
# The tracing configuration

`telemetry.Config` and its normalization, which `Validate` and `New` share.
-/

namespace GoClean.App.Telemetry

open Go

def defaultServiceName : GoString := "unknown_service"
def defaultTracePath : GoString := "/v1/traces"
def maxServiceNameBytes : Nat := 128
def maxEnvironmentBytes : Nat := 128
def maxEndpointBytes : Nat := 2048

structure Config where
  endpoint : GoString
  insecure : Bool
  serviceName : GoString
  environment : GoString
  sampleRatio : Float64
  deriving DecidableEq

/-- The endpoint is kept as the URL whose text is used; `none` is the empty
text, no exporter. -/
structure NormalizedConfig where
  serviceName : GoString
  environment : GoString
  sampleRatio : Float64
  endpointURL : Option URL
  deriving DecidableEq

def validateText (label value : GoString) : Except Errorf Unit :=
  reject (!validString value || hasControl value)
    ⟨"telemetry: %s contains invalid control or UTF-8 data", [.string label]⟩

section
variable (parse : GoString → Option URL)

/-- The URL of a trimmed endpoint. A scheme must agree with the flag; without
one the flag chooses it. -/
def parseEndpoint (raw : GoString) (insecure : Bool) : Except Errorf URL :=
  if containsString raw "://" then
    match parse raw with
    | none => .error ⟨"telemetry: invalid OTLP endpoint", []⟩
    | some endpoint => do
      let scheme := toLower endpoint.scheme
      reject (scheme != str "http" && scheme != str "https")
        ⟨"telemetry: OTLP endpoint scheme must be http or https (got %q)",
          [.string endpoint.scheme]⟩
      reject ((scheme == str "http") != insecure)
        ⟨"telemetry: endpoint scheme and insecure flag disagree", []⟩
      pure { endpoint with scheme := scheme }
  else
    match parse (str "https://" ++ raw) with
    | none => .error ⟨"telemetry: invalid OTLP endpoint", []⟩
    | some endpoint => .ok (if insecure then { endpoint with scheme := "http" } else endpoint)

def normalizeEndpoint (raw : GoString) (insecure : Bool) : Except Errorf (Option URL) := do
  let raw := trimSpace raw
  reject (decide (maxEndpointBytes < raw.length))
    ⟨"telemetry: OTLP endpoint must be at most %d bytes", [.int maxEndpointBytes]⟩
  if raw = [] then pure none
  else
    reject (hasSpace raw) ⟨"telemetry: OTLP endpoint must not contain whitespace", []⟩
    let endpoint ← parseEndpoint parse raw insecure
    reject (endpoint.host.isEmpty || endpoint.hostname.isEmpty || endpoint.user ||
      endpoint.forceQuery ||
        !endpoint.rawQuery.isEmpty || !endpoint.fragment.isEmpty || !endpoint.opaquePart.isEmpty)
      ⟨"telemetry: invalid OTLP endpoint", []⟩
    reject (!validPort endpoint.port) ⟨"telemetry: invalid OTLP endpoint port %q",
      [.string endpoint.port]⟩
    let path := if endpoint.path = [] ∨ endpoint.path = str "/" then defaultTracePath
      else endpoint.path
    reject (!hasPrefix path (str "/")) ⟨"telemetry: invalid OTLP endpoint path", []⟩
    pure (some { endpoint with path := path, rawPath := [] })

def normalizeConfig (cfg : Config) : Except Errorf NormalizedConfig := do
  let trimmed := trimSpace cfg.serviceName
  let serviceName := if trimmed = [] then defaultServiceName else trimmed
  validateText "service name" serviceName
  reject (decide (maxServiceNameBytes < serviceName.length))
    ⟨"telemetry: service name must be at most %d bytes", [.int maxServiceNameBytes]⟩
  let environment := trimSpace cfg.environment
  validateText "environment" environment
  reject (decide (maxEnvironmentBytes < environment.length))
    ⟨"telemetry: environment must be at most %d bytes", [.int maxEnvironmentBytes]⟩
  let ratio := cfg.sampleRatio
  reject (ratio.isNaN || ratio.isInf || ratio.lt (.finite 0) || Float64.lt (.finite 1) ratio)
    ⟨"telemetry: sample ratio must be between 0 and 1 (got %v)", [.float cfg.sampleRatio]⟩
  let endpointURL ← normalizeEndpoint parse cfg.endpoint cfg.insecure
  pure ⟨serviceName, environment, ratio, endpointURL⟩

def Config.validate (cfg : Config) : Except Errorf Unit := do
  let _ ← normalizeConfig parse cfg
  pure ()

end

end GoClean.App.Telemetry
