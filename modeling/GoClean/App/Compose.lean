import GoClean.App.Config
import GoClean.App.Telemetry
import GoClean.Auth.Bearer
import GoClean.Item.Cursor
import GoClean.RateLimit.Limiter

/-!
# The composition root

What `RunContext` builds from a configuration that `Validate` accepts. The
checks are written once in the configuration and once more in each package;
one lemma for each constructor says that the first imply the second.
-/

namespace GoClean.App

open Go

structure Accepted (parse : GoString → Option URL) (c : Config) : Prop where
  texts : ∀ p ∈ c.textSettings, validString p.2 = true ∧ hasControl p.2 = false
  serviceName_le : c.otelServiceName.length ≤ maxOTELServiceNameBytes
  endpoint_le : c.otelExporterOTLPEndpoint.length ≤ maxOTLPEndpointBytes
  authDigest : c.validateAuthDigest = .ok ()
  cursorKey : c.validateCursorSigningKey = .ok ()
  ratio : outside c.otelTracesSamplerArg (c.otelTracesSamplerArg.lt (.finite 0))
    (Float64.lt (.finite 1) c.otelTracesSamplerArg) = false
  endpoint : validateOTLPEndpoint parse c.otelExporterOTLPEndpoint c.otelExporterOTLPInsecure =
    .ok ()
  secure : c.production = true → c.otelExporterOTLPInsecure = false
  https : c.production = true → endpointUsesHTTP c.otelExporterOTLPEndpoint = false
  authSet : c.authEnabled = true → c.authBearerTokenSHA256 ≠ []
  rateLimit : c.validateRateLimit = .ok ()

theorem validateText_ok :
    validateText name value = .ok u ↔ validString value = true ∧ hasControl value = false := by
  simp [validateText]

theorem forM_ok {l : List α} {f : α → Except ε Unit} :
    l.forM f = .ok u ↔ ∀ a ∈ l, f a = .ok () := by
  induction l with
  | nil => simp [List.forM_nil, pure, Except.pure]
  | cons a rest ih =>
    rw [List.forall_mem_cons, ← ih]
    exact bind_ok.trans ⟨fun ⟨_, ha, hrest⟩ => ⟨ha, hrest⟩, fun ⟨ha, hrest⟩ => ⟨_, ha, hrest⟩⟩

variable {parse : GoString → Option URL} {c : Config}

theorem validate_accepted (h : c.validate parse = .ok u) : Accepted parse c := by
  simp only [Config.validate, bind_ok, reject_ok, forM_ok, validateText_ok, decide_eq_false_iff_not,
    not_lt, Bool.and_eq_false_iff] at h
  obtain ⟨_, htexts, _, hservice, _, -, _, hendpointLen, _, hauth, _, hcursor, _, -, _, -, _, -, _,
    -, _, -, _, hratio, _, hendpoint, _, hsecure, _, hhttps, _, hset, hrate⟩ := h
  exact {
    texts := htexts
    serviceName_le := hservice
    endpoint_le := hendpointLen
    authDigest := hauth
    cursorKey := hcursor
    ratio := hratio
    endpoint := hendpoint
    secure := fun hp => hsecure.resolve_left (by simp [hp])
    https := fun hp => hhttps.resolve_left (by simp [hp])
    authSet := fun ha => by simpa using hset.resolve_left (by simp [ha])
    rateLimit := hrate }

-- ---------------------------------------------------------------------------
-- The cursor codec
-- ---------------------------------------------------------------------------

def cursorCodecPurpose : GoString := "items:list:created_at_desc_id_desc:v1"

theorem cursorSigningKeyBytes_set (h : c.validateCursorSigningKey = .ok u)
    (hset : trimSpace c.cursorSigningKey ≠ []) :
    ∃ key, Hex.decode (trimSpace c.cursorSigningKey) = some key ∧
    c.cursorSigningKeyBytes = .ok key ∧
      key.length = 32 := by
  simp only [Config.validateCursorSigningKey, ne_eq, hset, not_false_eq_true, if_true, bind_ok,
    reject_ok, bne_eq_false_iff_eq, Option.isNone_eq_false_iff, Option.isSome_iff_exists] at h
  obtain ⟨_, hlen, _, ⟨key, hdecode⟩, -⟩ := h
  have hbytes : key.length = maxCursorSigningKeyBytes := by
    have hpairs := (Hex.decode_some hdecode).1
    simp only [hlen, maxCursorSigningKeyBytes] at hpairs ⊢
    omega
  exact ⟨key, hdecode, by simp [Config.cursorSigningKeyBytes, hset, hdecode, hbytes], hbytes⟩

theorem cursorSigningKeyBytes_ok (h : c.validateCursorSigningKey = .ok u) :
    ∃ key, c.cursorSigningKeyBytes = .ok key ∧ (key = [] ∨ key.length = 32) := by
  by_cases hempty : trimSpace c.cursorSigningKey = []
  · exact ⟨[], by simp [Config.cursorSigningKeyBytes, hempty], .inl rfl⟩
  · obtain ⟨key, -, hkey, hlen⟩ := cursorSigningKeyBytes_set h hempty
    exact ⟨key, hkey, .inr hlen⟩

theorem newCursorCodec_ok (H : Hashes) {key : List UInt8} (h : key.length = 32) :
    ∃ codec, newSignedCursorCodec H key [withCursorPurpose cursorCodecPurpose] = .ok codec := by
  have hconfig : validateCursorCodecConfig ⟨defaultCursorTTL, cursorCodecPurpose⟩ = .ok () := by
    decide +kernel
  refine ⟨⟨H.sum256 key, defaultCursorTTL, cursorCodecPurpose⟩, ?_⟩
  simp only [newSignedCursorCodec, bind_ok, ensure_ok, pure_ok]
  exact ⟨(), by simp [h, minCursorSigningKeyBytes], (), hconfig, rfl⟩

-- ---------------------------------------------------------------------------
-- The verifier and the limiter
-- ---------------------------------------------------------------------------

theorem newBearerSHA256_ok (h : c.validateAuthDigest = .ok u)
    (hset : c.authBearerTokenSHA256 ≠ []) :
    ∃ v, Auth.newBearerSHA256 c.authBearerTokenSHA256 = .ok v := by
  simp only [Config.validateAuthDigest, hset, if_false, bind_ok, reject_ok, bne_eq_false_iff_eq,
    Option.isNone_eq_false_iff, Option.isSome_iff_exists] at h
  obtain ⟨_, hlen, decoded, hdecode⟩ := h
  have hbytes : decoded.length = 32 := by
    have hpairs := (Hex.decode_some hdecode).1
    rw [hlen, maxAuthDigestBytes] at hpairs
    omega
  obtain ⟨digest, hparse⟩ : ∃ digest, Auth.parseSHA256Digest c.authBearerTokenSHA256 = .ok digest :=
    ⟨⟨decoded, hbytes⟩, by
      simp [Auth.parseSHA256Digest, hlen, maxAuthDigestBytes, Hex.trimSpace_of_decode hdecode,
        hdecode, hbytes]⟩
  have hsubject : Auth.Principal.validate { subject := Auth.defaultBearerSubject } = .ok () := by
    decide +kernel
  refine ⟨⟨digest, _, hsubject⟩, ?_⟩
  rw [Auth.newBearerSHA256, Auth.newBearerSHA256WithSubject, hparse, ok_bind]
  exact Auth.newBearerSHA256FromDigest_ok _ hsubject

def rateLimitConfig (c : Config) : RateLimit.Config where
  capacity := c.rateLimitBurst
  refillRate := c.rateLimitRequestsPerSecond
  maxClients := c.rateLimitMaxClients
  idleTTL := c.rateLimitIdleTTL
  overflow := .rejectNew

theorem rateLimitConfig_valid (h : c.validateRateLimit = .ok u)
    (henabled : c.rateLimitEnabled = true) :
    (rateLimitConfig c).Valid := by
  simp only [Config.validateRateLimit, henabled, if_true, bind_ok, reject_ok,
    decide_eq_false_iff_not, not_or, not_lt] at h
  obtain ⟨_, hrate, _, hburst, _, hclients, httl⟩ := h
  simp only [outside, Bool.or_eq_false_iff (y := Float64.lt _ _)] at hrate
  obtain ⟨heq, hpos, hle⟩ := RateLimit.refillRate_checks.mp hrate
  exact {
    capacity_pos := hburst.1
    capacity_le := hburst.2
    refillRate_eq := heq
    refillRate_pos := hpos
    refillRate_le := hle
    maxClients_pos := hclients.1
    maxClients_le := hclients.2
    idleTTL_nonneg := le_trans (by decide) httl.1
    idleTTL_le := httl.2
    overflow_known := .inl rfl }

-- ---------------------------------------------------------------------------
-- Tracing
-- ---------------------------------------------------------------------------

/-- `url.Parse` gives a URL with a host an empty or a rooted path. -/
def RootedPaths (parse : GoString → Option URL) : Prop :=
  ∀ text u, parse text = some u → u.host ≠ [] → u.path = [] ∨ hasPrefix u.path (str "/") = true

def telemetryConfig (c : Config) : Telemetry.Config where
  endpoint := c.otelExporterOTLPEndpoint
  insecure := c.otelExporterOTLPInsecure
  serviceName := c.otelServiceName
  environment := c.appEnv
  sampleRatio := c.otelTracesSamplerArg

def endpointParts (u : URL) : Bool :=
  !(u.host.isEmpty || u.hostname.isEmpty || u.user || u.forceQuery || !u.rawQuery.isEmpty ||
    !u.fragment.isEmpty ||
    !u.opaquePart.isEmpty) && validPort u.port

/-- An accepted endpoint is none, or a URL whose scheme agrees with the flag
where it has one. -/
theorem validateOTLPEndpoint_ok (h : validateOTLPEndpoint parse raw insecure = .ok u) :
    trimSpace raw = [] ∨ hasSpace (trimSpace raw) = false ∧ ∃ endpoint,
      parse (if containsString (trimSpace raw) "://" then trimSpace raw else
        str "https://" ++ trimSpace raw) =
        some endpoint ∧
      (toLower endpoint.scheme != str "http" && toLower endpoint.scheme != str "https") = false ∧
      endpointParts endpoint = true ∧
      (containsString (trimSpace raw) "://" = true →
        ((toLower endpoint.scheme == str "http") != insecure) = false) := by
  by_cases hempty : trimSpace raw = []
  · exact .inl hempty
  · simp only [validateOTLPEndpoint, hempty, if_false, bind_ok, reject_ok] at h
    obtain ⟨_, hspace, h⟩ := h
    split at h
    · cases h
    · next endpoint hparse =>
      simp only [bind_ok, reject_ok] at h
      obtain ⟨_, hscheme, _, hparts, _, hport, hagree⟩ := h
      refine .inr ⟨hspace, endpoint, hparse, hscheme, ?_, fun hs => ?_⟩
      · rw [endpointParts, hparts]
        simpa using hport
      · simpa [hs] using hagree

theorem parseEndpoint_ok
    (hparse : parse (if containsString raw "://" then raw else str "https://" ++ raw) =
      some endpoint)
    (hscheme : (toLower endpoint.scheme != str "http" && toLower endpoint.scheme != str "https") =
      false)
    (hagree : containsString raw "://" = true →
      ((toLower endpoint.scheme == str "http") != insecure) = false) :
    ∃ scheme, Telemetry.parseEndpoint parse raw insecure =
      .ok { endpoint with scheme := scheme } := by
  unfold Telemetry.parseEndpoint
  cases hs : containsString raw "://" with
  | true =>
    rw [hs, if_pos rfl] at hparse
    refine ⟨toLower endpoint.scheme, ?_⟩
    simp only [if_true, hparse, bind_ok, reject_ok, pure_ok]
    exact ⟨(), hscheme, (), hagree hs, trivial⟩
  | false =>
    rw [hs, if_neg Bool.false_ne_true] at hparse
    simp only [Bool.false_eq_true, if_false, hparse]
    cases insecure with
    | true => exact ⟨str "http", rfl⟩
    | false => exact ⟨endpoint.scheme, rfl⟩

theorem normalizeEndpoint_ok (hrooted : RootedPaths parse)
    (hlen : raw.length ≤ maxOTLPEndpointBytes)
    (h : validateOTLPEndpoint parse raw insecure = .ok u) :
    ∃ url, Telemetry.normalizeEndpoint parse raw insecure = .ok url := by
  have hshort : ¬Telemetry.maxEndpointBytes < (trimSpace raw).length :=
    not_lt.mpr (le_trans (length_trimSpace_le raw) hlen)
  rcases validateOTLPEndpoint_ok h with hempty | ⟨hspace, endpoint, hparse, hscheme, hparts, hagree⟩
  · exact ⟨none, by simp [Telemetry.normalizeEndpoint, hempty, reject]⟩
  · obtain ⟨scheme, hurl⟩ := parseEndpoint_ok hparse hscheme hagree
    simp only [endpointParts, Bool.and_eq_true, Bool.not_eq_true'] at hparts
    have hhost : endpoint.host ≠ [] := fun hnil => by simp [hnil] at hparts
    have hpath : hasPrefix (if endpoint.path = [] ∨ endpoint.path = str "/" then
      Telemetry.defaultTracePath
        else endpoint.path) (str "/") = true := by
      split
      · decide +kernel
      · next hpath =>
        exact (hrooted _ endpoint hparse hhost).resolve_left fun hnil => hpath (.inl hnil)
    by_cases hempty : trimSpace raw = []
    · exact ⟨none, by simp [Telemetry.normalizeEndpoint, hempty, reject]⟩
    · let path := if endpoint.path = [] ∨ endpoint.path = str "/" then Telemetry.defaultTracePath
        else endpoint.path
      refine ⟨some { endpoint with scheme := scheme, path := path, rawPath := [] }, ?_⟩
      simp only [Telemetry.normalizeEndpoint, hempty, if_false, bind_ok, reject_ok, hurl, pure_ok]
      refine ⟨(), decide_eq_false hshort, (), hspace, _, rfl, (), hparts.1, (), ?_, (), ?_, rfl⟩
      · exact congrArg Bool.not hparts.2
      · simpa using hpath

theorem telemetry_validateText_ok :
    Telemetry.validateText label value = .ok u ↔ validString value = true ∧
    hasControl value = false := by
  simp [Telemetry.validateText]

theorem serviceName_ok (h : Accepted parse c) :
    let name := if trimSpace c.otelServiceName = [] then Telemetry.defaultServiceName else
    trimSpace c.otelServiceName
    (validString name = true ∧ hasControl name = false) ∧
      name.length ≤ Telemetry.maxServiceNameBytes := by
  dsimp only
  split
  · decide +kernel
  · obtain ⟨hvalid, hcontrol⟩ :=
      h.texts ("OTEL_SERVICE_NAME", c.otelServiceName) (by simp [Config.textSettings])
    exact ⟨⟨validString_trimSpace hvalid, hasControl_trimSpace hcontrol⟩,
      le_trans (length_trimSpace_le _) h.serviceName_le⟩

/-- The tracing configuration is accepted exactly when the trimmed
environment is short enough. -/
theorem telemetryConfig_ok_iff (hrooted : RootedPaths parse) (h : Accepted parse c) :
    (telemetryConfig c).validate parse = .ok () ↔ (trimSpace c.appEnv).length ≤
      Telemetry.maxEnvironmentBytes := by
  obtain ⟨hname, hnameLen⟩ := serviceName_ok h
  obtain ⟨hvalid, hcontrol⟩ := h.texts ("APP_ENV", c.appEnv) (by simp [Config.textSettings])
  have henv := And.intro (validString_trimSpace hvalid) (hasControl_trimSpace hcontrol)
  obtain ⟨url, hurl⟩ := normalizeEndpoint_ok hrooted h.endpoint_le h.endpoint
  simp only [Telemetry.Config.validate, Telemetry.normalizeConfig, telemetryConfig, bind_ok,
    reject_ok, pure_ok, telemetry_validateText_ok]
  constructor
  · rintro ⟨_, ⟨_, -, _, -, _, -, _, hlen, -⟩, -⟩
    exact not_lt.mp (of_decide_eq_false hlen)
  · intro hlen
    exact ⟨_, ⟨(), hname, (), decide_eq_false (not_lt.mpr hnameLen), (), henv, (),
      decide_eq_false (not_lt.mpr hlen), (), h.ratio, url, hurl, rfl⟩, trivial⟩

-- ---------------------------------------------------------------------------
-- The composition
-- ---------------------------------------------------------------------------

/-- Every constructor `RunContext` calls with values of the configuration
accepts them. -/
structure Composes (H : Hashes) (parse : GoString → Option URL) (c : Config) : Prop where
  telemetry : (telemetryConfig c).validate parse = .ok ()
  cursorCodec : ∃ key, c.cursorSigningKeyBytes = .ok key ∧
    (key ≠ [] → ∃ codec, newSignedCursorCodec H key [withCursorPurpose cursorCodecPurpose] =
      .ok codec)
  verifier : c.authEnabled = true → ∃ v, Auth.newBearerSHA256 c.authBearerTokenSHA256 = .ok v
  limiter : c.rateLimitEnabled = true → ∃ l, RateLimit.new (rateLimitConfig c) = .ok l

/-- A configuration that `Validate` accepts composes exactly when its
environment, trimmed, has at most 128 bytes, which only tracing checks. -/
theorem composes_iff (H : Hashes) (hrooted : RootedPaths parse)
    (hvalid : c.validate parse = .ok ()) :
    Composes H parse c ↔ (trimSpace c.appEnv).length ≤ Telemetry.maxEnvironmentBytes := by
  have haccepted := validate_accepted hvalid
  constructor
  · exact fun h => (telemetryConfig_ok_iff hrooted haccepted).mp h.telemetry
  · intro hlen
    obtain ⟨key, hkey, hbytes⟩ := cursorSigningKeyBytes_ok haccepted.cursorKey
    exact {
      telemetry := (telemetryConfig_ok_iff hrooted haccepted).mpr hlen
      cursorCodec := ⟨key, hkey, fun hne => newCursorCodec_ok H (hbytes.resolve_left hne)⟩
      verifier := fun henabled => newBearerSHA256_ok haccepted.authDigest
        (haccepted.authSet henabled)
      limiter := fun henabled => RateLimit.new_of_valid
        (rateLimitConfig_valid haccepted.rateLimit henabled) }

def Config.sample : Config where
  appEnv := "staging"
  httpPort := "8080"
  logLevel := "info"
  databaseURL := "postgres://db/app"
  metricsEnabled := true
  otelServiceName := "items"
  otelExporterOTLPEndpoint := " collector:4318 "
  otelExporterOTLPInsecure := true
  otelTracesSampler := ""
  otelTracesSamplerArg := .finite (1 / 10)
  authEnabled := true
  authBearerTokenSHA256 := developmentCursorKey
  rateLimitEnabled := true
  rateLimitRequestsPerSecond := .finite 10
  rateLimitBurst := 20
  rateLimitMaxClients := 1
  rateLimitIdleTTL := 600 * Duration.second
  cursorSigningKey := developmentCursorKey

/-- `url.Parse` at the one text it is called with. -/
def sampleParse (text : GoString) : Option URL :=
  if text = str "https://collector:4318" then some { scheme := "https", host := "collector:4318" }
    else none

theorem sampleParse_rooted : RootedPaths sampleParse := by
  intro text u h _
  unfold sampleParse at h
  split at h
  · cases h
    exact .inl rfl
  · cases h

theorem composes_sample : Composes Hashes.go sampleParse Config.sample :=
  (composes_iff Hashes.go sampleParse_rooted (by decide +kernel)).mpr (by decide +kernel)

/-- An environment name of 129 bytes is accepted, and tracing is not set up. -/
theorem long_environment_accepted_not_composed :
    Config.validate sampleParse { Config.sample with appEnv := .replicate 129 97 } = .ok () ∧
    (telemetryConfig { Config.sample with appEnv := .replicate 129 97 }).validate sampleParse =
      .error ⟨"telemetry: environment must be at most %d bytes", [.int 128]⟩ := by
  decide +kernel

end GoClean.App
