import GoClean.App.Compose

/-!
# Production

What `Validate` adds when the environment is `production`: traces leave over
TLS only, and cursors are signed with a key that is not the one in the
repository. The endpoint is read by two packages; the exporter uses what
`telemetry` makes of it.
-/

namespace GoClean.App

open Go

/-- `url.Parse` reads the scheme off a text that starts with `https://`. -/
def ReadsHTTPS (parse : GoString → Option URL) : Prop :=
  ∀ rest u, parse (str "https://" ++ rest) = some u → u.scheme = str "https"

variable {parse : GoString → Option URL} {c : Config}

-- ---------------------------------------------------------------------------
-- The endpoint
-- ---------------------------------------------------------------------------

namespace Telemetry

/-- The text `normalizeEndpoint` returns, which is empty next to an error. -/
def endpointText : Except Errorf (Option URL) → GoString
  | .ok (some endpoint) => endpoint.string
  | .ok none => []
  | .error _ => []

theorem parseEndpoint_secure (hparse : ReadsHTTPS parse)
    (h : parseEndpoint parse raw false = .ok endpoint) :
    endpoint.scheme = str "https" := by
  unfold parseEndpoint at h
  split at h
  · split at h
    · cases h
    · next parsed _ =>
      -- The flag excludes `http`, and there is no third scheme.
      simp only [bind_ok, reject_ok, pure_ok] at h
      obtain ⟨_, hknown, _, hagree, rfl⟩ := h
      dsimp only
      cases hhttp : toLower parsed.scheme == str "http" with
      | true => simp [hhttp] at hagree
      | false => simpa [bne, hhttp] using hknown
  · split at h
    · cases h
    · next parsed hparsed =>
      cases h
      exact hparse raw parsed hparsed

theorem normalizeEndpoint_secure (hparse : ReadsHTTPS parse)
    (h : normalizeEndpoint parse raw false = .ok (some endpoint)) :
    endpoint.scheme = str "https" := by
  simp only [normalizeEndpoint, bind_ok, reject_ok] at h
  obtain ⟨_, -, h⟩ := h
  split at h
  · cases h
  · simp only [bind_ok, reject_ok, pure_ok] at h
    obtain ⟨_, -, parsed, hparsed, _, -, _, -, _, -, heq⟩ := h
    have hscheme := parseEndpoint_secure hparse hparsed
    cases heq
    exact hscheme

theorem endpointText_secure (hparse : ReadsHTTPS parse) (raw : GoString) :
    endpointText (normalizeEndpoint parse raw false) = [] ∨
      hasPrefix (endpointText (normalizeEndpoint parse raw false)) (str "https://") = true := by
  match h : normalizeEndpoint parse raw false with
  | .error _ => exact .inl rfl
  | .ok none => exact .inl rfl
  | .ok (some endpoint) =>
    have hscheme := normalizeEndpoint_secure hparse h
    have hstart := URL.string_hasScheme (u := endpoint) (by rw [hscheme]; decide)
    rw [hscheme] at hstart
    exact .inr hstart

end Telemetry

-- ---------------------------------------------------------------------------
-- The signing key
-- ---------------------------------------------------------------------------

/-- A key that is not the placeholder as a text is not the placeholder as
bytes: only the case of its digits is lost in decoding. -/
theorem decode_ne_development (h : equalFold key developmentCursorKey = false)
    (hkey : Hex.decode key = some bytes) :
    Hex.decode developmentCursorKey ≠ some bytes := by
  intro hdevelopment
  have hlower : toLower key = toLower developmentCursorKey :=
    (Hex.toLower_of_decode hkey).trans (Hex.toLower_of_decode hdevelopment).symm
  have hfold := (equalFold_iff (by decide)).mpr hlower
  rw [h] at hfold
  cases hfold

theorem production_key (hprod : c.production = true) (h : c.validateCursorSigningKey = .ok u) :
    ∃ key, c.cursorSigningKeyBytes = .ok key ∧ key.length = 32 ∧
    Hex.decode developmentCursorKey ≠ some key := by
  by_cases hempty : trimSpace c.cursorSigningKey = []
  · simp [Config.validateCursorSigningKey, hempty, hprod] at h
  · obtain ⟨key, hdecode, hkey, hlen⟩ := cursorSigningKeyBytes_set h hempty
    simp only [Config.validateCursorSigningKey, ne_eq, hempty, not_false_eq_true, if_true, bind_ok,
      reject_ok, hprod, Bool.true_and] at h
    obtain ⟨_, -, _, -, hfold⟩ := h
    exact ⟨key, hkey, hlen, decode_ne_development hfold hdecode⟩

-- ---------------------------------------------------------------------------
-- The hardened configuration
-- ---------------------------------------------------------------------------

/-- An accepted production configuration exports over HTTPS or not at all, and
signs with 32 bytes that are not the placeholder's. -/
theorem production_hardened (hparse : ReadsHTTPS parse) (hvalid : c.validate parse = .ok ())
    (hprod : trimSpace c.appEnv = str "production") :
    let text := Telemetry.endpointText
      (Telemetry.normalizeEndpoint parse c.otelExporterOTLPEndpoint c.otelExporterOTLPInsecure)
    (text = [] ∨ hasPrefix text (str "https://") = true) ∧
    ∃ key, c.cursorSigningKeyBytes = .ok key ∧ key.length = 32 ∧
    Hex.decode developmentCursorKey ≠ some key := by
  have haccepted := validate_accepted hvalid
  have hproduction : c.production = true := beq_iff_eq.mpr hprod
  rw [haccepted.secure hproduction]
  exact ⟨Telemetry.endpointText_secure hparse _, production_key hproduction haccepted.cursorKey⟩

/-- A host without a scheme, and a key with upper-case digits and white space
around it. -/
def Config.hardened : Config :=
  { Config.sample with
    appEnv := " production "
    otelExporterOTLPInsecure := false
    cursorSigningKey := " 0F1E2D3C4B5A69788796A5B4C3D2E1F00F1E2D3C4B5A69788796A5B4C3D2E1F0 " }

theorem sampleParse_readsHTTPS : ReadsHTTPS sampleParse := by
  intro rest u h
  unfold sampleParse at h
  split at h
  · cases h
    rfl
  · cases h

theorem production_hardened_sample :
    Telemetry.endpointText (Telemetry.normalizeEndpoint sampleParse
      Config.hardened.otelExporterOTLPEndpoint false) =
      str "https://collector:4318/v1/traces" ∧
    ∃ key, Config.hardened.cursorSigningKeyBytes = .ok key ∧ key.length = 32 ∧
      Hex.decode developmentCursorKey ≠ some key :=
  ⟨by decide +kernel,
    (production_hardened sampleParse_readsHTTPS (c := Config.hardened) (by decide +kernel)
    (by decide +kernel)).2⟩

end GoClean.App
