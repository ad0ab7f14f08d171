import GoClean.App.Compose
import GoClean.Http.Security
import GoClean.RateLimit.Expiry

/-!
# What failed credentials can do to the authenticated caller

With a verifier there are two limiter keys: the one all failed credentials
share and the principal's. Every request is one limiter call on one of them,
so a run of requests is a run of the limiter, and the two-run results on the
limiter apply. The failed requests are not seen by the authenticated caller
as long as there are two places.
-/

namespace GoClean.Http

open Go Auth RateLimit

section
variable (H : Hashes) (v : BearerSHA256)

def authentic (r : Incoming) : Bool := (v.authenticate H (some r.checks) r.request).isOk

/-- The credentials of the request are missing, malformed or wrong. -/
def badCredentials (r : Incoming) : Bool :=
  match parseBearerToken r.request with
  | .error _ => true
  | .ok token => H.sum256 token != v.digest

def rateKey (r : Incoming) : GoString :=
  if authentic H v r then principalRateKey H v.principal.subject else anonymousRateKey

def callOf (r : Incoming) : Call := ⟨r.now, .allowN (rateKey H v r) 1⟩

end

section
variable {H : Hashes} {net : Net} {v : BearerSHA256} {l : Limiter}
    {buckets : Buckets} {r : Incoming}

theorem authenticate_ok (h : v.authenticate H (some ctx) request = .ok p) :
    p = v.principal ∧ request.isNone = false ∧ ∃ token, parseBearerToken request = .ok token ∧
    H.sum256 token = v.digest := by
  simp only [BearerSHA256.authenticate, bind_ok, failIf_ok, pure_ok, bne_eq_false_iff_eq] at h
  obtain ⟨_, -, _, hsome, token, htoken, _, -, _, hdigest, _, -, rfl⟩ := h
  exact ⟨rfl, hsome, token, htoken, hdigest⟩

theorem authentic_iff :
    authentic H v r = true ↔ v.authenticate H (some r.checks) r.request = .ok v.principal := by
  unfold authentic
  constructor
  · intro h
    cases hauth : v.authenticate H (some r.checks) r.request with
    | error err =>
      rw [hauth] at h
      cases h
    | ok p => rw [(authenticate_ok hauth).1]
  · intro h
    rw [h]
    rfl

theorem not_badCredentials (h : authentic H v r = true) : badCredentials H v r = false := by
  obtain ⟨-, -, token, htoken, hdigest⟩ := authenticate_ok (authentic_iff.mp h)
  simp [badCredentials, htoken, hdigest]

theorem principalRateKey_ne (H : Hashes) (subject : GoString) :
    principalRateKey H subject ≠ anonymousRateKey := by
  intro h
  have hfirst : (principalRateKey H subject).take 1 = principalKeyPrefix.take 1 :=
    List.take_append_of_le_length (by decide)
  rw [h] at hfirst
  exact absurd hfirst (by decide)

theorem allowSecurityRequest_eq (l : Limiter) (buckets : Buckets) (now : Reading) (key : GoString)
    {allowed : List Header → Option Decision → Handled}
    (hallowed : ∀ headers d, (allowed headers d).decision = d) :
    (allowSecurityRequest (some l) buckets now key allowed).1 =
      (l.allowN buckets now key 1).buckets ∧
    (allowSecurityRequest (some l) buckets now key allowed).2.decision =
      some (l.allowN buckets now key 1).decision := by
  rw [← Limiter.allow]
  simp only [allowSecurityRequest]
  by_cases h : (l.allow buckets now key).decision.allowed = true
  · rw [if_pos h]
    exact ⟨rfl, hallowed _ _⟩
  · rw [if_neg h]
    exact ⟨rfl, rfl⟩

theorem securityMiddleware_eq (H : Hashes) (net : Net) (v : BearerSHA256) (l : Limiter)
    (buckets : Buckets) (r : Incoming) :
    (securityMiddleware H net (some v) (some l) buckets r).1 = (l.step buckets (callOf H v r)).1 ∧
    (securityMiddleware H net (some v) (some l) buckets r).2.decision =
      some (l.allowN buckets r.now (rateKey H v r) 1).decision := by
  cases hauth : v.authenticate H (some r.checks) r.request with
  | error err =>
    have hkey : rateKey H v r = anonymousRateKey := by
      simp [rateKey, authentic, hauth, Except.isOk, Except.toBool]
    simp only [securityMiddleware, hauth, ite_self, callOf, hkey, Limiter.step_allowN]
    exact allowSecurityRequest_eq l buckets r.now anonymousRateKey fun _ _ => rfl
  | ok p =>
    obtain ⟨rfl, hsome, -⟩ := authenticate_ok hauth
    have hkey : rateKey H v r = principalRateKey H v.principal.subject :=
      if_pos (authentic_iff.mpr hauth)
    have hcontext : contextWithPrincipal (some r.checks) v.principal = .ok v.principal := by
      simp [contextWithPrincipal, v.valid, failIf]
    simp only [securityMiddleware, hsome, hauth, hcontext, callOf, hkey,
      Limiter.step_allowN, proceed]
    exact allowSecurityRequest_eq l buckets r.now _ fun _ _ => rfl

-- ---------------------------------------------------------------------------
-- Runs of requests as runs of the limiter
-- ---------------------------------------------------------------------------

def decided : Answer → Option Decision
  | .decision d _ => some d
  | .count _ => none

theorem answers_middleware (H : Hashes) (net : Net) (v : BearerSHA256) (l : Limiter)
    (requests : List Incoming) :
    ∀ buckets, (Purge.answers (securityMiddleware H net (some v) (some l)) buckets requests).map
        (fun p => (callOf H v p.1, p.2.decision)) =
      (Purge.answers l.step buckets (requests.map (callOf H v))).map fun p =>
      (p.1, decided p.2) := by
  induction requests with
  | nil => exact fun _ => rfl
  | cons r rest ih =>
    intro buckets
    obtain ⟨hbuckets, hdecision⟩ := securityMiddleware_eq H net v l buckets r
    simp only [Purge.answers, List.map_cons, ← hbuckets, ih, hdecision]
    rfl

theorem isOn_callOf (H : Hashes) (v : BearerSHA256) (r : Incoming) :
    (callOf H v r).isOn (principalRateKey H v.principal.subject) = authentic H v r := by
  unfold callOf Call.isOn rateKey
  cases authentic H v r with
  | true => simp
  | false => simpa using (principalRateKey_ne H v.principal.subject).symm

def bothKeys (H : Hashes) (v : BearerSHA256) : List GoString :=
  [anonymousRateKey, principalRateKey H v.principal.subject]

theorem rateKey_mem (H : Hashes) (v : BearerSHA256) (r : Incoming) :
    rateKey H v r ∈ bothKeys H v := by
  unfold rateKey bothKeys
  split <;> simp

theorem noRoom_callOf (hmax : 2 ≤ l.maxClients) (requests : List Incoming) :
    ∀ {buckets}, KeysIn (bothKeys H v) buckets →
      ∀ p ∈ Purge.answers l.step buckets (requests.map (callOf H v)), p.2.noRoom = false := by
  induction requests with
  | nil => intro buckets _ p hp; cases hp
  | cons r rest ih =>
    intro buckets hkeys p hp
    rcases List.mem_cons.mp hp with rfl | hp
    · exact decide_eq_false (reason_of_keysIn l r.now hkeys hmax (rateKey_mem H v r))
    · exact ih (hkeys.allowN (rateKey_mem H v r)) p hp

def decisions (H : Hashes) (net : Net) (v : BearerSHA256) (l : Limiter) (requests : List Incoming) :
    List (Option Decision) :=
  ((Purge.answers (securityMiddleware H net (some v) (some l)) ∅ requests).filter fun p =>
    authentic H v p.1).map
    fun p => p.2.decision

theorem decisions_eq (requests : List Incoming) :
    decisions H net v l requests =
      ((Purge.answers l.step ∅ (requests.map (callOf H v))).filter
        fun p => p.1.isOn (principalRateKey H v.principal.subject)).map fun p => decided p.2 := by
  have h := congrArg (fun answers => (answers.filter fun p : Call × Option Decision =>
    p.1.isOn (principalRateKey H v.principal.subject)).map Prod.snd)
      (answers_middleware H net v l requests ∅)
  simp only [List.filter_map, List.map_map, Function.comp_def, isOn_callOf] at h
  rw [decisions, h]

/-- With two places, requests that are not authenticated can be left out
without a change for those that are. -/
theorem decisions_filter (hpolicy : l.overflow = .rejectNew) (hmax : 2 ≤ l.maxClients)
    {keep : Incoming → Bool}
    (hkeep : ∀ r, authentic H v r = true → keep r = true) {requests : List Incoming}
    (hord : Purge.Ordered Incoming.now requests) :
    decisions H net v l requests = decisions H net v l (requests.filter keep) := by
  have hown : ∀ requests, Purge.Ordered Incoming.now requests →
      decisions H net v l requests =
        (Purge.answers l.step ∅ ((requests.filter (authentic H v)).map (callOf H v))).map fun p =>
        decided p.2 := by
    intro requests hord
    have hcalls : Purge.Ordered Call.now (requests.map (callOf H v)) := List.pairwise_map.mpr hord
    have hroom := noRoom_callOf (H := H) (v := v) hmax requests (keysIn_empty _)
    rw [decisions_eq, answers_own hpolicy _ hcalls fun p hp _ => hroom p hp, List.filter_map]
    simp only [Function.comp_def, isOn_callOf]
  have hsame : (requests.filter keep).filter (authentic H v) = requests.filter (authentic H v) := by
    rw [List.filter_filter]
    refine List.filter_congr fun r _ => ?_
    cases hauth : authentic H v r with
    | false => rfl
    | true => rw [hkeep r hauth]; rfl
  rw [hown _ hord, hown _ (hord.sublist List.filter_sublist), hsame]

/-- A request that is not authenticated creates no bucket but the one failed
requests share. -/
theorem lookup_of_failed (hfailed : authentic H v r = false)
    (h : (securityMiddleware H net (some v) (some l) buckets r).1.lookup key = some b) :
    key = anonymousRateKey ∨ buckets.lookup key = some b := by
  have hkey : rateKey H v r = anonymousRateKey := by simp [rateKey, hfailed]
  rw [(securityMiddleware_eq H net v l buckets r).1, callOf, hkey, Limiter.step_allowN] at h
  by_cases hk : key = anonymousRateKey
  · exact .inl hk
  · exact .inr (Limiter.lookup_of_allowN hk h)

-- ---------------------------------------------------------------------------
-- A single place
-- ---------------------------------------------------------------------------

def keyByte (b : UInt8) : Bool := decide (b < 0x80) && !isControl b.toNat && !isSpace b.toNat

theorem validKey_of_keyBytes (hne : key ≠ []) (hlen : key.length ≤ maxKeyBytes)
    (h : ∀ b ∈ key, keyByte b = true) :
    validKey key = true := by
  simp only [keyByte, Bool.and_eq_true, decide_eq_true_eq, Bool.not_eq_true'] at h
  have hchunks : chunks key = key.map ([·]) := chunks_of_ascii fun b hb => (h b hb).1.1
  have hvalid : validString key = true := validString_of_ascii fun b hb => (h b hb).1.1
  simp only [validKey, hvalid, hchunks, Bool.and_eq_true, Bool.not_eq_true', List.any_map,
    List.any_eq_false, Function.comp]
  refine ⟨by simp [hne, hlen], fun b hb => ?_⟩
  simp [rune_of_ascii (h b hb).1.1, (h b hb).1.2, (h b hb).2]

theorem keyByte_encodeToString (bytes : List UInt8) :
    ∀ b ∈ Hex.encodeToString bytes, keyByte b = true := by
  have hdigit : ∀ n < 16, keyByte (Hex.digit n) = true := by decide
  intro b hb
  obtain ⟨a, -, hb⟩ := List.mem_flatMap.mp hb
  have ha := a.toNat_lt
  rcases List.mem_pair.mp hb with rfl | rfl
  · exact hdigit _ (by omega)
  · exact hdigit _ (by omega)

theorem validKey_principalRateKey (H : Hashes) (subject : GoString) :
    validKey (principalRateKey H subject) = true := by
  have hstart : ∀ b ∈ principalKeyPrefix, keyByte b = true := List.all_eq_true.mp (by decide)
  refine validKey_of_keyBytes (List.append_ne_nil_of_left_ne_nil (by decide) _) ?_ fun b hb => ?_
  · have hlen : (H.sum256 subject).toList.length = 32 := (H.sum256 subject).2
    rw [principalRateKey, List.length_append, Hex.length_encodeToString, hlen]
    decide
  · exact (List.mem_append.mp hb).elim (hstart b) (keyByte_encodeToString _ b)

theorem accepts_one (l : Limiter) (h : validKey key = true) : l.accepts key 1 = true := by
  have hpos : 1 ≤ l.capacity := l.capacity_pos
  simp [Limiter.accepts, h, hpos]

theorem room_of_held (hpolicy : l.overflow = .rejectNew) (hone : l.maxClients = 1)
    (hne : other ≠ key)
    (hheld : l.liveEntry now buckets other = some b) (hnew : l.liveEntry now buckets key = none) :
    (l.room now buckets key).2 = .full := by
  have hroom := l.makeRoom_makesRoom now (buckets.erase key)
  have hleft : l.liveEntry now (buckets.erase key) other = some b := by
    rw [Limiter.liveEntry_erase, if_neg hne, hheld]
  have hswept :=
    AssocMap.size_pos_of_lookup ((l.lookup_cleanupLocked now (buckets.erase key) other).trans hleft)
  have hsize := AssocMap.size_pos_of_lookup (Limiter.liveEntry_some.mp hleft).1
  simp only [Limiter.room, hnew]
  generalize l.makeRoom now (buckets.erase key) = r at hroom
  cases hroom with
  | free h => omega
  | swept _ h => omega
  | full _ _ => rfl
  | evicted _ h => exact absurd hpolicy h

theorem liveEntry_served (l : Limiter) (key : GoString) :
    ∃ b, l.liveEntry (.ofSec 0) ((∅ : Buckets).insert key
      (l.serve (.ofSec 0) 1 (l.fullBucket (.ofSec 0))).2) key = some b := by
  let b := (l.serve (.ofSec 0) 1 (l.fullBucket (.ofSec 0))).2
  have hb : b.Ok l := Limiter.serve_ok (l.fullBucket_ok _) (by decide)
  have hzero : (Reading.ofSec 0).val.nanos = 0 := by decide
  have hseen : b.lastSeen.val.nanos = 0 := by
    rw [hb.lastSeen_eq, Limiter.serve_lastRefill (l.fullBucket_ok _),
      Limiter.fullBucket, hzero, max_self]
  obtain ⟨hnonneg, hle⟩ := l.idleTTL_range
  have hlive : l.isExpired (.ofSec 0) b = false := by
    rw [Bool.eq_false_iff, ne_eq,
      isExpired_iff (show b.lastSeen.val.nanos + l.idleTTL < _ by omega), hseen]
    rintro ⟨hpos, h⟩
    have hpos' : @LT.lt ℤ _ 0 l.idleTTL := hpos
    omega
  exact ⟨b, Limiter.liveEntry_some.mpr ⟨AList.lookup_insert _, hlive⟩⟩

def withoutCredentials : Incoming := { now := .ofSec 0, request := some ⟨[], [], []⟩ }

/-- A single place, taken by a request without credentials: the authenticated
caller is refused for want of room. -/
theorem allowN_lockedOut (hpolicy : l.overflow = .rejectNew) (hone : l.maxClients = 1)
    (hkey : validKey key = true) (hne : anonymousRateKey ≠ key) :
    (l.allowN (l.allowN ∅ (.ofSec 0) anonymousRateKey 1).buckets (.ofSec 0) key 1).decision =
      { reason := .capacity } := by
  have hlen : (([anonymousRateKey] : List GoString).length : Int) ≤ l.maxClients := hone.ge
  have hfirst := (allowN_of_keysIn l (.ofSec 0) (keysIn_empty _) hlen List.mem_cons_self
    (accepts_one l (by decide))).2.2
  have htarget : l.target (.ofSec 0) ∅ anonymousRateKey = l.fullBucket (.ofSec 0) := rfl
  rw [htarget] at hfirst
  obtain ⟨b, hheld⟩ := liveEntry_served l anonymousRateKey
  have hnew : l.liveEntry (.ofSec 0) (l.allowN ∅ (.ofSec 0) anonymousRateKey 1).buckets key =
      none := by
    rw [hfirst, Limiter.liveEntry_insert, if_neg hne.symm]
    rfl
  rw [Limiter.allowN_refused (accepts_one l hkey)
    (room_of_held hpolicy hone hne (hfirst ▸ hheld) hnew)]

/-- The authenticated request of the two is refused, and is not when it comes
alone. -/
theorem decisions_lockedOut (net : Net) (hpolicy : l.overflow = .rejectNew)
    (hone : l.maxClients = 1) (hauth : authentic H v r = true) :
    decisions H net v l [withoutCredentials, { r with now := .ofSec 0 }] =
      [some { reason := .capacity }] ∧
    decisions H net v l [{ r with now := .ofSec 0 }] ≠ [some { reason := .capacity }] := by
  have hkey : rateKey H v { r with now := .ofSec 0 } = principalRateKey H v.principal.subject :=
    if_pos hauth
  have hfailed : authentic H v withoutCredentials = false := rfl
  have hkept : authentic H v { r with now := .ofSec 0 } = true := hauth
  have hvalid := validKey_principalRateKey H v.principal.subject
  constructor
  · have hcall : callOf H v withoutCredentials = ⟨.ofSec 0, .allowN anonymousRateKey 1⟩ := rfl
    simp only [decisions, Purge.answers, List.filter, hfailed, hkept, List.map_cons, List.map_nil,
      (securityMiddleware_eq ..).1, (securityMiddleware_eq ..).2, hcall, Limiter.step_allowN, hkey]
    rw [allowN_lockedOut hpolicy hone hvalid (principalRateKey_ne H _).symm]
  · have hlen : (([principalRateKey H v.principal.subject] : List GoString).length : Int) ≤
        l.maxClients := hone.ge
    simp only [decisions, Purge.answers, List.filter, hkept, List.map_cons, List.map_nil,
      (securityMiddleware_eq ..).2, hkey]
    intro h
    have hreason :
        (l.allowN ∅ (.ofSec 0) (principalRateKey H v.principal.subject) 1).decision.reason ≠
          .capacity :=
      reason_of_keysIn l _ (keysIn_empty _) hlen List.mem_cons_self
    exact hreason (congrArg Decision.reason (Option.some.inj (List.cons.inj h).1))

-- ---------------------------------------------------------------------------
-- The condition
-- ---------------------------------------------------------------------------

/-- Failed credentials do not change what the authenticated caller is told,
and together they have no bucket but the anonymous one. -/
structure FailedUnobservable (H : Hashes) (net : Net) (v : BearerSHA256) (l : Limiter) : Prop where
  decisions_eq : ∀ requests, Purge.Ordered Incoming.now requests →
    decisions H net v l requests = decisions H net v l
    (requests.filter fun r => !badCredentials H v r)
  bucket : ∀ requests, Purge.Ordered Incoming.now requests → ∀ r, badCredentials H v r = true →
    let buckets := Purge.final (securityMiddleware H net (some v) (some l)) ∅ requests
    ∀ key b, (securityMiddleware H net (some v) (some l) buckets r).1.lookup key = some b →
      key = anonymousRateKey ∨ buckets.lookup key = some b

theorem failedUnobservable_of_room (net : Net) (hpolicy : l.overflow = .rejectNew)
    (h : 2 ≤ l.maxClients ∨ ∀ r, authentic H v r = false) : FailedUnobservable H net v l where
  decisions_eq := by
    intro requests hord
    rcases h with hmax | hnone
    · exact decisions_filter hpolicy hmax (fun r hr => by rw [not_badCredentials hr]; rfl) hord
    · simp only [decisions, hnone, List.filter_false, List.map_nil]
  bucket := by
    intro requests _ r hbad buckets key b hb
    have hfailed : authentic H v r = false := by
      rw [Bool.eq_false_iff]
      intro hauth
      rw [not_badCredentials hauth] at hbad
      cases hbad
    exact lookup_of_failed hfailed hb

theorem authentic_of_single (hpolicy : l.overflow = .rejectNew) (hone : l.maxClients = 1)
    (h : FailedUnobservable H net v l) (r : Incoming) : authentic H v r = false := by
  rw [Bool.eq_false_iff]
  intro hauth
  obtain ⟨hwith, hwithout⟩ := decisions_lockedOut net hpolicy hone hauth
  have hord : Purge.Ordered Incoming.now [withoutCredentials, { r with now := .ofSec 0 }] :=
    List.pairwise_pair.mpr le_rfl
  have hgood : badCredentials H v { r with now := .ofSec 0 } = false := not_badCredentials hauth
  have hsame := h.decisions_eq _ hord
  have hbad : badCredentials H v withoutCredentials = true := rfl
  simp only [List.filter, hbad, hgood, Bool.not_true, Bool.not_false] at hsame
  exact hwithout (hsame.symm.trans hwith)

/-- An accepted configuration keeps failed credentials out of the
authenticated caller's sight exactly if the limiter has a place for both
keys, or nobody can authenticate. -/
theorem failedUnobservable_iff (H : Hashes) (net : Net) (v : BearerSHA256) {cfg : App.Config}
    (hvalid : cfg.validate parse = .ok ()) (henabled : cfg.rateLimitEnabled = true) :
    ∃ l, RateLimit.new (App.rateLimitConfig cfg) = .ok l ∧
      (FailedUnobservable H net v l ↔ 2 ≤ cfg.rateLimitMaxClients ∨ ∀ r,
        authentic H v r = false) := by
  have hconfig := App.rateLimitConfig_valid (App.validate_accepted hvalid).rateLimit henabled
  obtain ⟨l, hnew⟩ := RateLimit.new_of_valid hconfig
  obtain ⟨-, -, -, hmax, -, hpolicy⟩ := RateLimit.new_ok hnew
  have hmax' : l.maxClients = cfg.rateLimitMaxClients := hmax
  rw [← hmax']
  refine ⟨l, hnew, fun h => ?_, failedUnobservable_of_room net hpolicy⟩
  by_cases hroom : 2 ≤ l.maxClients
  · exact .inl hroom
  · have hpos := l.maxClients_pos
    exact .inr (authentic_of_single hpolicy (by omega) h)

end

def sampleVerifier : BearerSHA256 where
  digest := Hashes.go.sum256 (str "secret")
  principal := { subject := defaultBearerSubject }
  valid := by decide +kernel

def plainNet : Net := ⟨fun _ => none, some⟩

def signedRequest : Incoming where
  now := .ofSec 0
  request := some ⟨[("Authorization", ["Bearer secret"])], "10.0.0.1", "/api/v1/items"⟩

theorem failedUnobservable_sample :
    ∃ l, RateLimit.new (App.rateLimitConfig { App.Config.sample with rateLimitMaxClients := 2 }) =
      .ok l ∧
      FailedUnobservable Hashes.go plainNet sampleVerifier l :=
  have hvalid :
      App.Config.validate App.sampleParse { App.Config.sample with rateLimitMaxClients := 2 } =
        .ok () := by
    decide +kernel
  have ⟨l, hnew, hiff⟩ := failedUnobservable_iff Hashes.go plainNet sampleVerifier hvalid rfl
  ⟨l, hnew, hiff.mpr (.inl (by decide))⟩

def singlePlace : Limiter :=
  ⟨20, 10, 1, 600 * Duration.second, .rejectNew,
    by decide, by decide, by decide, by decide, by decide⟩

/-- One place: a request without credentials takes it, and the caller with
the right token is refused although it has not spent anything. -/
theorem missing_credentials_lock_out :
    App.Config.sample.validate App.sampleParse = .ok () ∧
    RateLimit.new (App.rateLimitConfig App.Config.sample) = .ok singlePlace ∧
    authentic Hashes.go sampleVerifier signedRequest = true ∧
    decisions Hashes.go plainNet sampleVerifier singlePlace [withoutCredentials, signedRequest] =
      [some { reason := .capacity }] ∧
    decisions Hashes.go plainNet sampleVerifier singlePlace
        ([withoutCredentials, signedRequest].filter fun r =>
          !badCredentials Hashes.go sampleVerifier r) =
      [some {
        allowed := true, remaining := 19, reset := (Reading.ofSec 0).val.add 100000000,
        reason := .allowed }] := by
  decide +kernel

end GoClean.Http
