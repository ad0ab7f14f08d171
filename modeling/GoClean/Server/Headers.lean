import GoClean.Http.FailedCredentials
import GoClean.Http.RetryAfter
import GoClean.Server.Machine

/-!
# The headers of the middleware

Every exchange has an identifier. A request that the security middleware lets
pass has headers of the limiter besides; one that it refuses has the headers
that go with the error.
-/

namespace GoClean.Server

open Go Auth RateLimit Http HttpApi Threads Transition

def Named (names : List GoString) (headers : List Header) : Prop := ∀ h ∈ headers, h.1 ∈ names

abbrev RateHeaders : List Header → Prop :=
  Named [str "RateLimit-Remaining", str "RateLimit-Reset"]

inductive Refused : SecurityError → List Header → Prop
  | unauthorized : RateHeaders headers → Refused unauthorizedError (headers ++
      [(str "WWW-Authenticate", challengeHeaderValue), (str "Cache-Control", str "no-store")])
  | limited : 1 ≤ seconds → seconds < 2 ^ 63 → Named [str "RateLimit-Reset"] reset →
      Refused rateLimitedError ([(str "Retry-After", itoa seconds),
        (str "RateLimit-Remaining", str "0")] ++ reset ++ [(str "Cache-Control", str "no-store")])

def WrittenFor : Verdict → List Header → Prop
  | .next _ _, headers => RateHeaders headers
  | .abort err, headers => Refused err headers

structure HeadersOk (e : Exchange) : Prop where
  written : ∃ requestID headers, validRequestID requestID = true ∧
    e.headers = (requestIDHeader, requestID) :: headers ∧
    (e.refusal = none → RateHeaders headers) ∧ ∀ err, e.refusal = some err → Refused err headers

section
variable {names names' : List GoString}

theorem Named.not_mem (h : Named names headers) (hname : name ∉ names) :
    (name, value) ∉ headers :=
  fun hmem => hname (h _ hmem)

theorem Named.cons (h : Named names headers) :
    Named (name :: names) ((name, value) :: headers) := by
  refine List.forall_mem_cons.mpr ⟨List.mem_cons_self, fun h' hh => ?_⟩
  exact List.mem_cons_of_mem _ (h h' hh)

theorem Named.append (h : Named names headers) (h' : Named names' headers') :
    Named (names ++ names') (headers ++ headers') := by
  intro d hd
  rcases List.mem_append.mp hd with hd | hd
  · exact List.mem_append_left _ (h d hd)
  · exact List.mem_append_right _ (h' d hd)

theorem Named.mono (h : Named names headers) (hsub : ∀ name ∈ names, name ∈ names') :
    Named names' headers :=
  fun d hd => hsub _ (h d hd)

theorem named_nil : Named names [] := fun _ hh => absurd hh List.not_mem_nil

theorem named_singleton (name value : GoString) : Named [name] [(name, value)] := named_nil.cons

end

section
variable {H : Hashes} {net : Net} {cfg : Settings} {w w' : World}

-- ---------------------------------------------------------------------------
-- The middleware
-- ---------------------------------------------------------------------------

theorem requestIDFor_valid (header : List (GoString × List GoString)) (generated : UUID) :
    validRequestID (requestIDFor header generated) = true := by
  have hgenerated : validRequestID generated.string = true := by
    have hdigits : ∀ n : Fin 16, isTokenByte (Hex.digit n) = true := by decide
    have hne : generated.string ≠ [] := by
      rw [← List.length_pos_iff, UUID.length_string]
      decide
    have hmax : generated.string.length ≤ maxRequestIDBytes := by
      rw [UUID.length_string]
      decide
    rw [validRequestID, Bool.and_eq_true, decide_eq_true_eq, List.all_eq_true]
    refine ⟨⟨hne, hmax⟩, fun b hb => ?_⟩
    rcases UUID.mem_string hb with rfl | ⟨n, rfl⟩
    · decide
    · exact hdigits n
  unfold requestIDFor
  split
  · split_ifs with hvalid
    · exact hvalid
    · exact hgenerated
  · exact hgenerated

theorem named_resetHeader (reset : Time) : Named [str "RateLimit-Reset"] (resetHeader reset) := by
  unfold resetHeader
  split_ifs
  · exact named_nil
  · exact named_singleton _ _

theorem durationForTokens_le (tokens rate : ℚ) :
    durationForTokens tokens rate ≤ maxRetryDuration := by
  unfold durationForTokens
  dsimp only
  split_ifs with _ hmax
  · decide
  · exact le_rfl
  · exact Int.ceil_le.mpr (le_of_lt (not_le.mp hmax))

theorem serve_retryAfter_le (l : Limiter) (now : Reading) (cost : Int) (entry : Bucket) :
    (l.serve now cost entry).1.retryAfter ≤ maxRetryDuration := by
  have hzero : (0 : Duration) ≤ maxRetryDuration := by decide
  unfold Limiter.serve Limiter.take
  dsimp only
  by_cases htokens : (cost : ℚ) ≤ (l.refill (Limiter.effectiveNow now entry) entry).tokens
  · rw [if_pos htokens]
    exact hzero
  · rw [if_neg htokens]
    exact durationForTokens_le _ _

theorem retryAfter_le (l : Limiter) (buckets : Buckets) (now : Reading) (key : GoString) :
    (l.allow buckets now key).decision.retryAfter ≤ maxRetryDuration := by
  have hzero : (0 : Duration) ≤ maxRetryDuration := by decide
  unfold Limiter.allow Limiter.allowN
  split_ifs
  · exact hzero
  · exact hzero
  · split
    · exact serve_retryAfter_le _ _ _ _
    · split
      · exact hzero
      · exact serve_retryAfter_le _ _ _ _
      · exact serve_retryAfter_le _ _ _ _

theorem allowSecurityRequest_written {limiter : Option Limiter}
    {allowed : List Header → Option Decision → Handled}
    (hallowed : ∀ headers decision, RateHeaders headers →
      WrittenFor (allowed headers decision).verdict (allowed headers decision).headers) :
    WrittenFor (allowSecurityRequest limiter buckets now key allowed).2.verdict
      (allowSecurityRequest limiter buckets now key allowed).2.headers := by
  cases limiter with
  | none => exact hallowed [] none named_nil
  | some limiter =>
    simp only [allowSecurityRequest]
    split_ifs
    · exact hallowed _ _ (named_resetHeader _).cons
    · obtain ⟨hpos, -, hleast⟩ := retryAfterSeconds_least
        (limiter.allow buckets now key).decision.retryAfter
      have hlong := hleast 9223372037 (by decide)
        ((retryAfter_le limiter buckets now key).trans (by decide))
      exact .limited hpos (lt_of_le_of_lt hlong (by decide)) (named_resetHeader _)

theorem proceed_written {r : Incoming} :
    WrittenFor (proceed H net limiter buckets r verified).2.verdict
    (proceed H net limiter buckets r verified).2.headers :=
  allowSecurityRequest_written fun _ _ h => h

theorem writeUnauthorized_written :
    WrittenFor (allowSecurityRequest limiter buckets now key writeUnauthorized).2.verdict
      (allowSecurityRequest limiter buckets now key writeUnauthorized).2.headers := by
  refine allowSecurityRequest_written fun headers decision h => ?_
  have hheaders : (writeUnauthorized headers decision).headers = headers ++
      [(str "WWW-Authenticate", challengeHeaderValue), (str "Cache-Control", str "no-store")] := by
    simp [writeUnauthorized, writeSecurityError]
  rw [hheaders]
  exact .unauthorized h

theorem securityMiddleware_written (H : Hashes) (net : Net) (cfg : Settings) (buckets : Buckets)
    (r : Incoming) :
    WrittenFor (securityMiddleware H net cfg.authenticator cfg.limiter buckets r).2.verdict
      (securityMiddleware H net cfg.authenticator cfg.limiter buckets r).2.headers := by
  unfold securityMiddleware
  cases cfg.authenticator with
  | none => exact proceed_written
  | some verifier =>
    dsimp only
    split_ifs
    · exact writeUnauthorized_written
    · cases hverified : verifier.authenticate H (some r.checks) r.request with
      | error _ => exact writeUnauthorized_written
      | ok verified =>
        obtain ⟨rfl, -⟩ := authenticate_ok hverified
        have hprincipal : contextWithPrincipal (some r.checks) verifier.principal =
            .ok verifier.principal := by
          simp [contextWithPrincipal, verifier.valid, failIf]
        simp only [hprincipal]
        exact proceed_written

-- ---------------------------------------------------------------------------
-- Exchanges
-- ---------------------------------------------------------------------------

theorem headersOk_accept (hid : validRequestID requestID = true)
    (h : apiSecurityMiddleware H net cfg.authenticator cfg.limiter buckets
      ⟨now, some request.toRequest, checks, base⟩ = (buckets', handled)) :
    HeadersOk (accept request requestID base handled) := by
  unfold apiSecurityMiddleware at h
  split_ifs at h
  · dsimp only at h
    cases h
    have hwritten := securityMiddleware_written H net cfg buckets
      ⟨now, some request.toRequest, checks, base⟩
    generalize securityMiddleware H net cfg.authenticator cfg.limiter buckets
      ⟨now, some request.toRequest, checks, base⟩ = result at hwritten
    obtain ⟨_, ⟨verdict, headers, decision⟩⟩ := result
    cases verdict with
    | next => exact ⟨requestID, headers, hid, rfl, fun _ => hwritten, nofun⟩
    | abort err =>
      refine ⟨requestID, headers, hid, rfl, nofun, fun err' herr => ?_⟩
      cases herr
      exact hwritten
  · cases h
    exact ⟨requestID, [], hid, rfl, fun _ => named_nil, nofun⟩

theorem HeadersOk.congr (h : HeadersOk e) (hheaders : e'.headers = e.headers)
    (hrefusal : e'.refusal = e.refusal) : HeadersOk e' := by
  obtain ⟨requestID, headers, hid, heq, hpassed, hrefused⟩ := h
  exact ⟨requestID, headers, hid, hheaders.trans heq, hrefusal ▸ hpassed, hrefusal ▸ hrefused⟩

theorem headersOk_step (h : ∀ (i : Nat) e, w.exchanges[i]? = some e → HeadersOk e)
    (hs : step H net cfg w a = some w') :
    ∀ (i : Nat) e, w'.exchanges[i]? = some e → HeadersOk e := by
  cases step_stepped hs with
  | arrived hsec _ hid =>
    exact forall_snoc h (headersOk_accept (hid ▸ requestIDFor_valid _ _) hsec)
  | answered he | finished he => exact forall_set h ((h _ _ he).congr rfl rfl)
  | spawned he _ _ he' | left he _ he' | cancelled he _ _ _ _ he' =>
    subst he'
    exact forall_set h ((h _ _ he).congr rfl rfl)
  | moved => exact h

theorem headersOk_reachable (hr : Reaches (step H net cfg) (World.init maxEntries clock) w) :
    ∀ (i : Nat) e, w.exchanges[i]? = some e → HeadersOk e :=
  hr.invariant (P := fun w : World => ∀ (i : Nat) e, w.exchanges[i]? = some e → HeadersOk e)
    (fun _ _ _ h hs _ => headersOk_step h hs) (fun i e he => by simp [World.init] at he)

end

end GoClean.Server
