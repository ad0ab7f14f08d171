import GoClean.Http.FailedCredentials
import GoClean.Memory.Replies
import GoClean.Server.Machine

/-!
# The invariant of the server

Each call of the store belongs to one exchange, whose request showed the
credentials that are asked for and was read by the handler of its route
(`Inv`). An answer that came from the store is what that handler writes for
the call's result.
-/

namespace GoClean.Server

open Go Auth RateLimit Http HttpApi Threads Transition

section
variable (H : Hashes) (net : Net) (cfg : Settings)

def callerKey (request : Auth.Request) : GoString :=
  match cfg.authenticator with
  | some verifier => principalRateKey H verifier.principal.subject
  | none => clientRateKey net (some request)

def callerContext (request : Auth.Request) (cause : Option ContextCause) : Option Context :=
  withIdempotencyScope (some ⟨cause, none⟩) (str "items:create:" ++ callerKey H net cfg request)

def Authorised (request : Auth.Request) : Prop :=
  ∀ verifier, cfg.authenticator = some verifier →
    ∃ token, parseBearerToken (some request) = .ok token ∧ H.sum256 token = verifier.digest

variable (good : Reads → Prop)

/-- An authorised request that its handler, with readings that are good, turns
into a call of the store. -/
def Served (request : HttpRequest) (op : Memory.Op) (pending : Pending) : Prop :=
  Authorised H cfg request.toRequest ∧ ∃ cause reads, good reads ∧
    serve H cfg request (callerContext H net cfg request.toRequest cause) reads = .ok (op, pending)

/-- How far an exchange has come. -/
inductive ExchangeOk (w : World) (e : Exchange) : Prop
  | admitted : e.phase = .admitted → e.call = none → e.refusal = none →
      (isVersionedAPIPath e.request.path = true → Authorised H cfg e.request.toRequest ∧
        ∃ cause, e.ctx = callerContext H net cfg e.request.toRequest cause) →
      ExchangeOk w e
  | aborted : e.phase = .answered ⟨err.status, e.headers, .error err.code err.message⟩ →
      e.call = none → e.refusal = some err → isVersionedAPIPath e.request.path = true →
      ExchangeOk w e
  | refused : e.phase = .answered { response with headers := e.headers ++ response.headers } →
      e.call = none → e.refusal = none →
      (isVersionedAPIPath e.request.path = true → e.ctx ≠ none) → good reads →
      serve H cfg e.request e.ctx reads = .error response → ExchangeOk w e
  | waiting : e.phase = .waiting pending → e.call = some k → e.refusal = none →
      w.memory.calls[k]? = some c → c.ctx = e.ctx → Served H net cfg good e.request c.op pending →
      ExchangeOk w e
  | answered : e.phase = .answered { response with headers := e.headers ++ response.headers } →
      e.call = some k → e.refusal = none → w.memory.calls[k]? = some c → c.ctx = e.ctx →
      Served H net cfg good e.request c.op pending → c.pc = .returned result →
      respond H cfg e.request.path e.ctx encoding pending result = some response →
      ExchangeOk w e

/-- The handlers of a run have good readings. -/
def WithReads (_ : World) (a : Action) (_ : World) : Prop :=
  ∀ i reads, a = .dispatch i reads → good reads

structure Inv (w : World) : Prop where
  memory : Memory.Inv H w.memory
  answers : Memory.Answers w.memory
  exchanges : ∀ (i : Nat) e, w.exchanges[i]? = some e → ExchangeOk H net cfg good w e
  contexts : ∀ (k : Nat) c, w.memory.calls[k]? = some c → c.ctx ≠ none
  owned : ∀ (k : Nat) c, w.memory.calls[k]? = some c → Owns Exchange.call w.exchanges k
  exclusive : Exclusive Exchange.call w.exchanges

end

section
variable {H : Hashes} {net : Net} {cfg : Settings} {good : Reads → Prop} {w w' : World}

-- ---------------------------------------------------------------------------
-- Admission
-- ---------------------------------------------------------------------------

theorem allowSecurityRequest_next {limiter : Option Limiter}
    (h : (allowSecurityRequest limiter buckets now key allowed).2.verdict = .next principal ctx) :
    ∃ headers decision, (allowed headers decision).verdict = .next principal ctx := by
  unfold allowSecurityRequest at h
  split at h
  · exact ⟨_, _, h⟩
  · dsimp only at h
    split at h
    · exact ⟨_, _, h⟩
    · cases h

theorem proceed_next {r : Incoming} {request : Auth.Request} (hr : r.request = some request)
    (h : (proceed H net limiter buckets r verified).2.verdict = .next principal ctx) :
    ctx = withIdempotencyScope (some r.context) (str "items:create:" ++
      verified.elim (clientRateKey net (some request)) fun p => principalRateKey H p.subject) := by
  obtain ⟨_, _, h⟩ := allowSecurityRequest_next h
  rw [hr] at h
  cases verified <;> cases h <;> rfl

theorem securityMiddleware_next {r : Incoming} {request : Auth.Request}
    (hr : r.request = some request)
    (h : (securityMiddleware H net cfg.authenticator cfg.limiter buckets r).2.verdict =
      .next principal ctx) :
    Authorised H cfg request ∧
      ctx = withIdempotencyScope (some r.context) (str "items:create:" ++
        callerKey H net cfg request) := by
  unfold securityMiddleware at h
  unfold Authorised callerKey
  cases hauth : cfg.authenticator with
  | none =>
    simp only [hauth] at h
    exact ⟨fun _ hv => (nomatch hv), proceed_next hr h⟩
  | some verifier =>
    simp only [hauth, hr, Option.isNone_some, Bool.false_eq_true, if_false] at h
    split at h
    · obtain ⟨_, _, hverdict⟩ := allowSecurityRequest_next h
      cases hverdict
    · next verified hverified =>
      obtain ⟨rfl, -, token, htoken, hdigest⟩ := authenticate_ok hverified
      have hprincipal : contextWithPrincipal (some r.checks) verifier.principal =
          .ok verifier.principal := by
        simp [contextWithPrincipal, verifier.valid, failIf]
      rw [hprincipal] at h
      refine ⟨fun v hv => ?_, ?_⟩
      · cases hv
        exact ⟨token, htoken, hdigest⟩
      · exact proceed_next hr h

theorem exchangeOk_accept {base : Context} (hbase : base.scope = none)
    (h : apiSecurityMiddleware H net cfg.authenticator cfg.limiter buckets
      ⟨now, some request.toRequest, checks, base⟩ = (buckets', handled)) :
    ExchangeOk H net cfg good w (accept request requestID base handled) := by
  unfold apiSecurityMiddleware at h
  split_ifs at h with hpath
  · dsimp only at h
    cases h
    generalize hsec : securityMiddleware H net cfg.authenticator cfg.limiter buckets
      ⟨now, some request.toRequest, checks, base⟩ = result
    obtain ⟨buckets', ⟨verdict, headers, decision⟩⟩ := result
    cases verdict with
    | next principal ctx =>
      obtain ⟨hauthorised, hctx⟩ := securityMiddleware_next
        (r := ⟨now, some request.toRequest, checks, base⟩) rfl (by rw [hsec])
      refine .admitted rfl rfl rfl fun _ => ⟨hauthorised, base.cause, hctx.trans ?_⟩
      cases base
      cases hbase
      rfl
    | abort err => exact .aborted rfl rfl rfl hpath
  · cases h
    refine .admitted rfl rfl rfl fun hversioned => absurd ?_ hpath
    exact hversioned

-- ---------------------------------------------------------------------------
-- Handlers
-- ---------------------------------------------------------------------------

theorem readCreate_error (h : readCreate maxBodyBytes header upload = .error response) :
    response.payload.items = [] := by
  unfold readCreate at h
  split at h
  · cases h
    rfl
  · split at h
    · cases h
      rfl
    · cases h
      rfl
    · cases h

theorem readID_error (h : readID uuids param = .error response) : response.payload.items = [] := by
  unfold readID at h
  split at h
  · cases h
    rfl
  · split_ifs at h
    cases h
    rfl

theorem serveCreate_error (h : serveCreate H request ctx reads = .error response) :
    response.payload.items = [] := by
  rcases bind_error.mp h with hread | ⟨⟨input, key⟩, -, h⟩
  · exact readCreate_error hread
  · cases key with
    | none =>
      rcases bind_error.mp h with h | ⟨_, -, h⟩
      · obtain ⟨err, -, rfl⟩ := mapError_error h
        rfl
      · cases h
    | some key =>
      rcases bind_error.mp h with h | ⟨_, -, h⟩
      · obtain ⟨err, -, rfl⟩ := mapError_error h
        rfl
      · cases h

theorem serveGet_error (h : serveGet cfg param ctx = .error response) :
    response.payload.items = [] := by
  rcases bind_error.mp h with hread | ⟨id, -, h⟩
  · exact readID_error hread
  · rcases bind_error.mp h with h | ⟨_, -, h⟩
    · obtain ⟨err, -, rfl⟩ := mapError_error h
      rfl
    · cases h

theorem serveList_error (h : serveList H cfg request ctx reads = .error response) :
    response.payload.items = [] := by
  unfold serveList at h
  split at h
  · cases h
    rfl
  · rcases bind_error.mp h with h | ⟨_, -, h⟩
    · obtain ⟨err, -, rfl⟩ := mapError_error h
      rfl
    · cases h
  · rcases bind_error.mp h with h | ⟨_, -, h⟩
    · obtain ⟨err, -, rfl⟩ := mapError_error h
      rfl
    · cases h

theorem serve_error (h : serve H cfg request ctx reads = .error response) :
    response.payload.items = [] := by
  unfold serve at h
  split at h
  case h_1 | h_2 | h_4 =>
    cases h
    rfl
  case h_3 =>
    cases h
    split <;> rfl
  case h_5 => exact serveCreate_error h
  case h_6 => exact serveList_error h
  case h_7 => exact serveGet_error h

inductive Serves (H : Hashes) (cfg : Settings) (request : HttpRequest) (ctx : Option Context)
    (reads : Reads) :
    Memory.Op → Pending → Prop
  | create : findRoute cfg.gin cfg.metricsEnabled request.method request.path = some .createItem →
      readCreate (newMaxBodyBytes []) request.header request.upload = .ok (input, none) →
      createRequest reads.create ctx input = .ok value →
      Serves H cfg request ctx reads (.create value) .create
  | createIdempotent :
      findRoute cfg.gin cfg.metricsEnabled request.method request.path = some .createItem →
      readCreate (newMaxBodyBytes []) request.header request.upload = .ok (input, some key) →
      createIdempotentRequest H reads.create ctx input key = .ok storeRequest →
      Serves H cfg request ctx reads (.createIdempotent storeRequest) (.createIdempotent key)
  | get {id : UUID} :
      findRoute cfg.gin cfg.metricsEnabled request.method request.path = some (.getItem param) →
      readID cfg.uuids param = .ok id → Live ctx → Serves H cfg request ctx reads (.get id) .get
  | list : findRoute cfg.gin cfg.metricsEnabled request.method request.path = some .listItems →
      parseListRequest (some request.rawQuery) = some (.offset params) →
      listRequest ctx params = .ok normalized →
      Serves H cfg request ctx reads (.list (lookAhead normalized)) (.list normalized)
  | listCursor :
      findRoute cfg.gin cfg.metricsEnabled request.method request.path = some .listItems →
      parseListRequest (some request.rawQuery) = some (.cursor cursor) →
      listCursorRequest (cfg.codec H reads.decoding) ctx cursor = .ok params →
      Serves H cfg request ctx reads (.listAfter params) (.listCursor (params.limit - 1))

theorem getRequest_ok {id id' : UUID} (h : getRequest ctx id = .ok id') : id' = id ∧ Live ctx := by
  simp only [getRequest, bind_ok, ensureContext_ok, pure_ok] at h
  obtain ⟨_, hctx, _, -, rfl⟩ := h
  exact ⟨rfl, hctx⟩

theorem serve_ok (h : serve H cfg request ctx reads = .ok (op, pending)) :
    Serves H cfg request ctx reads op pending := by
  unfold serve at h
  split at h
  case h_1 | h_2 | h_3 | h_4 => cases h
  case h_5 hroute =>
    obtain ⟨⟨input, key⟩, hread, h⟩ := bind_ok.mp h
    cases key with
    | none =>
      obtain ⟨value, hvalue, h⟩ := bind_ok.mp h
      cases h
      exact .create hroute hread (mapError_ok hvalue)
    | some key =>
      obtain ⟨storeRequest, hrequest, h⟩ := bind_ok.mp h
      cases h
      exact .createIdempotent hroute hread (mapError_ok hrequest)
  case h_6 hroute =>
    unfold serveList at h
    split at h
    · cases h
    · next hparse =>
      obtain ⟨normalized, hnormalized, h⟩ := bind_ok.mp h
      cases h
      exact .list hroute hparse (mapError_ok hnormalized)
    · next hparse =>
      obtain ⟨params, hparams, h⟩ := bind_ok.mp h
      cases h
      exact .listCursor hroute hparse (mapError_ok hparams)
  case h_7 hroute =>
    obtain ⟨id, hread, h⟩ := bind_ok.mp h
    obtain ⟨id', hget, h⟩ := bind_ok.mp h
    cases h
    obtain ⟨rfl, hctx⟩ := getRequest_ok (mapError_ok hget)
    exact .get hroute hread hctx

theorem Serves.versioned (h : Serves H cfg request ctx reads op pending) :
    isVersionedAPIPath request.path = true := by
  cases h with
  | create hroute | createIdempotent hroute | get hroute | list hroute | listCursor hroute =>
    exact versioned_of_item hroute rfl

-- ---------------------------------------------------------------------------
-- Preservation
-- ---------------------------------------------------------------------------

/-- The call of an exchange goes on from one world to the other with its context,
and what it returned stays. -/
def CallKept (w w' : World) (e : Exchange) : Prop :=
  ∀ (k : Nat) c, e.call = some k → w.memory.calls[k]? = some c →
    ∃ c', w'.memory.calls[k]? = some c' ∧ c'.op = c.op ∧ c'.ctx = c.ctx ∧
      ∀ result, c.pc = .returned result → c'.pc = .returned result

theorem ExchangeOk.kept (h : ExchangeOk H net cfg good w e) (hkept : CallKept w w' e) :
    ExchangeOk H net cfg good w' e := by
  cases h with
  | admitted hphase hcall hrefusal hctx => exact .admitted hphase hcall hrefusal hctx
  | aborted hphase hcall hrefusal hpath => exact .aborted hphase hcall hrefusal hpath
  | refused hphase hcall hrefusal hctx hgood hserve =>
    exact .refused hphase hcall hrefusal hctx hgood hserve
  | waiting hphase hcall hrefusal hk hctx hserved =>
    obtain ⟨c', hc', hop, hctx', -⟩ := hkept _ _ hcall hk
    exact .waiting hphase hcall hrefusal hc' (hctx'.trans hctx) (hop ▸ hserved)
  | answered hphase hcall hrefusal hk hctx hserved hpc hresponse =>
    obtain ⟨c', hc', hop, hctx', hpc'⟩ := hkept _ _ hcall hk
    exact .answered hphase hcall hrefusal hc' (hctx'.trans hctx) (hop ▸ hserved) (hpc' _ hpc)
      hresponse

theorem callKept_refl (h : w'.memory = w.memory) : CallKept w w' e :=
  fun _ c _ hc => ⟨c, h ▸ hc, rfl, rfl, fun _ h => h⟩

theorem callKept_step (h : Memory.step H w.memory a = some memory)
    (ha : ∀ k cause, a = .cancel k cause → e.call ≠ some k) :
    CallKept w { w with memory := memory } e := by
  intro k c hk hc
  obtain ⟨c', hc', hmoved⟩ := Memory.step_moved h hc
  have hreturned result (hpc : c.pc = .returned result) := Memory.step_returned h hc hc' hpc
  cases Memory.step_stepped h with
  | spawn =>
    cases (snoc_of_some hc).symm.trans hc'
    exact ⟨c, hc', rfl, rfl, hreturned⟩
  | tick =>
    cases hc.symm.trans hc'
    exact ⟨c, hc, rfl, rfl, hreturned⟩
  | cancel =>
    have hne := ha _ _ rfl
    rcases set_cases hc' with ⟨rfl, -⟩ | ⟨-, hd⟩
    · exact absurd hk hne
    · cases hc.symm.trans hd
      exact ⟨c, hc', rfl, rfl, hreturned⟩
  | advance hd hcall =>
    rcases set_cases hc' with ⟨rfl, rfl⟩ | ⟨-, hd'⟩
    · cases hc.symm.trans hd
      exact ⟨_, hc', Memory.callStep_op hcall, Memory.callStep_ctx hcall, hreturned⟩
    · cases hc.symm.trans hd'
      exact ⟨c, hc', rfl, rfl, hreturned⟩

theorem contexts_step {m m' : Memory.World}
    (h : ∀ (k : Nat) c, m.calls[k]? = some c → c.ctx ≠ none) (hs : Memory.step H m a = some m')
    (hnew : ∀ op ctx, a = .spawn op ctx → ctx ≠ none) :
    ∀ (k : Nat) c, m'.calls[k]? = some c → c.ctx ≠ none := by
  cases Memory.step_stepped hs with
  | spawn => exact forall_snoc h (hnew _ _ rfl)
  | tick => exact h
  | cancel hc => exact forall_set h fun hnone => h _ _ hc (Option.map_eq_none_iff.mp hnone)
  | advance hc hcall =>
    exact forall_set h fun hnone => h _ _ hc ((Memory.callStep_ctx hcall).symm.trans hnone)

theorem owned_step {m m' : Memory.World} {exchanges : List Exchange}
    (h : ∀ (k : Nat) c, m.calls[k]? = some c → Owns Exchange.call exchanges k)
    (hs : Memory.step H m a = some m') (ha : ∀ op ctx, a ≠ .spawn op ctx) :
    ∀ (k : Nat) c, m'.calls[k]? = some c → Owns Exchange.call exchanges k := by
  intro k c hc
  have hlength : m'.calls.length = m.calls.length := by
    cases Memory.step_stepped hs with
    | spawn => exact absurd rfl (ha _ _)
    | tick => rfl
    | cancel | advance => exact List.length_set
  have hlt : k < m.calls.length := hlength ▸ (List.getElem?_eq_some_iff.mp hc).1
  exact h k _ (List.getElem?_eq_getElem hlt)

theorem inv_init (H : Hashes) (net : Net) (cfg : Settings) (good : Reads → Prop) (maxEntries : Int)
    (clock : Time) : Inv H net cfg good (World.init maxEntries clock) where
  memory := Memory.inv_init H maxEntries clock
  answers := Memory.answers_init maxEntries clock
  exchanges i e he := by simp [World.init] at he
  contexts k c hc := by simp [World.init, Memory.World.init] at hc
  owned k c hc := by simp [World.init, Memory.World.init] at hc
  exclusive := exclusive_nil

theorem ExchangeOk.admission (h : ExchangeOk H net cfg good w e) (hphase : e.phase = .admitted) :
    e.call = none ∧ e.refusal = none ∧
      (isVersionedAPIPath e.request.path = true → Authorised H cfg e.request.toRequest ∧
        ∃ cause, e.ctx = callerContext H net cfg e.request.toRequest cause) := by
  cases h with
  | admitted _ hcall hrefusal hctx => exact ⟨hcall, hrefusal, hctx⟩
  | aborted hphase' | refused hphase' | waiting hphase' | answered hphase' =>
    rw [hphase] at hphase'
    cases hphase'

theorem ExchangeOk.call_some (h : ExchangeOk H net cfg good w e) (hk : e.call = some k) :
    ∃ c, w.memory.calls[k]? = some c := by
  cases h with
  | admitted _ hcall | aborted _ hcall | refused _ hcall =>
    rw [hk] at hcall
    cases hcall
  | waiting _ hcall _ hc | answered _ hcall _ hc =>
    rw [hk] at hcall
    cases hcall
    exact ⟨_, hc⟩

theorem ExchangeOk.served (h : ExchangeOk H net cfg good w e) (hphase : e.phase = .waiting pending)
    (hk : e.call = some k) (hc : w.memory.calls[k]? = some c) :
    e.refusal = none ∧ c.ctx = e.ctx ∧ Served H net cfg good e.request c.op pending := by
  cases h with
  | waiting hphase' hk' hrefusal hc' hctx hserved =>
    cases hphase.symm.trans hphase'
    cases hk.symm.trans hk'
    cases hc.symm.trans hc'
    exact ⟨hrefusal, hctx, hserved⟩
  | admitted hphase' | aborted hphase' | refused hphase' | answered hphase' =>
    rw [hphase] at hphase'
    cases hphase'

theorem callerContext_cancelled (request : Auth.Request) (cause : Option ContextCause)
    (next : ContextCause) :
    (callerContext H net cfg request cause).map (Memory.cancelContext next) =
      callerContext H net cfg request (cause.or (some next)) := rfl

theorem accept_call (request : HttpRequest) (requestID : GoString) (base : Context)
    (handled : Option Handled) : (accept request requestID base handled).call = none := by
  unfold accept
  split <;> rfl

theorem Inv.arrived (h : Inv H net cfg good w) (hok : ExchangeOk H net cfg good w e)
    (hcall : e.call = none) :
    Inv H net cfg good { w with buckets := buckets, exchanges := w.exchanges ++ [e] } where
  memory := h.memory
  answers := h.answers
  exchanges := forall_snoc (fun j d hd => (h.exchanges j d hd).kept (callKept_refl rfl))
    (hok.kept (callKept_refl rfl))
  contexts := h.contexts
  owned k c hc := (owns_snoc hcall).mpr (h.owned k c hc)
  exclusive := exclusive_snoc h.exclusive hcall

theorem Inv.replace (h : Inv H net cfg good w) (he : w.exchanges[i]? = some e)
    (hcall : e'.call = e.call) (hok : ExchangeOk H net cfg good w e') :
    Inv H net cfg good { w with exchanges := w.exchanges.set i e' } where
  memory := h.memory
  answers := h.answers
  exchanges := forall_set (fun j d hd => (h.exchanges j d hd).kept (callKept_refl rfl))
    (hok.kept (callKept_refl rfl))
  contexts := h.contexts
  owned k c hc := (owns_keep he hcall).mpr (h.owned k c hc)
  exclusive := exclusive_keep h.exclusive he hcall

theorem Inv.moved {m : Memory.World} (h : Inv H net cfg good w) (hmoves : Moves w a b)
    (hs : Memory.step H w.memory b = some m) : Inv H net cfg good { w with memory := m } where
  memory := Memory.inv_step h.memory hs
  answers := Memory.answers_step h.memory h.answers hs
  exchanges j d hd := (h.exchanges j d hd).kept (callKept_step hs (by cases hmoves <;> nofun))
  contexts := contexts_step h.contexts hs (by cases hmoves <;> nofun)
  owned := owned_step h.owned hs (by cases hmoves <;> nofun)
  exclusive := h.exclusive

theorem Inv.cancelled {m : Memory.World} (h : Inv H net cfg good w)
    (he : w.exchanges[i]? = some e) (hphase : e.phase = .waiting pending) (hk : e.call = some k)
    (hc : w.memory.calls[k]? = some c) (hs : Memory.step H w.memory (.cancel k cause) = some m)
    (he' : e' = { e with ctx := e.ctx.map (Memory.cancelContext cause) }) :
    Inv H net cfg good { w with memory := m, exchanges := w.exchanges.set i e' } := by
  obtain ⟨hrefusal, hctx, hserved⟩ := (h.exchanges i e he).served hphase hk hc
  have hcalls : m.calls[k]? = some { c with ctx := c.ctx.map (Memory.cancelContext cause) } := by
    obtain ⟨d, hd, hs⟩ := Option.bind_eq_some_iff.mp hs
    cases hc.symm.trans hd
    cases hs
    exact set_self hc
  have hsame : e'.call = e.call := by rw [he']
  constructor
  case memory => exact Memory.inv_step h.memory hs
  case answers => exact Memory.answers_step h.memory h.answers hs
  case exchanges =>
    intro j d hd
    rcases set_cases hd with ⟨-, rfl⟩ | ⟨hne, hd⟩
    · subst he'
      exact .waiting hphase hk hrefusal hcalls (by rw [hctx]) hserved
    · -- no other exchange has this call
      refine ((h.exchanges j d hd).kept (callKept_step hs ?_)).kept (callKept_refl rfl)
      rintro _ _ hcancel hcall
      cases hcancel
      exact hne (h.exclusive j i d e k hd he hcall hk)
  case contexts => exact contexts_step h.contexts hs nofun
  case owned =>
    intro l d hd
    exact (owns_keep he hsame).mpr (owned_step h.owned hs nofun l d hd)
  case exclusive => exact exclusive_keep h.exclusive he hsame

theorem Inv.spawned (h : Inv H net cfg good w) (he : w.exchanges[i]? = some e)
    (hphase : e.phase = .admitted) (hgood : good reads)
    (hserve : serve H cfg e.request e.ctx reads = .ok (op, pending))
    (he' : e' = { e with call := some w.memory.calls.length, phase := .waiting pending }) :
    Inv H net cfg good { w with
      memory := { w.memory with calls := w.memory.calls ++ [Memory.Call.new op e.ctx] }
      exchanges := w.exchanges.set i e' } := by
  have hstep : Memory.step H w.memory (.spawn op e.ctx) =
      some { w.memory with calls := w.memory.calls ++ [Memory.Call.new op e.ctx] } := rfl
  have hnew : ¬Owns Exchange.call w.exchanges w.memory.calls.length := by
    rintro ⟨j, d, hd, hk⟩
    obtain ⟨c, hc⟩ := (h.exchanges j d hd).call_some hk
    exact absurd (List.getElem?_eq_some_iff.mp hc).1 (Nat.lt_irrefl _)
  obtain ⟨hcall, hrefusal, hadmission⟩ := (h.exchanges i e he).admission hphase
  obtain ⟨hauthorised, cause, hctx⟩ := hadmission (serve_ok hserve).versioned
  have hserved : Served H net cfg good e.request op pending :=
    ⟨hauthorised, cause, reads, hgood, hctx ▸ hserve⟩
  subst he'
  constructor
  case memory => exact Memory.inv_step h.memory hstep
  case answers => exact Memory.answers_step h.memory h.answers hstep
  case exchanges =>
    refine forall_set (fun j d hd => ?_) ?_
    · exact ((h.exchanges j d hd).kept (callKept_step hstep nofun)).kept (callKept_refl rfl)
    · exact .waiting rfl rfl hrefusal List.getElem?_concat_length rfl hserved
  case contexts =>
    refine contexts_step h.contexts hstep fun _ _ hspawn => ?_
    cases hspawn
    rw [hctx]
    exact nofun
  case owned =>
    intro k c hc
    rw [owns_acquire he hcall rfl]
    rcases snoc_cases hc with ⟨rfl, -⟩ | hc
    · exact .inl rfl
    · exact .inr (h.owned k c hc)
  case exclusive => exact exclusive_acquire h.exclusive rfl hnew

theorem inv_step (h : Inv H net cfg good w) (hs : step H net cfg w a = some w')
    (hgood : WithReads good w a w') : Inv H net cfg good w' := by
  cases step_stepped hs with
  | arrived hsec hbase => exact h.arrived (exchangeOk_accept hbase hsec) (accept_call _ _ _ _)
  | answered he hphase hserve =>
    obtain ⟨hcall, hrefusal, hadmission⟩ := (h.exchanges _ _ he).admission hphase
    refine h.replace he rfl
      (.refused rfl hcall hrefusal (fun hpath hnone => ?_) (hgood _ _ rfl) hserve)
    obtain ⟨-, cause, hctx⟩ := hadmission hpath
    cases hctx.symm.trans hnone
  | spawned he hphase hserve he' => exact h.spawned he hphase (hgood _ _ rfl) hserve he'
  | left he hphase he' =>
    obtain ⟨hcall, hrefusal, hadmission⟩ := (h.exchanges _ _ he).admission hphase
    refine h.replace he (by rw [he']) ?_
    subst he'
    refine .admitted hphase hcall hrefusal fun hpath => ?_
    obtain ⟨hauthorised, cause, hctx⟩ := hadmission hpath
    exact ⟨hauthorised, _, (congrArg (Option.map _) hctx).trans (callerContext_cancelled _ _ _)⟩
  | cancelled he hphase hk hc hmemory he' => exact h.cancelled he hphase hk hc hmemory he'
  | moved hmoves hmemory => exact h.moved hmoves hmemory
  | finished he hphase hk hcall hpc hresponse =>
    obtain ⟨hrefusal, hctx, hserved⟩ := (h.exchanges _ _ he).served hphase hk hcall
    exact h.replace he rfl (.answered rfl hk hrefusal hcall hctx hserved hpc hresponse)

theorem inv_run
    (hr : Run (step H net cfg) (WithReads good) (World.init maxEntries clock) w) :
    Inv H net cfg good w :=
  hr.invariant (fun _ _ _ h hs hgood => inv_step h hs hgood)
    (inv_init H net cfg good maxEntries clock)

theorem inv_reachable (hr : Reaches (step H net cfg) (World.init maxEntries clock) w) :
    Inv H net cfg (fun _ => True) w :=
  inv_run (hr.mono fun _ _ _ _ _ _ _ _ => trivial)

end

-- ---------------------------------------------------------------------------
-- A small workload, for evaluating runs
-- ---------------------------------------------------------------------------

def sampleSettings : Settings :=
  ⟨some sampleVerifier, some singlePlace, some sampleCodec, true, plainGin, plainUuids⟩

def sampleHttp (method path : GoString) (header : List (GoString × List GoString))
    (upload : Upload) : HttpRequest :=
  ⟨⟨(str "Authorization", [str "Bearer secret"]) :: header, str "10.0.0.1", path⟩,
    method, [], upload⟩

def samplePost : HttpRequest :=
  sampleHttp (str "POST") itemsPath [(str "Idempotency-Key", [str "key"])]
    ⟨-1, some ⟨str "\x7b\"name\":\" name \",\"description\":\"text\"\x7d", false⟩⟩

def sampleID (n : UInt8) : UUID :=
  ⟨n :: [0, 0, 0, 0, 0, 0x40, 0, 0x80, 0, 0, 0, 0, 0, 0, 0].map UInt8.ofNat, rfl⟩

def sampleReads (n : UInt8) : Reads where
  create := ⟨.ok (sampleID n), Memory.sampleTime, Memory.sampleTime⟩
  decoding := Memory.sampleTime
  ready := true
  exposition := []

def sampleArrival (request : HttpRequest) : Action :=
  .arrive request (sampleID 255) (.ofSec 0) {} none

def createActions (i : Nat) (n : UInt8) : List Action :=
  [sampleArrival samplePost, .dispatch i (sampleReads n)] ++ List.replicate 7 (.advance i) ++
    [.finish i Memory.sampleTime]

def created (n : UInt8) : Item := ⟨sampleID n, str "name", str "text", Memory.sampleTime⟩

end GoClean.Server
