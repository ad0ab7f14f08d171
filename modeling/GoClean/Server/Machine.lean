import GoClean.Http.Observability
import GoClean.Http.Router
import GoClean.Item.ServiceCalls
import GoClean.Lib.Simulation
import GoClean.Memory.Policy

/-!
# The server

The router of `internal/controller/http` over the item service and the memory
store. A request is given an identifier and passes the security middleware,
which may answer it; its handler then runs up to its call of the store, waits
while the store's steps interleave with those of other requests, and writes the
answer. A client may leave at any time, which cancels the context of its
request. Answered exchanges stay in the world.
-/

namespace GoClean.Server

open Go Auth RateLimit Http HttpApi Transition

/-- `http.Request`, as far as the router and the handlers read it. -/
structure HttpRequest extends Auth.Request where
  method : GoString
  rawQuery : GoString
  upload : Upload

/-- What `NewRouter` and the service are given, and the libraries they use. -/
structure Settings where
  authenticator : Option BearerSHA256
  limiter : Option Limiter
  cursorCodec : Option SignedCursorCodec
  metricsEnabled : Bool
  gin : Gin
  uuids : Uuids

/-- What a handler reads from outside on its way to the store: the generator
and the clock, the clock of the codec, the readiness check, and what the
metrics endpoint writes. -/
structure Reads where
  create : CreateEnv
  decoding : Time
  ready : Bool
  exposition : GoString

/-- What a handler is to do with the store's answer. -/
inductive Pending
  | create
  | createIdempotent (key : GoString)
  | get
  | list (normalized : ListParams)
  | listCursor (limit : Int)
  deriving DecidableEq

inductive Phase
  /-- The middleware has let the request pass. -/
  | admitted
  | waiting (pending : Pending)
  | answered (response : Response)
  deriving DecidableEq

structure Exchange where
  request : HttpRequest
  /-- The caller the middleware has verified. -/
  principal : Option Principal
  /-- The headers the middleware has set. -/
  headers : List Header
  /-- The error with which the security middleware ended the request. -/
  refusal : Option SecurityError
  /-- The context of the request, as it was when the answer was written. -/
  ctx : Option Context
  /-- The call of the store. -/
  call : Option Nat
  phase : Phase

structure World where
  buckets : Buckets
  memory : Memory.World
  exchanges : List Exchange

def World.init (maxEntries : Int) (clock : Time) : World :=
  ⟨∅, Memory.World.init maxEntries clock, []⟩

def World.answer (w : World) (i : Nat) : Option Response := do
  let e ← w.exchanges[i]?
  match e.phase with
  | .answered response => some response
  | _ => none

def Exchange.answer (e : Exchange) (response : Response) : Exchange :=
  { e with phase := .answered { response with headers := e.headers ++ response.headers } }

section
variable (H : Hashes) (net : Net) (cfg : Settings)

/-- The codec of the service when its clock shows `clock`. -/
def Settings.codec (clock : Time) : Option CursorCodec :=
  cfg.cursorCodec.map fun codec => ⟨codec.encode H clock, codec.decode H clock⟩

-- ---------------------------------------------------------------------------
-- Handlers
-- ---------------------------------------------------------------------------

/-- The handlers up to their call of the store, or the answer they give
without one. -/
def serveCreate (request : HttpRequest) (ctx : Option Context) (reads : Reads) :
    Except Response (Memory.Op × Pending) := do
  let (input, key) ← readCreate (newMaxBodyBytes []) request.header request.upload
  match key with
  | none =>
    let value ← (createRequest reads.create ctx input).mapError fun err =>
      writeCreated request.path none (.error err)
    pure (.create value, .create)
  | some key =>
    let storeRequest ← (createIdempotentRequest H reads.create ctx input key).mapError fun err =>
      writeCreated request.path (some key) (.error err)
    pure (.createIdempotent storeRequest, .createIdempotent key)

def serveGet (param : GoString) (ctx : Option Context) :
    Except Response (Memory.Op × Pending) := do
  let id ← readID cfg.uuids param
  let id ← (getRequest ctx id).mapError fun err => writeItem (.error err)
  pure (.get id, .get)

def serviceErrorResponse (err : Error) : Response := (writeServiceError err).response

def serveList (request : HttpRequest) (ctx : Option Context) (reads : Reads) :
    Except Response (Memory.Op × Pending) :=
  match parseListRequest (some request.rawQuery) with
  | none => .error (writeError 400 "bad_request" "invalid pagination parameters")
  | some (.offset params) => do
    let normalized ← (listRequest ctx params).mapError serviceErrorResponse
    pure (.list (lookAhead normalized), .list normalized)
  | some (.cursor cursor) => do
    let params ← (listCursorRequest (cfg.codec H reads.decoding) ctx cursor).mapError
      serviceErrorResponse
    pure (.listAfter params, .listCursor (params.limit - 1))

def serve (request : HttpRequest) (ctx : Option Context) (reads : Reads) :
    Except Response (Memory.Op × Pending) :=
  match findRoute cfg.gin cfg.metricsEnabled request.method request.path with
  | none => .error ⟨404, [], .text "404 page not found"⟩
  | some .liveness => .error ⟨200, [], .health "ok"⟩
  | some .readiness =>
    .error (if reads.ready then ⟨200, [], .health "ok"⟩ else ⟨503, [], .health "unavailable"⟩)
  | some .metrics => .error ⟨200, [], .text reads.exposition⟩
  | some .createItem => serveCreate H request ctx reads
  | some .listItems => serveList H cfg request ctx reads
  | some (.getItem param) => serveGet cfg param ctx

/-- The handlers after the store has answered, which it does in the form the
handler waits for. -/
def respond (path : GoString) (ctx : Option Context) (encoding : Time) :
    Pending → Except Error Memory.Reply → Option Response
  | .create, .error err => some (writeCreated path none (.error err))
  | .create, .ok (.item value) => some (writeCreated path none (.ok (value, false)))
  | .createIdempotent key, .error err => some (writeCreated path (some key) (.error err))
  | .createIdempotent key, .ok (.created value replayed) =>
    some (writeCreated path (some key) (createIdempotentReply value replayed))
  | .get, .error err => some (writeItem (.error err))
  | .get, .ok (.item value) => some (writeItem (.ok value))
  | .list _, .error err => some (writePage (.error err)).response
  | .list normalized, .ok (.items rows) =>
    some (writePage (listReply (cfg.codec H encoding) normalized rows)).response
  | .listCursor _, .error err => some (writeCursorPage (.error err)).response
  | .listCursor limit, .ok (.items rows) =>
    some (writeCursorPage (listCursorReply (cfg.codec H encoding) ctx limit rows)).response
  | _, _ => none

-- ---------------------------------------------------------------------------
-- Steps
-- ---------------------------------------------------------------------------

inductive Action
  /-- A request arrives and passes the middleware, when the limiter's clock
  reads `now` and a new identifier would be `generated`. -/
  | arrive (request : HttpRequest) (generated : UUID) (now : Reading) (checks : CheckedContext)
      (cause : Option ContextCause)
  | dispatch (exchange : Nat) (reads : Reads)
  | advance (exchange : Nat)
  | finish (exchange : Nat) (encoding : Time)
  /-- The client leaves, or a deadline passes. -/
  | cancel (exchange : Nat) (cause : ContextCause)
  | tick (clock : Time)

def accept (request : HttpRequest) (requestID : GoString) (base : Context) :
    Option Handled → Exchange
  | none => ⟨request, none, [(requestIDHeader, requestID)], none, some base, none, .admitted⟩
  | some ⟨.next principal ctx, headers, _⟩ =>
    ⟨request, principal, (requestIDHeader, requestID) :: headers, none, ctx, none, .admitted⟩
  | some ⟨.abort err, headers, _⟩ =>
    let headers := (requestIDHeader, requestID) :: headers
    ⟨request, none, headers, some err, some base, none,
      .answered ⟨err.status, headers, .error err.code err.message⟩⟩

def arrive (w : World) (request : HttpRequest) (generated : UUID) (now : Reading)
    (checks : CheckedContext) (cause : Option ContextCause) : World :=
  let base : Context := { Context.background with cause := cause }
  let requestID := requestIDFor request.header generated
  let (buckets, handled) := apiSecurityMiddleware H net cfg.authenticator cfg.limiter w.buckets
    ⟨now, some request.toRequest, checks, base⟩
  { w with
    buckets := buckets
    exchanges := w.exchanges ++ [accept request requestID base handled] }

def dispatch (w : World) (i : Nat) (e : Exchange) (reads : Reads) : Option World :=
  match e.phase with
  | .admitted =>
    match serve H cfg e.request e.ctx reads with
    | .error response => some { w with exchanges := w.exchanges.set i (e.answer response) }
    | .ok (op, pending) =>
      let e' := { e with call := some w.memory.calls.length, phase := .waiting pending }
      some { w with
        memory := { w.memory with calls := w.memory.calls ++ [Memory.Call.new op e.ctx] }
        exchanges := w.exchanges.set i e' }
  | _ => none

def finish (w : World) (i : Nat) (e : Exchange) (encoding : Time) : Option World :=
  match e.phase with
  | .waiting pending => do
    let k ← e.call
    let call ← w.memory.calls[k]?
    match call.pc with
    | .returned result => do
      let response ← respond H cfg e.request.path e.ctx encoding pending result
      some { w with exchanges := w.exchanges.set i (e.answer response) }
    | _ => none
  | _ => none

def cancel (w : World) (i : Nat) (e : Exchange) (cause : ContextCause) : Option World :=
  let e' := { e with ctx := e.ctx.map (Memory.cancelContext cause) }
  match e.phase with
  | .admitted => some { w with exchanges := w.exchanges.set i e' }
  | .waiting _ => do
    let k ← e.call
    let memory ← Memory.step H w.memory (.cancel k cause)
    some { w with memory := memory, exchanges := w.exchanges.set i e' }
  | .answered _ => none

def advance (w : World) (e : Exchange) : Option World :=
  match e.phase with
  | .waiting _ => do
    let k ← e.call
    let memory ← Memory.step H w.memory (.advance k)
    some { w with memory := memory }
  | _ => none

def step (w : World) : Action → Option World
  | .arrive request generated now checks cause =>
    some (arrive H net cfg w request generated now checks cause)
  | .dispatch i reads => do
    let e ← w.exchanges[i]?
    dispatch H cfg w i e reads
  | .advance i => do
    let e ← w.exchanges[i]?
    advance H w e
  | .finish i encoding => do
    let e ← w.exchanges[i]?
    finish H cfg w i e encoding
  | .cancel i cause => do
    let e ← w.exchanges[i]?
    cancel H w i e cause
  | .tick clock =>
    (Memory.step H w.memory (.tick clock)).map fun memory => { w with memory := memory }

end

-- ---------------------------------------------------------------------------
-- What a step can do
-- ---------------------------------------------------------------------------

inductive Moves (w : World) : Action → Memory.Action → Prop
  | advance {e : Exchange} : w.exchanges[i]? = some e → e.phase = .waiting pending →
      e.call = some k → Moves w (.advance i) (.advance k)
  | tick : Moves w (.tick clock) (.tick clock)

inductive Stepped (H : Hashes) (net : Net) (cfg : Settings) (w : World) : Action → World → Prop
  | arrived {base : Context} :
      apiSecurityMiddleware H net cfg.authenticator cfg.limiter w.buckets
        ⟨now, some request.toRequest, checks, base⟩ = (buckets, handled) → base.scope = none →
      requestID = requestIDFor request.header generated →
      Stepped H net cfg w (.arrive request generated now checks cause) { w with
        buckets := buckets
        exchanges := w.exchanges ++ [accept request requestID base handled] }
  | answered {e : Exchange} : w.exchanges[i]? = some e → e.phase = .admitted →
      serve H cfg e.request e.ctx reads = .error response →
      Stepped H net cfg w (.dispatch i reads)
        { w with exchanges := w.exchanges.set i (e.answer response) }
  | spawned {e : Exchange} : w.exchanges[i]? = some e → e.phase = .admitted →
      serve H cfg e.request e.ctx reads = .ok (op, pending) →
      e' = { e with call := some w.memory.calls.length, phase := .waiting pending } →
      Stepped H net cfg w (.dispatch i reads) { w with
        memory := { w.memory with calls := w.memory.calls ++ [Memory.Call.new op e.ctx] }
        exchanges := w.exchanges.set i e' }
  | left {e : Exchange} : w.exchanges[i]? = some e → e.phase = .admitted →
      e' = { e with ctx := e.ctx.map (Memory.cancelContext cause) } →
      Stepped H net cfg w (.cancel i cause) { w with exchanges := w.exchanges.set i e' }
  | cancelled {e : Exchange} : w.exchanges[i]? = some e → e.phase = .waiting pending →
      e.call = some k → w.memory.calls[k]? = some c →
      Memory.step H w.memory (.cancel k cause) = some memory →
      e' = { e with ctx := e.ctx.map (Memory.cancelContext cause) } →
      Stepped H net cfg w (.cancel i cause)
        { w with memory := memory, exchanges := w.exchanges.set i e' }
  | moved : Moves w a m → Memory.step H w.memory m = some memory →
      Stepped H net cfg w a { w with memory := memory }
  | finished {e : Exchange} : w.exchanges[i]? = some e → e.phase = .waiting pending →
      e.call = some k → w.memory.calls[k]? = some call → call.pc = .returned result →
      respond H cfg e.request.path e.ctx encoding pending result = some response →
      Stepped H net cfg w (.finish i encoding)
        { w with exchanges := w.exchanges.set i (e.answer response) }

section
variable {H : Hashes} {net : Net} {cfg : Settings} {w w' : World}

theorem step_stepped (h : step H net cfg w a = some w') : Stepped H net cfg w a w' := by
  cases a with
  | arrive request generated now checks cause =>
    cases h
    exact .arrived rfl rfl rfl
  | dispatch i reads =>
    obtain ⟨e, he, h⟩ := Option.bind_eq_some_iff.mp h
    unfold dispatch at h
    split at h
    case h_2 => cases h
    case h_1 hphase =>
      split at h
      · next hserve =>
        cases h
        exact .answered he hphase hserve
      · next hserve =>
        cases h
        exact .spawned he hphase hserve rfl
  | advance i =>
    obtain ⟨e, he, h⟩ := Option.bind_eq_some_iff.mp h
    unfold advance at h
    split at h
    case h_2 => cases h
    case h_1 hphase =>
      obtain ⟨k, hk, h⟩ := Option.bind_eq_some_iff.mp h
      obtain ⟨memory, hmemory, h⟩ := Option.bind_eq_some_iff.mp h
      cases h
      exact .moved (.advance he hphase hk) hmemory
  | finish i encoding =>
    obtain ⟨e, he, h⟩ := Option.bind_eq_some_iff.mp h
    unfold finish at h
    split at h
    case h_2 => cases h
    case h_1 pending hphase =>
      obtain ⟨k, hk, h⟩ := Option.bind_eq_some_iff.mp h
      obtain ⟨call, hcall, h⟩ := Option.bind_eq_some_iff.mp h
      split at h
      case h_2 => cases h
      case h_1 result hpc =>
        obtain ⟨response, hresponse, h⟩ := Option.bind_eq_some_iff.mp h
        cases h
        exact .finished he hphase hk hcall hpc hresponse
  | cancel i cause =>
    obtain ⟨e, he, h⟩ := Option.bind_eq_some_iff.mp h
    unfold cancel at h
    split at h
    case h_3 => cases h
    case h_1 hphase =>
      cases h
      exact .left he hphase rfl
    case h_2 hphase =>
      obtain ⟨k, hk, h⟩ := Option.bind_eq_some_iff.mp h
      obtain ⟨memory, hmemory, h⟩ := Option.bind_eq_some_iff.mp h
      obtain ⟨c, hc, -⟩ := Option.bind_eq_some_iff.mp hmemory
      cases h
      exact .cancelled he hphase hk hc hmemory rfl
  | tick clock =>
    cases h
    exact .moved .tick rfl

theorem answer_iff {i : Nat} :
    w.answer i = some response ↔ ∃ e, w.exchanges[i]? = some e ∧ e.phase = .answered response := by
  simp only [World.answer, Option.bind_eq_bind, Option.bind_eq_some_iff]
  refine exists_congr fun e => and_congr_right fun _ => ?_
  split
  · next hphase => rw [hphase, Option.some.injEq, Phase.answered.injEq]
  · next hphase => exact ⟨nofun, fun h => absurd h (hphase response)⟩

theorem memory_reaches (hr : Run (step H net cfg) ok w w') :
    Reaches (Memory.step H) w.memory w'.memory := by
  refine hr.simulates World.memory fun w a w' hs _ => ?_
  cases step_stepped hs with
  | arrived | answered | left | finished => exact .refl
  | @spawned _ _ op _ _ e => exact .single (a := Memory.Action.spawn op e.ctx) rfl trivial
  | cancelled _ _ _ _ hmemory | moved _ hmemory => exact .single hmemory trivial

end

end GoClean.Server
