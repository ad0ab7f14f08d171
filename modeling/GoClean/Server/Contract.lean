import GoClean.Go.Rfc3339
import GoClean.Server.Headers
import GoClean.Server.Location

/-!
# The API conforms to its document

`docs/openapi.yaml` says for each operation which statuses it answers with,
and for each status the schema of the body and the headers: which are required,
and the schemas of their values. Every answer of the server to a documented
operation is such an answer, as long as the clock shows years of four digits.
-/

namespace GoClean.Server

open Go Auth RateLimit Http HttpApi Threads Transition

-- ---------------------------------------------------------------------------
-- The document
-- ---------------------------------------------------------------------------

def IsHex (n : Nat) (s : GoString) : Prop := s.length = n ∧ ∀ b ∈ s, ∃ d : Fin 16, b = Hex.digit d

def IDPattern (s : GoString) : Prop :=
  ∃ a b c d e variant, IsHex 8 a ∧ IsHex 4 b ∧ IsHex 3 c ∧ variant ∈ str "89ab" ∧
    IsHex 3 d ∧ IsHex 12 e ∧
    s = a ++ str "-" ++ b ++ str "-4" ++ c ++ str "-" ++ (variant :: d) ++ str "-" ++ e

structure ItemSchema (v : Item) : Prop where
  id : IDPattern v.id.string
  name_min : 1 ≤ runeCountInString v.name
  name_max : runeCountInString v.name ≤ 120
  description_max : runeCountInString v.description ≤ 2000
  createdAt_utc : v.createdAt.loc = none
  createdAt : ∃ text, v.createdAt.marshalUTC = some text ∧ DateTime text

def isCursorByte (c : UInt8) : Bool :=
  decide (97 ≤ c ∧ c ≤ 122) || decide (65 ≤ c ∧ c ≤ 90) || decide (48 ≤ c ∧ c ≤ 57) ||
    c == 95 || c == 45

structure CursorSchema (token : GoString) : Prop where
  min : 4 ≤ token.length
  max : token.length ≤ 512
  pattern : ∃ rest, token = str "v1_" ++ rest ∧ rest ≠ [] ∧ rest.all isCursorByte = true

/-- The schema `PageMeta`; an empty cursor is left out of the body. -/
structure PageMetaSchema (info : PageMeta) : Prop where
  limit : 1 ≤ info.limit ∧ info.limit ≤ 100
  offset : ∀ offset ∈ info.offset, 0 ≤ offset
  nextCursor : info.nextCursor ≠ [] → CursorSchema info.nextCursor

def errorCodes : List GoString :=
  ["bad_request", "invalid_cursor", "validation_error", "not_found", "conflict",
    "idempotency_conflict",
    "idempotency_in_progress", "idempotency_unavailable", "cursor_unavailable", "unauthorized",
    "rate_limited", "internal_error"]

inductive Schema
  | health (status : GoString)
  | itemData
  | itemList
  | error
  deriving DecidableEq

def Schema.Accepts : Schema → Payload → Prop
  | .health status, payload => payload = .health status
  | .itemData, payload => ∃ v, payload = .item v ∧ ItemSchema v
  | .itemList, payload =>
    ∃ data info, payload = .page data info ∧ (∀ v ∈ data, ItemSchema v) ∧ PageMetaSchema info
  | .error, payload =>
    ∃ code message, payload = .error code message ∧ code ∈ errorCodes ∧ message ≠ []

def responseSchema : Route → Nat → Option Schema
  | .liveness, status => if status = 200 then some (.health "ok") else none
  | .readiness, status =>
    if status = 200 then some (.health "ok") else if status = 503 then
    some (.health "unavailable") else none
  | .createItem, status =>
    if status ∈ [200, 201] then some .itemData
    else if status ∈ [400, 401, 404, 409, 422, 500, 503, 429] then some .error
    else none
  | .listItems, status =>
    if status = 200 then some .itemList else if status ∈ [400, 401, 500, 503, 429] then
    some .error else none
  | .getItem _, status =>
    if status = 200 then some .itemData else if status ∈ [400, 401, 404, 500, 429] then
    some .error else none
  | .metrics, _ => none

def httpTokenBytes : GoString :=
  "ABCDEFGHIJKLMNOPQRSTUVWXYZabcdefghijklmnopqrstuvwxyz0123456789!#$%&'*+-.^_`|~"

def uriPathBytes : GoString :=
  "ABCDEFGHIJKLMNOPQRSTUVWXYZabcdefghijklmnopqrstuvwxyz0123456789-._~!$&'()*+,;=:@/"

inductive HeaderSchema
  | token (maxLength : Nat)
  | const (value : GoString)
  | integer (minimum : Int) (int64 : Bool)
  | uriReference
  deriving DecidableEq

-- an absolute path is a `uri-reference`
def HeaderSchema.Accepts : HeaderSchema → GoString → Prop
  | .token maxLength, value =>
    1 ≤ value.length ∧ value.length ≤ maxLength ∧ ∀ b ∈ value, b ∈ httpTokenBytes
  | .const text, value => value = text
  | .integer minimum int64, value =>
    ∃ n : Int, value = itoa n ∧ minimum ≤ n ∧ (int64 = true → n < 2 ^ 63)
  | .uriReference, value =>
    ∃ first rest, value = 47 :: first :: rest ∧ first ≠ 47 ∧ ∀ b ∈ value, b ∈ uriPathBytes

structure HeaderDoc where
  name : GoString
  required : Bool
  schema : HeaderSchema
  deriving DecidableEq

def statusHeaders : Route → Nat → List HeaderDoc
  | .createItem, 200 =>
    [⟨"Idempotency-Key", true, .token 255⟩, ⟨"Idempotency-Replayed", true, .const "true"⟩,
      ⟨"Location", true, .uriReference⟩]
  | .createItem, 201 =>
    [⟨"Idempotency-Key", false, .token 255⟩, ⟨"Location", true, .uriReference⟩]
  | .createItem, 409 => [⟨"Retry-After", false, .integer 1 true⟩]
  | _, 401 => [⟨"WWW-Authenticate", true, .const "Bearer realm=\"api\""⟩]
  | _, 429 =>
    [⟨"Retry-After", true, .integer 1 true⟩, ⟨"RateLimit-Remaining", true, .integer 0 false⟩]
  | _, _ => []

def responseHeaders (route : Route) (status : Nat) : List HeaderDoc :=
  ⟨"X-Request-ID", true, .token 128⟩ :: statusHeaders route status

/-- A required header is there, and whatever its values, they have the schema. -/
structure HeaderDoc.Met (doc : HeaderDoc) (headers : List Header) : Prop where
  present : doc.required = true → ∃ value, (doc.name, value) ∈ headers
  values : ∀ value, (doc.name, value) ∈ headers → doc.schema.Accepts value

structure Conforms (route : Route) (response : Response) : Prop where
  schema : ∃ schema, responseSchema route response.status = some schema ∧
    schema.Accepts response.payload
  headers : ∀ doc ∈ responseHeaders route response.status, doc.Met response.headers

/-- The clocks a handler reads show a year of four digits. -/
def Dated (reads : Reads) : Prop :=
  ∀ t ∈ [reads.create.clock, reads.create.wall], 0 ≤ t.date.year ∧ t.date.year ≤ 9999

section
variable {H : Hashes} {net : Net} {cfg : Settings} {w w' : World} {names : List GoString}

-- ---------------------------------------------------------------------------
-- Identifiers and cursors
-- ---------------------------------------------------------------------------

theorem isHex_digit (n : Nat) (h : n < 16) : IsHex 1 [Hex.digit n] :=
  ⟨rfl, fun _ hb => ⟨⟨n, h⟩, List.mem_singleton.mp hb⟩⟩

theorem IsHex.append (hs : IsHex m s) (ht : IsHex n t) : IsHex (m + n) (s ++ t) := by
  refine ⟨by rw [List.length_append, hs.1, ht.1], fun b hb => ?_⟩
  rcases List.mem_append.mp hb with hb | hb
  · exact hs.2 b hb
  · exact ht.2 b hb

theorem isHex_encode (bytes : List UInt8) : IsHex (2 * bytes.length) (Hex.encodeToString bytes) :=
  ⟨Hex.length_encodeToString bytes, fun _ => Hex.mem_encodeToString⟩

/-- The version and the variant of an identifier stand at fixed places of its
text. -/
theorem idPattern_string {id : UUID} (hversion : id.version = 4) (hvariant : id.isRFC4122 = true) :
    IDPattern id.string := by
  obtain ⟨bytes, hlength⟩ := id
  have hpair (k : Nat) (hk : k + 2 ≤ 16) : (bytes.drop k).take 2 = [bytes.getD k 0,
      bytes.getD (k + 1) 0] := by
    have hfirst : k < bytes.length := by omega
    have hsecond : k + 1 < bytes.length := by omega
    rw [List.drop_eq_getElem_cons hfirst, List.drop_eq_getElem_cons hsecond,
      List.getD_eq_getElem?_getD,
      List.getD_eq_getElem?_getD, List.getElem?_eq_getElem hfirst, List.getElem?_eq_getElem hsecond]
    rfl
  have hencode (b c : UInt8) : Hex.encodeToString [b, c] =
      Hex.digit (b.toNat / 16) :: ([Hex.digit (b.toNat % 16)] ++ Hex.encodeToString [c]) := rfl
  have hdigit (b : UInt8) : IsHex 1 [Hex.digit (b.toNat % 16)] :=
    isHex_digit _ (Nat.mod_lt _ (by decide))
  have hfirst : ∀ b : UInt8, b &&& 0xc0 == 0x80 → Hex.digit (b.toNat / 16) ∈ str "89ab" :=
    forall_byte (by decide +kernel)
  have hlen (k n : Nat) : (bytes.drop k |>.take n).length = min n (16 - k) := by
    rw [List.length_take, List.length_drop, hlength]
  have hfour : Hex.digit ((bytes.getD 6 0).toNat / 16) = Hex.digit 4 := congrArg Hex.digit hversion
  refine ⟨Hex.encodeToString (bytes.take 4), Hex.encodeToString ((bytes.drop 4).take 2),
    [Hex.digit ((bytes.getD 6 0).toNat % 16)] ++ Hex.encodeToString [bytes.getD 7 0],
    [Hex.digit ((bytes.getD 8 0).toNat % 16)] ++ Hex.encodeToString [bytes.getD 9 0],
    Hex.encodeToString (bytes.drop 10), Hex.digit ((bytes.getD 8 0).toNat / 16), ?_, ?_,
    (hdigit _).append (isHex_encode [_]), hfirst _ hvariant,
    (hdigit _).append (isHex_encode [_]), ?_, ?_⟩
  · have h := isHex_encode (bytes.take 4)
    rwa [List.length_take, hlength] at h
  · have h := isHex_encode ((bytes.drop 4).take 2)
    rwa [hlen] at h
  · have h := isHex_encode (bytes.drop 10)
    rwa [List.length_drop, hlength] at h
  · simp only [UUID.string, List.Vector.toList_mk, hpair 6 (by decide),
      hpair 8 (by decide), hencode, hfour]
    simp only [List.append_assoc, List.cons_append, List.nil_append]
    rfl

theorem isCursorByte_encodeToString (bytes : List UInt8) :
    (Base64.encodeToString bytes).all isCursorByte = true := by
  have hchar : ∀ n : Fin 64, isCursorByte (Base64.encodeChar n) = true := by decide
  simp only [Base64.encodeToString, List.all_map, List.all_eq_true, Function.comp]
  exact fun d hd => hchar ⟨d, Base64.encodeDigits_lt bytes d hd⟩

theorem cursorSchema_encode {codec : SignedCursorCodec}
    (h : codec.encode H clock position = .ok token) :
    CursorSchema token := by
  simp only [SignedCursorCodec.encode, bind_ok, ensure_ok, pure_ok, decide_eq_true_eq] at h
  obtain ⟨_, -, _, -, createdAt, -, expiry, -, _, hmax, rfl⟩ := h
  generalize hwire : cursorVersion :: (createdAt ++ (expiry ++ position.id.toList)) ++ _ =
    wire at hmax ⊢
  have hpos : 1 ≤ (Base64.encodeToString wire).length := by
    rw [← hwire, Base64.length_encodeToString, List.cons_append, List.length_cons]
    omega
  refine ⟨?_, hmax, _, rfl, List.length_pos_iff.mp hpos, isCursorByte_encodeToString _⟩
  have hprefix : cursorPrefix.length = 3 := by decide
  rw [List.length_append, hprefix]
  omega

-- ---------------------------------------------------------------------------
-- Items and pages
-- ---------------------------------------------------------------------------

theorem itemSchema_candidate {reads : Reads} (hdated : Dated reads)
    (h : Made.candidate ⟨reads.create, input⟩ = .ok v) : ItemSchema v := by
  simp only [Made.candidate, validateCreateInput, newItem, bind_ok, ensure_ok, pure_ok,
    Bool.and_eq_true, decide_eq_true_eq] at h
  obtain ⟨canonical, ⟨_, -, _, hmin, _, hmax, _, -, _, hlong, rfl⟩, id, -, _,
    ⟨⟨-, hversion⟩, hvariant⟩, rfl⟩ := h
  refine ⟨idPattern_string hversion hvariant, hmin, hmax, hlong, rfl, ?_⟩
  refine Time.marshalUTC_dateTime _ ?_
  split_ifs
  · exact hdated reads.create.wall (by simp)
  · exact hdated reads.create.clock (by simp)

theorem Inv.itemSchema {id : UUID} (h : Inv H net cfg Dated w)
    (hr : Reaches (Memory.step H) (Memory.World.init maxEntries clock) w.memory)
    (hl : w.memory.store.items.lookup id = some v) : ItemSchema v := by
  obtain ⟨_, _, _, _, -, hserved, hop⟩ := h.candidate hr hl
  obtain ⟨-, _, _, _, hdated, -, hv⟩ := hserved.made hop
  exact itemSchema_candidate hdated hv

theorem nextCursor_schema {codec : CursorCodec} (hcodec : cfg.codec H encoding = some codec)
    (h : codec.nextCursor hasMore items = .ok token) (hne : token ≠ []) : CursorSchema token := by
  obtain ⟨signed, -, rfl⟩ := Option.map_eq_some_iff.mp hcodec
  unfold CursorCodec.nextCursor at h
  split at h
  · obtain ⟨position, -, h⟩ := bind_ok.mp h
    exact cursorSchema_encode (mapError_ok h)
  · cases h
    exact absurd rfl hne

theorem listReply_schema (h : listReply (cfg.codec H encoding) normalized rows = .ok page)
    (hlimit : 1 ≤ normalized.limit ∧ normalized.limit ≤ maxPageSize)
    (hoffset : 0 ≤ normalized.offset) :
    PageMetaSchema ⟨page.limit, some page.offset, page.hasMore, page.nextCursor⟩ := by
  unfold listReply at h
  cases hcodec : cfg.codec H encoding with
  | none =>
    rw [hcodec] at h
    cases h
    exact ⟨hlimit, by simpa using hoffset, fun hne => absurd rfl hne⟩
  | some codec =>
    rw [hcodec] at h
    obtain ⟨token, htoken, h⟩ := bind_ok.mp h
    cases h
    exact ⟨hlimit, by simpa using hoffset, nextCursor_schema hcodec htoken⟩

theorem listCursorReply_schema
    (h : listCursorReply (cfg.codec H encoding) ctx limit rows = .ok page)
    (hlimit : 1 ≤ limit ∧ limit ≤ maxPageSize) :
    PageMetaSchema ⟨page.limit, none, page.hasMore, page.nextCursor⟩ := by
  unfold listCursorReply at h
  obtain ⟨_, -, h⟩ := bind_ok.mp h
  obtain ⟨_, -, h⟩ := bind_ok.mp h
  cases hcodec : cfg.codec H encoding with
  | none =>
    rw [hcodec] at h
    cases h
  | some codec =>
    rw [hcodec] at h
    obtain ⟨token, htoken, h⟩ := bind_ok.mp h
    obtain ⟨_, -, h⟩ := bind_ok.mp h
    cases h
    exact ⟨hlimit, nofun, nextCursor_schema hcodec htoken⟩

-- ---------------------------------------------------------------------------
-- Errors
-- ---------------------------------------------------------------------------

def serviceErrors : List ErrorResponse :=
  [⟨503, "cursor_unavailable", "cursor pagination is temporarily unavailable", none⟩,
    ⟨400, "invalid_cursor", "invalid pagination cursor", none⟩,
    ⟨409, "idempotency_conflict", "idempotency key was used with a different request", none⟩,
    ⟨409, "idempotency_in_progress", "idempotency request is still in progress", some "1"⟩,
    ⟨503, "idempotency_unavailable", "idempotent create is temporarily unavailable", none⟩,
    ⟨422, "validation_error", "invalid item", none⟩, ⟨404, "not_found", "item not found", none⟩,
    ⟨409, "conflict", "item already exists", none⟩,
    ⟨500, "internal_error", "internal server error", none⟩]

theorem writeServiceError_mem (err : Error) : writeServiceError err ∈ serviceErrors := by
  unfold writeServiceError
  split_ifs <;> simp [serviceErrors]

-- ---------------------------------------------------------------------------
-- Headers
-- ---------------------------------------------------------------------------

def handlerHeaders : List GoString :=
  [idempotencyKeyHeader, idempotencyReplayedHeader, str "Location", str "Retry-After"]

/-- What a handler writes, before the headers of the middleware are added. -/
structure Handles (route : Route) (response : Response) : Prop where
  schema : ∃ schema, responseSchema route response.status = some schema ∧
    schema.Accepts response.payload
  names : Named handlerHeaders response.headers
  headers : ∀ doc ∈ statusHeaders route response.status,
    doc.name ∈ handlerHeaders ∧ doc.Met response.headers

theorem HeaderDoc.Met.after {doc : HeaderDoc} (h : doc.Met headers) (hbefore : Named names before)
    (hname : doc.name ∉ names) : doc.Met (before ++ headers) where
  present hrequired := by
    obtain ⟨value, hvalue⟩ := h.present hrequired
    exact ⟨value, List.mem_append_right _ hvalue⟩
  values value hvalue := by
    rcases List.mem_append.mp hvalue with hvalue | hvalue
    · exact absurd hvalue (hbefore.not_mem hname)
    · exact h.values value hvalue

theorem HeaderDoc.met_cons (doc : HeaderDoc) (hvalue : doc.schema.Accepts value)
    (hafter : Named names headers) (hname : doc.name ∉ names) :
    doc.Met ((doc.name, value) :: headers) where
  present _ := ⟨value, List.mem_cons_self⟩
  values value' hvalue' := by
    rcases List.mem_cons.mp hvalue' with heq | hvalue'
    · cases heq
      exact hvalue
    · exact absurd hvalue' (hafter.not_mem hname)

theorem mem_httpTokenBytes : ∀ b : UInt8, isTokenByte b = true → b ∈ httpTokenBytes :=
  forall_byte (by decide +kernel)

theorem token_requestID (h : validRequestID value = true) :
    (HeaderSchema.token 128).Accepts value := by
  rw [validRequestID, Bool.and_eq_true, decide_eq_true_eq, List.all_eq_true] at h
  obtain ⟨⟨hne, hmax⟩, hbytes⟩ := h
  exact ⟨List.length_pos_iff.mpr hne, hmax, fun b hb => mem_httpTokenBytes b (hbytes b hb)⟩

theorem token_key (h : validateIdempotencyKey key = .ok ()) :
    (HeaderSchema.token 255).Accepts key := by
  simp only [validateIdempotencyKey, bind_ok, ensure_ok, decide_eq_true_eq, List.all_eq_true] at h
  obtain ⟨_, ⟨hne, hmax⟩, hbytes⟩ := h
  exact ⟨List.length_pos_iff.mpr hne, hmax, fun b hb => mem_httpTokenBytes b (hbytes b hb)⟩

theorem uriReference_location (id : UUID) :
    HeaderSchema.uriReference.Accepts (resourceLocation itemsPath id) := by
  have hpath : itemsPath ++ str "/" = 47 :: 97 :: str "pi/v1/items/" := by decide
  have hbytes : ∀ b ∈ itemsPath ++ str "/", b ∈ uriPathBytes := by decide +kernel
  have hdigits : ∀ n : Fin 16, Hex.digit n ∈ uriPathBytes := by decide
  rw [resourceLocation_items]
  refine ⟨97, str "pi/v1/items/" ++ id.string, by rw [hpath]; rfl, by decide, fun b hb => ?_⟩
  rcases List.mem_append.mp hb with hb | hb
  · exact hbytes b hb
  · rcases UUID.mem_string hb with rfl | ⟨n, rfl⟩
    · decide
    · exact hdigits n

/-- The headers that the middleware sets for a request it lets pass do not
interfere with those of the handler. -/
theorem Handles.conforms {headers : List Header} (h : Handles route response)
    (hid : validRequestID requestID = true) (hrate : RateHeaders headers) :
    Conforms route { response with
      headers := (requestIDHeader, requestID) :: headers ++ response.headers } := by
  refine ⟨h.schema, List.forall_mem_cons.mpr ⟨?_, fun doc hdoc => ?_⟩⟩
  · exact HeaderDoc.met_cons ⟨requestIDHeader, true, .token 128⟩ (token_requestID hid)
      (hrate.append h.names) (by decide +kernel)
  · have hapart : ∀ name ∈ handlerHeaders,
        name ∉ [requestIDHeader, str "RateLimit-Remaining", str "RateLimit-Reset"] := by
      decide +kernel
    obtain ⟨hname, hmet⟩ := h.headers doc hdoc
    exact hmet.after hrate.cons (hapart _ hname)

def ErrorDocumented (route : Route) (status : Nat) (code message : GoString) : Prop :=
  responseSchema route status = some .error ∧ statusHeaders route status = [] ∧
    code ∈ errorCodes ∧ message ≠ []

theorem handles_error (h : ErrorDocumented route status code message) :
    Handles route ⟨status, [], .error code message⟩ := by
  obtain ⟨hschema, hheaders, hcode, hmessage⟩ := h
  refine ⟨⟨.error, hschema, code, message, rfl, hcode, hmessage⟩, nofun, fun doc hdoc => ?_⟩
  have hnone : doc ∈ statusHeaders route status := hdoc
  rw [hheaders] at hnone
  cases hnone

theorem handles_conflict (hcode : code ∈ errorCodes) (hmessage : message ≠ [])
    (hretry : retryAfter = none ∨ retryAfter = some (itoa 1)) :
    Handles .createItem (ErrorResponse.response ⟨409, code, message, retryAfter⟩) := by
  refine ⟨⟨.error, rfl, code, message, rfl, hcode, hmessage⟩, fun h hh => ?_, ?_⟩
  · obtain ⟨value, -, rfl⟩ := List.mem_map.mp hh
    simp [handlerHeaders]
  · refine List.forall_mem_singleton.mpr ⟨by simp [handlerHeaders], nofun, fun value hvalue => ?_⟩
    obtain ⟨value', hvalue', heq⟩ := List.mem_map.mp hvalue
    cases heq
    rcases hretry with rfl | rfl
    · cases hvalue'
    · cases List.mem_singleton.mp hvalue'
      exact ⟨1, rfl, le_rfl, fun _ => by decide⟩

theorem handles_createError (err : Error) :
    Handles .createItem (writeServiceError err).response := by
  have hall : ∀ response ∈ serviceErrors, response.code ∈ errorCodes ∧ response.message ≠ [] ∧
      (response.retryAfter = none ∧ responseSchema .createItem response.status = some .error ∧
          statusHeaders .createItem response.status = [] ∨
        response.status = 409 ∧
          (response.retryAfter = none ∨ response.retryAfter = some (itoa 1))) := by decide +kernel
  obtain ⟨hcode, hmessage, hdocumented⟩ := hall _ (writeServiceError_mem err)
  generalize writeServiceError err = response at *
  obtain ⟨status, code, message, retryAfter⟩ := response
  rcases hdocumented with ⟨hnone, hschema, hheaders⟩ | ⟨hstatus, hretry⟩
  · cases hnone
    exact handles_error ⟨hschema, hheaders, hcode, hmessage⟩
  · cases hstatus
    exact handles_conflict hcode hmessage hretry

theorem handles_getError (h : IsCancellation err ∨ ∃ text, err = .wrap [] errNotFound text) :
    Handles (.getItem param) (writeServiceError err).response := by
  rcases h with hcancel | ⟨text, rfl⟩
  · rw [writeServiceError_cancellation hcancel]
    exact handles_error ⟨rfl, rfl, by decide, by decide⟩
  · have hmissing : writeServiceError (.wrap [] errNotFound text) = ⟨404, "not_found",
        "item not found", none⟩ := rfl
    rw [hmissing]
    exact handles_error ⟨rfl, rfl, by decide, by decide⟩

/-- The errors of a listing: its context, the cursors of the server, or the
cursor of the client. -/
def ListError (err : Error) : Prop :=
  IsCancellation err ∨ (err.is .cursorUnavailable || err.is .cursorState) = true ∨ ∃ reason,
    err = invalidCursor reason

theorem handles_listError (h : ListError err) :
    Handles .listItems (serviceErrorResponse err) := by
  unfold serviceErrorResponse
  rcases h with hcancel | hserver | ⟨reason, rfl⟩
  · rw [writeServiceError_cancellation hcancel]
    exact handles_error ⟨rfl, rfl, by decide, by decide⟩
  · rw [writeServiceError, if_pos hserver]
    exact handles_error ⟨rfl, rfl, by decide, by decide⟩
  · have hinvalid : writeServiceError (invalidCursor reason) =
        ⟨400, "invalid_cursor", "invalid pagination cursor", none⟩ := rfl
    rw [hinvalid]
    exact handles_error ⟨rfl, rfl, by decide, by decide⟩

theorem listError_context (h : ensureContext ctx = .error err) (hctx : ctx ≠ none) :
    ListError err :=
  .inl (isCancellation_of (contextError_of_ensure h) hctx)

theorem listError_joined {result : Except Error α}
    (h : result.mapError (.join errCursorState) = .error err) :
    ListError err := by
  obtain ⟨_, -, rfl⟩ := mapError_error h
  exact .inr (.inl (by simp [Error.is]))

theorem nextCursor_error {codec : CursorCodec} (h : codec.nextCursor hasMore items = .error err) :
    ListError err := by
  unfold CursorCodec.nextCursor at h
  split at h
  · rcases bind_error.mp h with h | ⟨_, -, h⟩
    · unfold cursorPositionForItem at h
      dsimp only at h
      split at h
      · cases h
        exact .inr (.inl (by simp [Error.is]))
      · cases h
    · exact listError_joined h
  · cases h

theorem listReply_error (h : listReply codec normalized rows = .error err) : ListError err := by
  cases codec with
  | none => cases h
  | some codec =>
    rcases bind_error.mp h with h | ⟨_, -, h⟩
    · exact nextCursor_error h
    · cases h

theorem listCursorReply_error (h : listCursorReply codec ctx limit rows = .error err)
    (hctx : ctx ≠ none) :
    ListError err := by
  rcases bind_error.mp h with h | ⟨_, -, h⟩
  · exact listError_context h hctx
  rcases bind_error.mp h with h | ⟨_, -, h⟩
  · obtain ⟨-, rfl⟩ := ensure_error.mp h
    exact .inr (.inl rfl)
  cases codec with
  | none =>
    cases h
    exact .inr (.inl rfl)
  | some codec =>
    rcases bind_error.mp h with h | ⟨_, -, h⟩
    · exact nextCursor_error h
    rcases bind_error.mp h with h | ⟨_, -, h⟩
    · exact listError_context h hctx
    · cases h

theorem resume_error {codec : CursorCodec} (hcodec : cfg.codec H decoding = some codec)
    (h : codec.resume cursor = .error err) : ListError err := by
  obtain ⟨signed, -, rfl⟩ := Option.map_eq_some_iff.mp hcodec
  unfold CursorCodec.resume at h
  split_ifs at h
  · cases h
  · rcases bind_error.mp h with h | ⟨_, -, h⟩
    · exact .inr (.inr (isInvalid_ensure h))
    rcases bind_error.mp h with h | ⟨_, -, h⟩
    · rcases decode_error_cases h with ⟨-, hreason⟩ | ⟨-, rfl⟩
      · exact .inr (.inr hreason)
      · exact .inr (.inl rfl)
    rcases bind_error.mp h with h | ⟨_, -, h⟩
    · exact listError_joined h
    · cases h

theorem listCursorRequest_error
    (h : listCursorRequest (cfg.codec H decoding) ctx request = .error err)
    (hctx : ctx ≠ none) (hpassed : PassedOn request) : ListError err := by
  obtain ⟨⟨hmin, hmax⟩, -, -⟩ := hpassed
  have hne : request.limit ≠ 0 := by omega
  have hrange : 0 ≤ request.limit ∧ request.limit ≤ maxPageSize := ⟨by omega, hmax⟩
  rcases bind_error.mp h with h | ⟨_, -, h⟩
  · exact listError_context h hctx
  simp only [hne, if_false, hrange, and_self, decide_true, ensure_true, ok_bind] at h
  cases hcodec : cfg.codec H decoding with
  | none =>
    rw [hcodec] at h
    cases h
    exact .inr (.inl rfl)
  | some codec =>
    rw [hcodec] at h
    rcases bind_error.mp h with h | ⟨_, -, h⟩
    · exact resume_error hcodec h
    · cases h

theorem offset_of_parse (h : parseListRequest rawQuery = some (.offset params)) :
    1 ≤ params.limit ∧ params.limit ≤ maxPageSize ∧ 0 ≤ params.offset := by
  simp only [parseListRequest, Option.bind_eq_bind, Option.bind_eq_some_iff] at h
  obtain ⟨values, -, limit, -, h⟩ := h
  have hne : (if limit = 0 then defaultPageSize else limit) ≠ 0 := by
    split_ifs with hzero
    · decide
    · exact hzero
  generalize (if limit = 0 then defaultPageSize else limit) = limit at h hne
  split_ifs at h with hlimit
  obtain ⟨offset, -, h⟩ := Option.bind_eq_some_iff.mp h
  split_ifs at h with hoffset
  split at h
  · cases h
    push Not at hlimit hoffset
    exact ⟨Int.add_one_le_of_lt (lt_of_le_of_ne hlimit.1 hne.symm), hlimit.2, hoffset⟩
  · split_ifs at h
    cases h
  · cases h

theorem listRequest_error (h : listRequest ctx params = .error err) (hctx : ctx ≠ none)
    (hparams : 1 ≤ params.limit ∧ params.limit ≤ maxPageSize ∧ 0 ≤ params.offset) :
    ListError err := by
  obtain ⟨hmin, hmax, hoffset⟩ := hparams
  rcases bind_error.mp h with h | ⟨_, -, h⟩
  · exact listError_context h hctx
  · have hne : params.limit ≠ 0 := by omega
    have hpos : 0 ≤ params.limit := by omega
    simp only [normalizeListParams, hne, if_false, hpos, hmax, hoffset, decide_true,
      ensure_true, ok_bind] at h
    cases h

-- ---------------------------------------------------------------------------
-- Answers without a call of the store
-- ---------------------------------------------------------------------------

theorem isItem_of_versioned {gin : Gin}
    (h : findRoute gin metricsEnabled method path = some route)
    (hpath : isVersionedAPIPath path = true) : route.isItem = true := by
  rcases findRoute_cases h with ⟨-, rfl, -⟩ | ⟨-, rfl, -⟩ | ⟨-, rfl, -⟩ | ⟨-, -, rfl⟩ |
    ⟨-, -, rfl⟩ | ⟨-, _, -, rfl⟩
  · exact absurd hpath (by decide)
  · exact absurd hpath (by decide)
  · exact absurd hpath (by decide)
  · rfl
  · rfl
  · rfl

/-- The documented error of a status, with the identifier and the headers that
are documented for the status. -/
theorem conforms_abort (hschema : responseSchema route status = some .error)
    (hcode : code ∈ errorCodes ∧ message ≠ []) (hid : validRequestID requestID = true)
    (hnames : Named names headers) (hname : requestIDHeader ∉ names)
    (hdocs : ∀ doc ∈ statusHeaders route status, doc.name ≠ requestIDHeader ∧ doc.Met headers) :
    Conforms route ⟨status, (requestIDHeader, requestID) :: headers, .error code message⟩ := by
  refine ⟨⟨.error, hschema, code, message, rfl, hcode⟩, List.forall_mem_cons.mpr ⟨?_, ?_⟩⟩
  · exact HeaderDoc.met_cons ⟨requestIDHeader, true, .token 128⟩ (token_requestID hid)
      hnames hname
  · intro doc hdoc
    obtain ⟨hne, hmet⟩ := hdocs doc hdoc
    exact hmet.after (named_singleton requestIDHeader requestID) (by simpa using hne)

theorem conforms_refusal (hitem : route.isItem = true) (hid : validRequestID requestID = true)
    (h : Refused err headers) :
    Conforms route ⟨err.status, (requestIDHeader, requestID) :: headers,
      .error err.code err.message⟩ := by
  have hcache := named_singleton (str "Cache-Control") (str "no-store")
  have hschema : responseSchema route 401 = some .error ∧
      responseSchema route 429 = some .error := by
    cases route <;> first | exact ⟨rfl, rfl⟩ | cases hitem
  cases h with
  | unauthorized hrate =>
    have hdocs : statusHeaders route 401 =
        [⟨"WWW-Authenticate", true, .const "Bearer realm=\"api\""⟩] := by cases route <;> rfl
    refine conforms_abort hschema.1 (by decide) hid (hrate.append hcache.cons)
      (by decide +kernel) ?_
    intro doc hdoc
    rw [show unauthorizedError.status = 401 from rfl, hdocs] at hdoc
    cases List.mem_singleton.mp hdoc
    exact ⟨by decide, (HeaderDoc.met_cons ⟨_, true, .const _⟩ rfl hcache
      (by decide)).after hrate (by decide +kernel)⟩
  | @limited seconds reset hpos hmax hreset =>
    have hdocs : statusHeaders route 429 = [⟨"Retry-After", true, .integer 1 true⟩,
        ⟨"RateLimit-Remaining", true, .integer 0 false⟩] := by cases route <;> rfl
    refine conforms_abort hschema.2 (by decide) hid (hreset.append hcache).cons.cons
      (by decide +kernel) ?_
    intro doc hdoc
    rw [show rateLimitedError.status = 429 from rfl, hdocs] at hdoc
    rcases List.mem_pair.mp hdoc with rfl | rfl
    · exact ⟨by decide, HeaderDoc.met_cons ⟨_, true, .integer 1 true⟩
        ⟨seconds, rfl, hpos, fun _ => hmax⟩ (hreset.append hcache).cons (by decide +kernel)⟩
    · exact ⟨by decide, (HeaderDoc.met_cons ⟨_, true, .integer 0 false⟩
        ⟨0, rfl, le_rfl, nofun⟩ (hreset.append hcache) (by decide +kernel)).after
        (named_singleton (str "Retry-After") (itoa seconds)) (by decide)⟩

theorem handles_writeCreated_error (path : GoString) (key : Option GoString) (err : Error) :
    Handles .createItem (writeCreated path key (.error err)) := handles_createError err

theorem handles_readCreate (h : readCreate maxBodyBytes header upload = .error response) :
    Handles .createItem response := by
  unfold readCreate at h
  split at h
  · cases h
    exact handles_error ⟨rfl, rfl, by decide, by decide⟩
  · split at h
    · cases h
      exact handles_error ⟨rfl, rfl, by decide, by decide⟩
    · cases h
      exact handles_error ⟨rfl, rfl, by decide, by decide⟩
    · cases h

theorem handles_serveCreate (h : serveCreate H request ctx reads = .error response) :
    Handles .createItem response := by
  rcases bind_error.mp h with hread | ⟨⟨input, key⟩, -, h⟩
  · exact handles_readCreate hread
  · cases key with
    | none =>
      rcases bind_error.mp h with h | ⟨_, -, h⟩
      · obtain ⟨err, -, rfl⟩ := mapError_error h
        exact handles_writeCreated_error _ _ err
      · cases h
    | some key =>
      rcases bind_error.mp h with h | ⟨_, -, h⟩
      · obtain ⟨err, -, rfl⟩ := mapError_error h
        exact handles_writeCreated_error _ _ err
      · cases h

theorem handles_serveGet (h : serveGet cfg param ctx = .error response) (hctx : ctx ≠ none) :
    Handles (.getItem param) response := by
  rcases bind_error.mp h with hread | ⟨id, hread, h⟩
  · unfold readID at hread
    split at hread
    · cases hread
      exact handles_error ⟨rfl, rfl, by decide, by decide⟩
    · split_ifs at hread
      cases hread
      exact handles_error ⟨rfl, rfl, by decide, by decide⟩
  · have hid := (readID_ok.mp hread).2
    rcases bind_error.mp h with h | ⟨_, -, h⟩
    · obtain ⟨err, herr, rfl⟩ := mapError_error h
      rcases bind_error.mp herr with herr | ⟨_, -, herr⟩
      · exact handles_getError (.inl (isCancellation_of (contextError_of_ensure herr) hctx))
      · simp [hid, pure, Except.pure] at herr
    · cases h

theorem handles_serveList (h : serveList H cfg request ctx reads = .error response)
    (hctx : ctx ≠ none) : Handles .listItems response := by
  unfold serveList at h
  split at h
  · cases h
    exact handles_error ⟨rfl, rfl, by decide, by decide⟩
  · next hparse =>
    rcases bind_error.mp h with h | ⟨_, -, h⟩
    · obtain ⟨err, herr, rfl⟩ := mapError_error h
      exact handles_listError (listRequest_error herr hctx (offset_of_parse hparse))
    · cases h
  · next hparse =>
    rcases bind_error.mp h with h | ⟨_, -, h⟩
    · obtain ⟨err, herr, rfl⟩ := mapError_error h
      exact handles_listError (listCursorRequest_error herr hctx (passedOn_of_parse hparse))
    · cases h

theorem handles_plain (hschema : responseSchema route status = some schema)
    (haccepts : schema.Accepts payload) (hheaders : statusHeaders route status = []) :
    Handles route ⟨status, [], payload⟩ := by
  refine ⟨⟨schema, hschema, haccepts⟩, named_nil, fun doc hdoc => ?_⟩
  have hnone : doc ∈ statusHeaders route status := hdoc
  rw [hheaders] at hnone
  exact absurd hnone List.not_mem_nil

theorem handles_serve (h : serve H cfg request ctx reads = .error response)
    (hroute : findRoute cfg.gin cfg.metricsEnabled request.method request.path = some route)
    (hne : route ≠ .metrics) (hctx : isVersionedAPIPath request.path = true → ctx ≠ none) :
    Handles route response := by
  have hversioned (hitem : route.isItem = true) : ctx ≠ none :=
    hctx (versioned_of_item hroute hitem)
  rw [serve, hroute] at h
  cases route with
  | liveness =>
    cases h
    exact handles_plain rfl rfl rfl
  | readiness =>
    cases h
    split
    · exact handles_plain rfl rfl rfl
    · exact handles_plain rfl rfl rfl
  | metrics => exact absurd rfl hne
  | createItem => exact handles_serveCreate h
  | listItems => exact handles_serveList h (hversioned rfl)
  | getItem param => exact handles_serveGet h (hversioned rfl)

-- ---------------------------------------------------------------------------
-- Answers from the store
-- ---------------------------------------------------------------------------

theorem location_met (id : UUID) (hafter : Named names headers) (hname : str "Location" ∉ names) :
    HeaderDoc.Met ⟨"Location", true, .uriReference⟩
      ((str "Location", resourceLocation itemsPath id) :: headers) :=
  HeaderDoc.met_cons ⟨"Location", true, .uriReference⟩ (uriReference_location id) hafter
    hname

theorem handles_created {key : Option GoString} (hv : ItemSchema v)
    (hkey : ∀ k ∈ key, validateIdempotencyKey k = .ok ()) :
    Handles .createItem ⟨201, (key.toList.map fun key => (idempotencyKeyHeader, key)) ++
      [(str "Location", resourceLocation itemsPath v.id)], .item v⟩ := by
  have hkeys : Named [idempotencyKeyHeader]
      (key.toList.map fun key => (idempotencyKeyHeader, key)) := by
    intro h hh
    obtain ⟨_, -, rfl⟩ := List.mem_map.mp hh
    exact List.mem_singleton_self _
  have hlocation := named_singleton (str "Location") (resourceLocation itemsPath v.id)
  have hsub : ∀ name ∈ [idempotencyKeyHeader, str "Location"], name ∈ handlerHeaders := by
    decide +kernel
  refine ⟨⟨.itemData, rfl, v, rfl, hv⟩, (hkeys.append hlocation).mono hsub, ?_⟩
  refine List.forall_mem_cons.mpr ⟨⟨hsub _ (by decide), nofun, fun value hvalue => ?_⟩,
    List.forall_mem_singleton.mpr ⟨hsub _ (by decide), ?_⟩⟩
  · rcases List.mem_append.mp hvalue with hvalue | hvalue
    · obtain ⟨k, hk, heq⟩ := List.mem_map.mp hvalue
      cases heq
      exact token_key (hkey _ (Option.mem_toList.mp hk))
    · exact absurd hvalue (hlocation.not_mem (by decide))
  · exact (location_met v.id named_nil List.not_mem_nil).after hkeys (by decide)

theorem handles_replayed (hv : ItemSchema v) (hkey : validateIdempotencyKey key = .ok ()) :
    Handles .createItem ⟨200, [(idempotencyKeyHeader, key),
      (str "Location", resourceLocation itemsPath v.id), (idempotencyReplayedHeader, str "true")],
      .item v⟩ := by
  have hreplayed := named_singleton idempotencyReplayedHeader (str "true")
  have hbefore : Named [idempotencyKeyHeader, str "Location"]
      [(idempotencyKeyHeader, key), (str "Location", resourceLocation itemsPath v.id)] :=
    (named_singleton _ _).cons
  have hsub : ∀ name ∈ [idempotencyKeyHeader, str "Location", idempotencyReplayedHeader],
      name ∈ handlerHeaders := by decide +kernel
  refine ⟨⟨.itemData, rfl, v, rfl, hv⟩, hreplayed.cons.cons.mono hsub, ?_⟩
  refine List.forall_mem_cons.mpr ⟨⟨hsub _ (by decide), ?_⟩,
    List.forall_mem_cons.mpr ⟨⟨hsub _ (by decide), ?_⟩,
      List.forall_mem_singleton.mpr ⟨hsub _ (by decide), ?_⟩⟩⟩
  · exact HeaderDoc.met_cons ⟨_, true, .token 255⟩ (token_key hkey) hreplayed.cons
      (by decide)
  · exact (HeaderDoc.met_cons ⟨_, true, .const _⟩ rfl named_nil List.not_mem_nil).after
      hbefore (by decide)
  · exact (location_met v.id hreplayed (by decide)).after
      (named_singleton idempotencyKeyHeader key) (by decide)

theorem handles_writeCreated (hv : ItemSchema v)
    (hkey : ∀ k ∈ key, validateIdempotencyKey k = .ok ())
    (hreplayed : replayed = true → ∃ k, key = some k) :
    Handles .createItem (writeCreated itemsPath key (.ok (v, replayed))) := by
  unfold writeCreated
  dsimp only
  split_ifs with hzero hreplay
  · exact handles_error ⟨rfl, rfl, by decide, by decide⟩
  · obtain ⟨k, rfl⟩ := hreplayed hreplay
    exact handles_replayed hv (hkey k rfl)
  · exact handles_created hv hkey

theorem handles_page (hdata : ∀ v ∈ data, ItemSchema v) (hinfo : PageMetaSchema info) :
    Handles .listItems ⟨200, [], .page data info⟩ :=
  handles_plain rfl ⟨data, info, rfl, hdata, hinfo⟩ rfl

theorem listCursorRequest_ok {codec : Option CursorCodec}
    (h : listCursorRequest codec ctx request = .ok params) (hpassed : PassedOn request) :
    params.limit = request.limit + 1 ∧ ∀ position ∈ params.after, position.validate = .ok () := by
  have hne : request.limit ≠ 0 := by
    have := hpassed.limit.1
    omega
  obtain ⟨_, -, h⟩ := bind_ok.mp h
  simp only [hne, if_false] at h
  obtain ⟨_, -, h⟩ := bind_ok.mp h
  cases codec with
  | none => cases h
  | some codec =>
    obtain ⟨after, hafter, h⟩ := bind_ok.mp h
    cases h
    refine ⟨rfl, fun position hposition => ?_⟩
    simp only [CursorCodec.resume, hpassed.nonempty, if_false, bind_ok, pure_ok] at hafter
    obtain ⟨_, -, decoded, -, _, hvalid, rfl⟩ := hafter
    cases hposition
    exact mapError_ok hvalid

theorem listAfterParamsCheck_ok {params : CursorListParams}
    (hlimit : 0 ≤ params.limit ∧ params.limit ≤ maxPageSize + 1)
    (hafter : ∀ position ∈ params.after, position.validate = .ok ()) :
    Memory.listAfterParamsCheck params = .ok () := by
  unfold Memory.listAfterParamsCheck
  simp only [hlimit, and_self, decide_true, ensure_true, ok_bind]
  split
  · rfl
  · next position hposition =>
    rw [hafter position hposition]
    rfl

section Respond
variable {s : Memory.Store} (hschema : ∀ id v, s.items.lookup id = some v → ItemSchema v)
include hschema

theorem handles_create (hresult : Memory.Result s ctx (.create value) result)
    (h : respond H cfg itemsPath ctx' encoding .create result = some response) :
    Handles .createItem response := by
  cases hresult with
  | created hl =>
    cases h
    exact handles_writeCreated (hschema _ _ hl) nofun nofun
  | failed =>
    cases h
    exact handles_writeCreated_error _ _ _

theorem handles_createIdempotent (hkey : validateIdempotencyKey key = .ok ())
    (hresult : Memory.Result s ctx (.createIdempotent request) result)
    (h : respond H cfg itemsPath ctx' encoding (.createIdempotent key) result = some response) :
    Handles .createItem response := by
  cases hresult with
  | @keyed v _ replayed hl =>
    cases h
    cases hreply : createIdempotentReply v replayed with
    | error err => exact handles_writeCreated_error _ _ _
    | ok reply =>
      obtain ⟨_, -, hpure⟩ := bind_ok.mp hreply
      cases hpure
      exact handles_writeCreated (hschema _ _ hl) (by simpa using hkey) fun _ => ⟨key, rfl⟩
  | failed =>
    cases h
    exact handles_writeCreated_error _ _ _

theorem handles_get {id : UUID} (hid : id ≠ UUID.zero) (hctx : ctx ≠ none)
    (hresult : Memory.Result s ctx (.get id) result)
    (h : respond H cfg path ctx' encoding .get result = some response) :
    Handles (.getItem param) response := by
  cases hresult with
  | found hl =>
    cases h
    exact handles_plain rfl ⟨_, rfl, hschema _ _ hl⟩ rfl
  | failed hfails =>
    cases h
    cases hfails with
    | context hfailure => exact handles_getError (.inl (isCancellation_of hfailure hctx))
    | refused hcheck =>
      simp [Memory.Op.entryCheck, ensureContext, contextError, Context.background, hid] at hcheck
    | missing => exact handles_getError (.inr ⟨_, rfl⟩)

theorem handles_list (hnormalized : listRequest ctx₀ params = .ok normalized) (hctx : ctx ≠ none)
    (hresult : Memory.Result s ctx (.list (lookAhead normalized)) result)
    (h : respond H cfg path ctx' encoding (.list normalized) result = some response) :
    Handles .listItems response := by
  obtain ⟨_, -, hnormalized⟩ := bind_ok.mp hnormalized
  obtain ⟨-, -, hmin, hmax, hoffset⟩ := normalizeListParams_ok hnormalized
  cases hresult with
  | @listed rows _ hstored _ =>
    cases h
    cases hreply : listReply (cfg.codec H encoding) normalized rows with
    | error err => exact handles_listError (listReply_error hreply)
    | ok page =>
      refine handles_page (fun v hv => ?_) (listReply_schema hreply ⟨hmin, hmax⟩ hoffset)
      rw [listReply_items hreply] at hv
      exact hschema _ _ (hstored v (mem_cutRows hv))
  | failed hfails =>
    cases h
    cases hfails with
    | context hfailure => exact handles_listError (.inl (isCancellation_of hfailure hctx))
    | refused hcheck =>
      have hlow : 0 ≤ normalized.limit + 1 := by omega
      simp [Memory.Op.entryCheck, ensureContext, contextError, Context.background,
        Memory.listParamsCheck, lookAhead, hlow, hmax, hoffset] at hcheck

theorem handles_listCursor (hparse : parseListRequest rawQuery = some (.cursor cursor))
    (hparams : listCursorRequest (cfg.codec H decoding) ctx₀ cursor = .ok params)
    (hctx : ctx ≠ none) (hctx' : ctx' ≠ none)
    (hresult : Memory.Result s ctx (.listAfter params) result)
    (h : respond H cfg path ctx' encoding (.listCursor (params.limit - 1)) result = some response) :
    Handles .listItems response := by
  have hpassed := passedOn_of_parse hparse
  obtain ⟨hlimit, hafter⟩ := listCursorRequest_ok hparams hpassed
  obtain ⟨hmin, hmax⟩ := hpassed.limit
  rw [hlimit, Int.add_sub_cancel] at h
  cases hresult with
  | @listedAfter rows _ hstored _ =>
    cases h
    cases hreply : listCursorReply (cfg.codec H encoding) ctx' cursor.limit rows with
    | error err => exact handles_listError (listCursorReply_error hreply hctx')
    | ok page =>
      refine handles_page (fun v hv => ?_) (listCursorReply_schema hreply ⟨hmin, hmax⟩)
      rw [listCursorReply_items hreply] at hv
      exact hschema _ _ (hstored v (mem_cutRows hv))
  | failed hfails =>
    cases h
    cases hfails with
    | context hfailure => exact handles_listError (.inl (isCancellation_of hfailure hctx))
    | refused hcheck =>
      have hrange : 0 ≤ params.limit ∧ params.limit ≤ maxPageSize + 1 := ⟨by omega, by omega⟩
      have hok := listAfterParamsCheck_ok hrange hafter
      rcases bind_error.mp hcheck with hcontext | ⟨_, -, hcheck⟩
      · cases hcontext
      · cases hok.symm.trans hcheck

end Respond

theorem handles_respond {s : Memory.Store}
    (hschema : ∀ id v, s.items.lookup id = some v → ItemSchema v)
    (hserves : Serves H cfg request ctx₀ reads op pending)
    (hroute : findRoute cfg.gin cfg.metricsEnabled request.method request.path = some route)
    (hctx : ctx ≠ none) (hresult : Memory.Result s ctx op result)
    (h : respond H cfg request.path ctx encoding pending result = some response) :
    Handles route response := by
  have hpath (hcreate : route = .createItem) : request.path = itemsPath := by
    subst hcreate
    rcases findRoute_item hroute rfl with ⟨-, hpath, -⟩ | ⟨-, hpath, -⟩ | ⟨-, _, -, hother⟩
    · exact hpath
    · exact hpath
    · cases hother
  cases hserves with
  | create hroute' =>
    cases hroute.symm.trans hroute'
    rw [hpath rfl] at h
    exact handles_create hschema hresult h
  | createIdempotent hroute' hread =>
    cases hroute.symm.trans hroute'
    rw [hpath rfl] at h
    have hkey := (parseIdempotencyKey_some (readCreate_ok.mp hread).1).2
    exact handles_createIdempotent hschema hkey hresult h
  | get hroute' hread =>
    cases hroute.symm.trans hroute'
    exact handles_get hschema (readID_ok.mp hread).2 hctx hresult h
  | list hroute' _ hnormalized =>
    cases hroute.symm.trans hroute'
    exact handles_list hschema hnormalized hctx hresult h
  | listCursor hroute' hparse hparams =>
    cases hroute.symm.trans hroute'
    exact handles_listCursor hschema hparse hparams hctx hctx hresult h

end

/-- Whatever requests come and however their steps interleave: every answer to
an operation of the document has a documented status, a body of the schema
that is documented for it, the headers that are required, and in every
documented header a value of its schema. -/
theorem answers_conform (H : Hashes) (net : Net) (cfg : Settings) (maxEntries : Int) (clock : Time)
    (w : World)
    (hr : Run (step H net cfg) (WithReads Dated) (World.init maxEntries clock) w) :
    ∀ (i : Nat) e response route, w.exchanges[i]? = some e → w.answer i = some response →
      findRoute cfg.gin cfg.metricsEnabled e.request.method e.request.path = some route →
      route ≠ .metrics → Conforms route response := by
  intro i e response route he hanswer hroute hne
  have h := inv_run hr
  obtain ⟨requestID, headers, hid, hheaders, hpassed, hrefused⟩ :=
    headersOk_reachable hr.reaches i e he
  obtain ⟨e', he', hphase⟩ := answer_iff.mp hanswer
  cases he.symm.trans he'
  cases h.exchanges i e he with
  | admitted hphase' | waiting hphase' => cases hphase.symm.trans hphase'
  | aborted hphase' _ hrefusal hpath =>
    cases hphase.symm.trans hphase'
    rw [hheaders]
    exact conforms_refusal (isItem_of_versioned hroute hpath) hid (hrefused _ hrefusal)
  | refused hphase' _ hrefusal hctx _ hserve =>
    cases hphase.symm.trans hphase'
    rw [hheaders]
    exact (handles_serve hserve hroute hne hctx).conforms hid (hpassed hrefusal)
  | @answered response' k c _ _ _ hphase' _ hrefusal hc hctx hserved hpc hrespond =>
    cases hphase.symm.trans hphase'
    obtain ⟨-, cause, reads, -, hserve⟩ := hserved
    have hschema : ∀ id v, w.memory.store.items.lookup id = some v → ItemSchema v :=
      fun id v hl => h.itemSchema (memory_reaches hr) hl
    have hresult := (h.answers k c hc).returned _ hpc
    rw [hctx] at hresult
    rw [hheaders]
    exact (handles_respond hschema (serve_ok hserve) hroute (hctx ▸ h.contexts k c hc) hresult
      hrespond).conforms hid (hpassed hrefusal)

/-- A POST that is answered and a list that shows its item. -/
theorem answers_conform_listed :
    ∃ w posted listed, exec (step Hashes.go plainNet sampleSettings)
        (World.init 2 Memory.sampleTime) listActions = some w ∧
      w.answer 0 = some posted ∧ posted.status = 201 ∧ Conforms .createItem posted ∧
      w.answer 1 = some listed ∧ listed.status = 200 ∧ Conforms .listItems listed := by
  have hrun : (do
      let w ← exec (step Hashes.go plainNet sampleSettings) (World.init 2 Memory.sampleTime)
        listActions
      let e : Exchange ← w.exchanges[0]?
      let e' : Exchange ← w.exchanges[1]?
      let posted ← w.answer 0
      let listed ← w.answer 1
      some (decide (findRoute plainGin true e.request.method e.request.path = some .createItem ∧
        findRoute plainGin true e'.request.method e'.request.path = some .listItems ∧
        posted.status = 201 ∧ listed.status = 200))) = some true := by decide +kernel
  simp only [Option.bind_eq_bind, Option.bind_eq_some_iff, Option.some.injEq, decide_eq_true_eq]
    at hrun
  obtain ⟨w, hw, e, he, e', he', posted, hposted, listed, hlisted, hroute,
    hroute', hcreated, hok⟩ :=
    hrun
  have hdated (n : UInt8) : Dated (sampleReads n) := by
    have hyear : 0 ≤ Memory.sampleTime.date.year ∧ Memory.sampleTime.date.year ≤ 9999 := by decide
    exact List.forall_mem_cons.mpr ⟨hyear, List.forall_mem_singleton.mpr hyear⟩
  have hreads : Run (step Hashes.go plainNet sampleSettings) (WithReads Dated)
      (World.init 2 Memory.sampleTime) w := by
    refine exec_run listActions (fun a ha _ _ _ i reads hdispatch => ?_) hw
    subst hdispatch
    simp [listActions, createActions, sampleArrival] at ha
    rcases ha with ⟨-, rfl⟩ | ⟨-, rfl⟩
    · exact hdated 1
    · exact hdated 2
  have hall := answers_conform _ _ _ _ _ w hreads
  exact ⟨w, posted, listed, hw, hposted, hcreated, hall 0 e posted _ he hposted hroute nofun,
    hlisted, hok, hall 1 e' listed _ he' hlisted hroute' nofun⟩

end GoClean.Server
