import GoClean.Go.UuidParse
import GoClean.HttpApi.CreateBody
import GoClean.HttpApi.Handler
import GoClean.Item.Idempotency

/-!
# The endpoints for one item

`Handler.Create` and `Handler.Get` of `internal/item/httpapi`, each cut where
it calls the service: what is read from the request, and what is written for
the service's result.
-/

namespace GoClean.HttpApi

open Go

inductive Payload
  | item (data : Item)
  | page (data : List Item) (info : PageMeta)
  | error (code message : GoString)
  | health (status : GoString)
  | text (body : GoString)
  deriving DecidableEq

def Payload.items : Payload → List Item
  | item data => [data]
  | page data _ => data
  | _ => []

structure Response where
  status : Nat
  headers : List (GoString × GoString)
  payload : Payload
  deriving DecidableEq

def writeError (status : Nat) (code message : GoString) : Response :=
  ⟨status, [], .error code message⟩

def ErrorResponse.response (err : ErrorResponse) : Response :=
  ⟨err.status, err.retryAfter.toList.map fun value => (str "Retry-After", value),
    .error err.code err.message⟩

def Answer.response : Answer → Response
  | .page data info => ⟨200, [], .page data info⟩
  | .error err => err.response

def invalidBody : Response := writeError 400 "bad_request" "invalid request body"
def invalidKey : Response := writeError 400 "bad_request" "invalid idempotency key"
def invalidID : Response := writeError 400 "bad_request" "invalid item id"
def internalServerError : Response := writeError 500 "internal_error" "internal server error"

-- ---------------------------------------------------------------------------
-- Options
-- ---------------------------------------------------------------------------

/-- `New`: the limit of the handler after its options. -/
def newMaxBodyBytes (options : List (Int → Int)) : Int :=
  let maxBodyBytes := options.foldl (fun limit option => option limit) defaultMaxBodyBytes
  if maxBodyBytes ≤ 0 then defaultMaxBodyBytes else maxBodyBytes

-- ---------------------------------------------------------------------------
-- Create
-- ---------------------------------------------------------------------------

def idempotencyKeyHeader : GoString := "Idempotency-Key"
def idempotencyReplayedHeader : GoString := "Idempotency-Replayed"

/-- `parseIdempotencyKey`; no key is `none`. The values of more than one
spelling of the header may come in any order. -/
def parseIdempotencyKey (header : List (GoString × List GoString)) :
    Except Error (Option GoString) :=
  match (header.filter fun e => equalFold e.1 idempotencyKeyHeader).flatMap Prod.snd with
  | [] => .ok none
  | [value] => do
    validateIdempotencyKey value
    pure (some value)
  | _ => .error (.validation "idempotency_key" "must contain exactly one value")

/-- `Create` up to its call of the service: the input and the key. -/
def readCreate (maxBodyBytes : Int) (header : List (GoString × List GoString)) (upload : Upload) :
    Except Response (CreateInput × Option GoString) :=
  match parseIdempotencyKey header with
  | .error _ => .error invalidKey
  | .ok key =>
    match decodeStrictJSON upload maxBodyBytes with
    | none => .error invalidBody
    | some none => .error invalidBody
    | some (some request) => .ok (⟨request.name, request.description⟩, key)

def pathEscape (s : GoString) : GoString := URL.escape (URL.unreserved ++ str "$&+=:@") s

def resourceLocation (path : GoString) (id : UUID) : GoString :=
  let path := if path = [] then str "/items" else path
  path.rdropWhile (· == 47) ++ str "/" ++ pathEscape id.string

def writeCreated (path : GoString) (key : Option GoString) : Except Error (Item × Bool) → Response
  | .error err => (writeServiceError err).response
  | .ok (created, replayed) =>
    if created.id = UUID.zero then internalServerError
    else
      ⟨if replayed then 200 else 201,
        (key.toList.map fun key => (idempotencyKeyHeader, key)) ++
          (str "Location", resourceLocation path created.id) ::
          (if replayed then [(idempotencyReplayedHeader, str "true")] else []),
        .item created⟩

-- ---------------------------------------------------------------------------
-- Get
-- ---------------------------------------------------------------------------

/-- `Get` up to its call of the service, for the parameter `id` of the route. -/
def readID (uuids : Uuids) (param : GoString) : Except Response UUID :=
  match uuids.parse (trimSpace param) with
  | none => .error invalidID
  | some id => if id = UUID.zero then .error invalidID else .ok id

def writeItem : Except Error Item → Response
  | .error err => (writeServiceError err).response
  | .ok found => ⟨200, [], .item found⟩

-- ---------------------------------------------------------------------------
-- What is passed on
-- ---------------------------------------------------------------------------

theorem parseIdempotencyKey_some (h : parseIdempotencyKey header = .ok (some key)) :
    (header.filter fun e => equalFold e.1 idempotencyKeyHeader).flatMap Prod.snd = [key] ∧
      validateIdempotencyKey key = .ok () := by
  unfold parseIdempotencyKey at h
  split at h
  case h_1 => cases h
  case h_2 value hvalues =>
    obtain ⟨_, hvalid, hkey⟩ := bind_ok.mp h
    cases hkey
    exact ⟨hvalues, hvalid⟩
  case h_3 => cases h

theorem readCreate_ok : readCreate maxBodyBytes header upload = .ok (input, key) ↔
    parseIdempotencyKey header = .ok key ∧
      decodeStrictJSON upload maxBodyBytes = some (some ⟨input.name, input.description⟩) := by
  unfold readCreate
  constructor
  · intro h
    split at h
    · cases h
    · next hkey =>
      split at h
      · cases h
      · cases h
      · next hbody =>
        cases h
        exact ⟨hkey, hbody⟩
  · rintro ⟨hkey, hbody⟩
    rw [hkey, hbody]

theorem readID_ok {uuids : Uuids} {id : UUID} : readID uuids param = .ok id ↔
    uuids.parse (trimSpace param) = some id ∧ id ≠ UUID.zero := by
  unfold readID
  constructor
  · intro h
    split at h
    · cases h
    · next hparse =>
      split_ifs at h with hzero
      cases h
      exact ⟨hparse, hzero⟩
  · rintro ⟨hparse, hzero⟩
    rw [hparse]
    exact if_neg hzero

-- ---------------------------------------------------------------------------
-- Locations
-- ---------------------------------------------------------------------------

theorem string_byte {id : UUID} (h : b ∈ id.string) :
    (URL.unreserved ++ str "$&+=:@").contains b = true ∧ b ≠ 47 ∧ b < 0x80 ∧
    isSpace b.toNat = false := by
  have hdigits : ∀ n : Fin 16, (URL.unreserved ++ str "$&+=:@").contains (Hex.digit n) = true ∧
    Hex.digit n ≠ 47 ∧
      Hex.digit n < 0x80 ∧ isSpace (Hex.digit n).toNat = false := by decide
  rcases UUID.mem_string h with rfl | ⟨n, rfl⟩
  · decide
  · exact hdigits n

theorem escape_of_kept (h : ∀ b ∈ s, kept.contains b = true) : URL.escape kept s = s := by
  unfold URL.escape
  induction s with
  | nil => rfl
  | cons b s ih =>
    obtain ⟨hb, hs⟩ := List.forall_mem_cons.mp h
    rw [List.flatMap_cons, if_pos hb, ih hs, List.singleton_append]

theorem pathEscape_string (id : UUID) : pathEscape id.string = id.string :=
  escape_of_kept fun _ hb => (string_byte hb).1

theorem trimSpace_string (id : UUID) : trimSpace id.string = id.string :=
  trimSpace_of_ascii fun _ hb => (string_byte hb).2.2

end GoClean.HttpApi
