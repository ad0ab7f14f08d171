import GoClean.Go.Url
import GoClean.Item.ListFailures

/-!
# The list endpoint

`Handler.List` of `internal/item/httpapi`, from the query of a request to the
answer, with the table of service errors. A service is what the handler sees
of it during one request, so the request's context is part of it.
-/

namespace GoClean.HttpApi

open Go

/-- `errorResponse` with its status, and a `Retry-After` header. -/
structure ErrorResponse where
  status : Nat
  code : GoString
  message : GoString
  retryAfter : Option GoString := none
  deriving DecidableEq

structure PageMeta where
  limit : Int
  offset : Option Int
  hasMore : Bool
  nextCursor : GoString
  deriving DecidableEq

inductive Answer
  | page (data : List Item) (info : PageMeta)
  | error (response : ErrorResponse)
  deriving DecidableEq

def Answer.status : Answer → Nat
  | page .. => 200
  | error response => response.status

def writeServiceError (err : Error) : ErrorResponse :=
  if err.is .cursorUnavailable || err.is .cursorState then
    ⟨503, "cursor_unavailable", "cursor pagination is temporarily unavailable", none⟩
  else if err.is .invalidCursor then ⟨400, "invalid_cursor", "invalid pagination cursor", none⟩
  else if err.is .idempotencyConflict then
    ⟨409, "idempotency_conflict", "idempotency key was used with a different request", none⟩
  else if err.is .idempotencyInProgress then
    ⟨409, "idempotency_in_progress", "idempotency request is still in progress", some "1"⟩
  else if err.is .idempotencyUnavailable || err.is .idempotencyState then
    ⟨503, "idempotency_unavailable", "idempotent create is temporarily unavailable", none⟩
  else if err.is .invalidInput then ⟨422, "validation_error", "invalid item", none⟩
  else if err.is .notFound then ⟨404, "not_found", "item not found", none⟩
  else if err.is .conflict then ⟨409, "conflict", "item already exists", none⟩
  else ⟨500, "internal_error", "internal server error", none⟩

-- ---------------------------------------------------------------------------
-- The request
-- ---------------------------------------------------------------------------

inductive ListRequest
  | offset (params : ListParams)
  | cursor (request : CursorRequest)
  deriving DecidableEq

def parseQueryInt (values : Values) (key : GoString) (fallback : Int) : Option Int :=
  match values.get key with
  | [] => some fallback
  | [entry] => if entry = [] then some fallback else atoi entry
  | _ => none

/-- `parseListRequest`, or `none` for `errInvalidPagination`. A request without
a URL has no query. -/
def parseListRequest (rawQuery : Option GoString) : Option ListRequest := do
  let values ← rawQuery.bind parseQuery
  let limit ← parseQueryInt values (str "limit") defaultPageSize
  let limit := if limit = 0 then defaultPageSize else limit
  if limit < 0 ∨ maxPageSize < limit then none
  else
    let offset ← parseQueryInt values (str "offset") 0
    if offset < 0 then none
    else
      match values.get (str "cursor") with
      | [] => some (.offset ⟨limit, offset⟩)
      | [cursor] =>
        if values.get (str "offset") ≠ [] ∨ cursor = [] ∨ maxCursorBytes < cursor.length then none
        else some (.cursor ⟨limit, cursor⟩)
      | _ => none

-- ---------------------------------------------------------------------------
-- The handler
-- ---------------------------------------------------------------------------

/-- `httpapi.Service`, and `item.CursorLister` where the same value implements
it. -/
structure ItemService where
  list : ListParams → Except Error Page
  listCursor : Option (CursorRequest → Except Error CursorPage)

/-- What each branch of `List` writes for a result of the service. -/
def writeCursorPage : Except Error CursorPage → Answer
  | .error err => .error (writeServiceError err)
  | .ok page => .page page.items ⟨page.limit, none, page.hasMore, page.nextCursor⟩

def writePage : Except Error Page → Answer
  | .error err => .error (writeServiceError err)
  | .ok page => .page page.items ⟨page.limit, some page.offset, page.hasMore, page.nextCursor⟩

/-- The cursor branch of `List`; a nil service has no capability. -/
def listByCursor (service : Option ItemService) (request : CursorRequest) : Answer :=
  match service.bind ItemService.listCursor with
  | none => .error (writeServiceError errCursorUnavailable)
  | some listCursor => writeCursorPage (listCursor request)

def listByOffset (service : Option ItemService) (params : ListParams) : Answer :=
  match service with
  | none => .error ⟨500, "internal_error", "internal server error", none⟩
  | some service => writePage (service.list params)

/-- `Handler`; `none` is a nil service. -/
structure Handler where
  service : Option ItemService

def Handler.list (h : Handler) (rawQuery : Option GoString) : Answer :=
  match parseListRequest rawQuery with
  | none => .error ⟨400, "bad_request", "invalid pagination parameters", none⟩
  | some (.cursor request) => listByCursor h.service request
  | some (.offset params) => listByOffset h.service params

-- ---------------------------------------------------------------------------
-- What is passed on and what comes back
-- ---------------------------------------------------------------------------

theorem passedOn_of_parse (h : parseListRequest rawQuery = some (.cursor request)) :
    PassedOn request := by
  simp only [parseListRequest, Option.bind_eq_bind, Option.bind_eq_some_iff] at h
  obtain ⟨values, -, limit, -, h⟩ := h
  have hne : (if limit = 0 then defaultPageSize else limit) ≠ 0 := by
    split_ifs with hzero
    · decide
    · exact hzero
  generalize (if limit = 0 then defaultPageSize else limit) = limit at h hne
  split_ifs at h with hlimit
  obtain ⟨offset, -, h⟩ := Option.bind_eq_some_iff.mp h
  split_ifs at h
  split at h
  · cases h
  · split_ifs at h with hrefused
    cases h
    push Not at hlimit hrefused
    obtain ⟨-, hcursor, hlength⟩ := hrefused
    exact ⟨⟨Int.add_one_le_of_lt (lt_of_le_of_ne hlimit.1 hne.symm), hlimit.2⟩, hcursor, hlength⟩
  · cases h

theorem serverSide_iff (err : Error) :
    ServerSide err ↔ err.is .cursorUnavailable = true ∨ err.is .cursorState = true ∨
    err.is .invalidCursor = false := by
  unfold ServerSide
  cases err.is .invalidCursor <;> simp

theorem writeServiceError_blames (h : ¬ServerSide err) :
    writeServiceError err = ⟨400, "invalid_cursor", "invalid pagination cursor", none⟩ := by
  rw [serverSide_iff] at h
  simp only [not_or, Bool.not_eq_true, Bool.not_eq_false] at h
  simp only [writeServiceError, h.1, h.2.1, h.2.2, Bool.or_self, Bool.false_eq_true,
    if_false, if_true]

theorem writeServiceError_serverSide (h : ServerSide err) :
    (writeServiceError err).status ≠ 400 := by
  unfold writeServiceError
  split_ifs with hserver hinvalid
  · decide
  · exact absurd (h hinvalid) (by simpa using hserver)
  all_goals decide

end GoClean.HttpApi
