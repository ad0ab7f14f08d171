import GoClean.Item.Create
import GoClean.Item.Service

/-!
# Calls of the service, cut at the store

`Service.Get`, `Service.List` and `Service.ListCursor` as two parts, one up to
the call of the store and one after it, for a store that is not nil and reads
by keyset. The parts of a call may see its context in different states.
-/

namespace GoClean

open Go

def getRequest (ctx : Option Context) (id : UUID) : Except Error UUID := do
  ensureContext ctx
  ensure (decide (id ≠ UUID.zero)) (.validation "id" "must not be nil")
  pure id

/-- `Service.List` up to its call of the store: the parameters of the page. -/
def listRequest (ctx : Option Context) (params : ListParams) : Except Error ListParams := do
  ensureContext ctx
  normalizeListParams params

/-- What `Service.List` asks the store for: one row more than the page holds. -/
def lookAhead (normalized : ListParams) : ListParams := ⟨normalized.limit + 1, normalized.offset⟩

def listReply (codec : Option CursorCodec) (normalized : ListParams) (rows : List Item) :
    Except Error Page := do
  let hasMore := decide (normalized.limit < rows.length)
  let items := cutRows normalized.limit rows
  let nextCursor ← match codec with
    | some codec => codec.nextCursor hasMore items
    | none => .ok []
  pure ⟨items, normalized.limit, normalized.offset, hasMore, nextCursor⟩

/-- `Service.ListCursor` up to its call of the store: the parameters of that
call, whose limit is one more than the page's. -/
def listCursorRequest (codec : Option CursorCodec) (ctx : Option Context)
    (request : CursorRequest) :
    Except Error CursorListParams := do
  ensureContext ctx
  let limit := if request.limit = 0 then defaultPageSize else request.limit
  ensure (decide (0 ≤ limit ∧ limit ≤ maxPageSize))
    (.validation "limit" "must be between 0 and 100")
  match codec with
  | none => .error errCursorUnavailable
  | some codec => do
    let after ← codec.resume request.cursor
    pure ⟨limit + 1, after⟩

def listCursorReply (codec : Option CursorCodec) (ctx : Option Context) (limit : Int)
    (rows : List Item) :
    Except Error CursorPage := do
  ensureContext ctx
  ensure (decide (rows.length ≤ limit + 1))
    (.wrap [] errCursorState (str ": store returned too many rows"))
  let hasMore := decide (limit < rows.length)
  let items := cutRows limit rows
  let nextCursor ← match codec with
    | some codec => codec.nextCursor hasMore items
    | none => .error errCursorUnavailable
  ensureContext ctx
  pure ⟨items, limit, nextCursor, hasMore⟩

theorem Service.list_eq (list : Option Context → ListParams → Except Error (List Item))
    (listAfter : Option Context → CursorListParams → Except Error (List Item))
    (codec : Option CursorCodec) (ctx : Option Context) (params : ListParams) :
    Service.list ⟨some ⟨list, some listAfter⟩, codec⟩ ctx params = (do
      let normalized ← listRequest ctx params
      let rows ← list ctx (lookAhead normalized)
      listReply codec normalized rows) := by
  simp only [Service.list, listRequest, listReply, lookAhead, Service.listNextCursor, bind_assoc]
  cases codec <;> rfl

theorem Service.listCursor_eq (list : Option Context → ListParams → Except Error (List Item))
    (listAfter : Option Context → CursorListParams → Except Error (List Item))
    (codec : Option CursorCodec) (ctx : Option Context) (request : CursorRequest) :
    Service.listCursor ⟨some ⟨list, some listAfter⟩, codec⟩ ctx request = (do
      let params ← listCursorRequest codec ctx request
      let rows ← listAfter ctx params
      listCursorReply codec ctx (params.limit - 1) rows) := by
  simp only [Service.listCursor, Service.listCursorDuring, listCursorRequest,
    listCursorReply, bind_assoc]
  cases codec with
  | none => simp only [error_bind]
  | some codec => simp only [bind_assoc, pure_bind, Int.add_sub_cancel]

end GoClean
