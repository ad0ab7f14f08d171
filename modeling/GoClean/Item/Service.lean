import GoClean.Item.Cursor

/-!
# Listing through the service

`Service.List` and `Service.ListCursor`. The service sees a store through
its listing methods, of which the keyset one is optional, and a codec
through its two directions. Both calls ask for one row more than the page
holds and cut it off again; a page with more to come carries the cursor of
its last item. `listCursorDuring` is `ListCursor` with a context that may be
cancelled between its checks, and `listCursor` with one that stays as it is.
-/

namespace GoClean

open Go

structure CursorRequest where
  limit : Int
  cursor : GoString
  deriving DecidableEq

structure CursorPage where
  items : List Item
  limit : Int
  nextCursor : GoString
  hasMore : Bool
  deriving DecidableEq

/-- `item.Store`, and `item.CursorStore` where the same value implements it. -/
structure ListStore where
  list : Option Context → ListParams → Except Error (List Item)
  listAfter : Option (Option Context → CursorListParams → Except Error (List Item))

structure CursorCodec where
  encode : CursorPosition → Except Error GoString
  decode : GoString → Except Error CursorPosition

structure Service where
  store : Option ListStore
  cursorCodec : Option CursorCodec

def CursorCodec.nextCursor (codec : CursorCodec) (hasMore : Bool) (items : List Item) :
    Except Error GoString :=
  match hasMore, items.getLast? with
  | true, some last => do
    let position ← cursorPositionForItem last
    (codec.encode position).mapError (.join errCursorState)
  | _, _ => .ok []

/-- The cursor that `List` adds where the same store reads by keyset. -/
def Service.listNextCursor (service : Service) (store : ListStore) (hasMore : Bool)
    (items : List Item) :
    Except Error GoString :=
  match service.cursorCodec, store.listAfter with
  | some codec, some _ => codec.nextCursor hasMore items
  | _, _ => .ok []

def cutRows (limit : Int) (rows : List Item) : List Item :=
  if limit < rows.length then rows.take limit.toNat else rows

def Service.list (service : Service) (ctx : Option Context) (params : ListParams) :
    Except Error Page := do
  ensureContext ctx
  let normalized ← normalizeListParams params
  match service.store with
  | none => .error errStoreUnavailable
  | some store =>
    let rows ← store.list ctx ⟨normalized.limit + 1, normalized.offset⟩
    let hasMore := decide (normalized.limit < rows.length)
    let items := cutRows normalized.limit rows
    let nextCursor ← service.listNextCursor store hasMore items
    pure ⟨items, normalized.limit, normalized.offset, hasMore, nextCursor⟩

def CursorCodec.resume (codec : CursorCodec) (cursor : GoString) :
    Except Error (Option CursorPosition) :=
  if cursor = [] then pure none
  else do
    ensure (decide (cursor.length ≤ maxCursorBytes)) (invalidCursor "token exceeds size bound")
    let position ← codec.decode cursor
    position.validate.mapError (.join errCursorState)
    pure (some position)

/-- Where `ListCursor` and the store look at the context. -/
inductive ListStage
  | entered
  | reading
  | fetched
  | finished
  deriving DecidableEq

/-- `Service.ListCursor` when each stage sees the context as it is then. -/
def Service.listCursorDuring (service : Service) (ctx : ListStage → Option Context)
    (request : CursorRequest) : Except Error CursorPage := do
  ensureContext (ctx .entered)
  let limit := if request.limit = 0 then defaultPageSize else request.limit
  ensure (decide (0 ≤ limit ∧ limit ≤ maxPageSize))
    (.validation "limit" "must be between 0 and 100")
  match service.store, service.cursorCodec with
  | some store, some codec =>
    let after ← codec.resume request.cursor
    match store.listAfter with
    | none => .error errCursorUnavailable
    | some listAfter =>
      let rows ← listAfter (ctx .reading) ⟨limit + 1, after⟩
      ensureContext (ctx .fetched)
      ensure (decide (rows.length ≤ limit + 1))
        (.wrap [] errCursorState (str ": store returned too many rows"))
      let hasMore := decide (limit < rows.length)
      let items := cutRows limit rows
      let nextCursor ← codec.nextCursor hasMore items
      ensureContext (ctx .finished)
      pure ⟨items, limit, nextCursor, hasMore⟩
  | _, _ => .error errCursorUnavailable

def Service.listCursor (service : Service) (ctx : Option Context) (request : CursorRequest) :
    Except Error CursorPage :=
  service.listCursorDuring (fun _ => ctx) request

theorem cutRows_eq : cutRows limit rows = rows.take limit.toNat := by
  unfold cutRows
  split
  · rfl
  · exact (List.take_of_length_le (by omega)).symm

structure Cut (codec : CursorCodec) (limit : Int) (rows items : List Item) (hasMore : Bool)
    (nextCursor : GoString) : Prop where
  pos : 1 ≤ limit
  first : items = rows.take limit.toNat
  more : hasMore = decide (limit < rows.length)
  next : codec.nextCursor hasMore items = .ok nextCursor

theorem serviceList_ok {store : ListStore}
    (h : Service.list ⟨some store, some codec⟩ ctx params = .ok page)
    (hcapable : store.listAfter = some listAfter) :
    ∃ rows, store.list ctx ⟨page.limit + 1, params.offset⟩ = .ok rows ∧
      Cut codec page.limit rows page.items page.hasMore page.nextCursor := by
  simp only [Service.list, Service.listNextCursor, bind_ok, ensureContext_ok,
    hcapable, pure_ok] at h
  obtain ⟨_, -, normalized, hnormal, rows, hrows, nextCursor, hnext, rfl⟩ := h
  obtain ⟨-, hoffset, hpos, -, -⟩ := normalizeListParams_ok hnormal
  exact ⟨rows, hoffset ▸ hrows, hpos, cutRows_eq, rfl, hnext⟩

theorem CursorCodec.resume_nil (codec : CursorCodec) : codec.resume [] = .ok none := rfl

theorem CursorCodec.resume_ok {codec : CursorCodec} (h : codec.resume cursor = .ok after)
    (hne : cursor ≠ []) :
    ∃ position, codec.decode cursor = .ok position ∧ after = some position := by
  simp only [CursorCodec.resume, hne, if_false, bind_ok, pure_ok] at h
  obtain ⟨_, -, position, hdecode, _, -, rfl⟩ := h
  exact ⟨position, hdecode, rfl⟩

theorem CursorCodec.resume_eq {codec : CursorCodec} (hne : cursor ≠ [])
    (hlen : cursor.length ≤ maxCursorBytes)
    (hdecode : codec.decode cursor = .ok position) (hvalid : position.validate = .ok ()) :
    codec.resume cursor = .ok (some position) := by
  simp only [CursorCodec.resume, hne, if_false, hlen, decide_true, ensure_true,
    hdecode, hvalid, ok_bind]
  rfl

theorem serviceListCursor_ok {store : ListStore}
    (h : Service.listCursor ⟨some store, some codec⟩ ctx request = .ok page)
    (hcapable : store.listAfter = some listAfter) :
    ∃ after rows, codec.resume request.cursor = .ok after ∧
      listAfter ctx ⟨page.limit + 1, after⟩ = .ok rows ∧
      Cut codec page.limit rows page.items page.hasMore page.nextCursor := by
  simp only [Service.listCursor, Service.listCursorDuring, bind_ok, ensureContext_ok, hcapable,
    pure_ok, ensure_ok, decide_eq_true_eq] at h
  obtain ⟨_, -, _, ⟨hpos, -⟩, after, hafter, rows, hrows, _, -, _, -, nextCursor,
    hnext, _, -, rfl⟩ := h
  refine ⟨after, rows, hafter, hrows, ?_, cutRows_eq, rfl, hnext⟩
  show 1 ≤ (if request.limit = 0 then defaultPageSize else request.limit)
  split
  · decide
  · next h0 =>
    rw [if_neg h0] at hpos
    omega

theorem serviceListCursor_eq {store : ListStore} {codec : CursorCodec}
    (ctx : Option Context) (limit : Int)
    (rows : List Item) (hctx : Live ctx) (hcapable : store.listAfter = some listAfter)
    (hlimit : 1 ≤ limit ∧ limit ≤ maxPageSize)
    (hresume : codec.resume cursor = .ok after)
    (hrows : listAfter ctx ⟨limit + 1, after⟩ = .ok rows) (hfit : (rows.length : Int) ≤ limit + 1)
    (hnext : codec.nextCursor (decide (limit < rows.length)) (cutRows limit rows) = .ok token) :
    Service.listCursor ⟨some store, some codec⟩ ctx ⟨limit, cursor⟩ =
      .ok ⟨cutRows limit rows, limit, token, decide (limit < rows.length)⟩ := by
  have hne : limit ≠ 0 := by omega
  have hrange : 0 ≤ limit ∧ limit ≤ maxPageSize := ⟨by omega, hlimit.2⟩
  have hlive : ensureContext ctx = .ok () := ensureContext_ok.mpr hctx
  simp only [Service.listCursor, Service.listCursorDuring, hlive, hne, if_false, hrange, hresume,
    hcapable, hrows, hfit, hnext, and_self, decide_true, ensure_true, ok_bind]
  rfl

end GoClean
