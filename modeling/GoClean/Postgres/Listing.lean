import GoClean.Item.ListFailures
import GoClean.Memory.Queries
import GoClean.Postgres.Store

/-!
# Listing the PostgreSQL store

`List` and `ListAfter` of `internal/item/postgres`. What the pool answers is a
parameter: a query fails, or it has rows, each of which may fail to scan, and
perhaps an error behind them.
-/

namespace GoClean.Memory

theorem failsServerSide_params (params : CursorListParams) :
    FailsServerSide (listAfterParamsCheck params) := by
  unfold listAfterParamsCheck
  refine failsServerSide_bind (failsServerSide_ensure (serverSide_of_not_invalid rfl)) fun _ _ => ?_
  split
  · exact failsServerSide_ok _
  · exact failsServerSide_mapError _

end GoClean.Memory

namespace GoClean.Postgres

open Go

inductive ListStatement
  | list (limit offset : Int)
  | cursorListFirst (limit : Int)
  | cursorListAfter (createdAt : Time) (id : UUID) (limit : Int)
  deriving DecidableEq

/-- `pgx.Rows`: what `Scan` makes of each row, and `Err` behind the last. -/
structure Rows where
  scans : List (Except Error Item)
  err : Option Error := none

structure Querier where
  query : Option Context → ListStatement → Except Error Rows

/-- A nil `*Store` is one without a pool. -/
structure Store where
  db : Option Querier

def translateCursorError (operation : GoString) (err : Error) : Error :=
  if err.is .canceled || err.is .deadlineExceeded then err
  else if err.is .invalidInput || err.is .cursorState then err
  else .wrap (str "item postgres cursor " ++ operation ++ str ": ")
    (.join errCursorUnavailable (translateError operation err)) []

def scanRows (translate : Error → Error) : List (Except Error Item) → Except Error (List Item)
  | [] => .ok []
  | .error err :: _ => .error (translate err)
  | .ok value :: rest => do
    let values ← scanRows translate rest
    pure ({ value with createdAt := value.createdAt.utc } :: values)

def readRows (translate : GoString → Error → Error) (operation : GoString)
    (answer : Except Error Rows) :
    Except Error (List Item) := do
  let rows ← answer.mapError (translate operation)
  let values ← scanRows (translate (operation ++ str " scan")) rows.scans
  match rows.err with
  | some err => .error (translate (operation ++ str " rows") err)
  | none => pure values

def Store.list (store : Store) (ctx : Option Context) (params : ListParams) :
    Except Error (List Item) := do
  ensureContext ctx
  match store.db with
  | none => .error errStoreUnavailable
  | some db =>
    Memory.listParamsCheck params
    if params.limit = 0 then pure []
    else readRows translateError (str "list") (db.query ctx (.list params.limit params.offset))

def listAfterStatement (params : CursorListParams) : ListStatement :=
  match params.after with
  | none => .cursorListFirst params.limit
  | some after => .cursorListAfter after.createdAt.utc after.id params.limit

def Store.listAfter (store : Store) (ctx : Option Context) (params : CursorListParams) :
    Except Error (List Item) := do
  ensureContext ctx
  match store.db with
  | none => .error errCursorUnavailable
  | some db =>
    Memory.listAfterParamsCheck params
    if params.limit = 0 then pure []
    else readRows translateCursorError (str "list after") (db.query ctx (listAfterStatement params))

def Store.listStore (store : Store) : ListStore := ⟨store.list, some store.listAfter⟩

-- ---------------------------------------------------------------------------
-- Failures
-- ---------------------------------------------------------------------------

def wrapsNoSentinel (err : Error) : Bool :=
  [Sentinel.invalidInput, .notFound, .conflict, .storeUnavailable, .idGeneration,
    .idempotencyConflict,
    .idempotencyInProgress, .idempotencyUnavailable, .idempotencyState, .invalidCursor,
    .cursorUnavailable, .cursorState].all fun s => !err.is s

structure Querier.Plain (db : Querier) : Prop where
  query : db.query ctx statement = .error err → wrapsNoSentinel err = true
  scan : db.query ctx statement = .ok rows → .error err ∈ rows.scans → wrapsNoSentinel err = true
  ended : db.query ctx statement = .ok rows → rows.err = some err → wrapsNoSentinel err = true

theorem serverSide_translateCursorError (operation : GoString) (h : wrapsNoSentinel err = true) :
    ServerSide (translateCursorError operation err) := by
  have hinvalid : err.is .invalidCursor = false := by
    simp only [wrapsNoSentinel, List.all_eq_true] at h
    simpa using h .invalidCursor (by simp)
  unfold translateCursorError
  split_ifs
  · exact serverSide_of_not_invalid hinvalid
  · exact serverSide_of_not_invalid hinvalid
  · exact serverSide_of_unavailable rfl

theorem failsServerSide_scanRows {translate : Error → Error} {scans : List (Except Error Item)}
    (h : ∀ err, .error err ∈ scans → ServerSide (translate err)) :
    FailsServerSide (scanRows translate scans) := by
  induction scans with
  | nil => exact failsServerSide_ok _
  | cons scan rest ih =>
    cases scan with
    | error err => exact failsServerSide_error (h err List.mem_cons_self)
    | ok value =>
      exact failsServerSide_bind (ih fun err herr => h err (List.mem_cons_of_mem _ herr)) fun _ _ =>
        failsServerSide_ok _

theorem failsServerSide_readRows {db : Querier} (h : db.Plain) (operation : GoString)
    (ctx : Option Context) (statement : ListStatement) :
    FailsServerSide (readRows translateCursorError operation (db.query ctx statement)) := by
  unfold readRows
  cases hquery : db.query ctx statement with
  | error err =>
    exact failsServerSide_bind
      (failsServerSide_error (serverSide_translateCursorError _ (h.query hquery)))
      fun _ hok => by cases hok
  | ok rows =>
    have hscans :
        FailsServerSide (scanRows (translateCursorError (operation ++ str " scan")) rows.scans) :=
      failsServerSide_scanRows fun err herr => serverSide_translateCursorError _
        (h.scan hquery herr)
    refine failsServerSide_bind (failsServerSide_ok rows) fun read hread => ?_
    cases hread
    refine failsServerSide_bind hscans fun values _ => ?_
    split
    · next herr =>
      exact failsServerSide_error (serverSide_translateCursorError _ (h.ended hquery herr))
    · exact failsServerSide_ok _

theorem failsServerSide_listAfter {store : Store} (h : ∀ db ∈ store.db, db.Plain)
    (ctx : Option Context)
    (params : CursorListParams) : FailsServerSide (store.listAfter ctx params) := by
  unfold Store.listAfter
  refine failsServerSide_bind (failsServerSide_context ctx) fun _ _ => ?_
  split
  · exact failsServerSide_error (serverSide_of_unavailable rfl)
  · next db hdb =>
    refine failsServerSide_bind (Memory.failsServerSide_params params) fun _ _ => ?_
    split
    · exact failsServerSide_ok _
    · exact failsServerSide_readRows (h db hdb) _ _ _

end GoClean.Postgres
