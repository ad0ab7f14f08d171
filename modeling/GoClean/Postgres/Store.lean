import Mathlib.Data.Finset.Card
import GoClean.Memory.Store

/-!
# The PostgreSQL store

`internal/item/postgres`: the two tables, the meaning of the statements
that `CreateIdempotent` sends, and how it names the errors it gets back.
Every row carries the transaction that inserted it. Rows of
`item_idempotency_keys` are never updated, so this tells the versions of a
row apart; no statement reads it as data.
-/

namespace GoClean.Postgres

open Go
open BigEndian (beNat)

/-- A `timestamptz` in microseconds. -/
abbrev Timestamp := Int

structure ItemRow where
  value : Item
  xmin : Option Nat
  deriving DecidableEq

structure KeyRow where
  requestHash : List UInt8
  itemID : UUID
  expiresAt : Timestamp
  xmin : Option Nat
  deriving DecidableEq

structure Tables where
  items : AssocMap UUID ItemRow
  keys : AssocMap Digest KeyRow

def Tables.empty : Tables := ⟨∅, ∅⟩

/-- How an item reads back from its columns, which may round `created_at`
and keep the id. -/
structure Columns where
  readBack : Item → Item
  id_readBack : ∀ value, (readBack value).id = value.id

/-- Whole microseconds, as `timestamptz` has them, in UTC. -/
def Columns.microseconds : Columns where
  readBack value :=
    let nsec := value.createdAt.nsec.val / 1000 * 1000
    { value with createdAt := ⟨value.createdAt.sec,
      ⟨nsec, lt_of_le_of_lt (Nat.div_mul_le_self _ _) value.createdAt.nsec.isLt⟩, none⟩ }
  id_readBack _ := rfl

-- ---------------------------------------------------------------------------
-- Requests and errors
-- ---------------------------------------------------------------------------

def validateIdempotentRequest (key fingerprint : GoString) (value : Item) : Except Error Unit :=
  Memory.validateRequest key fingerprint value

def requestHash (fingerprint : GoString) : Digest := Memory.requestHash fingerprint

def advisoryLockID (hash : Digest) : Nat := beNat (hash.toList.take 8) &&& (2 ^ 63 - 1)

def uniqueViolation : Error :=
  .foreign (str "duplicate key value violates unique constraint (SQLSTATE 23505)")

def translateError (operation : GoString) (err : Error) : Error :=
  if err.is .noRows then errNotFound
  else if err = uniqueViolation then
    .wrap (str "item postgres " ++ operation ++ str ": ") (.join errConflict err) []
  else .wrap (str "item postgres " ++ operation ++ str ": ") err []

def idempotencyUnavailable (operation : GoString) (err : Error) : Error :=
  if err.is .canceled || err.is .deadlineExceeded then err
  else if err.is .idempotencyConflict || err.is .conflict then err
  else .wrap (str "item postgres idempotency " ++ operation ++ str ": ")
    (.join errIdempotencyUnavailable err) []

def insertError (operation short : GoString) (err : Error) : Error :=
  let translated := translateError operation err
  if translated.is .conflict then translated else idempotencyUnavailable short translated

def replayError (err : Error) : Error :=
  let getErr := translateError (str "replay get") err
  if getErr.is .notFound then errIdempotencyState else idempotencyUnavailable (str "replay") getErr

/-- What a connection may fail with: neither the absence of rows, which is
an answer, nor an error of the item package. -/
def isDriverError (err : Error) : Bool :=
  [Sentinel.invalidInput, .notFound, .conflict, .storeUnavailable, .idGeneration,
    .idempotencyConflict,
    .idempotencyInProgress, .idempotencyUnavailable, .idempotencyState, .invalidCursor,
    .cursorUnavailable, .cursorState, .noRows].all fun s => !err.is s

-- ---------------------------------------------------------------------------
-- Statements
-- ---------------------------------------------------------------------------

def cleanupLimit : Nat := 100

/-- `IdempotencyRecordRetention`, as `idempotencyInsertQuery` adds it. -/
def retention : Timestamp := idempotencyRecordRetention / Duration.second * 1000000

/-- The rows that `idempotencyCleanupQuery` may take: expired, and not
locked. -/
def candidates (keys : AssocMap Digest KeyRow) (now : Timestamp) (locked : Digest → Bool) :
    List (Σ _ : Digest, KeyRow) :=
  keys.entries.filter fun e => decide (e.2.expiresAt ≤ now) && !locked e.1

/-- `idempotencyCleanupQuery` takes `taken`: as many candidates as the
limit allows, the oldest first. The order of equal times is not fixed. -/
def isCleanup (candidates : List (Σ _ : Digest, KeyRow)) (taken : Finset Digest) : Bool :=
  decide (taken ⊆ (candidates.map Sigma.fst).toFinset) &&
    decide (taken.card = min cleanupLimit candidates.length) &&
    candidates.all fun e => candidates.all fun e' =>
      decide (e.1 ∈ taken → e'.1 ∉ taken → e.2.expiresAt ≤ e'.2.expiresAt)

def Tables.apply (tables : Tables) (deletes : Finset Digest) (item : Option ItemRow)
    (record : Option (Digest × KeyRow)) : Tables where
  items :=
    match item with
    | some row => tables.items.insert row.value.id row
    | none => tables.items
  keys :=
    let kept := tables.keys.filter fun k _ => decide (k ∉ deletes)
    match record with
    | some (k, row) => kept.insert k row
    | none => kept

end GoClean.Postgres
