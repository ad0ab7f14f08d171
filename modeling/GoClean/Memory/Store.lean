import Mathlib.Data.Finset.Card
import Mathlib.Data.List.Sort
import GoClean.Lib.AssocMap
import GoClean.Item.Cursor
import GoClean.Item.Idempotency

/-!
# The memory store

`internal/item/memory`: the maps behind the two mutexes, and what each
critical section does to them. A nil map of a zero-value store reads as an
empty one and is made before it is written, so both are the empty map here;
`sort.Slice` becomes an insertion sort, which agrees with it because ids
are distinct and the orders below are total on them.
-/

namespace GoClean.Memory

open Go

structure IdempotencyEntry where
  fingerprint : Digest
  itemID : UUID
  expiresAt : Time
  deriving DecidableEq

structure Store where
  items : AssocMap UUID Item
  idempotency : AssocMap Digest IdempotencyEntry
  inflight : Finset Digest
  maxEntries : Int

/-- `NewStore()` at `maxEntries = item.MaxIdempotencyEntries`, the zero
value at `maxEntries = 0`. -/
def Store.empty (maxEntries : Int) : Store := ⟨∅, ∅, ∅, maxEntries⟩

def Store.maxIdempotencyEntries (store : Store) : Int :=
  if 0 < store.maxEntries then store.maxEntries else GoClean.maxIdempotencyEntries

def decodeDigest (value : GoString) : Option Digest :=
  if value.length ≠ 64 then none
  else
    match Hex.decode value with
    | none => none
    | some decoded => if h : decoded.length = 32 then some ⟨decoded, h⟩ else none

def validateRequest (key fingerprint : GoString) (value : Item) : Except Error Unit := do
  validateIdempotencyKey key
  ensure (decide (value.id ≠ UUID.zero)) errIdempotencyState
  ensure (decodeDigest fingerprint).isSome errIdempotencyState

def requestHash (fingerprint : GoString) : Digest :=
  (decodeDigest fingerprint).getD (List.Vector.replicate 32 0)

-- ---------------------------------------------------------------------------
-- Sections under idempotencyMu
-- ---------------------------------------------------------------------------

def Store.cleanupIdempotencyLocked (store : Store) (now : Time) : Store :=
  { store with idempotency := store.idempotency.filter fun _ entry => now.before entry.expiresAt }

def Store.getItem (store : Store) (ctx : Option Context) (id : UUID) : Except Error Item := do
  ensureContext ctx
  -- Again under the read lock.
  ensureContext ctx
  match store.items.lookup id with
  | some value => pure value
  | none => .error errNotFound

/-- The reservation section of `CreateIdempotent`. With no result the
marker is set and the call goes on to create its item. -/
def Store.reserve (store : Store) (ctx : Option Context) (keyHash requestHash : Digest)
    (now : Time) :
    Store × Option (Except Error (Item × Bool)) :=
  let store := store.cleanupIdempotencyLocked now
  match store.idempotency.lookup keyHash with
  | some existing =>
    if existing.fingerprint ≠ requestHash then (store, some (.error errIdempotencyConflict))
    else
      match store.getItem ctx existing.itemID with
      | .ok value => (store, some (.ok (value, true)))
      | .error err =>
        if err.is .canceled || err.is .deadlineExceeded then (store, some (.error err))
        else (store, some (.error errIdempotencyState))
  | none =>
    if keyHash ∈ store.inflight then (store, some (.error errIdempotencyInProgress))
    else if store.maxIdempotencyEntries ≤ store.idempotency.size + store.inflight.card then
      (store, some (.error errIdempotencyUnavailable))
    else ({ store with inflight := insert keyHash store.inflight }, none)

def Store.complete (store : Store) (keyHash : Digest) (entry : IdempotencyEntry) : Store :=
  { store with
    inflight := store.inflight.erase keyHash
    idempotency := store.idempotency.insert keyHash entry }

def Store.clearInFlight (store : Store) (keyHash : Digest) : Store :=
  { store with inflight := store.inflight.erase keyHash }

-- ---------------------------------------------------------------------------
-- Sections under mu
-- ---------------------------------------------------------------------------

def Store.createLocked (store : Store) (ctx : Option Context) (value : Item) :
    Except Error Store := do
  ensureContext ctx
  match store.items.lookup value.id with
  | some _ => .error (.wrap [] errConflict (str ": id " ++ value.id.string))
  | none => pure { store with items := store.items.insert value.id value }

def Store.getLocked (store : Store) (ctx : Option Context) (id : UUID) : Except Error Item := do
  ensureContext ctx
  match store.items.lookup id with
  | some value => pure value
  | none => .error (.wrap [] errNotFound (str ": id " ++ id.string))

def Store.values (store : Store) : List Item := store.items.values

-- ---------------------------------------------------------------------------
-- Listing
-- ---------------------------------------------------------------------------

def sortSlice (less : Item → Item → Bool) (values : List Item) : List Item :=
  values.insertionSort fun a b => less b a = false

def listLess (left right : Item) : Bool :=
  if left.createdAt.equal right.createdAt then decide (right.id.string < left.id.string)
  else left.createdAt.after right.createdAt

def listAfterLess (left right : Item) : Bool :=
  if left.createdAt.equal right.createdAt then decide (right.id.toList < left.id.toList)
  else left.createdAt.after right.createdAt

def listParamsCheck (params : ListParams) : Except Error Unit := do
  ensure (decide (0 ≤ params.limit ∧ params.limit ≤ maxPageSize + 1))
    (.validation "limit" "is outside the supported range")
  ensure (decide (0 ≤ params.offset)) (.validation "offset" "must be zero or positive")

/-- The page of at most `limit` values from index `start`. -/
def pageFrom (values : List Item) (limit : Int) (start : Nat) : List Item :=
  if limit = 0 ∨ values.length ≤ start then []
  else (values.drop start).take limit.toNat

def listTail (ctx : Option Context) (params : ListParams) (values : List Item) :
    Except Error (List Item) := do
  let values := sortSlice listLess values
  ensureContext ctx
  pure (pageFrom values params.limit params.offset.toNat)

def listAfterParamsCheck (params : CursorListParams) : Except Error Unit := do
  ensure (decide (0 ≤ params.limit ∧ params.limit ≤ maxPageSize + 1))
    (.validation "limit" "is outside the supported range")
  match params.after with
  | none => pure ()
  | some position => position.validate.mapError (.join errCursorState)

def isAfter (position : CursorPosition) (value : Item) : Bool :=
  value.createdAt.before position.createdAt ||
    value.createdAt.equal position.createdAt && decide (value.id.toList < position.id.toList)

def listAfterTail (ctx : Option Context) (params : CursorListParams) (values : List Item) :
    Except Error (List Item) := do
  let values := sortSlice listAfterLess values
  ensureContext ctx
  let start :=
    match params.after with
    | none => 0
    | some position => values.findIdx (isAfter position)
  pure (pageFrom values params.limit start)

end GoClean.Memory
