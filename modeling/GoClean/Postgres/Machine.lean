import GoClean.Lib.Threads
import GoClean.Lib.Transition
import GoClean.Postgres.Store

/-!
# Concurrent transactions on the PostgreSQL store

A session is one `CreateIdempotent` call, in any replica: what the client
has reached (`pc`, `outcome`) and what became of its transaction on the
server (`tx`). The locks it holds and the changes it has not committed
follow from these. One action runs one statement; a statement that has to
wait for another transaction is not enabled. A statement may fail at any
point, the server may roll a transaction back at any point, and a commit
takes effect on its own, before, after or without the client hearing of
it. The advisory lock outlives the transaction until it is released.
-/

namespace GoClean.Postgres

open Go Threads

inductive PC
  | start
  /-- The request is valid; `Begin` is next. -/
  | ready
  | begun
  /-- The advisory lock is held. -/
  | locked
  | cleaned
  /-- The lookup has seen its row and locks it next. -/
  | looking (row : KeyRow)
  | found (row : KeyRow)
  /-- The item is read; `Commit` is called. -/
  | replaying (value : Item)
  | absent
  | inserted (created : Item)
  /-- The record is inserted; `Commit` is called. -/
  | recorded (created : Item) (row : KeyRow)
  deriving DecidableEq

inductive TxState
  | idle
  | active
  | committed
  | aborted
  deriving DecidableEq

structure Session where
  request : StoreRequest
  ctx : Option Context
  pc : PC
  tx : TxState
  outcome : Option (Except Error (Item × Bool))
  /-- The rows the cleanup took. -/
  taken : Finset Digest
  released : Bool
  deriving DecidableEq

def Session.new (request : StoreRequest) (ctx : Option Context) : Session :=
  ⟨request, ctx, .start, .idle, none, ∅, false⟩

structure World where
  tables : Tables
  clock : Timestamp
  sessions : List Session

def World.start (tables : Tables) (clock : Timestamp) : World := ⟨tables, clock, []⟩

def World.init (clock : Timestamp) : World := World.start .empty clock

-- ---------------------------------------------------------------------------
-- What a session holds
-- ---------------------------------------------------------------------------

def PC.pastLock : PC → Bool
  | .start | .ready | .begun => false
  | _ => true

def PC.holdsRow : PC → Bool
  | .found _ | .replaying _ => true
  | _ => false

def PC.created : PC → Option Item
  | .inserted created | .recorded created _ => some created
  | _ => none

def PC.row : PC → Option KeyRow
  | .recorded _ row => some row
  | _ => none

def PC.txState : PC → TxState
  | .start | .ready => .idle
  | _ => .active

def PC.reply : PC → Option (Item × Bool)
  | .replaying value => some (value, true)
  | .recorded created _ => some (created, false)
  | _ => none

def Session.deletes (s : Session) : Finset Digest := if s.tx = .active then s.taken else ∅

def Session.item (s : Session) : Option Item := if s.tx = .active then s.pc.created else none

def Session.record (s : Session) : Option KeyRow := if s.tx = .active then s.pc.row else none

section
variable (H : Hashes)

def keyHash (request : StoreRequest) : Digest := H.sum256 request.key

def Session.key (s : Session) : Digest := keyHash H s.request

def Session.advisory (s : Session) : Option Nat :=
  if s.pc.pastLock && !s.released then some (advisoryLockID (s.key H)) else none

/-- The rows of `item_idempotency_keys` that are locked for the session. -/
def Session.locks (s : Session) : Finset Digest :=
  if s.tx = .active then (if s.pc.holdsRow then insert (s.key H) s.taken else s.taken) else ∅

/-- Some transaction other than `i` has the row locked. -/
def World.lockedByOther (w : World) (i : Nat) (k : Digest) : Bool :=
  anyOther w.sessions i fun s => decide (k ∈ s.locks H)

/-- Some transaction other than `i` has inserted or deleted the row, and
not ended yet. -/
def World.pendingByOther (w : World) (i : Nat) (k : Digest) : Bool :=
  anyOther w.sessions i fun s => decide (k ∈ s.deletes) || decide (s.record.isSome ∧ s.key H = k)

def World.itemPendingByOther (w : World) (i : Nat) (id : UUID) : Bool :=
  anyOther w.sessions i fun s => decide (s.item.map Item.id = some id)

-- ---------------------------------------------------------------------------
-- Steps
-- ---------------------------------------------------------------------------

variable (D : Columns)

def Session.returns (s : Session) (result : Except Error (Item × Bool)) : Session :=
  { s with outcome := some result }

def Session.goto (s : Session) (pc : PC) : Session := { s with pc := pc }

def Session.entryCheck (s : Session) : Except Error Unit := do
  ensureContext s.ctx
  validateIdempotentRequest s.request.key s.request.fingerprint s.request.value

def mismatch (request : StoreRequest) (row : KeyRow) : Option Error :=
  if row.requestHash.length ≠ 32 then some errIdempotencyState
  else if row.requestHash ≠ (requestHash request.fingerprint).toList then
    some errIdempotencyConflict
  else none

/-- The next statement of session `i`, the cleanup apart. -/
def Session.run (w : World) (i : Nat) (s : Session) : Option Session :=
  match s.pc with
  | .start =>
    match s.entryCheck with
    | .ok () => some (s.goto .ready)
    | .error err => some (s.returns (.error err))
  | .ready => some { s with pc := .begun, tx := .active }
  | .begun =>
    if anyOther w.sessions i fun t => decide (t.advisory H = some (advisoryLockID (s.key H))) then
      some (s.returns (.error errIdempotencyInProgress))
    else some (s.goto .locked)
  | .locked => none
  | .cleaned =>
    -- The statement's snapshot: committed rows, less the session's own deletes.
    if s.key H ∈ s.taken then some (s.goto .absent)
    else
      match w.tables.keys.lookup (s.key H) with
      | some row => some (s.goto (.looking row))
      | none => some (s.goto .absent)
  | .looking row =>
    if w.lockedByOther H i (s.key H) then none
    else if w.tables.keys.lookup (s.key H) = some row then
      some { s with pc := .found row, outcome := (mismatch s.request row).map .error }
    -- A row that was deleted while the lookup waited is skipped.
    else some (s.goto .absent)
  | .found row =>
    match w.tables.items.lookup row.itemID with
    | some itemRow => some (s.goto (.replaying itemRow.value))
    | none => some (s.returns (.error (replayError (.sentinel .noRows))))
  | .replaying _ => none
  | .absent =>
    if w.itemPendingByOther i s.request.value.id then none
    else if (w.tables.items.lookup s.request.value.id).isSome then
      some (s.returns
        (.error (insertError (str "idempotent create") (str "create") uniqueViolation)))
    else some (s.goto (.inserted (D.readBack s.request.value)))
  | .inserted created =>
    if w.pendingByOther H i (s.key H) then none
    else if (w.tables.keys.lookup (s.key H)).isSome && decide (s.key H ∉ s.taken) then
      some (s.returns
        (.error (insertError (str "idempotency insert") (str "insert") uniqueViolation)))
    else some (s.goto (.recorded created
      ⟨(requestHash s.request.fingerprint).toList, created.id, w.clock + retention, some i⟩))
  | .recorded .. => none

def PC.failure (err : Error) : PC → Error
  | .start | .ready => idempotencyUnavailable (str "begin") err
  | .begun => idempotencyUnavailable (str "advisory lock") err
  | .locked => idempotencyUnavailable (str "cleanup") err
  | .cleaned | .looking _ => idempotencyUnavailable (str "lookup") err
  | .found _ => replayError err
  | .replaying _ => idempotencyUnavailable (str "replay commit") err
  | .absent => insertError (str "idempotent create") (str "create") err
  | .inserted _ => insertError (str "idempotency insert") (str "insert") err
  | .recorded .. => idempotencyUnavailable (str "commit") err

inductive Action
  | call (request : StoreRequest) (ctx : Option Context)
  | tick (now : Timestamp)
  /-- `Store.Create`: one statement, committed on its own. -/
  | create (value : Item)
  | run (i : Nat)
  | cleanup (i : Nat) (taken : Finset Digest)
  | fail (i : Nat) (err : Error)
  | commit (i : Nat)
  | rollback (i : Nat)
  | release (i : Nat)
  | acknowledge (i : Nat)

def World.update (w : World) (i : Nat) (s : Session) : World :=
  { w with sessions := w.sessions.set i s }

def Session.itemRow (s : Session) (i : Nat) : Option ItemRow :=
  s.item.map fun value => ⟨value, some i⟩

def World.committed (w : World) (i : Nat) (s : Session) : Tables :=
  w.tables.apply s.deletes (s.itemRow i) (s.record.map fun row => (s.key H, row))

def step (w : World) : Action → Option World
  | .call request ctx => some { w with sessions := w.sessions ++ [Session.new request ctx] }
  | .tick now => some { w with clock := now }
  | .create value =>
    if (w.tables.items.lookup value.id).isSome ||
        w.sessions.any fun s => decide (s.item.map Item.id = some value.id) then none
    else
      some { w with
        tables.items := w.tables.items.insert value.id ⟨D.readBack value, none⟩ }
  | .run i => do
    let s ← w.sessions[i]?
    if s.outcome.isNone && s.tx = s.pc.txState then
      (s.run H D w i).map fun s' => w.update i s'
    else none
  | .cleanup i taken => do
    let s ← w.sessions[i]?
    if s.outcome.isNone && s.tx = .active && s.pc = .locked &&
        isCleanup (candidates w.tables.keys w.clock (w.lockedByOther H i)) taken then
      some (w.update i { s with pc := .cleaned, taken := taken })
    else none
  | .fail i err => do
    let s ← w.sessions[i]?
    if s.outcome.isNone && s.pc ≠ .start && isDriverError err then
      some (w.update i (s.returns (.error (s.pc.failure err))))
    else none
  | .commit i => do
    let s ← w.sessions[i]?
    if s.tx = .active && s.pc.reply.isSome then
      some { w with
        tables := w.committed H i s
        sessions := w.sessions.set i { s with tx := .committed } }
    else none
  | .rollback i => do
    let s ← w.sessions[i]?
    if s.tx = .active then some (w.update i { s with tx := .aborted }) else none
  | .release i => do
    let s ← w.sessions[i]?
    if s.tx = .committed || s.tx = .aborted then some (w.update i { s with released := true })
      else none
  | .acknowledge i => do
    let s ← w.sessions[i]?
    if s.outcome.isNone && s.tx = .committed then
      s.pc.reply.map fun reply => w.update i (s.returns (.ok reply))
    else none

end

-- ---------------------------------------------------------------------------
-- What a step can do
-- ---------------------------------------------------------------------------

section
variable (H : Hashes) (D : Columns)

/-- The statements of session `i` other than the cleanup. -/
inductive Runs (w : World) (i : Nat) (s : Session) : Session → Prop
  | refused : s.pc = .start → s.entryCheck = .error err → Runs w i s (s.returns (.error err))
  | enter : s.pc = .start → s.entryCheck = .ok () → Runs w i s (s.goto .ready)
  | begin : s.pc = .ready → Runs w i s { s with pc := .begun, tx := .active }
  | inProgress : s.pc = .begun →
      (∃ (j : Nat) (t : Session), j ≠ i ∧ w.sessions[j]? = some t ∧
        t.advisory H = some (advisoryLockID (s.key H))) →
      Runs w i s (s.returns (.error errIdempotencyInProgress))
  | lock : s.pc = .begun →
      (∀ (j : Nat) (t : Session), j ≠ i → w.sessions[j]? = some t →
        t.advisory H ≠ some (advisoryLockID (s.key H))) →
      Runs w i s (s.goto .locked)
  | unseen : s.pc = .cleaned → s.key H ∈ s.taken ∨ w.tables.keys.lookup (s.key H) = none →
      Runs w i s (s.goto .absent)
  | seen : s.pc = .cleaned → s.key H ∉ s.taken → w.tables.keys.lookup (s.key H) = some row →
      Runs w i s (s.goto (.looking row))
  | gone : s.pc = .looking row → w.tables.keys.lookup (s.key H) ≠ some row →
      Runs w i s (s.goto .absent)
  | grab : s.pc = .looking row → w.lockedByOther H i (s.key H) = false →
      w.tables.keys.lookup (s.key H) = some row →
      Runs w i s { s with pc := .found row, outcome := (mismatch s.request row).map .error }
  | replay : s.pc = .found row → w.tables.items.lookup row.itemID = some itemRow →
      Runs w i s (s.goto (.replaying itemRow.value))
  | missing : s.pc = .found row → w.tables.items.lookup row.itemID = none →
      Runs w i s (s.returns (.error errIdempotencyState))
  | duplicate : (s.pc = .absent ∨ ∃ created, s.pc = .inserted created) →
      Runs w i s (s.returns (.error (insertError operation short uniqueViolation)))
  | insert : s.pc = .absent → w.itemPendingByOther i s.request.value.id = false →
      w.tables.items.lookup s.request.value.id = none →
      Runs w i s (s.goto (.inserted (D.readBack s.request.value)))
  | record : s.pc = .inserted created → w.pendingByOther H i (s.key H) = false →
      s.key H ∈ s.taken ∨ w.tables.keys.lookup (s.key H) = none →
      Runs w i s (s.goto (.recorded created
        ⟨(requestHash s.request.fingerprint).toList, created.id, w.clock + retention, some i⟩))

theorem run_runs {s : Session} (h : s.run H D w i = some s') : Runs H D w i s s' := by
  unfold Session.run at h
  split at h
  case h_1 hpc =>
    split at h
    · next hcheck => cases h; exact .enter hpc hcheck
    · next hcheck => cases h; exact .refused hpc hcheck
  case h_2 hpc =>
    cases h
    exact .begin hpc
  case h_3 hpc =>
    split at h
    · next hother =>
      cases h
      obtain ⟨j, t, hne, ht, hid⟩ := anyOther_iff.mp hother
      exact .inProgress hpc ⟨j, t, hne, ht, of_decide_eq_true hid⟩
    · next hother =>
      cases h
      have hother := anyOther_eq_false.mp (Bool.eq_false_iff.mpr hother)
      exact .lock hpc fun j t hne ht => of_decide_eq_false (hother j t hne ht)
  case h_4 => cases h
  case h_5 hpc =>
    split at h
    · next hmem => cases h; exact .unseen hpc (.inl hmem)
    · next hmem =>
      split at h
      · next hrow => cases h; exact .seen hpc hmem hrow
      · next hrow => cases h; exact .unseen hpc (.inr hrow)
  case h_6 hpc =>
    split at h
    · cases h
    · next hfree =>
      split at h
      · next hrow => cases h; exact .grab hpc (Bool.eq_false_iff.mpr hfree) hrow
      · next hrow => cases h; exact .gone hpc hrow
  case h_7 hpc =>
    split at h
    · next hitem => cases h; exact .replay hpc hitem
    · next hitem => cases h; exact .missing hpc hitem
  case h_8 => cases h
  case h_9 hpc =>
    split at h
    · cases h
    · next hfree =>
      split at h
      · cases h; exact .duplicate (.inl hpc)
      · next hid =>
        cases h
        exact .insert hpc (Bool.eq_false_iff.mpr hfree) (by simpa using hid)
  case h_10 hpc =>
    split at h
    · cases h
    · next hfree =>
      split at h
      · cases h; exact .duplicate (.inr ⟨_, hpc⟩)
      · next hrow =>
        cases h
        refine .record hpc (Bool.eq_false_iff.mpr hfree) ?_
        by_cases hmem : s.key H ∈ s.taken
        · exact .inl hmem
        · exact .inr (by simpa [hmem] using hrow)
  case h_11 => cases h

/-- What one action does to session `i` and to the tables. -/
inductive Moves (w : World) (i : Nat) (s : Session) : Action → Session → Tables → Prop
  | run : s.outcome = none → s.tx = s.pc.txState → Runs H D w i s s' →
      Moves w i s (.run i) s' w.tables
  | clean : s.outcome = none → s.tx = .active → s.pc = .locked →
      isCleanup (candidates w.tables.keys w.clock (w.lockedByOther H i)) taken = true →
      Moves w i s (.cleanup i taken) { s with pc := .cleaned, taken := taken } w.tables
  | fail : s.outcome = none → s.pc ≠ .start → isDriverError err = true →
      Moves w i s (.fail i err) (s.returns (.error (s.pc.failure err))) w.tables
  | commit : s.tx = .active → s.pc.reply = some reply →
      Moves w i s (.commit i) { s with tx := .committed } (w.committed H i s)
  | rollback : s.tx = .active → Moves w i s (.rollback i) { s with tx := .aborted } w.tables
  | release : s.tx = .committed ∨ s.tx = .aborted →
      Moves w i s (.release i) { s with released := true } w.tables
  | acknowledge : s.outcome = none → s.tx = .committed → s.pc.reply = some reply →
      Moves w i s (.acknowledge i) (s.returns (.ok reply)) w.tables

inductive Stepped (w : World) : Action → World → Prop
  | call :
      Stepped w (.call request ctx) { w with sessions := w.sessions ++ [Session.new request ctx] }
  | tick : Stepped w (.tick now) { w with clock := now }
  | create : w.tables.items.lookup value.id = none →
      (∀ s ∈ w.sessions, s.item.map Item.id ≠ some value.id) →
      Stepped w (.create value)
        { w with tables.items := w.tables.items.insert value.id ⟨D.readBack value, none⟩ }
  | move : w.sessions[i]? = some s → Moves H D w i s a s' tables →
      Stepped w a ⟨tables, w.clock, w.sessions.set i s'⟩

theorem step_stepped {w w' : World} (h : step H D w a = some w') : Stepped H D w a w' := by
  cases a with
  | call request ctx =>
    cases h
    exact .call
  | tick now =>
    cases h
    exact .tick
  | create value =>
    simp only [step] at h
    split at h
    · cases h
    · next hfree =>
      cases h
      simp only [Bool.or_eq_true, List.any_eq_true, decide_eq_true_eq, not_or, not_exists, not_and,
        Option.not_isSome_iff_eq_none] at hfree
      exact .create hfree.1 hfree.2
  | run i =>
    simp only [step, Option.bind_eq_bind] at h
    obtain ⟨s, hs, h⟩ := Option.bind_eq_some_iff.mp h
    split at h
    · next hguard =>
      simp only [Bool.and_eq_true, Option.isNone_iff_eq_none, decide_eq_true_eq] at hguard
      obtain ⟨s', hrun, rfl⟩ := Option.map_eq_some_iff.mp h
      exact .move hs (.run hguard.1 hguard.2 (run_runs H D hrun))
    · cases h
  | cleanup i taken =>
    simp only [step, Option.bind_eq_bind] at h
    obtain ⟨s, hs, h⟩ := Option.bind_eq_some_iff.mp h
    split at h
    · next hguard =>
      simp only [Bool.and_eq_true, Option.isNone_iff_eq_none, decide_eq_true_eq] at hguard
      obtain ⟨⟨⟨hout, htx⟩, hpc⟩, hclean⟩ := hguard
      cases h
      exact .move hs (.clean hout htx hpc hclean)
    · cases h
  | fail i err =>
    simp only [step, Option.bind_eq_bind] at h
    obtain ⟨s, hs, h⟩ := Option.bind_eq_some_iff.mp h
    split at h
    · next hguard =>
      simp only [Bool.and_eq_true, Option.isNone_iff_eq_none, decide_eq_true_eq] at hguard
      obtain ⟨⟨hout, hpc⟩, herr⟩ := hguard
      cases h
      exact .move hs (.fail hout hpc herr)
    · cases h
  | commit i =>
    simp only [step, Option.bind_eq_bind] at h
    obtain ⟨s, hs, h⟩ := Option.bind_eq_some_iff.mp h
    split at h
    · next hguard =>
      simp only [Bool.and_eq_true, decide_eq_true_eq, Option.isSome_iff_exists] at hguard
      obtain ⟨htx, reply, hreply⟩ := hguard
      cases h
      exact .move hs (.commit htx hreply)
    · cases h
  | rollback i =>
    simp only [step, Option.bind_eq_bind] at h
    obtain ⟨s, hs, h⟩ := Option.bind_eq_some_iff.mp h
    split at h
    · next htx =>
      cases h
      exact .move hs (.rollback htx)
    · cases h
  | release i =>
    simp only [step, Option.bind_eq_bind] at h
    obtain ⟨s, hs, h⟩ := Option.bind_eq_some_iff.mp h
    split at h
    · next htx =>
      simp only [Bool.or_eq_true, decide_eq_true_eq] at htx
      cases h
      exact .move hs (.release htx)
    · cases h
  | acknowledge i =>
    simp only [step, Option.bind_eq_bind] at h
    obtain ⟨s, hs, h⟩ := Option.bind_eq_some_iff.mp h
    split at h
    · next hguard =>
      simp only [Bool.and_eq_true, Option.isNone_iff_eq_none, decide_eq_true_eq] at hguard
      obtain ⟨reply, hreply, rfl⟩ := Option.map_eq_some_iff.mp h
      exact .move hs (.acknowledge hguard.1 hguard.2 hreply)
    · cases h

end

-- ---------------------------------------------------------------------------
-- A small workload, for evaluating runs
-- ---------------------------------------------------------------------------

def sampleItem (n : UInt8) : Item :=
  ⟨.replicate 16 n, str "name", str "text", ⟨63900000000, 1234567, none⟩⟩

/-- Requests under the key `key`, each with its own candidate item. -/
def sampleRequest (key : GoString) (n : UInt8) : StoreRequest :=
  ⟨sampleItem n, key, List.replicate 64 0x30⟩

def keyA : Digest := keyHash Hashes.go (sampleRequest (str "a") 1)
def keyB : Digest := keyHash Hashes.go (sampleRequest (str "b") 2)

def storedRow (expiresAt : Timestamp) : KeyRow :=
  ⟨List.replicate 32 0, (sampleItem 9).id, expiresAt, none⟩

/-- The record of `b` expires ten microseconds before the record of `a`. -/
def twoRecords : Tables where
  items := AList.insert (sampleItem 9).id ⟨sampleItem 9, none⟩ ∅
  keys := AList.insert keyA (storedRow 20) (AList.insert keyB (storedRow 10) ∅)

/-- A call up to its cleanup, which takes `taken`. -/
def callActions (request : StoreRequest) (i : Nat) (taken : Finset Digest) : List Action :=
  [.call request (some .background), .run i, .run i, .run i, .cleanup i taken]

end GoClean.Postgres
