import GoClean.Lib.Threads
import GoClean.Lib.Transition
import GoClean.Memory.Store

/-!
# Concurrent calls on the memory store

Each call is a thread with a program counter; `Call.advance` runs it to the
end of its next critical section or context check. Between two such steps
any other call may run, the clock may show any time, and the call's context
may be cancelled. A call remembers the item it inserted and the record it
wrote; no step reads these two fields.

`CallStep` lists what one step of one call can do, and `Stepped` what one
action can do. Every invariant is proved by cases on them.
-/

namespace GoClean.Memory

open Go

inductive Op
  | createIdempotent (request : StoreRequest)
  | create (value : Item)
  | get (id : UUID)
  | list (params : ListParams)
  | listAfter (params : CursorListParams)
  deriving DecidableEq

inductive Reply
  | created (value : Item) (replayed : Bool)
  | item (value : Item)
  | items (values : List Item)
  deriving DecidableEq

inductive PC
  | start
  /-- The checks at the entry have passed. -/
  | ready
  /-- `CreateIdempotent` has read the clock. -/
  | timed (now : Time)
  /-- The marker is set; `Create` is called next. -/
  | reserved
  /-- `Create` waits for its lock. -/
  | inserting
  | inserted (created : Item)
  /-- An error is to be returned after the marker is cleared. -/
  | failing (err : Error)
  /-- The record is written. -/
  | completed (created : Item)
  /-- A listing has copied the items. -/
  | copied (values : List Item)
  | returned (result : Except Error Reply)
  deriving DecidableEq

structure Call where
  op : Op
  ctx : Option Context
  pc : PC
  inserted : Option Item
  recorded : Option IdempotencyEntry
  deriving DecidableEq

def Call.new (op : Op) (ctx : Option Context) : Call := ⟨op, ctx, .start, none, none⟩

/-- The checks before a call first waits for a lock. -/
def Op.entryCheck (ctx : Option Context) : Op → Except Error Unit
  | .createIdempotent request => do
    ensureContext ctx
    validateRequest request.key request.fingerprint request.value
  | .create _ => ensureContext ctx
  | .get id => do
    ensureContext ctx
    ensure (decide (id ≠ UUID.zero)) (.validation "id" "must not be nil")
  | .list params => do
    ensureContext ctx
    listParamsCheck params
  | .listAfter params => do
    ensureContext ctx
    listAfterParamsCheck params

/-- The end of `CreateIdempotent`: the record stays, whatever the context. -/
def finish (ctx : Option Context) (created : Item) : Except Error Reply :=
  match contextError ctx with
  | some err => .error err
  | none => .ok (.created created false)

section
variable (H : Hashes)

def keyHash (request : StoreRequest) : Digest := H.sum256 request.key

def Call.advance (store : Store) (clock : Time) (call : Call) : Option (Store × Call) :=
  match call.op, call.pc with
  | op, .start =>
    match op.entryCheck call.ctx with
    | .ok () => some (store, { call with pc := .ready })
    | .error err => some (store, { call with pc := .returned (.error err) })
  | .createIdempotent _, .ready => some (store, { call with pc := .timed clock })
  | .createIdempotent request, .timed now =>
    match store.reserve call.ctx (keyHash H request) (requestHash request.fingerprint) now with
    | (store, none) => some (store, { call with pc := .reserved })
    | (store, some result) =>
      some (store, { call with pc := .returned (result.map fun r => .created r.1 r.2) })
  | .createIdempotent _, .reserved =>
    match contextError call.ctx with
    | some err => some (store, { call with pc := .failing err })
    | none => some (store, { call with pc := .inserting })
  | .createIdempotent request, .inserting =>
    match store.createLocked call.ctx request.value with
    | .ok store =>
      some (store, { call with pc := .inserted request.value, inserted := some request.value })
    | .error err => some (store, { call with pc := .failing err })
  | .createIdempotent request, .inserted created =>
    if created.id = UUID.zero then some (store, { call with pc := .failing errIdempotencyState })
    else
      let entry : IdempotencyEntry :=
        ⟨requestHash request.fingerprint, created.id, clock.add idempotencyRecordRetention⟩
      some (store.complete (keyHash H request) entry,
        { call with pc := .completed created, recorded := some entry })
  | .createIdempotent request, .failing err =>
    some (store.clearInFlight (keyHash H request), { call with pc := .returned (.error err) })
  | .createIdempotent _, .completed created =>
    some (store, { call with pc := .returned (finish call.ctx created) })
  | .create value, .ready =>
    match store.createLocked call.ctx value with
    | .ok store =>
      some (store, { call with pc := .returned (.ok (.item value)), inserted := some value })
    | .error err => some (store, { call with pc := .returned (.error err) })
  | .get id, .ready =>
    some (store, { call with pc := .returned ((store.getLocked call.ctx id).map .item) })
  | .list _, .ready => some (store, { call with pc := .copied store.values })
  | .list params, .copied values =>
    some (store, { call with pc := .returned ((listTail call.ctx params values).map .items) })
  | .listAfter _, .ready => some (store, { call with pc := .copied store.values })
  | .listAfter params, .copied values =>
    some (store, { call with pc := .returned ((listAfterTail call.ctx params values).map .items) })
  | _, _ => none

structure World where
  store : Store
  /-- What the store's clock shows. -/
  clock : Time
  calls : List Call

def World.init (maxEntries : Int) (clock : Time) : World := ⟨Store.empty maxEntries, clock, []⟩

inductive Action
  | spawn (op : Op) (ctx : Option Context)
  | tick (clock : Time)
  | cancel (call : Nat) (cause : ContextCause)
  | advance (call : Nat)

/-- The first cause of a cancellation stays. -/
def cancelContext (cause : ContextCause) (ctx : Context) : Context :=
  { ctx with cause := ctx.cause.or (some cause) }

def step (w : World) : Action → Option World
  | .spawn op ctx => some { w with calls := w.calls ++ [Call.new op ctx] }
  | .tick clock => some { w with clock := clock }
  | .cancel i cause => do
    let call ← w.calls[i]?
    some { w with calls := w.calls.set i { call with ctx := call.ctx.map (cancelContext cause) } }
  | .advance i => do
    let call ← w.calls[i]?
    let (store, call) ← call.advance H w.store w.clock
    some { w with store := store, calls := w.calls.set i call }

end

-- ---------------------------------------------------------------------------
-- What a step can do
-- ---------------------------------------------------------------------------

/-- What the reservation section answers from a store it has cleaned up. -/
inductive Settled (store : Store) (ctx : Option Context) (k rh : Digest) :
    Except Error (Item × Bool) → Prop
  | conflict : store.idempotency.lookup k = some entry → entry.fingerprint ≠ rh →
      Settled store ctx k rh (.error errIdempotencyConflict)
  | replay : store.idempotency.lookup k = some entry → entry.fingerprint = rh → Live ctx →
      store.items.lookup entry.itemID = some value → Settled store ctx k rh (.ok (value, true))
  | cancelled : store.idempotency.lookup k = some entry → entry.fingerprint = rh →
      contextError ctx = some err → Settled store ctx k rh (.error err)
  | lost : store.idempotency.lookup k = some entry → entry.fingerprint = rh →
      (Live ctx → store.items.lookup entry.itemID = none) →
      Settled store ctx k rh (.error errIdempotencyState)
  | busy : store.idempotency.lookup k = none → k ∈ store.inflight →
      Settled store ctx k rh (.error errIdempotencyInProgress)
  | full : store.idempotency.lookup k = none → k ∉ store.inflight →
      store.maxIdempotencyEntries ≤ store.idempotency.size + store.inflight.card →
      Settled store ctx k rh (.error errIdempotencyUnavailable)

theorem getItem_ok {store : Store} {id : UUID} :
    store.getItem ctx id = .ok value ↔ Live ctx ∧ store.items.lookup id = some value := by
  simp only [Store.getItem, bind_ok, ensureContext_ok]
  cases store.items.lookup id <;> simp [pure, Except.pure]

theorem getItem_error {store : Store} {id : UUID} (h : store.getItem ctx id = .error err) :
    contextError ctx = some err ∨ (Live ctx ∧ store.items.lookup id = none ∧
      err = errNotFound) := by
  unfold Store.getItem ensureContext at h
  cases hc : contextError ctx with
  | some e =>
    rw [hc] at h
    cases h
    exact .inl rfl
  | none =>
    rw [hc] at h
    cases hl : store.items.lookup id with
    | some value =>
      rw [hl] at h
      cases h
    | none =>
      rw [hl] at h
      cases h
      exact .inr ⟨hc, rfl, rfl⟩

theorem reserve_some {store store' : Store}
    (h : store.reserve ctx k rh now = (store', some result)) :
    store' = store.cleanupIdempotencyLocked now ∧ Settled store' ctx k rh result := by
  simp only [Store.reserve] at h
  split at h
  · next entry hl =>
    split at h
    · next hne =>
      cases h
      exact ⟨rfl, .conflict hl hne⟩
    · next heq =>
      have heq := not_not.mp heq
      split at h
      · next value hv =>
        cases h
        obtain ⟨hlive, hv⟩ := getItem_ok.mp hv
        exact ⟨rfl, .replay hl heq hlive hv⟩
      · next err he =>
        rcases getItem_error he with hctx | ⟨hlive, hlost, rfl⟩
        · split at h
          · cases h
            exact ⟨rfl, .cancelled hl heq hctx⟩
          · cases h
            exact ⟨rfl, .lost hl heq fun hlive => absurd (hlive.symm.trans hctx) (by simp)⟩
        · cases h
          exact ⟨rfl, .lost hl heq fun _ => hlost⟩
  · next hl =>
    split at h
    · next hin =>
      cases h
      exact ⟨rfl, .busy hl hin⟩
    · next hin =>
      split at h
      · next hfull =>
        cases h
        exact ⟨rfl, .full hl hin hfull⟩
      · cases h

theorem reserve_none {store store' : Store} (h : store.reserve ctx k rh now = (store', none)) :
    (store.cleanupIdempotencyLocked now).idempotency.lookup k = none ∧ k ∉ store.inflight ∧
      ((store.cleanupIdempotencyLocked now).idempotency.size : Int) + store.inflight.card <
        store.maxIdempotencyEntries ∧
      store' = { store.cleanupIdempotencyLocked now with inflight := insert k store.inflight } := by
  simp only [Store.reserve] at h
  split at h
  · split at h
    · cases h
    · split at h
      · cases h
      · split at h <;> cases h
  · next hl =>
    split at h
    · cases h
    · next hin =>
      split at h
      · cases h
      · next hfull =>
        cases h
        exact ⟨hl, hin, not_le.mp hfull, rfl⟩

theorem createLocked_ok {store store' : Store} (h : store.createLocked ctx value = .ok store') :
    store.items.lookup value.id = none ∧
      store' = { store with items := store.items.insert value.id value } := by
  simp only [Store.createLocked, bind_ok] at h
  obtain ⟨_, -, h⟩ := h
  split at h
  · cases h
  · next hl =>
    cases h
    exact ⟨hl, rfl⟩

inductive CallStep (H : Hashes) (clock : Time) : Store → Call → Store → Call → Prop
  | enter : c.pc = .start → c.op.entryCheck c.ctx = .ok () →
      CallStep H clock s c s { c with pc := .ready }
  | refuse : c.pc = .start → c.op.entryCheck c.ctx = .error err →
      CallStep H clock s c s { c with pc := .returned (.error err) }
  | readClock : c.op = .createIdempotent request → c.pc = .ready →
      CallStep H clock s c s { c with pc := .timed clock }
  | settle : c.op = .createIdempotent request → c.pc = .timed now →
      Settled (s.cleanupIdempotencyLocked now) c.ctx (keyHash H request)
        (requestHash request.fingerprint) result →
      CallStep H clock s c (s.cleanupIdempotencyLocked now)
        { c with pc := .returned (result.map fun r => .created r.1 r.2) }
  | reserve : c.op = .createIdempotent request → c.pc = .timed now →
      (s.cleanupIdempotencyLocked now).idempotency.lookup (keyHash H request) = none →
      keyHash H request ∉ s.inflight →
      ((s.cleanupIdempotencyLocked now).idempotency.size : Int) + s.inflight.card <
        s.maxIdempotencyEntries →
      CallStep H clock s c
        { s.cleanupIdempotencyLocked now with inflight := insert (keyHash H request) s.inflight }
        { c with pc := .reserved }
  | proceed : c.op = .createIdempotent request → c.pc = .reserved → Live c.ctx →
      CallStep H clock s c s { c with pc := .inserting }
  | stop : c.op = .createIdempotent request → c.pc = .reserved → contextError c.ctx = some err →
      CallStep H clock s c s { c with pc := .failing err }
  | insert : c.op = .createIdempotent request → c.pc = .inserting →
      s.items.lookup request.value.id = none →
      CallStep H clock s c { s with items := s.items.insert request.value.id request.value }
        { c with pc := .inserted request.value, inserted := some request.value }
  | insertFails : c.op = .createIdempotent request → c.pc = .inserting →
      s.createLocked c.ctx request.value = .error err →
      CallStep H clock s c s { c with pc := .failing err }
  | nilID : c.op = .createIdempotent request → c.pc = .inserted created → created.id = UUID.zero →
      CallStep H clock s c s { c with pc := .failing errIdempotencyState }
  | complete : c.op = .createIdempotent request → c.pc = .inserted created →
      created.id ≠ UUID.zero →
      entry = ⟨requestHash request.fingerprint, created.id, clock.add idempotencyRecordRetention⟩ →
      CallStep H clock s c (s.complete (keyHash H request) entry)
        { c with pc := .completed created, recorded := some entry }
  | clear : c.op = .createIdempotent request → c.pc = .failing err →
      CallStep H clock s c (s.clearInFlight (keyHash H request))
        { c with pc := .returned (.error err) }
  | finish : c.op = .createIdempotent request → c.pc = .completed created →
      CallStep H clock s c s { c with pc := .returned (finish c.ctx created) }
  | create : c.op = .create value → c.pc = .ready → s.items.lookup value.id = none →
      CallStep H clock s c { s with items := s.items.insert value.id value }
        { c with pc := .returned (.ok (.item value)), inserted := some value }
  | createFails : c.op = .create value → c.pc = .ready →
      CallStep H clock s c s { c with pc := .returned (.error err) }
  | copy : (∀ request, c.op ≠ .createIdempotent request) → c.pc = .ready →
      CallStep H clock s c s { c with pc := .copied s.values }
  | answer : (∀ request, c.op ≠ .createIdempotent request) → (∀ v r, result ≠ .ok (.created v r)) →
      CallStep H clock s c s { c with pc := .returned result }

theorem map_item_ne (x : Except Error Item) (v : Item) (r : Bool) :
    x.map Reply.item ≠ .ok (.created v r) := by
  cases x <;> simp [Except.map]

theorem map_items_ne (x : Except Error (List Item)) (v : Item) (r : Bool) :
    x.map Reply.items ≠ .ok (.created v r) := by
  cases x <;> simp [Except.map]

theorem advance_callStep {H : Hashes} {clock : Time} {s s' : Store} {c c' : Call}
    (h : c.advance H s clock = some (s', c')) : CallStep H clock s c s' c' := by
  unfold Call.advance at h
  split at h
  · next hpc =>
    split at h
    · next hentry => cases h; exact .enter hpc hentry
    · next hentry => cases h; exact .refuse hpc hentry
  · next hop hpc => cases h; exact .readClock hop hpc
  · next hop hpc =>
    split at h
    · next hr =>
      cases h
      obtain ⟨hl, hin, hcap, rfl⟩ := reserve_none hr
      exact .reserve hop hpc hl hin hcap
    · next hr =>
      cases h
      obtain ⟨rfl, hsettled⟩ := reserve_some hr
      exact .settle hop hpc hsettled
  · next hop hpc =>
    split at h
    · next hctx => cases h; exact .stop hop hpc hctx
    · next hctx => cases h; exact .proceed hop hpc hctx
  · next hop hpc =>
    split at h
    · next hcreate =>
      cases h
      obtain ⟨hl, rfl⟩ := createLocked_ok hcreate
      exact .insert hop hpc hl
    · next hcreate => cases h; exact .insertFails hop hpc hcreate
  · next hop hpc =>
    split at h
    · next hnil => cases h; exact .nilID hop hpc hnil
    · next hnil => cases h; exact .complete hop hpc hnil rfl
  · next hop hpc => cases h; exact .clear hop hpc
  · next hop hpc => cases h; exact .finish hop hpc
  · next hop hpc =>
    split at h
    · next hcreate =>
      cases h
      obtain ⟨hl, rfl⟩ := createLocked_ok hcreate
      exact .create hop hpc hl
    · next hcreate => cases h; exact .createFails hop hpc
  · next hop hpc => cases h; exact .answer (by simp [hop]) (map_item_ne _)
  · next hop hpc => cases h; exact .copy (by simp [hop]) hpc
  · next hop hpc => cases h; exact .answer (by simp [hop]) (map_items_ne _)
  · next hop hpc => cases h; exact .copy (by simp [hop]) hpc
  · next hop hpc => cases h; exact .answer (by simp [hop]) (map_items_ne _)
  · cases h

/-- The actions, with the call step behind an `advance`. -/
inductive Stepped (H : Hashes) (w : World) : Action → World → Prop
  | spawn : Stepped H w (.spawn op ctx) { w with calls := w.calls ++ [Call.new op ctx] }
  | tick : Stepped H w (.tick clock) { w with clock := clock }
  | cancel : w.calls[i]? = some c →
      Stepped H w (.cancel i cause)
        { w with calls := w.calls.set i { c with ctx := c.ctx.map (cancelContext cause) } }
  | advance : w.calls[i]? = some c → CallStep H w.clock w.store c s' c' →
      Stepped H w (.advance i) { w with store := s', calls := w.calls.set i c' }

theorem step_stepped {H : Hashes} {w w' : World} (h : step H w a = some w') : Stepped H w a w' := by
  cases a with
  | spawn op ctx => cases h; exact .spawn
  | tick clock => cases h; exact .tick
  | cancel i cause =>
    obtain ⟨c, hc, h⟩ := Option.bind_eq_some_iff.mp h
    cases h
    exact .cancel hc
  | advance i =>
    obtain ⟨c, hc, h⟩ := Option.bind_eq_some_iff.mp h
    obtain ⟨⟨s', c'⟩, hadv, h⟩ := Option.bind_eq_some_iff.mp h
    cases h
    exact .advance hc (advance_callStep hadv)

theorem step_advance {H : Hashes} {w w' : World} (h : step H w (.advance i) = some w')
    (hc : w.calls[i]? = some c) (hc' : w'.calls[i]? = some c') :
    CallStep H w.clock w.store c w'.store c' := by
  cases step_stepped h with
  | advance hd hcall =>
    rw [hc] at hd
    cases hd
    rw [Threads.set_self hc] at hc'
    cases hc'
    exact hcall

inductive Moved (H : Hashes) (w w' : World) (c : Call) : Call → Prop
  | waited : Moved H w w' c { c with ctx := ctx }
  | stepped : w'.clock = w.clock → CallStep H w.clock w.store c w'.store c' → Moved H w w' c c'

theorem step_moved {H : Hashes} {w w' : World} {j : Nat} (h : step H w a = some w')
    (hc : w.calls[j]? = some c) :
    ∃ c', w'.calls[j]? = some c' ∧ Moved H w w' c c' := by
  cases step_stepped h with
  | spawn => exact ⟨c, Threads.snoc_of_some hc, .waited⟩
  | tick => exact ⟨c, hc, .waited⟩
  | @cancel i d cause hd =>
    by_cases hj : j = i
    · subst hj
      rw [hc] at hd
      cases hd
      exact ⟨_, Threads.set_self hc, .waited⟩
    · exact ⟨c, (Threads.set_of_ne hj).trans hc, .waited⟩
  | @advance i d s' d' hd hcall =>
    by_cases hj : j = i
    · subst hj
      rw [hc] at hd
      cases hd
      exact ⟨d', Threads.set_self hc, .stepped rfl hcall⟩
    · exact ⟨c, (Threads.set_of_ne hj).trans hc, .waited⟩

theorem step_new {H : Hashes} {w w' : World} {j : Nat} (h : step H w a = some w')
    (hd : w'.calls[j]? = some d) (hnone : w.calls[j]? = none) : ∃ op ctx, d = Call.new op ctx := by
  cases step_stepped h with
  | spawn =>
    rcases Threads.snoc_cases hd with ⟨-, rfl⟩ | hd
    · exact ⟨_, _, rfl⟩
    · rw [hnone] at hd
      cases hd
  | tick =>
    rw [hnone] at hd
    cases hd
  | cancel hc | advance hc =>
    rcases Threads.set_cases hd with ⟨rfl, -⟩ | ⟨-, hd⟩
    · rw [hnone] at hc
      cases hc
    · rw [hnone] at hd
      cases hd

theorem calls_length_le {H : Hashes} {w w' : World} (h : step H w a = some w') :
    w.calls.length ≤ w'.calls.length := by
  cases step_stepped h with
  | spawn => simp
  | tick => exact le_rfl
  | cancel | advance => simp

-- ---------------------------------------------------------------------------
-- A small workload, for evaluating runs
-- ---------------------------------------------------------------------------

def sampleTime : Time := ⟨63900000000, 0, none⟩

def sampleItem (n : UInt8) : Item := ⟨.replicate 16 n, str "name", str "text", sampleTime⟩

def sampleRequest (n : UInt8) : StoreRequest := ⟨sampleItem n, str "key", List.replicate 64 0x30⟩

def sampleCall (n : UInt8) : Action :=
  .spawn (.createIdempotent (sampleRequest n)) (some .background)

end GoClean.Memory
