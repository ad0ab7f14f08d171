import GoClean.Lib.Locking
import GoClean.Lib.Simulation
import GoClean.Memory.Replies

/-!
# The mutexes of the memory store

Here the locks are part of the state. A call takes the locks of its next
section one by one, waits while another call has them, runs the section when
it holds all of them and gives them back one by one.

`idempotencyMu` is a plain mutex. `mu` is a `sync.RWMutex`, whose `Lock` first
announces the writer, which keeps out later readers and writers, and then waits
for the readers that are in. `getItem` takes `mu` while its caller holds
`idempotencyMu`; no other section takes two. `clockMu` has no writer once
`NewStore` has returned, so its readers never wait and it is left out. Which of
several waiting calls gets a lock is left open.
-/

namespace GoClean.Memory

open Go Transition Locking

/-- The lock that the next section of a call takes first. -/
inductive Guard
  | free
  | keyed
  | write
  | read
  deriving DecidableEq

def Call.guard (call : Call) : Guard :=
  match call.op, call.pc with
  | .createIdempotent _, .timed _ => .keyed
  | .createIdempotent _, .inserting => .write
  | .createIdempotent _, .inserted created => if created.id = UUID.zero then .free else .keyed
  -- clearInFlight
  | .createIdempotent _, .failing _ => .keyed
  | .create _, .ready => .write
  | .get _, .ready | .list _, .ready | .listAfter _, .ready => .read
  | _, _ => .free

/-- Whether the reservation section calls `getItem`, and the call comes to its lock. -/
def Call.readsItem (H : Hashes) (store : Store) (call : Call) : Bool :=
  match call.op, call.pc with
  | .createIdempotent request, .timed now =>
    match (store.cleanupIdempotencyLocked now).idempotency.lookup (keyHash H request) with
    | some existing =>
      decide (existing.fingerprint = requestHash request.fingerprint) &&
        (contextError call.ctx).isNone
    | none => false
  | _, _ => false

/-- What a call holds, and whether the section it holds it for has run. -/
inductive Stage
  | outside
  | keyed (ran : Bool)
  /-- `getItem` waits for its read lock. -/
  | seeking
  | both (ran : Bool)
  /-- `Lock` waits for the readers to leave. -/
  | announced
  | writing (ran : Bool)
  | reading (ran : Bool)
  deriving DecidableEq

def Stage.holdsKey : Stage → Bool
  | .keyed _ | .seeking | .both _ => true
  | _ => false

def Stage.bars : Stage → Bool
  | .announced | .writing _ => true
  | _ => false

def Stage.writes : Stage → Bool
  | .writing _ => true
  | _ => false

def Stage.reads : Stage → Bool
  | .both _ | .reading _ => true
  | _ => false

structure Locked where
  base : World
  idempotencyMu : Option Nat
  /-- The call that is announced as the writer of `mu`. -/
  writer : Option Nat
  /-- The calls that hold `mu` for reading. -/
  readers : Finset Nat
  stages : Nat → Stage

def Locked.init (maxEntries : Int) (clock : Time) : Locked :=
  ⟨World.init maxEntries clock, none, none, ∅, fun _ => .outside⟩

def Locked.enter (m : Locked) (i : Nat) (stage : Stage) : Nat → Stage :=
  Function.update m.stages i stage

section
variable (H : Hashes)

/-- The next section of a call, after which it is at `stage`. -/
def Locked.run (m : Locked) (i : Nat) (stage : Stage) : Option Locked :=
  (step H m.base (.advance i)).map fun base => { m with base := base, stages := m.enter i stage }

def Locked.advance (m : Locked) (i : Nat) (call : Call) : Option Locked :=
  match m.stages i with
  | .outside =>
    match call.guard with
    | .free => m.run H i .outside
    -- idempotencyMu.Lock
    | .keyed =>
      if m.idempotencyMu = none then
        some { m with idempotencyMu := some i, stages := m.enter i (.keyed false) }
      else none
    -- mu.Lock, as far as keeping others out
    | .write =>
      if m.writer = none then some { m with writer := some i, stages := m.enter i .announced }
      else none
    -- mu.RLock
    | .read =>
      if m.writer = none then
        some { m with readers := insert i m.readers, stages := m.enter i (.reading false) }
      else none
  | .keyed false =>
    if call.readsItem H m.base.store then some { m with stages := m.enter i .seeking }
    else m.run H i (.keyed true)
  | .seeking =>
    if m.writer = none then
      some { m with readers := insert i m.readers, stages := m.enter i (.both false) }
    else none
  | .both false => m.run H i (.both true)
  | .announced =>
    if m.readers = ∅ then some { m with stages := m.enter i (.writing false) } else none
  | .writing false => m.run H i (.writing true)
  | .reading false => m.run H i (.reading true)
  -- the deferred RUnlock of getItem comes before the Unlock of its caller
  | .both true => some { m with readers := m.readers.erase i, stages := m.enter i (.keyed true) }
  | .keyed true => some { m with idempotencyMu := none, stages := m.enter i .outside }
  | .writing true => some { m with writer := none, stages := m.enter i .outside }
  | .reading true => some { m with readers := m.readers.erase i, stages := m.enter i .outside }

def lockStep (m : Locked) : Action → Option Locked
  | .advance i => do
    let call ← m.base.calls[i]?
    m.advance H i call
  | a => (step H m.base a).map fun base => { m with base := base }

end

-- ---------------------------------------------------------------------------
-- What a step can do
-- ---------------------------------------------------------------------------

/-- The stages at which a section runs, and those it ends at. -/
inductive Runs (H : Hashes) (store : Store) (call : Call) : Stage → Stage → Prop
  | free : call.guard = .free → Runs H store call .outside .outside
  | keyed : call.readsItem H store = false → Runs H store call (.keyed false) (.keyed true)
  | both : Runs H store call (.both false) (.both true)
  | writing : Runs H store call (.writing false) (.writing true)
  | reading : Runs H store call (.reading false) (.reading true)

inductive Advanced (H : Hashes) (m : Locked) (i : Nat) (call : Call) : Locked → Prop
  | ran : m.stages i = stage → Runs H m.base.store call stage stage' →
      step H m.base (.advance i) = some base →
      Advanced H m i call { m with base := base, stages := m.enter i stage' }
  | lockKey : m.stages i = .outside → call.guard = .keyed → m.idempotencyMu = none →
      Advanced H m i call { m with idempotencyMu := some i, stages := m.enter i (.keyed false) }
  | announce : m.stages i = .outside → call.guard = .write → m.writer = none →
      Advanced H m i call { m with writer := some i, stages := m.enter i .announced }
  | read : m.stages i = .outside → call.guard = .read → m.writer = none →
      Advanced H m i call
        { m with readers := insert i m.readers, stages := m.enter i (.reading false) }
  | seek : m.stages i = .keyed false → Advanced H m i call { m with stages := m.enter i .seeking }
  | readItem : m.stages i = .seeking → m.writer = none →
      Advanced H m i call
        { m with readers := insert i m.readers, stages := m.enter i (.both false) }
  | write : m.stages i = .announced → m.readers = ∅ →
      Advanced H m i call { m with stages := m.enter i (.writing false) }
  | leaveItem : m.stages i = .both true →
      Advanced H m i call { m with readers := m.readers.erase i, stages := m.enter i (.keyed true) }
  | leaveKey : m.stages i = .keyed true →
      Advanced H m i call { m with idempotencyMu := none, stages := m.enter i .outside }
  | leaveWrite : m.stages i = .writing true →
      Advanced H m i call { m with writer := none, stages := m.enter i .outside }
  | leaveRead : m.stages i = .reading true →
      Advanced H m i call { m with readers := m.readers.erase i, stages := m.enter i .outside }

inductive Blocked (H : Hashes) (m : Locked) (i : Nat) (call : Call) : Prop
  | ended : Runs H m.base.store call (m.stages i) stage → step H m.base (.advance i) = none →
      Blocked H m i call
  | key : m.stages i = .outside → m.idempotencyMu ≠ none → Blocked H m i call
  | writer : m.stages i = .outside ∨ m.stages i = .seeking → m.writer ≠ none → Blocked H m i call
  | readers : m.stages i = .announced → m.readers ≠ ∅ → Blocked H m i call

section
variable {H : Hashes} {m m' : Locked} {i : Nat} {call : Call} {stage stage' : Stage}

theorem run_advanced (hstage : m.stages i = stage) (hruns : Runs H m.base.store call stage stage')
    (h : m.run H i stage' = some m') : Advanced H m i call m' := by
  obtain ⟨base, hbase, rfl⟩ := Option.map_eq_some_iff.mp h
  exact .ran hstage hruns hbase

theorem advance_advanced (h : m.advance H i call = some m') : Advanced H m i call m' := by
  unfold Locked.advance at h
  split at h
  · next hstage =>
    split at h
    · next hguard => exact run_advanced hstage (.free hguard) h
    · next hguard =>
      split at h
      · next hfree => cases h; exact .lockKey hstage hguard hfree
      · cases h
    · next hguard =>
      split at h
      · next hfree => cases h; exact .announce hstage hguard hfree
      · cases h
    · next hguard =>
      split at h
      · next hfree => cases h; exact .read hstage hguard hfree
      · cases h
  · next hstage =>
    split at h
    · next hreads => cases h; exact .seek hstage
    · next hreads => exact run_advanced hstage (.keyed (Bool.eq_false_iff.mpr hreads)) h
  · next hstage =>
    split at h
    · next hfree => cases h; exact .readItem hstage hfree
    · cases h
  · next hstage => exact run_advanced hstage .both h
  · next hstage =>
    split at h
    · next hempty => cases h; exact .write hstage hempty
    · cases h
  · next hstage => exact run_advanced hstage .writing h
  · next hstage => exact run_advanced hstage .reading h
  · next hstage => cases h; exact .leaveItem hstage
  · next hstage => cases h; exact .leaveKey hstage
  · next hstage => cases h; exact .leaveWrite hstage
  · next hstage => cases h; exact .leaveRead hstage

theorem run_blocked (hstage : m.stages i = stage) (hruns : Runs H m.base.store call stage stage')
    (h : m.run H i stage' = none) : Blocked H m i call :=
  .ended (hstage ▸ hruns) (Option.map_eq_none_iff.mp h)

theorem advance_blocked (h : m.advance H i call = none) : Blocked H m i call := by
  unfold Locked.advance at h
  split at h
  · next hstage =>
    split at h
    · next hguard => exact run_blocked hstage (.free hguard) h
    · split at h
      · cases h
      · next hbusy => exact .key hstage hbusy
    all_goals
      split at h
      · cases h
      · next hbusy => exact .writer (.inl hstage) hbusy
  · next hstage =>
    split at h
    · cases h
    · next hreads => exact run_blocked hstage (.keyed (Bool.eq_false_iff.mpr hreads)) h
  · next hstage =>
    split at h
    · cases h
    · next hbusy => exact .writer (.inr hstage) hbusy
  · next hstage => exact run_blocked hstage .both h
  · next hstage =>
    split at h
    · cases h
    · next hreaders => exact .readers hstage hreaders
  · next hstage => exact run_blocked hstage .writing h
  · next hstage => exact run_blocked hstage .reading h
  all_goals cases h

theorem lockStep_cases (h : lockStep H m a = some m') :
    (∃ i call, a = .advance i ∧ m.base.calls[i]? = some call ∧ Advanced H m i call m') ∨
      ∃ base, (∀ i, a ≠ .advance i) ∧ step H m.base a = some base ∧
      m' = { m with base := base } := by
  cases a with
  | advance i =>
    obtain ⟨call, hcall, h⟩ := Option.bind_eq_some_iff.mp h
    exact .inl ⟨i, call, rfl, hcall, advance_advanced h⟩
  | spawn op ctx => cases h; exact .inr ⟨_, nofun, rfl, rfl⟩
  | tick clock => cases h; exact .inr ⟨_, nofun, rfl, rfl⟩
  | cancel i cause =>
    simp only [lockStep] at h
    obtain ⟨base, hbase, rfl⟩ := Option.map_eq_some_iff.mp h
    exact .inr ⟨base, nofun, hbase, rfl⟩

-- ---------------------------------------------------------------------------
-- The sections behind the steps
-- ---------------------------------------------------------------------------

theorem lockStep_base (h : lockStep H m a = some m') : Reaches (step H) m.base m'.base := by
  obtain ⟨i, call, -, -, hadv⟩ | ⟨base, -, hbase, rfl⟩ := lockStep_cases h
  · cases hadv with
    | ran _ _ hbase => exact .single hbase trivial
    | _ => exact .refl
  · exact .single hbase trivial

theorem base_reachable (hr : Reaches (lockStep H) (Locked.init maxEntries clock) m) :
    Reaches (step H) (World.init maxEntries clock) m.base :=
  hr.simulates Locked.base fun _ _ _ h _ => lockStep_base h

-- ---------------------------------------------------------------------------
-- The locks and their holders
-- ---------------------------------------------------------------------------

def Stage.fits : Stage → Guard → Bool
  | .keyed false, guard | .seeking, guard | .both false, guard => guard == .keyed
  | .announced, guard | .writing false, guard => guard == .write
  | .reading false, guard => guard == .read
  | _, _ => true

structure LockInv (m : Locked) : Prop where
  key : Held Stage.holdsKey m.stages m.idempotencyMu
  writer : Held Stage.bars m.stages m.writer
  readers : Shared Stage.reads m.stages m.readers
  exclusive : ∀ i, (m.stages i).writes = true → m.readers = ∅
  fits : ∀ i call, m.base.calls[i]? = some call → (m.stages i).fits call.guard = true
  outside : ∀ i, m.base.calls[i]? = none → m.stages i = .outside

theorem Stage.bars_of_writes (h : stage.writes = true) : stage.bars = true := by
  cases stage with
  | writing => rfl
  | _ => cases h

/-- Where a section has run, the stage has the same locks and fits any call. -/
structure Same (stage stage' : Stage) : Prop where
  key : stage'.holdsKey = stage.holdsKey
  bars : stage'.bars = stage.bars
  writes : stage'.writes = stage.writes
  reads : stage'.reads = stage.reads
  fits : ∀ guard, stage'.fits guard = true

theorem Runs.same (h : Runs H store call stage stage') : Same stage stage' := by
  cases h <;> exact ⟨rfl, rfl, rfl, rfl, fun _ => rfl⟩

theorem LockInv.not_writes (h : LockInv m) (hfree : m.writer = none) (j : Nat) :
    (m.stages j).writes = false := by
  refine Bool.eq_false_iff.mpr fun hwrites => ?_
  have := (h.writer j).mpr (Stage.bars_of_writes hwrites)
  rw [hfree] at this
  cases this

theorem exclusive_enter {readers : Finset Nat}
    (h : ∀ j, j ≠ i → (m.stages j).writes = true → readers = ∅)
    (hi : stage.writes = true → readers = ∅) (j : Nat)
    (hj : (m.enter i stage j).writes = true) : readers = ∅ := by
  by_cases hne : j = i
  · subst hne
    rw [Locked.enter, Function.update_self] at hj
    exact hi hj
  · rw [Locked.enter, Function.update_of_ne hne] at hj
    exact h j hne hj

theorem LockInv.fits_enter (h : LockInv m) (hcall : m.base.calls[i]? = some call)
    (hfits : stage.fits call.guard = true) (j : Nat) (d : Call) (hd : m.base.calls[j]? = some d) :
    (m.enter i stage j).fits d.guard = true := by
  by_cases hne : j = i
  · subst hne
    rw [hcall] at hd
    cases hd
    rw [Locked.enter, Function.update_self]
    exact hfits
  · rw [Locked.enter, Function.update_of_ne hne]
    exact h.fits j d hd

theorem LockInv.outside_enter (h : LockInv m) (hcall : m.base.calls[i]? = some call) (j : Nat)
    (hj : m.base.calls[j]? = none) : m.enter i stage j = .outside := by
  have hne : j ≠ i := by
    rintro rfl
    rw [hcall] at hj
    cases hj
  rw [Locked.enter, Function.update_of_ne hne]
  exact h.outside j hj

theorem LockInv.advanced (h : LockInv m) (hcall : m.base.calls[i]? = some call)
    (hadv : Advanced H m i call m') : LockInv m' := by
  have hguard := h.fits i call hcall
  cases hadv with
  | @ran _ stage' base hstage hruns hbase =>
    subst hstage
    have hsame := hruns.same
    cases step_stepped hbase with
    | @advance _ c s' c' hc hstep =>
      refine ⟨h.key.keep hsame.key, h.writer.keep hsame.bars, h.readers.keep hsame.reads,
        exclusive_enter (fun j _ => h.exclusive j) (hsame.writes ▸ h.exclusive i), ?_, ?_⟩
      · intro j d hd
        by_cases hne : j = i
        · subst hne
          simp only [Locked.enter, Function.update_self]
          exact hsame.fits _
        · simp only [Locked.enter, Function.update_of_ne hne]
          exact h.fits j d ((Threads.set_of_ne hne).symm.trans hd)
      · intro j hj
        have hlen := List.getElem?_eq_none_iff.mp hj
        rw [List.length_set] at hlen
        exact h.outside_enter hc j (List.getElem?_eq_none hlen)
  | lockKey hstage hkeyed hfree =>
    exact ⟨(hfree ▸ h.key).acquire rfl, h.writer.keep (hstage ▸ rfl), h.readers.keep (hstage ▸ rfl),
      exclusive_enter (fun j _ => h.exclusive j) nofun,
      h.fits_enter hcall (hkeyed ▸ rfl), h.outside_enter hcall⟩
  | announce hstage hwrite hfree =>
    exact ⟨h.key.keep (hstage ▸ rfl), (hfree ▸ h.writer).acquire rfl, h.readers.keep (hstage ▸ rfl),
      exclusive_enter (fun j _ => h.exclusive j) nofun,
      h.fits_enter hcall (hwrite ▸ rfl), h.outside_enter hcall⟩
  | read hstage hread hfree =>
    exact ⟨h.key.keep (hstage ▸ rfl), h.writer.keep (hstage ▸ rfl), h.readers.acquire rfl,
      exclusive_enter (fun j _ hj => absurd hj (by simp [h.not_writes hfree j])) nofun,
      h.fits_enter hcall (hread ▸ rfl), h.outside_enter hcall⟩
  | seek hstage =>
    rw [hstage] at hguard
    exact ⟨h.key.keep (hstage ▸ rfl), h.writer.keep (hstage ▸ rfl), h.readers.keep (hstage ▸ rfl),
      exclusive_enter (fun j _ => h.exclusive j) nofun,
      h.fits_enter hcall hguard, h.outside_enter hcall⟩
  | readItem hstage hfree =>
    rw [hstage] at hguard
    exact ⟨h.key.keep (hstage ▸ rfl), h.writer.keep (hstage ▸ rfl), h.readers.acquire rfl,
      exclusive_enter (fun j _ hj => absurd hj (by simp [h.not_writes hfree j])) nofun,
      h.fits_enter hcall hguard, h.outside_enter hcall⟩
  | write hstage hempty =>
    rw [hstage] at hguard
    exact ⟨h.key.keep (hstage ▸ rfl), h.writer.keep (hstage ▸ rfl), h.readers.keep (hstage ▸ rfl),
      exclusive_enter (fun j _ => h.exclusive j) (fun _ => hempty),
      h.fits_enter hcall hguard, h.outside_enter hcall⟩
  | leaveItem hstage =>
    exact ⟨h.key.keep (hstage ▸ rfl), h.writer.keep (hstage ▸ rfl), h.readers.release rfl,
      exclusive_enter (fun j _ hj => by rw [h.exclusive j hj, Finset.erase_empty]) nofun,
      h.fits_enter hcall rfl, h.outside_enter hcall⟩
  | leaveKey hstage =>
    exact ⟨h.key.release (hstage ▸ rfl) rfl, h.writer.keep (hstage ▸ rfl),
      h.readers.keep (hstage ▸ rfl), exclusive_enter (fun j _ => h.exclusive j) nofun,
      h.fits_enter hcall rfl, h.outside_enter hcall⟩
  | leaveWrite hstage =>
    exact ⟨h.key.keep (hstage ▸ rfl), h.writer.release (hstage ▸ rfl) rfl,
      h.readers.keep (hstage ▸ rfl), exclusive_enter (fun j _ => h.exclusive j) nofun,
      h.fits_enter hcall rfl, h.outside_enter hcall⟩
  | leaveRead hstage =>
    exact ⟨h.key.keep (hstage ▸ rfl), h.writer.keep (hstage ▸ rfl), h.readers.release rfl,
      exclusive_enter (fun j _ hj => by rw [h.exclusive j hj, Finset.erase_empty]) nofun,
      h.fits_enter hcall rfl, h.outside_enter hcall⟩

theorem step_waits {w w' : World} (hs : step H w a = some w') (hne : ∀ i, a ≠ .advance i)
    (hc : w.calls[i]? = some call) : ∃ ctx, w'.calls[i]? = some { call with ctx := ctx } := by
  cases a with
  | spawn => cases hs; exact ⟨call.ctx, Threads.snoc_of_some hc⟩
  | tick => cases hs; exact ⟨call.ctx, hc⟩
  | cancel j cause =>
    obtain ⟨d, hd, hs⟩ := Option.bind_eq_some_iff.mp hs
    cases hs
    by_cases hij : i = j
    · subst hij
      rw [hc] at hd
      cases hd
      exact ⟨_, Threads.set_self hc⟩
    · exact ⟨call.ctx, (Threads.set_of_ne hij).trans hc⟩
  | advance j => exact absurd rfl (hne j)

theorem LockInv.based {base : World} (h : LockInv m) (hs : step H m.base a = some base)
    (hne : ∀ i, a ≠ .advance i) : LockInv { m with base := base } where
  key := h.key
  writer := h.writer
  readers := h.readers
  exclusive := h.exclusive
  fits j d hd := by
    rcases hc : m.base.calls[j]? with _ | c
    · simp only [h.outside j hc]
      rfl
    · obtain ⟨ctx, hctx⟩ := step_waits hs hne hc
      cases hd.symm.trans hctx
      exact h.fits j c hc
  outside j hj := h.outside j <|
    List.getElem?_eq_none ((calls_length_le hs).trans (List.getElem?_eq_none_iff.mp hj))

theorem lockInv_step (h : LockInv m) (hs : lockStep H m a = some m') : LockInv m' := by
  obtain ⟨i, call, -, hcall, hadv⟩ | ⟨base, hne, hbase, rfl⟩ := lockStep_cases hs
  · exact h.advanced hcall hadv
  · exact h.based hbase hne

theorem lockInv_init (maxEntries : Int) (clock : Time) :
    LockInv (Locked.init maxEntries clock) where
  key i := by simp [Locked.init, Stage.holdsKey]
  writer i := by simp [Locked.init, Stage.bars]
  readers i := by simp [Locked.init, Stage.reads]
  exclusive i _ := rfl
  fits i call _ := rfl
  outside i _ := rfl

theorem lockInv_reachable (hr : Reaches (lockStep H) (Locked.init maxEntries clock) m) :
    LockInv m :=
  hr.invariant (fun _ _ _ h hs _ => lockInv_step h hs) (lockInv_init maxEntries clock)

-- ---------------------------------------------------------------------------
-- The data behind the locks
-- ---------------------------------------------------------------------------

def Locked.withItems (items : AssocMap UUID Item) (m : Locked) : Locked :=
  { m with base.store.items := items }

def Locked.withRecords (idempotency : AssocMap Digest IdempotencyEntry) (inflight : Finset Digest)
    (m : Locked) : Locked :=
  { m with base.store.idempotency := idempotency, base.store.inflight := inflight }

theorem getItem_done {s : Store} {id : UUID} (h : contextError ctx = some err) :
    s.getItem ctx id = .error err := by
  simp only [Store.getItem, ensureContext, h]
  rfl

theorem reserve_items {s : Store} (items : AssocMap UUID Item)
    (h : ∀ existing, (s.cleanupIdempotencyLocked now).idempotency.lookup k = some existing →
      existing.fingerprint = rh → contextError ctx ≠ none) :
    Store.reserve { s with items := items } ctx k rh now =
      (s.reserve ctx k rh now).map (fun s' => { s' with items := items }) id := by
  -- the cleanup does not look at the items, so the cleaned store is any store
  have hcleanup : Store.cleanupIdempotencyLocked { s with items := items } now =
    { s.cleanupIdempotencyLocked now with items := items } := rfl
  unfold Store.reserve
  rw [hcleanup]
  generalize s.cleanupIdempotencyLocked now = s at h ⊢
  obtain ⟨old, idempotency, inflight, maxEntries⟩ := s
  dsimp only at h ⊢
  split
  · next existing hl =>
    split
    · rfl
    · next hfp =>
      obtain ⟨err, herr⟩ := Option.ne_none_iff_exists'.mp (h existing hl (not_not.mp hfp))
      rw [getItem_done herr, getItem_done herr]
      dsimp only
      split <;> rfl
  · have hbound : Store.maxIdempotencyEntries ⟨items, idempotency, inflight, maxEntries⟩ =
      Store.maxIdempotencyEntries ⟨old, idempotency, inflight, maxEntries⟩ := rfl
    rw [hbound]
    split
    · rfl
    · split <;> rfl

theorem advance_items (items : AssocMap UUID Item) (s : Store) (clock : Time)
    (hwrite : call.guard ≠ .write) (hread : call.guard ≠ .read)
    (hitem : call.readsItem H s = false) :
    call.advance H { s with items := items } clock =
      (call.advance H s clock).map fun p => ({ p.1 with items := items }, p.2) := by
  obtain ⟨op, ctx, pc, inserted, recorded⟩ := call
  cases pc with
  | start =>
    simp only [Call.advance]
    split <;> rfl
  | ready =>
    cases op with
    | createIdempotent => rfl
    | create => exact absurd rfl hwrite
    | _ => exact absurd rfl hread
  | timed now =>
    cases op with
    | createIdempotent request =>
      have hdone : ∀ existing, (s.cleanupIdempotencyLocked now).idempotency.lookup
          (keyHash H request) = some existing →
          existing.fingerprint = requestHash request.fingerprint → contextError ctx ≠ none := by
        intro existing hl hfp hlive
        simp [Call.readsItem, hl, hfp, hlive] at hitem
      simp only [Call.advance, reserve_items items hdone]
      rcases s.reserve ctx (keyHash H request) (requestHash request.fingerprint) now with
        ⟨s', _ | result⟩ <;> rfl
    | _ => rfl
  | inserting =>
    cases op with
    | createIdempotent => exact absurd rfl hwrite
    | _ => rfl
  | reserved | inserted =>
    cases op with
    | createIdempotent =>
      simp only [Call.advance]
      split <;> rfl
    | _ => rfl
  | failing | completed | copied | returned => cases op <;> rfl

theorem createLocked_records {s : Store} (idempotency : AssocMap Digest IdempotencyEntry)
    (inflight : Finset Digest) :
    Store.createLocked { s with idempotency := idempotency, inflight := inflight } ctx value =
      (s.createLocked ctx value).map fun s' =>
        { s' with idempotency := idempotency, inflight := inflight } := by
  unfold Store.createLocked ensureContext
  cases contextError ctx with
  | some err => rfl
  | none => cases s.items.lookup value.id <;> rfl

theorem advance_records (idempotency : AssocMap Digest IdempotencyEntry) (inflight : Finset Digest)
    (s : Store) (clock : Time) (hkeyed : call.guard ≠ .keyed) :
    call.advance H { s with idempotency := idempotency, inflight := inflight } clock =
      (call.advance H s clock).map fun p =>
        ({ p.1 with idempotency := idempotency, inflight := inflight }, p.2) := by
  obtain ⟨op, ctx, pc, inserted, recorded⟩ := call
  cases pc with
  | start =>
    simp only [Call.advance]
    split <;> rfl
  | ready =>
    cases op with
    | create value =>
      simp only [Call.advance, createLocked_records]
      cases s.createLocked ctx value <;> rfl
    | _ => rfl
  | timed | failing =>
    cases op with
    | createIdempotent => exact absurd rfl hkeyed
    | _ => rfl
  | inserting =>
    cases op with
    | createIdempotent request =>
      simp only [Call.advance, createLocked_records]
      cases s.createLocked ctx request.value <;> rfl
    | _ => rfl
  | inserted created =>
    cases op with
    | createIdempotent =>
      have hnil : created.id = UUID.zero := by
        by_contra hne
        exact hkeyed (if_neg hne)
      simp only [Call.advance, if_pos hnil]
      rfl
    | _ => rfl
  | reserved =>
    cases op with
    | createIdempotent =>
      simp only [Call.advance]
      split <;> rfl
    | _ => rfl
  | completed | copied | returned => cases op <;> rfl

theorem callStep_items (h : CallStep H clock s call s' call') (hwrite : call.guard ≠ .write) :
    s'.items = s.items := by
  cases h with
  | insert hop hpc | create hop hpc => simp [Call.guard, hop, hpc] at hwrite
  | _ => rfl

theorem readsItem_keyed {s : Store} (h : call.readsItem H s = true) : call.guard = .keyed := by
  obtain ⟨op, ctx, pc, inserted, recorded⟩ := call
  cases op with
  | createIdempotent request =>
    cases pc with
    | timed => rfl
    | _ => cases h
  | _ => cases h

theorem run_items (items : AssocMap UUID Item) (hcall : m.base.calls[i]? = some call)
    (hwrite : call.guard ≠ .write) (hread : call.guard ≠ .read)
    (hitem : call.readsItem H m.base.store = false) :
    (m.withItems items).run H i stage = (m.run H i stage).map (Locked.withItems items) := by
  have hadv := advance_items items m.base.store m.base.clock hwrite hread hitem
  simp only [Locked.run, Locked.withItems, step, hcall, hadv, Option.bind_eq_bind, Option.bind_some]
  cases call.advance H m.base.store m.base.clock <;> rfl

theorem run_records (idempotency : AssocMap Digest IdempotencyEntry) (inflight : Finset Digest)
    (hcall : m.base.calls[i]? = some call) (hkeyed : call.guard ≠ .keyed) :
    (m.withRecords idempotency inflight).run H i stage =
      (m.run H i stage).map (Locked.withRecords idempotency inflight) := by
  have hadv := advance_records (H := H) idempotency inflight m.base.store m.base.clock hkeyed
  simp only [Locked.run, Locked.withRecords, step, hcall, hadv, Option.bind_eq_bind,
    Option.bind_some]
  cases call.advance H m.base.store m.base.clock <;> rfl

theorem LockInv.step_withItems (h : LockInv m) (hreads : (m.stages i).reads = false)
    (hwrites : (m.stages i).writes = false) (items : AssocMap UUID Item) :
    lockStep H (m.withItems items) (.advance i) =
      (lockStep H m (.advance i)).map (Locked.withItems items) := by
  rcases hcall : m.base.calls[i]? with _ | call
  · simp [lockStep, Locked.withItems, hcall]
  have hfits := h.fits i call hcall
  suffices hadv : (m.withItems items).advance H i call =
      (m.advance H i call).map (Locked.withItems items) by
    simpa [lockStep, Locked.withItems, hcall] using hadv
  have hsame : (m.withItems items).stages i = m.stages i := rfl
  unfold Locked.advance
  rw [hsame]
  cases hstage : m.stages i with
  | outside =>
    cases hguard : call.guard with
    | free =>
      refine run_items items hcall (by simp [hguard]) (by simp [hguard]) (Bool.eq_false_iff.mpr ?_)
      intro hitem
      rw [readsItem_keyed hitem] at hguard
      cases hguard
    | keyed | write | read =>
      simp only [Option.map_if]
      rfl
  | keyed ran =>
    cases ran with
    | true => rfl
    | false =>
      rw [hstage] at hfits
      have hguard : call.guard = .keyed := by simpa [Stage.fits] using hfits
      have hsame : call.readsItem H (m.withItems items).base.store =
        call.readsItem H m.base.store := rfl
      cases hitem : call.readsItem H m.base.store with
      | true => simp only [hsame, hitem]; rfl
      | false =>
        simp only [hsame, hitem, Bool.false_eq_true, if_false]
        exact run_items items hcall (by simp [hguard]) (by simp [hguard]) hitem
  | seeking | announced =>
    simp only [Option.map_if]
    rfl
  | both | reading => simp [hstage, Stage.reads] at hreads
  | writing => simp [hstage, Stage.writes] at hwrites

theorem LockInv.step_withRecords (h : LockInv m) (hkey : (m.stages i).holdsKey = false)
    (idempotency : AssocMap Digest IdempotencyEntry) (inflight : Finset Digest) :
    lockStep H (m.withRecords idempotency inflight) (.advance i) =
      (lockStep H m (.advance i)).map (Locked.withRecords idempotency inflight) := by
  rcases hcall : m.base.calls[i]? with _ | call
  · simp [lockStep, Locked.withRecords, hcall]
  have hfits := h.fits i call hcall
  suffices hadv : (m.withRecords idempotency inflight).advance H i call =
      (m.advance H i call).map (Locked.withRecords idempotency inflight) by
    simpa [lockStep, Locked.withRecords, hcall] using hadv
  have hsame : (m.withRecords idempotency inflight).stages i = m.stages i := rfl
  unfold Locked.advance
  rw [hsame]
  cases hstage : m.stages i with
  | outside =>
    cases hguard : call.guard with
    | free => exact run_records idempotency inflight hcall (by simp [hguard])
    | keyed | write | read =>
      simp only [Option.map_if]
      rfl
  | keyed | seeking | both => simp [hstage, Stage.holdsKey] at hkey
  | announced =>
    simp only [Option.map_if]
    rfl
  | writing ran | reading ran =>
    cases ran with
    | true => rfl
    | false =>
      rw [hstage] at hfits
      refine run_records idempotency inflight hcall fun hguard => ?_
      rw [hguard] at hfits
      cases hfits

theorem LockInv.step_items (h : LockInv m) (hwrites : (m.stages i).writes = false)
    (hs : lockStep H m (.advance i) = some m') : m'.base.store.items = m.base.store.items := by
  obtain ⟨call, hcall, hs⟩ := Option.bind_eq_some_iff.mp hs
  have hfits := h.fits i call hcall
  cases advance_advanced hs with
  | @ran stage _ _ hstage hruns hbase =>
    have hguard : call.guard ≠ .write := by
      intro hwrite
      rw [hstage] at hwrites
      rw [hstage, hwrite] at hfits
      cases hruns with
      | free hfree =>
        rw [hwrite] at hfree
        cases hfree
      | writing => cases hwrites
      | _ => cases hfits
    cases step_stepped hbase with
    | advance hc hstep =>
      cases hcall.symm.trans hc
      exact callStep_items hstep hguard
  | _ => rfl

end

/-- The sections run as in the machine without locks; the records are touched
only under `idempotencyMu` and the items only under `mu`, by one writer or by
readers. -/
theorem store_data_is_locked (H : Hashes) (maxEntries : Int) (clock : Time) (m : Locked)
    (hr : Reaches (lockStep H) (Locked.init maxEntries clock) m) :
    Reaches (step H) (World.init maxEntries clock) m.base ∧
    (∀ i j, (m.stages i).holdsKey = true → (m.stages j).holdsKey = true → i = j) ∧
    (∀ i j, (m.stages i).writes = true →
      (m.stages j).writes = true ∨ (m.stages j).reads = true → i = j) ∧
    ∀ i,
      ((m.stages i).holdsKey = false → ∀ idempotency inflight,
        lockStep H (m.withRecords idempotency inflight) (.advance i) =
          (lockStep H m (.advance i)).map (Locked.withRecords idempotency inflight)) ∧
      ((m.stages i).reads = false → (m.stages i).writes = false → ∀ items,
        lockStep H (m.withItems items) (.advance i) =
          (lockStep H m (.advance i)).map (Locked.withItems items)) ∧
      ((m.stages i).writes = false → ∀ m', lockStep H m (.advance i) = some m' →
        m'.base.store.items = m.base.store.items) := by
  have h := lockInv_reachable hr
  refine ⟨base_reachable hr, fun i j => h.key.unique, ?_, fun i => ⟨?_, ?_, ?_⟩⟩
  · rintro i j hi (hj | hj)
    · exact h.writer.unique (Stage.bars_of_writes hi) (Stage.bars_of_writes hj)
    · have hin := (h.readers j).mpr hj
      rw [h.exclusive i hi] at hin
      cases hin
  · exact h.step_withRecords
  · exact h.step_withItems
  · exact fun hwrites m' hs => h.step_items hwrites hs

/-- A `Create` has its lock, and a `List` comes to its own. -/
def writingActions : List Action :=
  [.spawn (.create (sampleItem 1)) (some .background), .spawn (.list ⟨1, 0⟩) (some .background),
    .advance 0, .advance 1, .advance 0, .advance 0]

theorem store_data_is_locked_writing :
    ∃ m, exec (lockStep Hashes.go) (Locked.init 2 sampleTime) writingActions = some m ∧
      (m.stages 0).writes = true ∧ (m.stages 1).reads = false ∧
      lockStep Hashes.go m (.advance 1) = none ∧
      ∀ items, lockStep Hashes.go (m.withItems items) (.advance 1) = none := by
  have hrun : (exec (lockStep Hashes.go) (Locked.init 2 sampleTime) writingActions).map (fun m =>
      (m.stages 0, m.stages 1, (lockStep Hashes.go m (.advance 1)).isNone)) =
      some (.writing false, .outside, true) := by
    decide +kernel
  obtain ⟨m, hm, hstages⟩ := Option.map_eq_some_iff.mp hrun
  simp only [Prod.mk.injEq, Option.isNone_iff_eq_none] at hstages
  obtain ⟨hwriting, hout, hblocked⟩ := hstages
  have hitems := ((store_data_is_locked Hashes.go 2 sampleTime m (exec_reaches _ hm)).2.2.2 1).2.1
    (by rw [hout]; rfl) (by rw [hout]; rfl)
  refine ⟨m, hm, by rw [hwriting]; rfl, by rw [hout]; rfl, hblocked, fun items => ?_⟩
  rw [hitems, hblocked]
  rfl

end GoClean.Memory
