import Mathlib.Data.Rat.Floor
import GoClean.Go.Clock
import GoClean.Go.Fmt
import GoClean.Go.Utf8
import GoClean.Lib.AssocMap

/-!
# The token-bucket limiter

`pkg/ratelimit`: one bucket for each caller key, at most `maxClients` of
them. Token counts and the refill rate are exact. A call holds the mutex from
its clock reading's use to its return, so a run of concurrent callers is a
sequence of calls, each with the reading it took.
-/

namespace GoClean.RateLimit

open Go

def maxKeyBytes : Nat := 256
def maxCapacity : Int := 100000
def maxRefillRate : ℚ := 100000
def maxClientsLimit : Int := 1000000
def maxIdleTTL : Duration := 24 * Duration.hour
def maxRetryDuration : Duration := Duration.max

inductive OverflowPolicy
  | rejectNew
  | evictOldest
  | unknown (policy : UInt8)
  deriving DecidableEq

/-- `unavailable` is the answer of a nil limiter, which `new` never gives. -/
inductive DenyReason
  | allowed
  | rateLimited
  | capacity
  | invalidKey
  | invalidCost
  | unavailable
  deriving DecidableEq

structure Config where
  capacity : Int
  refillRate : Float64
  maxClients : Int
  idleTTL : Duration
  overflow : OverflowPolicy
  deriving DecidableEq

def Config.validate (c : Config) : Except Errorf Unit :=
  if c.capacity ≤ 0 then
    .error ⟨"ratelimit: capacity must be greater than zero (got %d)", [.int c.capacity]⟩
  else if maxCapacity < c.capacity then
    .error ⟨"ratelimit: capacity must be at most %d (got %d)", [.int maxCapacity, .int c.capacity]⟩
  else if c.refillRate.isNaN || c.refillRate.isInf || c.refillRate.le (.finite 0) then
    .error ⟨"ratelimit: refill rate must be finite and greater than zero (got %v)",
      [.float c.refillRate]⟩
  else if Float64.lt (.finite maxRefillRate) c.refillRate then
    .error ⟨"ratelimit: refill rate must be at most %g (got %v)",
      [.float (.finite maxRefillRate), .float c.refillRate]⟩
  else if c.maxClients ≤ 0 then
    .error ⟨"ratelimit: max clients must be greater than zero (got %d)", [.int c.maxClients]⟩
  else if maxClientsLimit < c.maxClients then
    .error ⟨"ratelimit: max clients must be at most %d (got %d)",
      [.int maxClientsLimit, .int c.maxClients]⟩
  else if c.idleTTL < 0 then
    .error ⟨"ratelimit: idle TTL must not be negative (got %s)", [.duration c.idleTTL]⟩
  else if maxIdleTTL < c.idleTTL then
    .error ⟨"ratelimit: idle TTL must be at most %s (got %s)",
      [.duration maxIdleTTL, .duration c.idleTTL]⟩
  else
    match c.overflow with
    | .unknown policy => .error ⟨"ratelimit: unknown overflow policy %d", [.int policy.toNat]⟩
    | _ => .ok ()

structure Config.Valid (c : Config) : Prop where
  capacity_pos : 0 < c.capacity
  capacity_le : c.capacity ≤ maxCapacity
  refillRate_eq : c.refillRate = .finite c.refillRate.toRat
  refillRate_pos : 0 < c.refillRate.toRat
  refillRate_le : c.refillRate.toRat ≤ maxRefillRate
  maxClients_pos : 0 < c.maxClients
  maxClients_le : c.maxClients ≤ maxClientsLimit
  idleTTL_nonneg : 0 ≤ c.idleTTL
  idleTTL_le : c.idleTTL ≤ maxIdleTTL
  overflow_known : c.overflow = .rejectNew ∨ c.overflow = .evictOldest

theorem refillRate_checks {x : Float64} :
    (x.isNaN || x.isInf || x.le (.finite 0)) = false ∧ Float64.lt
    (.finite maxRefillRate) x = false ↔
      x = .finite x.toRat ∧ 0 < x.toRat ∧ x.toRat ≤ maxRefillRate := by
  cases x with
  | nan => simp [Float64.isNaN]
  | inf negative => simp [Float64.isInf]
  | finite q => simp [Float64.isNaN, Float64.isInf, Float64.le, Float64.lt, Float64.toRat]

theorem Config.validate_ok {c : Config} : c.validate = .ok u ↔ c.Valid := by
  constructor
  · intro h
    unfold Config.validate at h
    split_ifs at h with hcap hcap' hrate hrate' hclients hclients' httl httl'
    simp only [Bool.not_eq_true] at hrate hrate'
    obtain ⟨heq, hpos, hle⟩ := refillRate_checks.mp ⟨hrate, hrate'⟩
    refine ⟨not_le.mp hcap, not_lt.mp hcap', heq, hpos, hle, not_le.mp hclients,
      not_lt.mp hclients', not_lt.mp httl, not_lt.mp httl', ?_⟩
    cases hover : c.overflow with
    | rejectNew => exact .inl rfl
    | evictOldest => exact .inr rfl
    | unknown policy => rw [hover] at h; cases h
  · intro h
    obtain ⟨hrate, hrate'⟩ :=
      refillRate_checks.mpr ⟨h.refillRate_eq, h.refillRate_pos, h.refillRate_le⟩
    unfold Config.validate
    rw [if_neg (not_le.mpr h.capacity_pos), if_neg (not_lt.mpr h.capacity_le),
      if_neg (Bool.not_eq_true _ ▸ hrate), if_neg (Bool.not_eq_true _ ▸ hrate'),
      if_neg (not_le.mpr h.maxClients_pos), if_neg (not_lt.mpr h.maxClients_le),
      if_neg (not_lt.mpr h.idleTTL_nonneg), if_neg (not_lt.mpr h.idleTTL_le)]
    rcases h.overflow_known with hover | hover <;> rw [hover]

/-- A limiter: the settings `Config.Validate` accepted. Its buckets are a
separate value, which the calls pass on. -/
structure Limiter where
  capacity : Int
  refillRate : ℚ
  maxClients : Int
  idleTTL : Duration
  overflow : OverflowPolicy
  capacity_pos : 0 < capacity
  refillRate_pos : 0 < refillRate
  maxClients_pos : 0 < maxClients
  idleTTL_nonneg : 0 ≤ idleTTL
  idleTTL_le : idleTTL ≤ maxIdleTTL
  deriving DecidableEq

theorem zero_le_maxIdleTTL : (0 : Duration) ≤ maxIdleTTL := by decide

def new (cfg : Config) : Except Errorf Limiter :=
  match h : cfg.validate with
  | .error err => .error err
  | .ok () =>
    have valid := Config.validate_ok.mp h
    .ok {
      capacity := cfg.capacity
      refillRate := cfg.refillRate.toRat
      maxClients := cfg.maxClients
      idleTTL := cfg.idleTTL
      overflow := cfg.overflow
      capacity_pos := valid.capacity_pos
      refillRate_pos := valid.refillRate_pos
      maxClients_pos := valid.maxClients_pos
      idleTTL_nonneg := valid.idleTTL_nonneg
      idleTTL_le := valid.idleTTL_le }

theorem new_of_valid {cfg : Config} (h : cfg.Valid) : ∃ l, new cfg = .ok l := by
  unfold new
  split
  · next herr =>
    rw [Config.validate_ok (u := ()).mpr h] at herr
    cases herr
  · exact ⟨_, rfl⟩

theorem new_ok {cfg : Config} {l : Limiter} (h : new cfg = .ok l) :
    cfg.Valid ∧ l.capacity = cfg.capacity ∧ l.refillRate = cfg.refillRate.toRat ∧
      l.maxClients = cfg.maxClients ∧ l.idleTTL = cfg.idleTTL ∧ l.overflow = cfg.overflow := by
  unfold new at h
  split at h
  · cases h
  · next hvalid =>
    cases h
    exact ⟨Config.validate_ok.mp hvalid, rfl, rfl, rfl, rfl, rfl⟩

def Config.small : Config := ⟨5, .finite 1, 2, 60 * Duration.second, .rejectNew⟩

def Limiter.small : Limiter :=
  ⟨5, 1, 2, 60 * Duration.second, .rejectNew, by decide, by decide, by decide, by decide, by decide⟩

theorem new_small : new Config.small = .ok Limiter.small := by decide +kernel

structure Bucket where
  tokens : ℚ
  lastRefill : Reading
  lastSeen : Reading
  deriving DecidableEq

abbrev Buckets := AssocMap GoString Bucket

structure Decision where
  allowed : Bool := false
  remaining : Int := 0
  retryAfter : Duration := 0
  reset : Time := Time.zero
  reason : DenyReason
  deriving DecidableEq

def validKey (key : GoString) : Bool :=
  !(key.isEmpty || decide (maxKeyBytes < key.length) || !validString key) &&
  !(chunks key).any fun c => isControl (rune c) || isSpace (rune c)

def wholeTokens (tokens : ℚ) (capacity : Int) : Int :=
  if tokens ≤ 0 then 0
  else
    let value := ⌊tokens + 1 / 1000000000⌋
    if value < 0 then 0
    else if capacity < value then capacity
    else value

def durationForTokens (tokens refillRate : ℚ) : Duration :=
  if tokens ≤ 0 then 0
  else
    let nanos := tokens / refillRate * 1000000000
    if (maxRetryDuration : ℚ) ≤ nanos then maxRetryDuration
    else ⌈nanos⌉

def resetAt (now : Time) (tokens : ℚ) (capacity : Int) (refillRate : ℚ) : Time :=
  now.add (durationForTokens (capacity - tokens) refillRate)

namespace Limiter

def isExpired (l : Limiter) (now : Reading) (entry : Bucket) : Bool :=
  decide (0 < l.idleTTL) && !now.val.before (entry.lastSeen.val.add l.idleTTL)

def cleanupLocked (l : Limiter) (now : Reading) (buckets : Buckets) : Buckets :=
  if l.idleTTL ≤ 0 then buckets
  else AssocMap.filter (fun _ entry => !l.isExpired now entry) buckets

end Limiter

/-- The test of `evictOldestLocked` that makes an entry the oldest so far. -/
def older (key : GoString) (entry : Bucket) (oldestKey : GoString) (oldest : Bucket) : Bool :=
  entry.lastSeen.val.before oldest.lastSeen ||
    entry.lastSeen.val.equal oldest.lastSeen && decide (key < oldestKey)

/-- The loop of `evictOldestLocked`, over the entries in the order of the
map. -/
def oldestOf (buckets : Buckets) : Option (GoString × Bucket) :=
  buckets.entries.foldl
    (fun oldest e =>
      match oldest with
      | none => some (e.1, e.2)
      | some (k, b) => if older e.1 e.2 k b then some (e.1, e.2) else some (k, b))
    none

/-- `evictOldestLocked`, with the key it deletes. -/
def evictOldestLocked (buckets : Buckets) : Buckets × Option GoString :=
  match oldestOf buckets with
  | none => (buckets, none)
  | some (key, _) => (buckets.erase key, some key)

/-- What the admission of a key without a bucket comes to: no room, room, or
room at the cost of another key. -/
inductive Room
  | full
  | free
  | evicted (key : Option GoString)
  deriving DecidableEq

namespace Limiter

/-- The admission part of `AllowN`. A refused call has still swept the
expired buckets. -/
def makeRoom (l : Limiter) (now : Reading) (buckets : Buckets) : Buckets × Room :=
  if l.maxClients ≤ AssocMap.size buckets then
    let buckets := l.cleanupLocked now buckets
    if l.maxClients ≤ AssocMap.size buckets then
      if l.overflow = .rejectNew then (buckets, .full)
      else ((evictOldestLocked buckets).1, .evicted (evictOldestLocked buckets).2)
    else (buckets, .free)
  else (buckets, .free)

/-- The reading a bucket is refilled to: time does not go back for it. -/
def effectiveNow (now : Reading) (entry : Bucket) : Reading :=
  if now.val.before entry.lastRefill then entry.lastRefill else now

def refill (l : Limiter) (now : Reading) (entry : Bucket) : Bucket :=
  let entry :=
    if now.val.after entry.lastRefill then
      let tokens := entry.tokens + (now.val.sub entry.lastRefill).seconds * l.refillRate
      { entry with
        tokens := if (l.capacity : ℚ) < tokens then l.capacity else tokens
        lastRefill := now }
    else entry
  if now.val.after entry.lastSeen then { entry with lastSeen := now } else entry

def take (l : Limiter) (now : Reading) (cost : Int) (entry : Bucket) : Decision × Bucket :=
  if (cost : ℚ) ≤ entry.tokens then
    let tokens := entry.tokens - cost
    let entry := { entry with tokens := if tokens < 0 then 0 else tokens }
    ({ allowed := true
       remaining := wholeTokens entry.tokens l.capacity
       reset := resetAt now entry.tokens l.capacity l.refillRate
       reason := .allowed }, entry)
  else
    ({ remaining := wholeTokens entry.tokens l.capacity
       retryAfter := durationForTokens (cost - entry.tokens) l.refillRate
       reset := resetAt now entry.tokens l.capacity l.refillRate
       reason := .rateLimited }, entry)

/-- The rest of `AllowN` once the key has a bucket. -/
def serve (l : Limiter) (now : Reading) (cost : Int) (entry : Bucket) : Decision × Bucket :=
  let effective := effectiveNow now entry
  l.take effective cost (l.refill effective entry)

def fullBucket (l : Limiter) (now : Reading) : Bucket := ⟨l.capacity, now, now⟩

/-- A call as the map sees it: the decision, the key evicted for it and the
buckets afterwards. -/
structure Outcome where
  decision : Decision
  evicted : Option GoString := none
  buckets : Buckets

def admitted (l : Limiter) (buckets : Buckets) (now : Reading) (key : GoString) (cost : Int)
    (entry : Bucket) (evicted : Option GoString) : Outcome :=
  let (decision, entry) := l.serve now cost entry
  ⟨decision, evicted, buckets.insert key entry⟩

/-- The bucket `AllowN` finds for the key: one that is not expired. -/
def liveEntry (l : Limiter) (now : Reading) (buckets : Buckets) (key : GoString) : Option Bucket :=
  (buckets.lookup key).filter fun entry => !l.isExpired now entry

def allowN (l : Limiter) (buckets : Buckets) (now : Reading) (key : GoString) (cost : Int) :
    Outcome :=
  if !validKey key then { decision := { reason := .invalidKey }, buckets }
  else if cost < 1 ∨ l.capacity < cost then { decision := { reason := .invalidCost }, buckets }
  else
    match l.liveEntry now buckets key with
    | some entry => l.admitted buckets now key cost entry none
    | none =>
      -- its expired bucket, if it has one, is deleted first
      match l.makeRoom now (buckets.erase key) with
      | (buckets, .full) => { decision := { reason := .capacity }, buckets }
      | (buckets, .free) => l.admitted buckets now key cost (l.fullBucket now) none
      | (buckets, .evicted other) => l.admitted buckets now key cost (l.fullBucket now) other

def allow (l : Limiter) (buckets : Buckets) (now : Reading) (key : GoString) : Outcome :=
  l.allowN buckets now key 1

def cleanup (l : Limiter) (buckets : Buckets) (now : Reading) : Buckets × Int :=
  if l.idleTTL ≤ 0 then (buckets, 0)
  else
    let swept := l.cleanupLocked now buckets
    (swept, (AssocMap.size buckets : Int) - AssocMap.size swept)

def len (l : Limiter) (buckets : Buckets) (now : Reading) : Buckets × Int :=
  let swept := l.cleanupLocked now buckets
  (swept, AssocMap.size swept)

end Limiter

-- ---------------------------------------------------------------------------
-- Runs
-- ---------------------------------------------------------------------------

inductive Op
  | allowN (key : GoString) (cost : Int)
  | cleanup
  | len
  deriving DecidableEq

/-- A call with the reading it takes from the clock. -/
structure Call where
  now : Reading
  op : Op
  deriving DecidableEq

/-- What a call returns. For `AllowN` the key it evicted is noted beside the
decision. -/
inductive Answer
  | decision (d : Decision) (evicted : Option GoString)
  | count (n : Int)
  deriving DecidableEq

def Limiter.step (l : Limiter) (buckets : Buckets) (call : Call) : Buckets × Answer :=
  match call.op with
  | .allowN key cost =>
    let outcome := l.allowN buckets call.now key cost
    (outcome.buckets, .decision outcome.decision outcome.evicted)
  | .cleanup => ((l.cleanup buckets call.now).1, .count (l.cleanup buckets call.now).2)
  | .len => ((l.len buckets call.now).1, .count (l.len buckets call.now).2)

@[simp] theorem Limiter.step_allowN (l : Limiter) (buckets : Buckets) (now : Reading)
    (key : GoString) (cost : Int) :
    l.step buckets ⟨now, .allowN key cost⟩ =
      ((l.allowN buckets now key cost).buckets,
        .decision (l.allowN buckets now key cost).decision
        (l.allowN buckets now key cost).evicted) := rfl

end GoClean.RateLimit
