import GoClean.Lib.Purge
import GoClean.RateLimit.Bucket

/-!
# What a call does to the buckets

Expired buckets are invisible to `AllowN`: it looks at the key's live entry,
and a sweep removes exactly the entries that are not live. `allowN_eq` splits
a call into making room and serving the key's bucket, a full one if it has
none. The laws below say what each part leaves of every key's live entry.
-/

namespace GoClean.RateLimit

open Go

def Room.key : Room → Option GoString
  | .evicted other => other
  | _ => none

namespace Limiter

variable {l : Limiter} {now later : Reading} {buckets : Buckets} {key other : GoString} {cost : Int}

-- ---------------------------------------------------------------------------
-- Expiry
-- ---------------------------------------------------------------------------

theorem isExpired_mono (h : now ≤ later) (he : l.isExpired now entry = true) :
    l.isExpired later entry = true := by
  simp only [isExpired, Bool.and_eq_true, Bool.not_eq_true', decide_eq_true_eq] at he ⊢
  refine ⟨he.1, ?_⟩
  have hadd := Time.add_normal entry.lastSeen l.idleTTL
  have hn := (Time.before_eq_false_iff_nanos now ⟨_, hadd⟩).mp he.2
  exact (Time.before_eq_false_iff_nanos later ⟨_, hadd⟩).mpr
    (le_trans hn (Time.reading_le_iff.mp h))

theorem lookup_cleanupLocked (l : Limiter) (now : Reading) (buckets : Buckets) (key : GoString) :
    (l.cleanupLocked now buckets).lookup key = l.liveEntry now buckets key := by
  unfold cleanupLocked liveEntry
  split
  · next h =>
    have hnever : ∀ entry, l.isExpired now entry = false := fun entry => by
      simp [isExpired, not_lt.mpr h]
    cases buckets.lookup key <;> simp [Option.filter, hnever]
  · exact AssocMap.lookup_filter ..

theorem size_cleanupLocked_le (l : Limiter) (now : Reading) (buckets : Buckets) :
    AssocMap.size (l.cleanupLocked now buckets) ≤ AssocMap.size buckets := by
  unfold cleanupLocked
  split
  · exact le_rfl
  · exact AssocMap.size_filter_le _ _

theorem liveEntry_later (h : now ≤ later) :
    l.liveEntry later buckets key = (l.liveEntry now buckets key).filter fun e =>
    !l.isExpired later e := by
  unfold liveEntry
  cases buckets.lookup key with
  | none => rfl
  | some entry =>
    cases he : l.isExpired now entry with
    | false => simp [Option.filter, he]
    | true => simp [Option.filter, he, isExpired_mono h he]

theorem liveEntry_some : l.liveEntry now buckets key = some entry ↔
    buckets.lookup key = some entry ∧ l.isExpired now entry = false := by
  rw [liveEntry, Option.filter_eq_some_iff, Bool.not_eq_true']

theorem liveEntry_cleanupLocked (l : Limiter) (now : Reading) (buckets : Buckets) (key : GoString) :
    l.liveEntry now (l.cleanupLocked now buckets) key = l.liveEntry now buckets key := by
  have hlater : l.liveEntry now buckets key = (l.liveEntry now buckets key).filter fun e =>
      !l.isExpired now e :=
    liveEntry_later (le_refl now)
  rw [hlater, liveEntry, lookup_cleanupLocked]

theorem liveEntry_insert : l.liveEntry now (buckets.insert key entry) other =
    if other = key then (some entry).filter (fun e => !l.isExpired now e) else
    l.liveEntry now buckets other := by
  rw [liveEntry, AssocMap.lookup_insert_ite]
  split <;> rfl

theorem liveEntry_erase : l.liveEntry now (buckets.erase key) other =
    if other = key then none else l.liveEntry now buckets other := by
  rw [liveEntry]
  split
  · next h => rw [h, AList.lookup_erase]; rfl
  · next h => rw [AList.lookup_erase_ne h]; rfl

-- ---------------------------------------------------------------------------
-- The parts of a call
-- ---------------------------------------------------------------------------

/-- A key and a cost that `AllowN` looks at. -/
def accepts (l : Limiter) (key : GoString) (cost : Int) : Bool :=
  validKey key && decide (1 ≤ cost ∧ cost ≤ l.capacity)

def rejection (key : GoString) : Decision :=
  if validKey key then { reason := .invalidCost } else { reason := .invalidKey }

@[simp] theorem rejection_allowed (key : GoString) : (rejection key).allowed = false := by
  unfold rejection
  split <;> rfl

theorem rejection_reason_ne (key : GoString) : (rejection key).reason ≠ .capacity := by
  unfold rejection
  split <;> exact DenyReason.noConfusion

def target (l : Limiter) (now : Reading) (buckets : Buckets) (key : GoString) : Bucket :=
  (l.liveEntry now buckets key).getD (l.fullBucket now)

/-- The buckets a call puts its own into: all of them if the key has a live
one. -/
def room (l : Limiter) (now : Reading) (buckets : Buckets) (key : GoString) : Buckets × Room :=
  match l.liveEntry now buckets key with
  | some _ => (buckets, .free)
  | none => l.makeRoom now (buckets.erase key)

theorem admitted_eq (l : Limiter) (buckets : Buckets) (now : Reading) (key : GoString)
    (cost : Int) (entry : Bucket) (evicted : Option GoString) :
    l.admitted buckets now key cost entry evicted =
      ⟨(l.serve now cost entry).1, evicted, buckets.insert key (l.serve now cost entry).2⟩ := by
  unfold admitted
  cases l.serve now cost entry
  rfl

theorem accepts_cost (h : l.accepts key cost = true) : 0 ≤ cost := by
  simp only [accepts, Bool.and_eq_true, decide_eq_true_eq] at h
  omega

theorem allowN_rejected (h : l.accepts key cost = false) :
    l.allowN buckets now key cost = { decision := rejection key, buckets } := by
  unfold accepts at h
  cases hk : validKey key with
  | false => simp [allowN, rejection, hk]
  | true =>
    have hc : cost < 1 ∨ l.capacity < cost := by
      simp only [hk, Bool.true_and, decide_eq_false_iff_not] at h
      omega
    simp [allowN, rejection, hk, hc]

theorem allowN_eq (h : l.accepts key cost = true) :
    l.allowN buckets now key cost =
      if (l.room now buckets key).2 = .full then
        { decision := { reason := .capacity }, buckets := (l.room now buckets key).1 }
      else l.admitted (l.room now buckets key).1 now key cost (l.target now buckets key)
        (l.room now buckets key).2.key := by
  simp only [accepts, Bool.and_eq_true, decide_eq_true_eq] at h
  have hc : ¬(cost < 1 ∨ l.capacity < cost) := by omega
  simp only [allowN, h.1, hc, Bool.not_true, Bool.false_eq_true, if_false, room, target]
  obtain hlive | ⟨entry, hlive⟩ := Option.eq_none_or_eq_some (l.liveEntry now buckets key)
  · obtain ⟨⟨left, r⟩, hroom⟩ : ∃ p, l.makeRoom now (buckets.erase key) = p := ⟨_, rfl⟩
    cases r <;> simp [hlive, hroom, Room.key]
  · simp [hlive, Room.key]

/-- An accepted call that found room: what it returns and what it leaves for
its own key. -/
theorem allowN_served (now : Reading) (buckets : Buckets) (h : l.accepts key cost = true)
    (hroom : (l.room now buckets key).2 ≠ .full) :
    (l.allowN buckets now key cost).decision = (l.serve now cost (l.target now buckets key)).1 ∧
    (l.allowN buckets now key cost).buckets =
      (l.room now buckets key).1.insert key (l.serve now cost (l.target now buckets key)).2 := by
  rw [allowN_eq h, if_neg hroom, admitted_eq]
  exact ⟨rfl, rfl⟩

theorem allowN_refused (h : l.accepts key cost = true)
    (hroom : (l.room now buckets key).2 = .full) :
    l.allowN buckets now key cost =
      { decision := { reason := .capacity }, buckets := (l.room now buckets key).1 } := by
  rw [allowN_eq h, if_pos hroom]

-- ---------------------------------------------------------------------------
-- What room is made of
-- ---------------------------------------------------------------------------

theorem lookup_of_cleanupLocked (h : (l.cleanupLocked now buckets).lookup key = some entry) :
    buckets.lookup key = some entry := by
  rw [lookup_cleanupLocked] at h
  exact (liveEntry_some.mp h).1

theorem lookup_of_erase (h : (buckets.erase other).lookup key = some entry) :
    key ≠ other ∧ buckets.lookup key = some entry := by
  by_cases hk : key = other
  · rw [hk, AList.lookup_erase] at h
    cases h
  · rw [AList.lookup_erase_ne hk] at h
    exact ⟨hk, h⟩

theorem lookup_of_evictOldestLocked (h : (evictOldestLocked buckets).1.lookup key = some entry) :
    buckets.lookup key = some entry := by
  unfold evictOldestLocked at h
  split at h
  · exact h
  · exact (lookup_of_erase h).2

inductive MakesRoom (l : Limiter) (now : Reading) (buckets : Buckets) : Buckets × Room → Prop
  | free : AssocMap.size buckets < l.maxClients → MakesRoom l now buckets (buckets, .free)
  | swept : l.maxClients ≤ AssocMap.size buckets →
      AssocMap.size (l.cleanupLocked now buckets) < l.maxClients →
      MakesRoom l now buckets (l.cleanupLocked now buckets, .free)
  | full : l.maxClients ≤ AssocMap.size (l.cleanupLocked now buckets) → l.overflow = .rejectNew →
      MakesRoom l now buckets (l.cleanupLocked now buckets, .full)
  | evicted : l.maxClients ≤ AssocMap.size (l.cleanupLocked now buckets) → l.overflow ≠ .rejectNew →
      MakesRoom l now buckets ((evictOldestLocked (l.cleanupLocked now buckets)).1,
        .evicted (evictOldestLocked (l.cleanupLocked now buckets)).2)

theorem makeRoom_makesRoom (l : Limiter) (now : Reading) (buckets : Buckets) :
    MakesRoom l now buckets (l.makeRoom now buckets) := by
  unfold makeRoom
  by_cases hsize : l.maxClients ≤ AssocMap.size buckets
  · by_cases hswept : l.maxClients ≤ AssocMap.size (l.cleanupLocked now buckets)
    · by_cases hpolicy : l.overflow = .rejectNew
      · simpa only [hsize, hswept, hpolicy, if_true] using .full hswept hpolicy
      · simpa only [hsize, hswept, hpolicy, if_true, if_false] using .evicted hswept hpolicy
    · simpa only [hsize, hswept, if_true, if_false] using .swept hsize (not_le.mp hswept)
  · simpa only [hsize, if_false] using .free (not_le.mp hsize)

theorem MakesRoom.lookup (hr : MakesRoom l now buckets r) (h : r.1.lookup key = some entry) :
    buckets.lookup key = some entry := by
  cases hr with
  | free _ => exact h
  | swept _ _ => exact lookup_of_cleanupLocked h
  | full _ _ => exact lookup_of_cleanupLocked h
  | evicted _ _ => exact lookup_of_cleanupLocked (lookup_of_evictOldestLocked h)

theorem lookup_of_room (h : (l.room now buckets key).1.lookup other = some entry) :
    buckets.lookup other = some entry := by
  unfold room at h
  split at h
  · exact h
  · exact (lookup_of_erase ((l.makeRoom_makesRoom now _).lookup h)).2

theorem lookup_of_allowN (hne : other ≠ key)
    (h : (l.allowN buckets now key cost).buckets.lookup other = some entry) :
    buckets.lookup other = some entry := by
  cases hacc : l.accepts key cost with
  | false =>
    rw [allowN_rejected hacc] at h
    exact h
  | true =>
    by_cases hroom : (l.room now buckets key).2 = .full
    · rw [allowN_refused hacc hroom] at h
      exact lookup_of_room h
    · rw [(allowN_served now buckets hacc hroom).2, AList.lookup_insert_ne hne] at h
      exact lookup_of_room h

theorem MakesRoom.liveEntry (hr : MakesRoom l now buckets r) (hpolicy : l.overflow = .rejectNew) :
    l.liveEntry now r.1 key = l.liveEntry now buckets key := by
  cases hr with
  | free _ => rfl
  | swept _ _ => exact liveEntry_cleanupLocked ..
  | full _ _ => exact liveEntry_cleanupLocked ..
  | evicted _ hne => exact absurd hpolicy hne

theorem MakesRoom.key_eq_none (hr : MakesRoom l now buckets r) (hpolicy : l.overflow = .rejectNew) :
    r.2.key = none := by
  cases hr with
  | free _ => rfl
  | swept _ _ => rfl
  | full _ _ => rfl
  | evicted _ hne => exact absurd hpolicy hne

theorem liveEntry_room (hpolicy : l.overflow = .rejectNew) (hne : other ≠ key) :
    l.liveEntry now (l.room now buckets key).1 other = l.liveEntry now buckets other := by
  unfold room
  split
  · rfl
  · rw [(l.makeRoom_makesRoom now _).liveEntry hpolicy, liveEntry_erase, if_neg hne]

theorem room_key_eq_none (hpolicy : l.overflow = .rejectNew) :
    (l.room now buckets key).2.key = none := by
  unfold room
  split
  · rfl
  · exact (l.makeRoom_makesRoom now _).key_eq_none hpolicy

theorem liveEntry_allowN (hpolicy : l.overflow = .rejectNew) (hne : other ≠ key) :
    l.liveEntry now (l.allowN buckets now key cost).buckets other =
      l.liveEntry now buckets other := by
  cases hacc : l.accepts key cost with
  | false => rw [allowN_rejected hacc]
  | true =>
    by_cases hroom : (l.room now buckets key).2 = .full
    · rw [allowN_refused hacc hroom]
      exact liveEntry_room hpolicy hne
    · rw [(allowN_served now buckets hacc hroom).2, liveEntry_insert, if_neg hne]
      exact liveEntry_room hpolicy hne

theorem evicted_eq_none (hpolicy : l.overflow = .rejectNew) :
    (l.allowN buckets now key cost).evicted = none := by
  cases hacc : l.accepts key cost with
  | false => rw [allowN_rejected hacc]
  | true =>
    rw [allowN_eq hacc]
    split
    · rfl
    · exact room_key_eq_none hpolicy

theorem makeRoom_of_lt (h : (AssocMap.size buckets : Int) < l.maxClients) :
    l.makeRoom now buckets = (buckets, .free) := by
  rw [makeRoom, if_neg (not_le.mpr h)]

theorem cleanup_fst (l : Limiter) (buckets : Buckets) (now : Reading) :
    (l.cleanup buckets now).1 = l.cleanupLocked now buckets := by
  unfold cleanup
  split
  · next h => rw [cleanupLocked, if_pos h]
  · rfl

end Limiter

-- ---------------------------------------------------------------------------
-- A place for every key
-- ---------------------------------------------------------------------------

def KeysIn (keys : List GoString) (buckets : Buckets) : Prop :=
  ∀ key, (buckets.lookup key).isSome → key ∈ keys

section
variable {buckets : Buckets} {key : GoString} {keys : List GoString}

theorem room_of_keysIn (l : Limiter) (now : Reading) (h : KeysIn keys buckets)
    (hlen : (keys.length : Int) ≤ l.maxClients) (hkey : key ∈ keys) :
    (l.room now buckets key).2 = .free ∧
    (l.room now buckets key).1 = if (l.liveEntry now buckets key).isSome then buckets
    else buckets.erase key := by
  have hsize : (AssocMap.size (buckets.erase key) : Int) < l.maxClients :=
    lt_of_lt_of_le (Int.ofNat_lt.mpr (AssocMap.size_erase_lt h hkey)) hlen
  unfold Limiter.room
  cases l.liveEntry now buckets key with
  | some _ => exact ⟨rfl, rfl⟩
  | none =>
    rw [Limiter.makeRoom_of_lt hsize]
    exact ⟨rfl, rfl⟩

theorem keysIn_empty (keys : List GoString) : KeysIn keys ∅ := by
  intro key h
  cases h

theorem KeysIn.allowN {l : Limiter} {now : Reading} (h : KeysIn keys buckets) (hkey : key ∈ keys) :
    KeysIn keys (l.allowN buckets now key cost).buckets := by
  intro k hk
  by_cases hne : k = key
  · exact hne ▸ hkey
  · obtain ⟨b, hb⟩ := Option.isSome_iff_exists.mp hk
    exact h k (Option.isSome_iff_exists.mpr ⟨b, Limiter.lookup_of_allowN hne hb⟩)

theorem allowN_of_keysIn (l : Limiter) (now : Reading) (h : KeysIn keys buckets)
    (hlen : (keys.length : Int) ≤ l.maxClients) (hkey : key ∈ keys)
    (hacc : l.accepts key cost = true) :
    (l.allowN buckets now key cost).decision = (l.serve now cost (l.target now buckets key)).1 ∧
    (l.allowN buckets now key cost).evicted = none ∧
    (l.allowN buckets now key cost).buckets =
      buckets.insert key (l.serve now cost (l.target now buckets key)).2 := by
  obtain ⟨hfree, hleft⟩ := room_of_keysIn l now h hlen hkey
  have hinsert : ∀ b, (l.room now buckets key).1.insert key b = buckets.insert key b := by
    intro b
    rw [hleft]
    split
    · rfl
    · exact AssocMap.insert_erase key b buckets
  rw [Limiter.allowN_eq hacc, if_neg (by rw [hfree]; decide), hfree, Limiter.admitted_eq, hinsert]
  exact ⟨rfl, rfl, rfl⟩

theorem reason_of_keysIn (l : Limiter) (now : Reading) (h : KeysIn keys buckets)
    (hlen : (keys.length : Int) ≤ l.maxClients) (hkey : key ∈ keys) :
    (l.allowN buckets now key cost).decision.reason ≠ .capacity := by
  cases hacc : l.accepts key cost with
  | false =>
    rw [Limiter.allowN_rejected hacc]
    exact Limiter.rejection_reason_ne key
  | true =>
    rw [(allowN_of_keysIn l now h hlen hkey hacc).1]
    exact Limiter.take_reason_ne

end

-- ---------------------------------------------------------------------------
-- The invariant of the buckets
-- ---------------------------------------------------------------------------

def BucketsOk (l : Limiter) (buckets : Buckets) : Prop :=
  ∀ key b, buckets.lookup key = some b → b.Ok l

section
variable {l : Limiter} {now : Reading} {buckets : Buckets} {key : GoString}

theorem bucketsOk_empty (l : Limiter) : BucketsOk l ∅ := by
  intro key b h
  cases h

theorem BucketsOk.target (h : BucketsOk l buckets) : (l.target now buckets key).Ok l := by
  unfold Limiter.target
  cases hlive : l.liveEntry now buckets key with
  | none => exact l.fullBucket_ok now
  | some b => exact h key b (Limiter.liveEntry_some.mp hlive).1

theorem BucketsOk.allowN (h : BucketsOk l buckets) :
    BucketsOk l (l.allowN buckets now key cost).buckets := by
  intro other b hb
  by_cases hk : other = key
  · subst hk
    cases hacc : l.accepts other cost with
    | false =>
      rw [Limiter.allowN_rejected hacc] at hb
      exact h other b hb
    | true =>
      by_cases hroom : (l.room now buckets other).2 = .full
      · rw [Limiter.allowN_refused hacc hroom] at hb
        exact h other b (Limiter.lookup_of_room hb)
      · rw [(Limiter.allowN_served now buckets hacc hroom).2, AList.lookup_insert] at hb
        cases hb
        exact Limiter.serve_ok h.target (Limiter.accepts_cost hacc)
  · exact h other b (Limiter.lookup_of_allowN hk hb)

theorem BucketsOk.step (h : BucketsOk l buckets) (call : Call) :
    BucketsOk l (l.step buckets call).1 := by
  obtain ⟨now, op⟩ := call
  cases op with
  | allowN key cost => exact h.allowN
  | cleanup =>
    intro key b hb
    rw [Limiter.step, Limiter.cleanup_fst] at hb
    exact h key b (Limiter.lookup_of_cleanupLocked hb)
  | len =>
    intro key b hb
    exact h key b (Limiter.lookup_of_cleanupLocked hb)

theorem BucketsOk.final (calls : List Call) (h : BucketsOk l buckets) :
    BucketsOk l (Purge.final l.step buckets calls) :=
  Purge.final_invariant (fun _ call hs => hs.step call) calls h

end

end GoClean.RateLimit
