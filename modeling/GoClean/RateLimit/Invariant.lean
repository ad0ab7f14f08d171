import GoClean.RateLimit.Admission
import GoClean.RateLimit.Eviction

/-!
# The invariant of the limiter

Whatever the calls and their readings: no more than `maxClients` buckets, each
with a count between zero and the capacity and two equal times that do not go
back. When new keys are refused, only expired buckets are deleted, and a call
is refused for want of room exactly when the unexpired buckets of other keys
take all places.
-/

namespace GoClean.RateLimit

open Go

namespace Limiter

variable {l : Limiter} {now : Reading} {buckets : Buckets} {key other : GoString}
    {cost : Int} {call : Call}

-- ---------------------------------------------------------------------------
-- Places
-- ---------------------------------------------------------------------------

def Bounded (l : Limiter) (buckets : Buckets) : Prop := (AssocMap.size buckets : Int) ≤ l.maxClients

theorem Bounded.erase (h : l.Bounded buckets) : l.Bounded (buckets.erase key) :=
  le_trans (Int.ofNat_le.mpr (AssocMap.size_erase_le key buckets)) h

theorem Bounded.cleanupLocked (h : l.Bounded buckets) : l.Bounded (l.cleanupLocked now buckets) :=
  le_trans (Int.ofNat_le.mpr (l.size_cleanupLocked_le now buckets)) h

theorem size_evictOldestLocked (h : 0 < AssocMap.size buckets) :
    AssocMap.size (evictOldestLocked buckets).1 + 1 = AssocMap.size buckets := by
  unfold evictOldestLocked
  cases ho : oldestOf buckets with
  | none => exact absurd (AssocMap.size_eq_zero (oldestOf_none ho)) h.ne'
  | some e => exact (AssocMap.size_of_lookup (oldestOf_some ho).1).symm

theorem MakesRoom.size_lt (hr : MakesRoom l now buckets r) (h : l.Bounded buckets)
    (hfull : r.2 ≠ .full) :
    (AssocMap.size r.1 : Int) < l.maxClients := by
  cases hr with
  | free hlt => exact hlt
  | swept _ hlt => exact hlt
  | full _ _ => exact absurd rfl hfull
  | evicted hle _ =>
    have hpos := l.maxClients_pos
    have hbounded : l.Bounded (l.cleanupLocked now buckets) := h.cleanupLocked
    have hsome : 0 < AssocMap.size (l.cleanupLocked now buckets) := by omega
    have hone := size_evictOldestLocked hsome
    unfold Bounded at hbounded
    dsimp only
    omega

theorem MakesRoom.bounded (hr : MakesRoom l now buckets r) (h : l.Bounded buckets) :
    l.Bounded r.1 := by
  by_cases hfull : r.2 = .full
  · cases hr with
    | full _ _ => exact h.cleanupLocked
    | free _ => exact h
    | swept _ _ => exact h.cleanupLocked
    | evicted _ _ => cases hfull
  · exact (hr.size_lt h hfull).le

theorem Bounded.room (h : l.Bounded buckets) : l.Bounded (l.room now buckets key).1 := by
  unfold Limiter.room
  split
  · exact h
  · exact (l.makeRoom_makesRoom now _).bounded h.erase

theorem Bounded.room_erase (h : l.Bounded buckets) (hfull : (l.room now buckets key).2 ≠ .full) :
    (AssocMap.size ((l.room now buckets key).1.erase key) : Int) < l.maxClients := by
  unfold Limiter.room at hfull ⊢
  cases hlive : l.liveEntry now buckets key with
  | some entry =>
    have hsize := AssocMap.size_of_lookup (liveEntry_some.mp hlive).1
    unfold Bounded at h
    dsimp only
    omega
  | none =>
    simp only [hlive] at hfull ⊢
    have hlt := (l.makeRoom_makesRoom now _).size_lt h.erase hfull
    have hle := AssocMap.size_erase_le key (l.makeRoom now (buckets.erase key)).1
    omega

theorem Bounded.allowN (h : l.Bounded buckets) :
    l.Bounded (l.allowN buckets now key cost).buckets := by
  cases hacc : l.accepts key cost with
  | false =>
    rw [allowN_rejected hacc]
    exact h
  | true =>
    by_cases hroom : (l.room now buckets key).2 = .full
    · rw [allowN_refused hacc hroom]
      exact h.room
    · have hlt := h.room_erase hroom
      rw [(allowN_served now buckets hacc hroom).2, Bounded, AssocMap.size_insert]
      omega

theorem Bounded.step (h : l.Bounded buckets) (call : Call) : l.Bounded (l.step buckets call).1 := by
  obtain ⟨now, op⟩ := call
  cases op with
  | allowN key cost => exact h.allowN
  | cleanup =>
    rw [Limiter.step, cleanup_fst]
    exact h.cleanupLocked
  | len => exact h.cleanupLocked

theorem bounded_empty (l : Limiter) : l.Bounded ∅ := l.maxClients_pos.le

theorem bounded_final (l : Limiter) (history : List Call) :
    l.Bounded (Purge.final l.step ∅ history) :=
  Purge.final_invariant (fun _ call h => h.step call) history l.bounded_empty

-- ---------------------------------------------------------------------------
-- Times
-- ---------------------------------------------------------------------------

theorem step_times {b : Bucket} (hok : BucketsOk l buckets) (hb : buckets.lookup key = some b)
    (hkeep : l.Keeps key buckets call) :
    ∃ b', (l.step buckets call).1.lookup key = some b' ∧ b.lastRefill ≤ b'.lastRefill ∧
    b.lastSeen ≤ b'.lastSeen := by
  obtain ⟨b', hb', hevolves, -⟩ := step_evolves hok hb hkeep
  have htime := hevolves.time_le
  rw [Bucket.level, Bucket.level, div_le_div_iff_of_pos_right (by norm_num), Int.cast_le] at htime
  refine ⟨b', hb', htime, ?_⟩
  rw [(hok key b hb).lastSeen_eq, ((hok.step call) key b' hb').lastSeen_eq]
  exact htime

-- ---------------------------------------------------------------------------
-- Refusing new keys
-- ---------------------------------------------------------------------------

def liveOthers (l : Limiter) (now : Reading) (buckets : Buckets) (key : GoString) : Nat :=
  AssocMap.size (AssocMap.filter (fun k entry => decide (k ≠ key) &&
    !l.isExpired now entry) buckets)

theorem size_cleanupLocked_erase (l : Limiter) (now : Reading) (buckets : Buckets)
    (key : GoString) :
    AssocMap.size (l.cleanupLocked now (buckets.erase key)) = l.liveOthers now buckets key := by
  refine AssocMap.size_congr fun k => ?_
  rw [lookup_cleanupLocked, liveEntry_erase, AssocMap.lookup_filter]
  split
  · next hk =>
    cases buckets.lookup k <;> simp [hk]
  · next hk => simp [hk, liveEntry]

theorem room_full_iff (hpolicy : l.overflow = .rejectNew) :
    (l.room now buckets key).2 = .full ↔
      l.liveEntry now buckets key = none ∧ l.maxClients ≤ l.liveOthers now buckets key := by
  unfold room
  cases hlive : l.liveEntry now buckets key with
  | some entry => simp
  | none =>
    have hle := l.size_cleanupLocked_le now (buckets.erase key)
    rw [← size_cleanupLocked_erase]
    simp only [makeRoom, hpolicy, if_true, true_and]
    split_ifs with hsize hswept
    · exact ⟨fun _ => hswept, fun _ => rfl⟩
    · exact ⟨False.elim, fun h => absurd h hswept⟩
    · exact ⟨False.elim, fun h => absurd (le_trans h (Int.ofNat_le.mpr hle)) hsize⟩

theorem reason_capacity_iff (hbounded : l.Bounded buckets) (hpolicy : l.overflow = .rejectNew) :
    (l.allowN buckets now key cost).decision.reason = .capacity ↔
      l.accepts key cost = true ∧ l.liveEntry now buckets key = none ∧
        (l.liveOthers now buckets key : Int) = l.maxClients := by
  have hle : (l.liveOthers now buckets key : Int) ≤ l.maxClients := by
    rw [← size_cleanupLocked_erase]
    exact hbounded.erase.cleanupLocked
  have hequal : l.maxClients ≤ l.liveOthers now buckets key ↔
      (l.liveOthers now buckets key : Int) = l.maxClients :=
    ⟨hle.antisymm, fun h => h.ge⟩
  cases hacc : l.accepts key cost with
  | false => simp [allowN_rejected hacc, rejection_reason_ne]
  | true =>
    rw [← hequal, eq_self, true_and, ← room_full_iff hpolicy]
    by_cases hroom : (l.room now buckets key).2 = .full
    · simp [allowN_refused hacc hroom, hroom]
    · simp [(allowN_served now buckets hacc hroom).1, hroom, serve, take_reason_ne]

theorem keeps_of_live {b : Bucket} (hpolicy : l.overflow = .rejectNew)
    (hb : buckets.lookup key = some b)
    (hlive : l.isExpired call.now b = false) : l.Keeps key buckets call := by
  have hentry : l.liveEntry call.now buckets key = some b := liveEntry_some.mpr ⟨hb, hlive⟩
  unfold Keeps
  split
  · rw [hentry]
    rfl
  · next htouch =>
    obtain ⟨now, op⟩ := call
    have hstays : l.liveEntry now (l.step buckets ⟨now, op⟩).1 key = some b := by
      cases op with
      | allowN k cost =>
        by_cases hk : key = k
        · subst hk
          have hacc : l.accepts key cost = false := by simpa [touches] using htouch
          simpa [step, allowN_rejected hacc] using hentry
        · exact (liveEntry_allowN hpolicy hk).trans hentry
      | cleanup =>
        rw [step, cleanup_fst]
        exact (liveEntry_cleanupLocked ..).trans hentry
      | len => exact (liveEntry_cleanupLocked ..).trans hentry
    rw [(liveEntry_some.mp hstays).1]
    rfl

end Limiter

/-- Every state the limiter can be in, and every call from it. -/
theorem limiter_invariant {cfg : Config} {l : Limiter} (hnew : new cfg = .ok l)
    (history : List Call) :
    let buckets := Purge.final l.step ∅ history
    (AssocMap.size buckets : Int) ≤ cfg.maxClients ∧
    (∀ key b, buckets.lookup key = some b →
      0 ≤ b.tokens ∧ b.tokens ≤ cfg.capacity ∧ b.lastSeen = b.lastRefill) ∧
    (∀ call key b, buckets.lookup key = some b → l.Keeps key buckets call →
      ∃ b', (l.step buckets call).1.lookup key = some b' ∧
        b.lastRefill ≤ b'.lastRefill ∧ b.lastSeen ≤ b'.lastSeen) ∧
    (cfg.overflow = .rejectNew →
      (∀ call key b, buckets.lookup key = some b → l.isExpired call.now b = false →
        l.Keeps key buckets call ∧ ((l.step buckets call).1.lookup key).isSome) ∧
      ∀ now key cost, (l.allowN buckets now key cost).decision.reason = .capacity ↔
        l.accepts key cost = true ∧ l.liveEntry now buckets key = none ∧
          (l.liveOthers now buckets key : Int) = cfg.maxClients) := by
  obtain ⟨-, hcapacity, -, hclients, -, hoverflow⟩ := new_ok hnew
  rw [← hcapacity, ← hclients, ← hoverflow]
  have hok := (bucketsOk_empty l).final history
  have hbounded := l.bounded_final history
  refine ⟨hbounded, ?_, ?_, ?_⟩
  · intro key b hb
    obtain ⟨hnonneg, hle, hseen⟩ := hok key b hb
    exact ⟨hnonneg, hle, hseen⟩
  · intro call key b hb hkeep
    exact Limiter.step_times hok hb hkeep
  · intro hpolicy
    refine ⟨fun call key b hb hlive => ?_,
      fun now key cost => Limiter.reason_capacity_iff hbounded hpolicy⟩
    have hkeep := Limiter.keeps_of_live hpolicy hb hlive
    obtain ⟨b', hb', -⟩ := Limiter.step_times hok hb hkeep
    exact ⟨hkeep, hb' ▸ rfl⟩

/-- Two clients take both places: a third is refused until one of them has
been idle for the time to live. -/
theorem limiter_invariant_full :
    let buckets :=
  Purge.final Limiter.small.step ∅ [⟨.ofSec 10, .allowN [97] 1⟩, ⟨.ofSec 9, .allowN [98] 1⟩]
    (Limiter.small.allowN buckets (.ofSec 68) [99] 1).decision.reason = .capacity ∧
    (Limiter.small.allowN buckets (.ofSec 69) [99] 1).decision.reason ≠ .capacity := by
  intro buckets
  have hinv := limiter_invariant new_small [⟨.ofSec 10, .allowN [97] 1⟩, ⟨.ofSec 9, .allowN [98] 1⟩]
  obtain ⟨-, -, -, hreject⟩ := hinv
  obtain ⟨-, hcapacity⟩ := hreject rfl
  constructor
  · exact (hcapacity (.ofSec 68) [99] 1).mpr (by decide +kernel)
  · exact fun h => absurd ((hcapacity (.ofSec 69) [99] 1).mp h).2.2 (by decide +kernel)

/-- A call with a cost of zero is answered before the places are counted. -/
theorem invalid_cost_at_full_limiter :
    let buckets :=
  Purge.final Limiter.small.step ∅ [⟨.ofSec 10, .allowN [97] 1⟩, ⟨.ofSec 9, .allowN [98] 1⟩]
    new Config.small = .ok Limiter.small ∧ Config.small.overflow = .rejectNew ∧
    Limiter.small.liveEntry (.ofSec 20) buckets [99] = none ∧
    (Limiter.small.liveOthers (.ofSec 20) buckets [99] : Int) = Config.small.maxClients ∧
    (Limiter.small.allowN buckets (.ofSec 20) [99] 0).decision.reason = .invalidCost := by
  refine ⟨new_small, rfl, ?_⟩
  decide +kernel

end GoClean.RateLimit
