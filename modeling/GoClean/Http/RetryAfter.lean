import GoClean.Http.Security
import GoClean.RateLimit.Waiting

/-!
# The Retry-After header

The header gives the wait in whole seconds, rounded up, and at least one. It
is computed in `int64`, where nothing overflows. A client that waits that
long is not refused for the rate.
-/

namespace GoClean.Http

open Go RateLimit

/-- `retryAfterSeconds` in the arithmetic of `int64`. -/
def retryAfterSecondsInt64 (value : Int64) : Int64 :=
  if value ≤ 0 then 1
  else
    let seconds := value / 1000000000
    let seconds := if value % 1000000000 ≠ 0 then seconds + 1 else seconds
    if seconds < 1 then 1 else seconds

theorem retryAfterSeconds_of_pos {d : ℤ} (h : 0 < d) :
    retryAfterSeconds d = if d % 1000000000 ≠ 0 then d / 1000000000 + 1 else d / 1000000000 := by
  have hdiv : d.tdiv 1000000000 = d / 1000000000 := Int.tdiv_eq_ediv_of_nonneg h.le
  have hmod : d.tmod 1000000000 = d % 1000000000 := Int.tmod_eq_emod_of_nonneg h.le
  simp only [retryAfterSeconds, Duration.second, hdiv, hmod, if_neg (not_le.mpr h)]
  split_ifs <;> omega

theorem retryAfterSeconds_least (d : ℤ) :
    1 ≤ retryAfterSeconds d ∧ d ≤ retryAfterSeconds d * 1000000000 ∧
    ∀ n : ℤ, 1 ≤ n → d ≤ n * 1000000000 → retryAfterSeconds d ≤ n := by
  by_cases hpos : 0 < d
  · rw [retryAfterSeconds_of_pos hpos]
    split_ifs with hmod
    · exact ⟨by omega, by omega, fun n _ _ => by omega⟩
    · exact ⟨by omega, by omega, fun n _ _ => by omega⟩
  · have hone : retryAfterSeconds d = 1 := if_pos (not_lt.mp hpos)
    rw [hone]
    exact ⟨le_rfl, by omega, fun n hn _ => hn⟩

theorem retryAfterSecondsInt64_eq (d : Int64) :
    (retryAfterSecondsInt64 d).toInt = retryAfterSeconds d.toInt := by
  have hzero : (0 : Int64).toInt = 0 := by decide
  have hone : (1 : Int64).toInt = 1 := by decide
  have hsecond : (1000000000 : Int64).toInt = 1000000000 := by decide
  by_cases hpos : 0 < d.toInt
  · have hlt := d.toInt_lt
    have hdiv : (d / 1000000000).toInt = d.toInt / 1000000000 := by
      rw [Int64.toInt_div, hsecond, Int.tdiv_eq_ediv_of_nonneg hpos.le, Int.bmod_def]
      omega
    have hmod : (d % 1000000000).toInt = d.toInt % 1000000000 := by
      rw [Int64.toInt_mod, hsecond, Int.tmod_eq_emod_of_nonneg hpos.le]
    have hnext : (d / 1000000000 + 1).toInt = d.toInt / 1000000000 + 1 := by
      rw [Int64.toInt_add, hdiv, hone, Int.bmod_def]
      omega
    have hneg : ¬d ≤ 0 := by rw [Int64.le_iff_toInt_le, hzero, not_le]; exact hpos
    have hrest : d % 1000000000 ≠ 0 ↔ d.toInt % 1000000000 ≠ 0 := by
      rw [ne_eq, ne_eq, ← Int64.toInt_inj, hmod, hzero]
    rw [retryAfterSeconds_of_pos hpos]
    simp only [retryAfterSecondsInt64, if_neg hneg, hrest, Int64.lt_iff_toInt_lt, hone]
    split_ifs <;> omega
  · have hnonpos : d.toInt ≤ 0 := not_lt.mp hpos
    have hle : d ≤ 0 := by rw [Int64.le_iff_toInt_le, hzero]; exact hnonpos
    rw [retryAfterSecondsInt64, if_pos hle, hone]
    exact (if_pos hnonpos).symm

/-- Waiting for `RetryAfter`, for `Reset` and for what the header says. -/
theorem waiting_exact {cfg : Config} {l : Limiter} (hnew : new cfg = .ok l)
    (history : List Call) (now : Reading) (key : GoString) (cost : Int) :
    let buckets := Purge.final l.step ∅ history
    let outcome := l.allowN buckets now key cost
    (∀ b, buckets.lookup key = some b → b.lastRefill ≤ now →
      outcome.decision.reason = .rateLimited →
      outcome.decision.retryAfter < maxRetryDuration →
      ∀ between t, (∀ call ∈ between, l.touches key call = false) → now ≤ t →
        let later := Purge.final l.step outcome.buckets between
        ((l.liveEntry t later key).isSome → ((l.allowN later t key cost).decision.allowed = true ↔
          now.val.nanos + outcome.decision.retryAfter ≤ t.val.nanos)) ∧
        (now.val.nanos + retryAfterSeconds outcome.decision.retryAfter * 1000000000 ≤ t.val.nanos →
          (l.allowN later t key cost).decision.reason ≠ .rateLimited)) ∧
    (outcome.decision.reason = .allowed ∨ outcome.decision.reason = .rateLimited →
      ∃ b, outcome.buckets.lookup key = some b ∧
        (durationForTokens (cfg.capacity - b.tokens) cfg.refillRate.toRat < maxRetryDuration →
          ∀ t, b.lastRefill ≤ t → (l.refill t b).tokens = cfg.capacity →
            outcome.decision.reset.nanos ≤ t.val.nanos ∧
            ∃ r : Reading, r.val = outcome.decision.reset ∧ b.lastRefill ≤ r ∧
              (l.refill r b).tokens = cfg.capacity)) ∧
    ∀ d : Int64, (1 ≤ retryAfterSeconds d.toInt ∧ d.toInt ≤ retryAfterSeconds d.toInt * 1000000000 ∧
        ∀ n : ℤ, 1 ≤ n → d.toInt ≤ n * 1000000000 → retryAfterSeconds d.toInt ≤ n) ∧
      (retryAfterSecondsInt64 d).toInt = retryAfterSeconds d.toInt := by
  intro buckets outcome
  obtain ⟨-, hcapacity, hrate, -⟩ := new_ok hnew
  have hok : BucketsOk l buckets := (bucketsOk_empty l).final history
  refine ⟨?_, ?_, fun d => ⟨retryAfterSeconds_least d.toInt, retryAfterSecondsInt64_eq d⟩⟩
  · intro b hb hlast hreason hcap between t huntouched hle later
    have htime : ∀ e, buckets.lookup key = some e → e.lastRefill ≤ now := fun e he =>
      Option.some.inj (hb.symm.trans he) ▸ hlast
    obtain ⟨hallowed, hwait⟩ := Limiter.allowN_again hok htime hreason hcap huntouched hle
    refine ⟨hallowed, fun hheader => hwait (le_trans ?_ hheader)⟩
    exact Int.add_le_add_left (retryAfterSeconds_least _).2.1 _
  · intro hreason
    rw [← hcapacity, ← hrate]
    exact Limiter.allowN_reset_least hok hreason

/-- Two of three tokens are missing: two seconds later the call is allowed,
one second later it is not, whoever else calls in between. -/
theorem waiting_exact_two_seconds :
    let buckets := Purge.final Limiter.small.step ∅ [⟨.ofSec 10, .allowN [107] 5⟩]
    let outcome := Limiter.small.allowN buckets (.ofSec 11) [107] 3
    let later := Purge.final Limiter.small.step outcome.buckets [⟨.ofSec 12, .allowN [97] 1⟩]
    outcome.decision.retryAfter = 2 * Duration.second ∧
    (Limiter.small.allowN later (.ofSec 12) [107] 3).decision.allowed ≠ true ∧
    (Limiter.small.allowN later (.ofSec 13) [107] 3).decision.allowed = true := by
  intro buckets outcome later
  have hretry : outcome.decision.retryAfter = 2 * Duration.second := by decide +kernel
  have hwait := (waiting_exact new_small [⟨.ofSec 10, .allowN [107] 5⟩] (.ofSec 11) [107] 3).1
    ⟨0, .ofSec 10, .ofSec 10⟩ (by decide +kernel) (by decide) (by decide +kernel)
      (by decide +kernel)
    [⟨.ofSec 12, .allowN [97] 1⟩]
  refine ⟨hretry, fun hallowed => ?_, ?_⟩
  · have hlate := ((hwait (.ofSec 12) (by decide) (by decide)).1 (by decide +kernel)).mp hallowed
    exact absurd hlate (by decide +kernel)
  · exact ((hwait (.ofSec 13) (by decide) (by decide)).1 (by decide +kernel)).mpr
      (by decide +kernel)

end GoClean.Http
