import GoClean.RateLimit.Admission

/-!
# How long to wait

`durationForTokens` is the least number of nanoseconds in which the refill
brings the tokens, as long as it does not reach the longest duration. So
`RetryAfter` and `Reset` name the first instant at which a bucket that is left
alone holds what was asked for, or is full.
-/

namespace GoClean.RateLimit

open Go

theorem durationForTokens_le_iff {tokens rate : ℚ} (hrate : 0 < rate)
    (hcap : durationForTokens tokens rate < maxRetryDuration) {n : ℤ} (hn : 0 ≤ n) :
    durationForTokens tokens rate ≤ n ↔ tokens ≤ n / 1000000000 * rate := by
  unfold durationForTokens at hcap ⊢
  have hn' : (0 : ℚ) ≤ n := Int.cast_nonneg hn
  by_cases hpos : tokens ≤ 0
  · rw [if_pos hpos]
    have hgain : (0 : ℚ) ≤ n / 1000000000 * rate := by positivity
    exact ⟨fun _ => hpos.trans hgain, fun _ => hn⟩
  · rw [if_neg hpos] at hcap ⊢
    dsimp only at hcap ⊢
    split_ifs at hcap ⊢ with hlong
    · exact absurd hcap (lt_irrefl _)
    · refine Int.ceil_le.trans ?_
      rw [← le_div_iff₀ (by norm_num), div_le_iff₀ hrate]

namespace Limiter

variable {l : Limiter} {now t : Reading} {buckets : Buckets} {key : GoString}
    {cost : Int} {b : Bucket}

theorem refill_tokens (hb : b.Ok l) (h : b.lastRefill ≤ t) : (l.refill t b).tokens =
    min (l.capacity : ℚ) (b.tokens +
      (min (t.val.nanos - b.lastRefill.val.nanos) (2 ^ 63 - 1) : ℤ) /
      1000000000 * l.refillRate) := by
  by_cases hlt : b.lastRefill < t
  · rw [refill_of_after hb.lastSeen_eq hlt, gain_eq hlt]
  · have hle : t ≤ b.lastRefill := Time.reading_not_lt.mp hlt
    have hsame : t.val.nanos - b.lastRefill.val.nanos = 0 :=
      sub_eq_zero.mpr (le_antisymm (Time.reading_le_iff.mp hle) (Time.reading_le_iff.mp h))
    rw [refill_of_le hb.lastSeen_eq hle, hsame]
    simp [hb.tokens_le]

theorem le_refill_tokens_iff (hb : b.Ok l) (h : b.lastRefill ≤ t) {n : ℚ} (hn : n ≤ l.capacity)
    (hcap : durationForTokens (n - b.tokens) l.refillRate < maxRetryDuration) :
    n ≤ (l.refill t b).tokens ↔
      b.lastRefill.val.nanos + durationForTokens (n - b.tokens) l.refillRate ≤ t.val.nanos := by
  have hle := Time.reading_le_iff.mp h
  have helapsed : 0 ≤ min (t.val.nanos - b.lastRefill.val.nanos) (2 ^ 63 - 1) := by omega
  have hcut : @LT.lt ℤ _ (durationForTokens (n - b.tokens) l.refillRate) (2 ^ 63 - 1) := hcap
  rw [refill_tokens hb h, le_min_iff, ← sub_le_iff_le_add',
    ← durationForTokens_le_iff l.refillRate_pos hcap helapsed]
  generalize durationForTokens (n - b.tokens) l.refillRate = d at hcut
  constructor
  · rintro ⟨-, hd⟩
    have hd' : @LE.le ℤ _ d (min (t.val.nanos - b.lastRefill.val.nanos) (2 ^ 63 - 1)) := hd
    omega
  · intro hd
    have hd' : @LE.le ℤ _ d (min (t.val.nanos - b.lastRefill.val.nanos) (2 ^ 63 - 1)) := by omega
    exact ⟨hn, hd'⟩

-- ---------------------------------------------------------------------------
-- The decision
-- ---------------------------------------------------------------------------

theorem take_refused (h : (l.take now cost b).1.reason = .rateLimited) :
    (l.take now cost b).2 = b ∧ (l.take now cost b).1.retryAfter = durationForTokens
    (cost - b.tokens) l.refillRate := by
  by_cases hle : (cost : ℚ) ≤ b.tokens
  · simp [take, hle] at h
  · simp [take, hle]

theorem take_reason (now : Reading) (cost : Int) (b : Bucket) :
    (l.take now cost b).1.reason = .rateLimited ↔ (l.take now cost b).1.allowed = false := by
  by_cases h : (cost : ℚ) ≤ b.tokens <;> simp [take, h]

theorem take_reset (now : Reading) (cost : Int) (b : Bucket) : (l.take now cost b).1.reset =
    now.val.add (durationForTokens (l.capacity - (l.take now cost b).2.tokens) l.refillRate) := by
  by_cases h : (cost : ℚ) ≤ b.tokens <;> simp [take, h, resetAt]

theorem serve_allowed_iff (hle : b.lastRefill ≤ t) :
    (l.serve t cost b).1.allowed = true ↔ (cost : ℚ) ≤ (l.refill t b).tokens := by
  rw [serve, effectiveNow_of_le hle, take_allowed, decide_eq_true_eq]

theorem serve_reason_iff (t : Reading) (cost : Int) (b : Bucket) :
    (l.serve t cost b).1.reason = .rateLimited ↔ (l.serve t cost b).1.allowed = false :=
  take_reason ..

theorem serve_full (hcost : cost ≤ l.capacity) :
    (l.serve t cost (l.fullBucket t)).1.allowed = true := by
  have hself : (l.fullBucket t).lastRefill ≤ t := le_rfl
  have hsame : l.refill t (l.fullBucket t) = l.fullBucket t := refill_of_le rfl le_rfl
  rw [serve_allowed_iff hself, hsame]
  exact Int.cast_le.mpr hcost

/-- The bucket a call finds at a reading not before the times of the key's
bucket. -/
theorem target_lastRefill_le (h : ∀ b, buckets.lookup key = some b → b.lastRefill ≤ now) :
    (l.target now buckets key).lastRefill ≤ now := by
  unfold target
  cases hlive : l.liveEntry now buckets key with
  | none => exact le_rfl
  | some b => exact h b (liveEntry_some.mp hlive).1

theorem allowN_on_bucket (h : (l.allowN buckets now key cost).decision.reason = .allowed ∨
      (l.allowN buckets now key cost).decision.reason = .rateLimited) :
    l.accepts key cost = true ∧
    (l.allowN buckets now key cost).decision = (l.serve now cost (l.target now buckets key)).1 ∧
    (l.allowN buckets now key cost).buckets.lookup key = some
    (l.serve now cost (l.target now buckets key)).2 := by
  cases hacc : l.accepts key cost with
  | false =>
    rw [allowN_rejected hacc, rejection] at h
    split at h <;> simp at h
  | true =>
    by_cases hroom : (l.room now buckets key).2 = .full
    · simp [allowN_refused hacc hroom] at h
    · obtain ⟨hdecision, hbuckets⟩ := allowN_served now buckets hacc hroom
      refine ⟨rfl, hdecision, ?_⟩
      rw [hbuckets, AList.lookup_insert]

/-- A call that is refused for the rate leaves a bucket refilled up to its
reading, and says how long the missing tokens take. -/
theorem allowN_rateLimited (hok : BucketsOk l buckets)
    (htime : ∀ b, buckets.lookup key = some b → b.lastRefill ≤ now)
    (h : (l.allowN buckets now key cost).decision.reason = .rateLimited) :
    l.accepts key cost = true ∧ ∃ b : Bucket, b.Ok l ∧ b.lastRefill.val.nanos = now.val.nanos ∧
      (l.allowN buckets now key cost).buckets.lookup key = some b ∧
      (l.allowN buckets now key cost).decision.retryAfter = durationForTokens
      (cost - b.tokens) l.refillRate := by
  obtain ⟨hacc, hdecision, hleft⟩ := allowN_on_bucket (.inr h)
  have htarget : (l.target now buckets key).lastRefill ≤ now := target_lastRefill_le htime
  rw [serve, effectiveNow_of_le htarget] at hdecision hleft
  rw [hdecision] at h ⊢
  obtain ⟨hsame, hretry⟩ := take_refused h
  refine ⟨hacc, l.refill now (l.target now buckets key), refill_ok hok.target,
    refill_lastRefill hok.target htarget, ?_, hretry⟩
  rw [hleft, hsame]

/-- Calls that do not touch the key leave its bucket as it is, if they leave
it. -/
theorem final_untouched (calls : List Call) :
    ∀ {buckets}, (∀ call ∈ calls, l.touches key call = false) →
    (Purge.final l.step buckets calls).lookup key = some b → buckets.lookup key = some b := by
  induction calls with
  | nil => exact fun _ h => h
  | cons call rest ih =>
    intro buckets huntouched h
    have hrest := ih (fun c hc => huntouched c (List.mem_cons_of_mem _ hc)) h
    exact (step_untouched buckets (huntouched call List.mem_cons_self)).2 b hrest

theorem allowN_live (hacc : l.accepts key cost = true)
    (hlive : l.liveEntry t buckets key = some b) :
    (l.allowN buckets t key cost).decision = (l.serve t cost b).1 := by
  have hroom : (l.room t buckets key).2 ≠ .full := by simp [room, hlive]
  rw [(allowN_served t buckets hacc hroom).1, target, hlive, Option.getD_some]

theorem allowN_new (hacc : l.accepts key cost = true) (hlive : l.liveEntry t buckets key = none) :
    (l.allowN buckets t key cost).decision.reason ≠ .rateLimited := by
  by_cases hroom : (l.room t buckets key).2 = .full
  · rw [allowN_refused hacc hroom]
    exact DenyReason.noConfusion
  · have hcost : cost ≤ l.capacity := by
      simp only [accepts, Bool.and_eq_true, decide_eq_true_eq] at hacc
      exact hacc.2.2
    rw [(allowN_served t buckets hacc hroom).1, target, hlive, Option.getD_none, ne_eq,
      serve_reason_iff, serve_full hcost]
    exact Bool.noConfusion

theorem allowN_again (hok : BucketsOk l buckets)
    (htime : ∀ b, buckets.lookup key = some b → b.lastRefill ≤ now)
    (h : (l.allowN buckets now key cost).decision.reason = .rateLimited)
    (hcap : (l.allowN buckets now key cost).decision.retryAfter < maxRetryDuration)
    {between : List Call}
    (huntouched : ∀ call ∈ between, l.touches key call = false) (hle : now ≤ t) :
    let later := Purge.final l.step (l.allowN buckets now key cost).buckets between
    ((l.liveEntry t later key).isSome → ((l.allowN later t key cost).decision.allowed = true ↔
      now.val.nanos + (l.allowN buckets now key cost).decision.retryAfter ≤ t.val.nanos)) ∧
    (now.val.nanos + (l.allowN buckets now key cost).decision.retryAfter ≤ t.val.nanos →
      (l.allowN later t key cost).decision.reason ≠ .rateLimited) := by
  intro later
  obtain ⟨hacc, b, hb, hlast, hleft, hretry⟩ := allowN_rateLimited hok htime h
  rw [hretry] at hcap ⊢
  have hcost : (cost : ℚ) ≤ l.capacity := by
    simp only [accepts, Bool.and_eq_true, decide_eq_true_eq] at hacc
    exact Int.cast_le.mpr hacc.2.2
  have hble : b.lastRefill ≤ t := by
    rw [Time.reading_le_iff, hlast]
    exact hle
  have hserve : (l.serve t cost b).1.allowed = true ↔
      now.val.nanos + durationForTokens (cost - b.tokens) l.refillRate ≤ t.val.nanos := by
    rw [serve_allowed_iff hble, le_refill_tokens_iff hb hble hcost hcap, hlast]
  have hfound : ∀ e, l.liveEntry t later key = some e → e = b := fun e he =>
    Option.some.inj ((final_untouched between huntouched (liveEntry_some.mp he).1).symm.trans hleft)
  cases hlive : l.liveEntry t later key with
  | none => exact ⟨Bool.noConfusion, fun _ => allowN_new hacc hlive⟩
  | some e =>
    obtain rfl := hfound e hlive
    rw [allowN_live hacc hlive]
    refine ⟨fun _ => hserve, fun hwait => ?_⟩
    rw [ne_eq, serve_reason_iff, hserve.mpr hwait]
    exact Bool.noConfusion

-- ---------------------------------------------------------------------------
-- When it is full
-- ---------------------------------------------------------------------------

theorem serve_reset (now : Reading) (cost : Int) (hb : b.Ok l) : ∃ effective : Reading,
    effective.val.nanos = (l.serve now cost b).2.lastRefill.val.nanos ∧
    (l.serve now cost b).1.reset =
      effective.val.add (durationForTokens (l.capacity - (l.serve now cost b).2.tokens)
        l.refillRate) := by
  refine ⟨effectiveNow now b, ?_, take_reset ..⟩
  rw [serve, take_bucket]
  exact (refill_lastRefill hb (le_effectiveNow now b)).symm

theorem durationForTokens_nonneg (tokens : ℚ) {rate : ℚ} (hrate : 0 < rate) :
    0 ≤ durationForTokens tokens rate := by
  unfold durationForTokens
  split
  · exact le_rfl
  · next hpos =>
    dsimp only
    split
    · exact show (0 : ℤ) ≤ 2 ^ 63 - 1 by norm_num
    · have htokens : 0 < tokens := not_le.mp hpos
      exact Int.ceil_nonneg (by positivity)

/-- If the bucket a call leaves is ever full, `Reset` is the first time it
is. -/
theorem serve_reset_least (hb : b.Ok l) (hcost : 0 ≤ cost)
    (hcap : durationForTokens (l.capacity - (l.serve now cost b).2.tokens) l.refillRate <
      maxRetryDuration)
    (hle : (l.serve now cost b).2.lastRefill ≤ t)
    (hfull : (l.refill t (l.serve now cost b).2).tokens = l.capacity) :
    (l.serve now cost b).1.reset.nanos ≤ t.val.nanos ∧
    ∃ r : Reading, r.val = (l.serve now cost b).1.reset ∧ (l.serve now cost b).2.lastRefill ≤ r ∧
      (l.refill r (l.serve now cost b).2).tokens = l.capacity := by
  have hok : (l.serve now cost b).2.Ok l := serve_ok hb hcost
  obtain ⟨effective, heff, hreset⟩ := serve_reset now cost hb
  have hnonneg :=
    durationForTokens_nonneg (l.capacity - (l.serve now cost b).2.tokens) l.refillRate_pos
  have hiff : ∀ {t}, (l.serve now cost b).2.lastRefill ≤ t → _ := fun {t} hle =>
    le_refill_tokens_iff hok hle le_rfl hcap
  rw [hreset]
  generalize (l.serve now cost b).2 = after at *
  generalize hd : durationForTokens (l.capacity - after.tokens) l.refillRate = d at *
  have hd' : @LE.le ℤ _ 0 d ∧ @LT.lt ℤ _ d (2 ^ 63 - 1) := ⟨hnonneg, hcap⟩
  have ht := (hiff hle).mp hfull.ge
  have htop := Time.nanos_range t
  have hbottom := Time.nanos_range effective
  have hsum : (effective.val.add d).nanos = effective.val.nanos + d :=
    Time.nanos_add effective (by omega) (by omega) (by omega)
  refine ⟨by rw [hsum]; omega, ⟨_, Time.add_normal effective d⟩, rfl, ?_⟩
  have hr : after.lastRefill ≤ ⟨_, Time.add_normal effective d⟩ := by
    rw [Time.reading_le_iff, hsum]
    omega
  refine ⟨hr, le_antisymm (refill_ok hok).tokens_le ((hiff hr).mpr ?_)⟩
  rw [hsum]
  omega

theorem allowN_reset_least (hok : BucketsOk l buckets)
    (h : (l.allowN buckets now key cost).decision.reason = .allowed ∨
      (l.allowN buckets now key cost).decision.reason = .rateLimited) :
    ∃ b, (l.allowN buckets now key cost).buckets.lookup key = some b ∧
      (durationForTokens (l.capacity - b.tokens) l.refillRate < maxRetryDuration →
        ∀ t, b.lastRefill ≤ t → (l.refill t b).tokens = l.capacity →
          (l.allowN buckets now key cost).decision.reset.nanos ≤ t.val.nanos ∧
          ∃ r : Reading, r.val = (l.allowN buckets now key cost).decision.reset ∧ b.lastRefill ≤ r ∧
            (l.refill r b).tokens = l.capacity) := by
  obtain ⟨hacc, hdecision, hleft⟩ := allowN_on_bucket h
  refine ⟨_, hleft, fun hcap t hle hfull => ?_⟩
  rw [hdecision]
  exact serve_reset_least hok.target (accepts_cost hacc) hcap hle hfull

end Limiter

end GoClean.RateLimit
