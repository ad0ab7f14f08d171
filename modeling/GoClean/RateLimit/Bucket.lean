import Mathlib.Tactic.FieldSimp
import GoClean.Lib.TokenBucket
import GoClean.RateLimit.Limiter

/-!
# One bucket

What serving a call does to the bucket it is served from: its count stays
between zero and the capacity, its two times agree and do not go back, and
its count follows the balance of `TokenBucket`.
-/

namespace GoClean.RateLimit

open Go TokenBucket

structure Bucket.Ok (l : Limiter) (b : Bucket) : Prop where
  tokens_nonneg : 0 ≤ b.tokens
  tokens_le : b.tokens ≤ l.capacity
  lastSeen_eq : b.lastSeen = b.lastRefill

def Bucket.level (b : Bucket) : Level ℚ := ⟨b.tokens, b.lastRefill.val.nanos / 1000000000⟩

namespace Limiter

variable {l : Limiter} {now : Reading} {b : Bucket} {cost : Int}

theorem fullBucket_ok (l : Limiter) (now : Reading) : (l.fullBucket now).Ok l where
  tokens_nonneg := Int.cast_nonneg l.capacity_pos.le
  tokens_le := le_rfl
  lastSeen_eq := rfl

def gain (l : Limiter) (now : Reading) (b : Bucket) : ℚ :=
  (now.val.sub b.lastRefill).seconds * l.refillRate

theorem refill_of_after (hb : b.lastSeen = b.lastRefill) (h : b.lastRefill < now) :
    l.refill now b = ⟨min l.capacity (b.tokens + l.gain now b), now, now⟩ := by
  have hafter : now.val.after b.lastRefill = true := (Time.after_iff_nanos now b.lastRefill).mpr h
  have hmin : ∀ x : ℚ, (if (l.capacity : ℚ) < x then (l.capacity : ℚ) else x) =
      min (l.capacity : ℚ) x :=
    fun x => by rw [min_def]; split_ifs <;> linarith
  simp only [refill, hafter, if_true, hb, hmin, gain]

theorem refill_of_le (hb : b.lastSeen = b.lastRefill) (h : now ≤ b.lastRefill) :
    l.refill now b = b := by
  have hafter : now.val.after b.lastRefill = false :=
    (Time.before_eq_false_iff_nanos b.lastRefill now).mpr h
  simp only [refill, hafter, hb, Bool.false_eq_true, if_false]

theorem gain_eq (h : b.lastRefill < now) :
    l.gain now b = (min (now.val.nanos - b.lastRefill.val.nanos) (2 ^ 63 - 1) : ℤ) / 1000000000 *
    l.refillRate := by
  rw [gain, Duration.seconds, Time.sub_of_before now b.lastRefill h]

theorem gain_nonneg (h : b.lastRefill < now) : 0 ≤ l.gain now b := by
  have hlt : b.lastRefill.val.nanos < now.val.nanos := h
  have hdiff : 0 ≤ min (now.val.nanos - b.lastRefill.val.nanos) (2 ^ 63 - 1) := by omega
  rw [gain_eq h]
  exact mul_nonneg (div_nonneg (Int.cast_nonneg hdiff) (by norm_num)) l.refillRate_pos.le

theorem refill_ok (hb : b.Ok l) : (l.refill now b).Ok l := by
  by_cases h : b.lastRefill < now
  · rw [refill_of_after hb.lastSeen_eq h]
    exact {
      tokens_nonneg :=
        le_min (Int.cast_nonneg l.capacity_pos.le) (add_nonneg hb.tokens_nonneg (gain_nonneg h))
      tokens_le := min_le_left _ _
      lastSeen_eq := rfl }
  · rw [refill_of_le hb.lastSeen_eq (Time.reading_not_lt.mp h)]
    exact hb

def paid (d : Decision) (cost : Int) : ℚ := if d.allowed then cost else 0

/-- What a decision leaves in the bucket: the times stay, an allowed call has
paid. -/
theorem take_bucket : (l.take now cost b).2 =
    { b with tokens := b.tokens - paid (l.take now cost b).1 cost } := by
  by_cases h : (cost : ℚ) ≤ b.tokens <;> simp [take, paid, h]

theorem take_allowed : (l.take now cost b).1.allowed = decide ((cost : ℚ) ≤ b.tokens) := by
  by_cases h : (cost : ℚ) ≤ b.tokens <;> simp [take, h]

theorem take_reason_ne : (l.take now cost b).1.reason ≠ .capacity := by
  by_cases h : (cost : ℚ) ≤ b.tokens <;> simp [take, h]

theorem effectiveNow_eq (now : Reading) (b : Bucket) :
    effectiveNow now b = if now < b.lastRefill then b.lastRefill else now := by
  unfold effectiveNow
  by_cases h : now < b.lastRefill
  · rw [if_pos h, if_pos ((Time.before_iff_nanos now b.lastRefill).mpr h)]
  · rw [if_neg h, if_neg fun hb => h ((Time.before_iff_nanos now b.lastRefill).mp hb)]

theorem le_effectiveNow (now : Reading) (b : Bucket) : b.lastRefill ≤ effectiveNow now b := by
  rw [effectiveNow_eq]
  split
  · exact le_rfl
  · next h => exact Time.reading_not_lt.mp h

theorem effectiveNow_of_le (h : b.lastRefill ≤ now) : effectiveNow now b = now := by
  rw [effectiveNow_eq, if_neg (Time.reading_not_lt.mpr h)]

theorem refill_lastRefill (hb : b.Ok l) (h : b.lastRefill ≤ now) :
    (l.refill now b).lastRefill.val.nanos = now.val.nanos := by
  by_cases hlt : b.lastRefill < now
  · rw [refill_of_after hb.lastSeen_eq hlt]
  · have hle := Time.reading_not_lt.mp hlt
    rw [refill_of_le hb.lastSeen_eq hle]
    exact le_antisymm h hle

theorem take_ok (hb : b.Ok l) (hcost : 0 ≤ cost) : (l.take now cost b).2.Ok l := by
  have hcost' : (0 : ℚ) ≤ cost := Int.cast_nonneg hcost
  have hpaid : paid (l.take now cost b).1 cost ≤ b.tokens ∧
      0 ≤ paid (l.take now cost b).1 cost := by
    rw [paid, take_allowed]
    split
    · next h => exact ⟨of_decide_eq_true h, hcost'⟩
    · exact ⟨hb.tokens_nonneg, le_rfl⟩
  have hle := hb.tokens_le
  rw [take_bucket]
  refine ⟨?_, ?_, hb.lastSeen_eq⟩
  · dsimp only
    linarith
  · dsimp only
    linarith

theorem serve_ok (hb : b.Ok l) (hcost : 0 ≤ cost) : (l.serve now cost b).2.Ok l :=
  take_ok (refill_ok hb) hcost

-- ---------------------------------------------------------------------------
-- The balance
-- ---------------------------------------------------------------------------

theorem gain_le (h : b.lastRefill < now) :
    l.gain now b ≤
      l.refillRate * (now.val.nanos / 1000000000 - b.lastRefill.val.nanos / 1000000000) := by
  have hcut : (min (now.val.nanos - b.lastRefill.val.nanos) (2 ^ 63 - 1) : ℤ) ≤
      now.val.nanos - b.lastRefill.val.nanos := min_le_left _ _
  have hcut' : ((min (now.val.nanos - b.lastRefill.val.nanos) (2 ^ 63 - 1) : ℤ) : ℚ) ≤
      now.val.nanos - b.lastRefill.val.nanos := by exact_mod_cast hcut
  rw [gain_eq h, mul_comm, ← sub_div]
  exact mul_le_mul_of_nonneg_left (div_le_div_of_nonneg_right hcut' (by norm_num))
    l.refillRate_pos.le

theorem refill_evolves (hb : b.Ok l) (h : b.lastRefill ≤ now) :
    Evolves l.refillRate b.level 0 (l.refill now b).level := by
  by_cases hlt : b.lastRefill < now
  · rw [refill_of_after hb.lastSeen_eq hlt]
    have hle : (b.lastRefill.val.nanos : ℚ) ≤ now.val.nanos :=
      Int.cast_le.mpr (Time.reading_le_iff.mp h)
    refine .gain .refl (div_le_div_of_nonneg_right hle (by norm_num)) ?_
    exact le_trans (min_le_right _ _) (add_le_add le_rfl (gain_le hlt))
  · rw [refill_of_le hb.lastSeen_eq (Time.reading_not_lt.mp hlt)]
    exact .refl

theorem serve_evolves (hb : b.Ok l) :
    Evolves l.refillRate b.level (paid (l.serve now cost b).1 cost)
    (l.serve now cost b).2.level := by
  have hrefill := refill_evolves hb (le_effectiveNow now b)
  have htake : (l.serve now cost b).2 = { l.refill (effectiveNow now b) b with
      tokens := (l.refill (effectiveNow now b) b).tokens - paid (l.serve now cost b).1 cost } :=
        take_bucket
  rw [← zero_add (paid _ _), htake]
  exact .draw hrefill rfl (by simp [Bucket.level])

theorem serve_lastRefill (hb : b.Ok l) :
    (l.serve now cost b).2.lastRefill.val.nanos = max b.lastRefill.val.nanos now.val.nanos := by
  have htake : (l.serve now cost b).2.lastRefill =
      (l.refill (effectiveNow now b) b).lastRefill := by
    rw [serve, take_bucket]
  rw [htake, refill_lastRefill hb (le_effectiveNow now b), effectiveNow_eq]
  split
  · next h => exact (max_eq_left (le_of_lt (α := ℤ) h)).symm
  · next h => exact (max_eq_right (Time.reading_not_lt.mp h)).symm

end Limiter

end GoClean.RateLimit
