import GoClean.RateLimit.Invariant
import GoClean.RateLimit.Waiting

/-!
# What Remaining promises

`Remaining` is rounded down from a count that is first raised by a billionth
of a token, while a call is admitted by the count itself. The two agree unless
the count lies within that billionth below a whole number. (A bucket seen in
the last moments of the range of `time.Time` expires at once; then a full one
takes its place.)
-/

namespace GoClean.RateLimit

open Go

def tolerance : ℚ := 1 / 1000000000

theorem wholeTokens_eq {tokens : ℚ} {capacity : Int} (hnonneg : 0 ≤ tokens)
    (hle : tokens ≤ capacity) :
    wholeTokens tokens capacity = ⌊tokens + tolerance⌋ := by
  have hfloor : 0 ≤ ⌊tokens + tolerance⌋ := Int.floor_nonneg.mpr (by unfold tolerance; linarith)
  have htop : ⌊tokens + tolerance⌋ < capacity + 1 := by
    rw [Int.floor_lt, Int.cast_add, Int.cast_one]
    unfold tolerance
    linarith
  rw [wholeTokens, ← tolerance]
  split_ifs with hzero
  · obtain rfl : tokens = 0 := le_antisymm hzero hnonneg
    decide +kernel
  · dsimp only
    rw [if_neg (not_lt.mpr hfloor), if_neg (by omega)]

theorem honest_iff {tokens : ℚ} {capacity : Int} (hnonneg : 0 ≤ tokens) (hle : tokens ≤ capacity) :
    (∀ n : Int, 1 ≤ n → n ≤ capacity → ((n : ℚ) ≤ tokens ↔ n ≤ ⌊tokens + tolerance⌋)) ↔
      ⌊tokens + tolerance⌋ = ⌊tokens⌋ := by
  have hmono : ⌊tokens⌋ ≤ ⌊tokens + tolerance⌋ := Int.floor_le_floor (by unfold tolerance; linarith)
  have hfloor : 0 ≤ ⌊tokens⌋ := Int.floor_nonneg.mpr hnonneg
  have htop : ⌊tokens + tolerance⌋ < capacity + 1 := by
    rw [Int.floor_lt, Int.cast_add, Int.cast_one]
    unfold tolerance
    linarith
  constructor
  · intro h
    by_contra hne
    -- the raised count itself is a cost that tells them apart
    have hpaid := (h ⌊tokens + tolerance⌋ (by omega) (by omega)).mpr le_rfl
    rw [← Int.le_floor] at hpaid
    omega
  · intro h n _ _
    rw [h, Int.le_floor]

namespace Limiter

variable {l : Limiter} {now : Reading} {buckets : Buckets} {key : GoString}
    {cost : Int} {b : Bucket}

/-- The tokens a call finds: what its bucket held, refilled up to the reading
if that is later, or the capacity if it has no unexpired one. -/
def available (l : Limiter) (now : Reading) (buckets : Buckets) (key : GoString) : ℚ :=
  match l.liveEntry now buckets key with
  | none => l.capacity
  | some b => min (l.capacity : ℚ) (b.tokens +
      (min (max 0 (now.val.nanos - b.lastRefill.val.nanos)) (2 ^ 63 - 1) : ℤ) /
      1000000000 * l.refillRate)

def expiresAtOnce (l : Limiter) (now : Reading) (buckets : Buckets) (key : GoString) : Bool :=
  let seen := effectiveNow now (l.target now buckets key)
  l.isExpired now ⟨0, seen, seen⟩

theorem refill_target_tokens (hok : BucketsOk l buckets) :
    (l.refill (effectiveNow now (l.target now buckets key)) (l.target now buckets key)).tokens =
      l.available now buckets key := by
  unfold target available
  cases hlive : l.liveEntry now buckets key with
  | none =>
    have hself : effectiveNow now (l.fullBucket now) = now := effectiveNow_of_le le_rfl
    have hfull : l.refill now (l.fullBucket now) = l.fullBucket now := refill_of_le rfl le_rfl
    rw [Option.getD_none, hself, hfull]
    rfl
  | some b =>
    have hb : b.Ok l := hok key b (liveEntry_some.mp hlive).1
    have helapsed : (effectiveNow now b).val.nanos - b.lastRefill.val.nanos =
        max 0 (now.val.nanos - b.lastRefill.val.nanos) := by
      rw [effectiveNow_eq]
      split
      · next h =>
        have hlt : now.val.nanos < b.lastRefill.val.nanos := h
        omega
      · next h =>
        have hge := Time.reading_le_iff.mp (Time.reading_not_lt.mp h)
        omega
    rw [Option.getD_some, refill_tokens hb (le_effectiveNow now b), helapsed]

theorem serve_target_tokens (hok : BucketsOk l buckets) :
    (l.serve now cost (l.target now buckets key)).2.tokens =
      l.available now buckets key - if (cost : ℚ) ≤ l.available now buckets key then
      (cost : ℚ) else 0 := by
  rw [serve, take_bucket, paid, take_allowed, refill_target_tokens hok]
  simp only [decide_eq_true_eq]

theorem take_remaining (now : Reading) (cost : Int) (b : Bucket) :
    (l.take now cost b).1.remaining = wholeTokens (l.take now cost b).2.tokens l.capacity := by
  by_cases h : (cost : ℚ) ≤ b.tokens <;> simp [take, h]

theorem serve_again (hb : b.Ok l) (h : now ≤ b.lastRefill) :
    (l.serve now cost b).1.allowed = true ↔ (cost : ℚ) ≤ b.tokens := by
  have heff : effectiveNow now b ≤ b.lastRefill := by
    rw [effectiveNow_eq]
    split
    · exact le_rfl
    · exact h
  rw [serve, take_allowed, refill_of_le hb.lastSeen_eq heff, decide_eq_true_eq]

theorem isExpired_congr {c : Bucket} (h : b.lastSeen.val.nanos = c.lastSeen.val.nanos) :
    l.isExpired now b = l.isExpired now c := by
  have hbefore := Time.before_iff_nanos now ⟨_, Time.add_normal b.lastSeen l.idleTTL⟩
  have hbefore' := Time.before_iff_nanos now ⟨_, Time.add_normal c.lastSeen l.idleTTL⟩
  rw [Time.nanos_add_congr h] at hbefore
  rw [isExpired, isExpired, Bool.eq_iff_iff.mpr (hbefore.trans hbefore'.symm)]

/-- A bucket that was seen at the reading or later is still live, or expires
at once. -/
theorem isExpired_served (hok : BucketsOk l buckets) (hcost : 0 ≤ cost) :
    l.isExpired now (l.serve now cost (l.target now buckets key)).2 =
      l.expiresAtOnce now buckets key := by
  refine isExpired_congr ?_
  rw [(serve_ok hok.target hcost).lastSeen_eq, serve, take_bucket]
  exact refill_lastRefill hok.target (le_effectiveNow now _)

theorem allowN_next (hok : BucketsOk l buckets) (hbound : l.Bounded buckets)
    (hreason : (l.allowN buckets now key cost).decision.reason = .allowed ∨
      (l.allowN buckets now key cost).decision.reason = .rateLimited) {n : Int}
      (hn : 1 ≤ n ∧ n ≤ l.capacity) :
    (l.allowN (l.allowN buckets now key cost).buckets now key n).decision.allowed = true ↔
      l.expiresAtOnce now buckets key = true ∨
        (n : ℚ) ≤ (l.serve now cost (l.target now buckets key)).2.tokens := by
  obtain ⟨hacc, -, hleft⟩ := allowN_on_bucket hreason
  have hcost := accepts_cost hacc
  have hkey : l.accepts key n = true := by
    simp only [accepts, Bool.and_eq_true, decide_eq_true_eq] at hacc ⊢
    exact ⟨hacc.1, hn⟩
  rw [← isExpired_served hok hcost]
  cases hexpired : l.isExpired now (l.serve now cost (l.target now buckets key)).2 with
  | false =>
    have hlater : now ≤ (l.serve now cost (l.target now buckets key)).2.lastRefill := by
      rw [Time.reading_le_iff, serve_lastRefill hok.target]
      exact le_max_right _ _
    rw [allowN_live hkey (liveEntry_some.mpr ⟨hleft, hexpired⟩),
      serve_again (serve_ok hok.target hcost) hlater]
    simp
  | true =>
    -- the bucket is deleted, which leaves a place for a full one
    have hlive : l.liveEntry now (l.allowN buckets now key cost).buckets key = none := by
      rw [liveEntry, hleft, Option.filter_some, hexpired]
      rfl
    have hplace : (AssocMap.size ((l.allowN buckets now key cost).buckets.erase key) : Int) <
        l.maxClients := by
      have hsize := AssocMap.size_of_lookup hleft
      have hfits : (AssocMap.size (l.allowN buckets now key cost).buckets : Int) ≤ l.maxClients :=
        hbound.allowN
      omega
    have hroom : (l.room now (l.allowN buckets now key cost).buckets key).2 ≠ .full := by
      rw [room, hlive, makeRoom_of_lt hplace]
      exact Room.noConfusion
    rw [(allowN_served now _ hkey hroom).1, target, hlive, Option.getD_none, serve_full hn.2]
    simp

/-- Paying a whole cost does not change how far a count is from the next
whole number. -/
theorem floor_served (now : Reading) (key : GoString) (cost : Int) (hok : BucketsOk l buckets) :
    ⌊(l.serve now cost (l.target now buckets key)).2.tokens + tolerance⌋ =
        ⌊(l.serve now cost (l.target now buckets key)).2.tokens⌋ ↔
      ⌊l.available now buckets key + tolerance⌋ = ⌊l.available now buckets key⌋ := by
  rw [serve_target_tokens hok]
  split
  · rw [sub_add_eq_add_sub, Int.floor_sub_intCast, Int.floor_sub_intCast, sub_left_inj]
  · rw [sub_zero]

theorem capacity_le_served (hok : BucketsOk l buckets) (hacc : l.accepts key cost = true) :
    l.capacity ≤ ⌊(l.serve now cost (l.target now buckets key)).2.tokens + tolerance⌋ ↔
      l.available now buckets key < cost ∧
      ⌊l.available now buckets key + tolerance⌋ = l.capacity := by
  have hle : l.available now buckets key ≤ l.capacity := by
    rw [← refill_target_tokens hok]
    exact (refill_ok hok.target).tokens_le
  have hcost : 1 ≤ cost := by
    simp only [accepts, Bool.and_eq_true, decide_eq_true_eq] at hacc
    exact hacc.2.1
  have hcost' : (1 : ℚ) ≤ cost := by exact_mod_cast hcost
  rw [serve_target_tokens hok, Int.le_floor]
  split
  · next hpaid =>
    refine ⟨fun h => ?_, fun h => absurd hpaid (not_le.mpr h.1)⟩
    unfold tolerance at h
    linarith
  · next hrefused =>
    rw [sub_zero, ← Int.le_floor]
    refine ⟨fun h => ⟨not_le.mp hrefused, le_antisymm ?_ h⟩, fun h => h.2.ge⟩
    rw [← Int.lt_add_one_iff, Int.floor_lt, Int.cast_add, Int.cast_one]
    unfold tolerance
    linarith

end Limiter

/-- The calls that would be admitted next are those that `Remaining` covers
exactly if the count is not within the tolerance below a whole number. -/
theorem remaining_honest_iff {cfg : Config} {l : Limiter} (hnew : new cfg = .ok l)
    (history : List Call) (now : Reading) (key : GoString) (cost : Int) :
    let buckets := Purge.final l.step ∅ history
    let outcome := l.allowN buckets now key cost
    outcome.decision.reason = .allowed ∨ outcome.decision.reason = .rateLimited →
    ((∀ n : Int, 1 ≤ n → n ≤ cfg.capacity →
        ((l.allowN outcome.buckets now key n).decision.allowed = true ↔
        n ≤ outcome.decision.remaining)) ↔
      if l.expiresAtOnce now buckets key then
        l.available now buckets key < cost ∧
          ⌊l.available now buckets key + tolerance⌋ = cfg.capacity
      else ⌊l.available now buckets key + tolerance⌋ = ⌊l.available now buckets key⌋) := by
  intro buckets outcome hreason
  obtain ⟨-, hcapacity, -⟩ := new_ok hnew
  rw [← hcapacity]
  have hok : BucketsOk l buckets := (bucketsOk_empty l).final history
  obtain ⟨hacc, hdecision, -⟩ := Limiter.allowN_on_bucket hreason
  have hserved : (l.serve now cost (l.target now buckets key)).2.Ok l :=
    Limiter.serve_ok hok.target (Limiter.accepts_cost hacc)
  have hremaining : outcome.decision.remaining =
      ⌊(l.serve now cost (l.target now buckets key)).2.tokens + tolerance⌋ := by
    rw [hdecision, ← wholeTokens_eq hserved.tokens_nonneg hserved.tokens_le]
    exact Limiter.take_remaining ..
  have hnext : ∀ n : Int, 1 ≤ n → n ≤ l.capacity →
      ((l.allowN outcome.buckets now key n).decision.allowed = true ↔ _) := fun n hpos hle =>
    Limiter.allowN_next hok (l.bounded_final history) hreason ⟨hpos, hle⟩
  rw [hremaining]
  cases hexpires : l.expiresAtOnce now buckets key with
  | false =>
    rw [if_neg Bool.false_ne_true, ← Limiter.floor_served now key cost hok,
      ← honest_iff hserved.tokens_nonneg hserved.tokens_le]
    refine forall_congr' fun n => forall_congr' fun hpos => forall_congr' fun hle => ?_
    rw [hnext n hpos hle, hexpires]
    simp
  | true =>
    rw [if_pos rfl, ← Limiter.capacity_le_served hok hacc]
    constructor
    · intro h
      exact (h l.capacity l.capacity_pos le_rfl).mp
        ((hnext _ l.capacity_pos le_rfl).mpr (.inl hexpires))
    · intro h n hpos hle
      exact ⟨fun _ => hle.trans h, fun _ => (hnext n hpos hle).mpr (.inl hexpires)⟩

/-- One of three tokens is spent: two more are admitted, as it says. -/
theorem remaining_honest_two :
    let buckets := Purge.final Limiter.small.step ∅ [⟨.ofSec 10, .allowN [107] 3⟩]
    let outcome := Limiter.small.allowN buckets (.ofSec 11) [107] 1
    outcome.decision.remaining = 2 ∧ ∀ n : Int, 1 ≤ n → n ≤ 5 →
      ((Limiter.small.allowN outcome.buckets (.ofSec 11) [107] n).decision.allowed = true ↔
      n ≤ 2) := by
  intro buckets outcome
  have hremaining : outcome.decision.remaining = 2 := by decide +kernel
  refine ⟨hremaining, ?_⟩
  have hiff := remaining_honest_iff new_small [⟨.ofSec 10, .allowN [107] 3⟩] (.ofSec 11) [107] 1
    (by decide +kernel)
  have hnext := hiff.mpr (by decide +kernel)
  intro n hpos hle
  exact hremaining ▸ hnext n hpos hle

def Config.slow : Config := ⟨1, .finite (1 - 1 / 2 ^ 31), 1, 0, .rejectNew⟩

/-- A second after the token was spent the next call is refused, with one
token remaining; and it is refused again. -/
theorem remaining_one_refused :
    ∃ l, new Config.slow = .ok l ∧
      let buckets := Purge.final l.step ∅ [⟨.ofSec 0, .allowN [107] 1⟩]
      let outcome := l.allowN buckets (.ofSec 1) [107] 1
      outcome.decision.reason = .rateLimited ∧ outcome.decision.remaining = 1 ∧
      (l.allowN outcome.buckets (.ofSec 1) [107] 1).decision.allowed = false := by
  refine ⟨⟨1, 1 - 1 / 2 ^ 31, 1, 0, .rejectNew,
    by decide, by norm_num, by decide, by decide, by decide⟩, ?_, ?_⟩
  all_goals decide +kernel

end GoClean.RateLimit
