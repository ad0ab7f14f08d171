import GoClean.RateLimit.Admission
import GoClean.RateLimit.Isolation

/-!
# When expiry is not seen

A limiter that never runs out of places keeps every bucket until it expires.
Expiry then replaces a bucket that has been idle for the time to live by a
full one. If that time refills a bucket, the full one is what the idle bucket
has become, and the decisions are those of a limiter without expiry. If it
does not, a caller that spends the capacity and comes back when its bucket
has expired is allowed more than the bucket's rate.
-/

namespace GoClean.RateLimit

open Go TokenBucket

namespace Limiter

def withoutExpiry (l : Limiter) : Limiter := { l with
  idleTTL := 0
  idleTTL_nonneg := le_rfl
  idleTTL_le := zero_le_maxIdleTTL }

theorem idleTTL_range (l : Limiter) :
    @LE.le ℤ _ 0 l.idleTTL ∧ @LE.le ℤ _ l.idleTTL 86400000000000 :=
  ⟨l.idleTTL_nonneg, l.idleTTL_le⟩

end Limiter

def Call.key? (call : Call) : Option GoString :=
  match call.op with
  | .allowN key _ => some key
  | _ => none

def keysOf (calls : List Call) : List GoString := (calls.filterMap Call.key?).dedup

section
variable {l : Limiter} {now : Reading} {buckets : Buckets} {key : GoString} {keys : List GoString}

-- ---------------------------------------------------------------------------
-- What an expired bucket has become
-- ---------------------------------------------------------------------------

/-- The instant at which a bucket seen at `t` expires can be represented. -/
def InRange (l : Limiter) (t : Reading) : Prop := t.val.nanos + l.idleTTL < 2 ^ 63 * 1000000000

theorem isExpired_iff {b : Bucket} (h : InRange l b.lastSeen) :
    l.isExpired now b = true ↔ 0 < l.idleTTL ∧
    b.lastSeen.val.nanos + l.idleTTL ≤ now.val.nanos := by
  obtain ⟨hnonneg, hle⟩ := l.idleTTL_range
  have hlow := (Time.nanos_range b.lastSeen).1
  have hadd : (b.lastSeen.val.add l.idleTTL).nanos = b.lastSeen.val.nanos + l.idleTTL :=
    Time.nanos_add b.lastSeen (by omega) (by omega) h
  have hbefore := Time.before_eq_false_iff_nanos now ⟨_, Time.add_normal b.lastSeen l.idleTTL⟩
  rw [hadd] at hbefore
  simp only [Limiter.isExpired, Bool.and_eq_true, decide_eq_true_eq, Bool.not_eq_true']
  exact and_congr_right fun _ => hbefore

theorem refill_eq_fullBucket {b : Bucket} (hb : b.Ok l) (hpos : 0 < l.idleTTL)
    (hidle : b.lastSeen.val.nanos + l.idleTTL ≤ now.val.nanos)
    (hfull : (l.capacity : ℚ) ≤ l.refillRate * l.idleTTL.seconds) :
    l.refill now b = l.fullBucket now := by
  rw [hb.lastSeen_eq] at hidle
  obtain ⟨-, hle⟩ := l.idleTTL_range
  have hpos' : @LT.lt ℤ _ 0 l.idleTTL := hpos
  have hlt : b.lastRefill < now := show b.lastRefill.val.nanos < now.val.nanos by omega
  have hidle' : @LE.le ℤ _ l.idleTTL (min (now.val.nanos - b.lastRefill.val.nanos)
      (2 ^ 63 - 1)) := by omega
  have hgain : l.refillRate * l.idleTTL.seconds ≤ l.gain now b := by
    rw [Limiter.gain_eq hlt, Duration.seconds, mul_comm]
    refine mul_le_mul_of_nonneg_right ?_ l.refillRate_pos.le
    exact div_le_div_of_nonneg_right (Int.cast_le.mpr hidle') (by norm_num)
  rw [Limiter.refill_of_after hb.lastSeen_eq hlt]
  have htokens := hb.tokens_nonneg
  rw [min_eq_left (by linarith)]
  rfl

theorem serve_expired {b : Bucket} (hb : b.Ok l) (hrange : InRange l b.lastSeen)
    (hexpired : l.isExpired now b = true)
    (hfull : (l.capacity : ℚ) ≤ l.refillRate * l.idleTTL.seconds) :
    l.serve now cost b = l.serve now cost (l.fullBucket now) := by
  obtain ⟨hpos, hidle⟩ := (isExpired_iff hrange).mp hexpired
  have hle : b.lastRefill ≤ now := by
    have hpos' : @LT.lt ℤ _ 0 l.idleTTL := hpos
    rw [hb.lastSeen_eq] at hidle
    exact show b.lastRefill.val.nanos ≤ now.val.nanos by omega
  have hself : l.refill now (l.fullBucket now) = l.fullBucket now := Limiter.refill_of_le rfl le_rfl
  have hnow : Limiter.effectiveNow now (l.fullBucket now) = now := Limiter.effectiveNow_of_le le_rfl
  rw [Limiter.serve, Limiter.serve, Limiter.effectiveNow_of_le hle, hnow,
    refill_eq_fullBucket hb hpos hidle hfull, hself]

theorem liveEntry_of_never (h : l.idleTTL = 0) :
    l.liveEntry now buckets key = buckets.lookup key := by
  cases hlookup : buckets.lookup key with
  | none => rw [Limiter.liveEntry, hlookup, Option.filter_none]
  | some b => exact Limiter.liveEntry_some.mpr ⟨hlookup, by simp [Limiter.isExpired, h]⟩

theorem serve_withoutExpiry (l : Limiter) : l.withoutExpiry.serve = l.serve := by
  funext now cost b
  simp only [Limiter.serve, Limiter.take, Limiter.refill, Limiter.withoutExpiry]
  rfl

/-- The bucket a call finds serves it as the one it would find without
expiry. -/
theorem serve_target (now : Reading) (key : GoString) (cost : Int) (hok : BucketsOk l buckets)
    (hrange : ∀ k b, buckets.lookup k = some b → InRange l b.lastSeen)
    (hfull : l.idleTTL = 0 ∨ (l.capacity : ℚ) ≤ l.refillRate * l.idleTTL.seconds) :
    l.serve now cost (l.withoutExpiry.target now buckets key) =
      l.serve now cost (l.target now buckets key) := by
  unfold Limiter.target
  rw [liveEntry_of_never (l := l.withoutExpiry) rfl, Limiter.liveEntry]
  cases hlookup : buckets.lookup key with
  | none => rfl
  | some b =>
    cases hexpired : l.isExpired now b with
    | false => simp [Option.filter, hexpired]
    | true =>
      have hpos : l.idleTTL ≠ 0 := fun hzero => by simp [Limiter.isExpired, hzero] at hexpired
      simp only [Option.filter, hexpired, Bool.not_true, Bool.false_eq_true, if_false]
      exact serve_expired (hok key b hlookup) (hrange key b hlookup) hexpired
        (hfull.resolve_left hpos)

/-- One call, with a place for every key: its answer and the buckets after it
are those without expiry. -/
theorem allowN_withoutExpiry (hok : BucketsOk l buckets) (hkeys : KeysIn keys buckets)
    (hlen : (keys.length : Int) ≤ l.maxClients) (hkey : key ∈ keys)
    (hrange : ∀ k b, buckets.lookup k = some b → InRange l b.lastSeen)
    (hfull : l.idleTTL = 0 ∨ (l.capacity : ℚ) ≤ l.refillRate * l.idleTTL.seconds) :
    l.withoutExpiry.allowN buckets now key cost = l.allowN buckets now key cost := by
  cases hacc : l.accepts key cost with
  | false => rw [Limiter.allowN_rejected hacc, Limiter.allowN_rejected (l := l.withoutExpiry) hacc]
  | true =>
    obtain ⟨hd, he, hb⟩ := allowN_of_keysIn l now hkeys hlen hkey hacc
    obtain ⟨hd', he', hb'⟩ := allowN_of_keysIn l.withoutExpiry now hkeys hlen hkey hacc
    rw [serve_withoutExpiry, serve_target now key cost hok hrange hfull] at hd' hb'
    rcases h : l.allowN buckets now key cost with ⟨d, e, m⟩
    rcases h' : l.withoutExpiry.allowN buckets now key cost with ⟨d', e', m'⟩
    simp only [h] at hd he hb
    simp only [h'] at hd' he' hb'
    rw [hd, hd', he, he', hb, hb']

-- ---------------------------------------------------------------------------
-- Whole runs
-- ---------------------------------------------------------------------------

/-- The keys are as given and every bucket expires at an instant that can be
represented. -/
structure Sound (l : Limiter) (keys : List GoString) (buckets : Buckets) : Prop where
  ok : BucketsOk l buckets
  keysIn : KeysIn keys buckets
  inRange : ∀ k b, buckets.lookup k = some b → InRange l b.lastSeen

theorem sound_empty (l : Limiter) (keys : List GoString) : Sound l keys ∅ where
  ok := bucketsOk_empty l
  keysIn := keysIn_empty _
  inRange := fun _ _ h => by cases h

def Fits (l : Limiter) (keys : List GoString) (call : Call) : Prop :=
  InRange l call.now ∧ ∃ key cost, call.op = .allowN key cost ∧ key ∈ keys

theorem Sound.target (h : Sound l keys buckets) (hnow : InRange l now) :
    InRange l (l.target now buckets key).lastSeen := by
  unfold Limiter.target
  cases hlive : l.liveEntry now buckets key with
  | none => exact hnow
  | some b => exact h.inRange key b (Limiter.liveEntry_some.mp hlive).1

theorem Sound.served (h : Sound l keys buckets) (hnow : InRange l now) (hcost : 0 ≤ cost) :
    InRange l (l.serve now cost (l.target now buckets key)).2.lastSeen := by
  have hok : (l.target now buckets key).Ok l := h.ok.target
  have htarget : InRange l (l.target now buckets key).lastSeen := h.target hnow
  unfold InRange at *
  rw [hok.lastSeen_eq] at htarget
  rw [(Limiter.serve_ok hok hcost).lastSeen_eq, Limiter.serve_lastRefill hok]
  rcases max_cases (l.target now buckets key).lastRefill.val.nanos now.val.nanos with ⟨hmax,
    -⟩ | ⟨hmax, -⟩
  · rw [hmax]
    exact htarget
  · rw [hmax]
    exact hnow

theorem Sound.step (h : Sound l keys buckets) (hlen : (keys.length : Int) ≤ l.maxClients)
    (hfits : Fits l keys call) : Sound l keys (l.step buckets call).1 := by
  obtain ⟨now, op⟩ := call
  obtain ⟨hnow, key, cost, rfl, hkey⟩ := hfits
  refine ⟨h.ok.allowN, h.keysIn.allowN hkey, ?_⟩
  intro k b hb
  by_cases hne : k = key
  · subst hne
    cases hacc : l.accepts k cost with
    | false =>
      rw [Limiter.step_allowN, Limiter.allowN_rejected hacc] at hb
      exact h.inRange k b hb
    | true =>
      rw [Limiter.step_allowN, (allowN_of_keysIn l now h.keysIn hlen hkey hacc).2.2,
        AList.lookup_insert] at hb
      cases hb
      exact h.served hnow (Limiter.accepts_cost hacc)
  · exact h.inRange k b (Limiter.lookup_of_allowN hne hb)

theorem unwinds_withoutExpiry (hlen : (keys.length : Int) ≤ l.maxClients)
    (hfull : l.idleTTL = 0 ∨ (l.capacity : ℚ) ≤ l.refillRate * l.idleTTL.seconds) :
    Purge.Unwinds l.step l.withoutExpiry.step (fun _ => true) Call.now (fun call _ =>
      Fits l keys call)
      (fun _ buckets buckets' => buckets = buckets' ∧ Sound l keys buckets) where
  kept := by
    rintro t s _ ⟨now, op⟩ ⟨rfl, hsound⟩ - ⟨hnow, key, cost, rfl, hkey⟩ -
    have hsame : l.withoutExpiry.allowN s now key cost = l.allowN s now key cost :=
      allowN_withoutExpiry hsound.ok hsound.keysIn hlen hkey hsound.inRange hfull
    have hstep : l.withoutExpiry.step s ⟨now, .allowN key cost⟩ = l.step s ⟨now,
        .allowN key cost⟩ := by
      rw [Limiter.step_allowN, hsame, Limiter.step_allowN]
    rw [hstep]
    exact ⟨rfl, rfl, hsound.step hlen ⟨hnow, key, cost, rfl, hkey⟩⟩
  dropped := fun _ _ _ h => by cases h

theorem answers_withoutExpiry (hlen : (keys.length : Int) ≤ l.maxClients)
    (hfull : l.idleTTL = 0 ∨ (l.capacity : ℚ) ≤ l.refillRate * l.idleTTL.seconds)
    {calls : List Call}
    (hord : Purge.Ordered Call.now calls) (hfits : ∀ call ∈ calls, Fits l keys call) :
    Purge.answers l.step ∅ calls = Purge.answers l.withoutExpiry.step ∅ calls := by
  have hmem : ∀ p ∈ Purge.answers l.step ∅ calls, Fits l keys p.1 :=
    fun p hp => hfits p.1 (Purge.fst_mem_of_mem_answers hp)
  have h := Purge.answers_purge_init (unwinds_withoutExpiry hlen hfull)
    (fun _ => ⟨rfl, sound_empty l keys⟩) hord hmem
  simpa only [List.filter_true] using h

-- ---------------------------------------------------------------------------
-- The bound without expiry
-- ---------------------------------------------------------------------------

/-- The bucket of a key, or the full one it would have had since `first`. -/
def held (l : Limiter) (first : Reading) (buckets : Buckets) (key : GoString) : Bucket :=
  (buckets.lookup key).getD (l.fullBucket first)

theorem held_ok (h : BucketsOk l buckets) : (held l first buckets key).Ok l := by
  unfold held
  cases hb : buckets.lookup key with
  | none => exact l.fullBucket_ok first
  | some b => exact h key b hb

theorem fullBucket_evolves (l : Limiter) (h : first ≤ now) :
    Evolves l.refillRate (l.fullBucket first).level 0 (l.fullBucket now).level := by
  have hle : (first.val.nanos : ℚ) ≤ now.val.nanos := Int.cast_le.mpr (Time.reading_le_iff.mp h)
  have htime : (l.fullBucket first).level.time ≤ (l.fullBucket now).level.time :=
    div_le_div_of_nonneg_right hle (by norm_num)
  refine .gain .refl htime ?_
  exact le_add_of_nonneg_right (mul_nonneg l.refillRate_pos.le (sub_nonneg.mpr htime))

/-- A call on another key, or one that is rejected, does not touch the
bucket. -/
theorem held_untouched (first now : Reading) (hkeys : KeysIn keys buckets)
    (hlen : (keys.length : Int) ≤ l.maxClients)
    (hkey : k ∈ keys) (h : k ≠ key ∨ l.accepts k cost = false) :
    spentBy key (⟨now, .allowN k cost⟩, (l.step buckets ⟨now, .allowN k cost⟩).2) = 0 ∧
    held l first (l.step buckets ⟨now, .allowN k cost⟩).1 key = held l first buckets key := by
  cases hacc : l.accepts k cost with
  | false =>
    rw [Limiter.step_allowN, Limiter.allowN_rejected hacc]
    exact ⟨by simp [spentBy, Limiter.paid], rfl⟩
  | true =>
    have hne : k ≠ key := h.resolve_right (by simp [hacc])
    rw [Limiter.step_allowN, (allowN_of_keysIn l now hkeys hlen hkey hacc).2.2]
    refine ⟨by simp [spentBy, hne], ?_⟩
    rw [held, AList.lookup_insert_ne hne.symm, ← held]

/-- Without expiry, a call on the key is served from the bucket it holds,
brought forward to the reading. -/
theorem held_touched (hnever : l.idleTTL = 0) (hok : BucketsOk l buckets)
    (hkeys : KeysIn keys buckets) (hlen : (keys.length : Int) ≤ l.maxClients) (hkey : key ∈ keys)
    (hacc : l.accepts key cost = true) (hfirst : first ≤ now) :
    Evolves l.refillRate (held l first buckets key).level
      (spentBy key (⟨now, .allowN key cost⟩, (l.step buckets ⟨now, .allowN key cost⟩).2))
      (held l first (l.step buckets ⟨now, .allowN key cost⟩).1 key).level ∧
    (held l first (l.step buckets ⟨now, .allowN key cost⟩).1 key).lastRefill.val.nanos ≤
      max (held l first buckets key).lastRefill.val.nanos now.val.nanos := by
  obtain ⟨hd, -, hb⟩ := allowN_of_keysIn l now hkeys hlen hkey hacc
  have hspent : spentBy key (⟨now, .allowN key cost⟩, (l.step buckets ⟨now, .allowN key cost⟩).2) =
      Limiter.paid (l.serve now cost (l.target now buckets key)).1 cost := by
    rw [Limiter.step_allowN, hd]
    exact if_pos rfl
  have hheld : held l first (l.step buckets ⟨now, .allowN key cost⟩).1 key =
      (l.serve now cost (l.target now buckets key)).2 := by
    rw [Limiter.step_allowN, hb, held, AList.lookup_insert, Option.getD_some]
  have htarget : (l.target now buckets key).Ok l := hok.target
  have hforward : Evolves l.refillRate (held l first buckets key).level 0
    (l.target now buckets key).level ∧
      (l.target now buckets key).lastRefill.val.nanos ≤
        max (held l first buckets key).lastRefill.val.nanos now.val.nanos := by
    rw [Limiter.target, liveEntry_of_never hnever, held]
    cases buckets.lookup key with
    | none => exact ⟨fullBucket_evolves l hfirst, le_max_right _ _⟩
    | some b => exact ⟨.refl, le_max_left _ _⟩
  rw [hspent, hheld, ← zero_add (Limiter.paid _ _), Limiter.serve_lastRefill htarget]
  exact ⟨hforward.1.trans (Limiter.serve_evolves htarget), max_le hforward.2 (le_max_right _ _)⟩

theorem held_step (key : GoString) (hnever : l.idleTTL = 0)
    (hlen : (keys.length : Int) ≤ l.maxClients)
    (hsound : Sound l keys buckets) (hfits : Fits l keys call) (hfirst : first ≤ call.now) :
    Evolves l.refillRate (held l first buckets key).level
      (spentBy key (call, (l.step buckets call).2))
      (held l first (l.step buckets call).1 key).level ∧
    (held l first (l.step buckets call).1 key).lastRefill.val.nanos ≤
      max (held l first buckets key).lastRefill.val.nanos call.now.val.nanos := by
  obtain ⟨now, op⟩ := call
  obtain ⟨-, k, cost, rfl, hkey⟩ := hfits
  by_cases htouch : k ≠ key ∨ l.accepts k cost = false
  · obtain ⟨hspent, hheld⟩ := held_untouched first now hsound.keysIn hlen hkey htouch
    rw [hspent, hheld]
    exact ⟨.refl, le_max_left _ _⟩
  · rw [not_or, not_not, Bool.not_eq_false] at htouch
    obtain ⟨rfl, hacc⟩ := htouch
    exact held_touched hnever hsound.ok hsound.keysIn hlen hkey hacc hfirst

theorem run_held (key : GoString) (hnever : l.idleTTL = 0)
    (hlen : (keys.length : Int) ≤ l.maxClients) (calls : List Call) :
    ∀ {buckets}, Sound l keys buckets →
      (∀ call ∈ calls, Fits l keys call ∧ first ≤ call.now ∧ call.now ≤ last) →
      ∃ b : Bucket, b.Ok l ∧
        Evolves l.refillRate (held l first buckets key).level
          (spent key (Purge.answers l.step buckets calls)) b.level ∧
        ((held l first buckets key).lastRefill.val.nanos ≤ max first.val.nanos last.val.nanos →
          b.lastRefill.val.nanos ≤ max first.val.nanos last.val.nanos) := by
  induction calls with
  | nil => exact fun hsound _ => ⟨_, held_ok hsound.ok, .refl, fun h => h⟩
  | cons call rest ih =>
    intro buckets hsound hcalls
    obtain ⟨hfits, hfirst, hlast⟩ := hcalls call List.mem_cons_self
    obtain ⟨hevolves, htime⟩ := held_step key hnever hlen hsound hfits hfirst
    obtain ⟨b, hok, hrest, hend⟩ :=
      ih (hsound.step hlen hfits) fun c hc => hcalls c (List.mem_cons_of_mem _ hc)
    refine ⟨b, hok, hevolves.trans hrest, fun h => hend ?_⟩
    have hnow : call.now.val.nanos ≤ last.val.nanos := hlast
    exact le_trans htime (max_le h (le_trans hnow (le_max_right _ _)))

/-- Without expiry and with a place for every key, no key is allowed more
than the capacity and the refill between the first and the last reading. -/
theorem spent_le_capacity_add_refill (hnever : l.idleTTL = 0)
    (hlen : (keys.length : Int) ≤ l.maxClients) {calls : List Call}
    (hcalls : ∀ call ∈ calls, Fits l keys call ∧ first ≤ call.now ∧ call.now ≤ last) :
    spent key (Purge.answers l.step ∅ calls) ≤ l.capacity + l.refillRate * elapsed first last := by
  obtain ⟨b, hok, hevolves, htime⟩ := run_held key hnever hlen calls (sound_empty l keys) hcalls
  have hheld : held l first ∅ key = l.fullBucket first := rfl
  rw [hheld] at hevolves htime
  exact spent_le_of_evolves (a := l.fullBucket first) rfl hevolves hok (htime (le_max_left _ _))

-- ---------------------------------------------------------------------------
-- A bucket that expires before it is full
-- ---------------------------------------------------------------------------

theorem serve_all (l : Limiter) (now : Reading) :
    (l.serve now l.capacity (l.fullBucket now)).1.allowed = true ∧
    (l.serve now l.capacity (l.fullBucket now)).2 = ⟨0, now, now⟩ := by
  have hnow : Limiter.effectiveNow now (l.fullBucket now) = now := Limiter.effectiveNow_of_le le_rfl
  have hself : l.refill now (l.fullBucket now) = l.fullBucket now := Limiter.refill_of_le rfl le_rfl
  rw [Limiter.serve, hnow, hself, Limiter.take_bucket, Limiter.paid, Limiter.take_allowed]
  simp [Limiter.fullBucket]

/-- An empty bucket that the time to live does not refill has no capacity to
spend when it expires. -/
theorem serve_empty (hpos : 0 < l.idleTTL) (hnanos : now.val.nanos = t.val.nanos + l.idleTTL)
    (hslow : l.refillRate * l.idleTTL.seconds < l.capacity) :
    (l.serve now l.capacity ⟨0, t, t⟩).1.allowed = false := by
  obtain ⟨-, hle⟩ := l.idleTTL_range
  have hpos' : @LT.lt ℤ _ 0 l.idleTTL := hpos
  have hlt : t < now := show t.val.nanos < now.val.nanos by omega
  have hdiff : min (now.val.nanos - t.val.nanos) (2 ^ 63 - 1) = l.idleTTL := by
    rw [hnanos]
    exact (min_eq_left (by omega)).trans (by ring)
  have hgain : l.gain now ⟨0, t, t⟩ = l.refillRate * l.idleTTL.seconds := by
    rw [Limiter.gain_eq (b := ⟨0, t, t⟩) hlt, hdiff, Duration.seconds, mul_comm]
  have hnow : Limiter.effectiveNow now ⟨0, t, t⟩ = now := Limiter.effectiveNow_of_le (le_of_lt hlt)
  rw [Limiter.serve, hnow, Limiter.refill_of_after (b := ⟨0, t, t⟩) rfl hlt, Limiter.take_allowed,
    hgain, zero_add, decide_eq_false_iff_not, not_le]
  exact lt_of_le_of_lt (min_le_right _ _) hslow

/-- The reading at which a bucket seen at `t` expires. -/
def expiryOf (l : Limiter) (t : Reading) : Reading :=
  ⟨t.val.add l.idleTTL, Time.add_normal t l.idleTTL⟩

def spendTwice (l : Limiter) : List Call :=
  [⟨.ofSec 0, .allowN [107] l.capacity⟩, ⟨expiryOf l (.ofSec 0), .allowN [107] l.capacity⟩]

theorem nanos_expiryOf (l : Limiter) :
    (expiryOf l (.ofSec 0)).val.nanos = (Reading.ofSec 0).val.nanos + l.idleTTL := by
  obtain ⟨hnonneg, hle⟩ := l.idleTTL_range
  have hzero : (Reading.ofSec 0).val.nanos = 0 := by decide
  exact Time.nanos_add (.ofSec 0) (by omega) (by omega) (by omega)

theorem Limiter.accepts_all (l : Limiter) : l.accepts [107] l.capacity = true := by
  have hkey : validKey [107] = true := by decide
  have hpos : 1 ≤ l.capacity := l.capacity_pos
  simp [Limiter.accepts, hkey, hpos]

/-- The second of the two calls is served from the bucket the first one has
emptied, or from a new one. -/
theorem answers_spendTwice (l : Limiter) (t : Reading) :
    (Purge.answers l.step ∅ [⟨.ofSec 0, .allowN [107] l.capacity⟩,
      ⟨t, .allowN [107] l.capacity⟩])[1]?.map Prod.snd =
      some (.decision
        (l.serve t l.capacity (l.target t (AList.insert [107] ⟨0, .ofSec 0, .ofSec 0⟩ ∅) [107])).1
        none) := by
  have hlen : (([[107]] : List GoString).length : Int) ≤ l.maxClients := l.maxClients_pos
  have hempty : KeysIn [[107]] ∅ := keysIn_empty _
  have hone : KeysIn [[107]] (AList.insert [107] (⟨0, .ofSec 0, .ofSec 0⟩ : Bucket) ∅) := by
    intro key h
    rw [AList.lookup_isSome, AList.mem_insert] at h
    exact List.mem_singleton.mpr (h.resolve_right (by simp))
  have hfirst := (allowN_of_keysIn l (.ofSec 0) hempty hlen List.mem_cons_self l.accepts_all).2.2
  have htarget : l.target (.ofSec 0) ∅ [107] = l.fullBucket (.ofSec 0) := rfl
  rw [htarget, (serve_all l (.ofSec 0)).2] at hfirst
  obtain ⟨hd, he, -⟩ := allowN_of_keysIn l t hone hlen List.mem_cons_self l.accepts_all
  simp only [Purge.answers, Limiter.step_allowN, hfirst, hd, he]
  rfl

theorem not_same_spendTwice (hpos : 0 < l.idleTTL)
    (hslow : l.refillRate * l.idleTTL.seconds < l.capacity) :
    Purge.answers l.step ∅ (spendTwice l) ≠
      Purge.answers l.withoutExpiry.step ∅ (spendTwice l) := by
  intro hsame
  have hb : (AList.insert [107] (⟨0, .ofSec 0, .ofSec 0⟩ : Bucket) ∅ : Buckets).lookup [107] =
      some ⟨0, .ofSec 0, .ofSec 0⟩ := AList.lookup_insert _
  have hexpired : l.liveEntry (expiryOf l (.ofSec 0)) (AList.insert [107] ⟨0, .ofSec 0, .ofSec 0⟩ ∅)
      [107] = none := by
    have hnot : (expiryOf l (.ofSec 0)).val.before ((Reading.ofSec 0).val.add l.idleTTL) = false :=
      (Time.before_eq_false_iff_nanos _ (expiryOf l (.ofSec 0))).mpr le_rfl
    rw [Limiter.liveEntry, hb]
    simpa [Option.filter, Limiter.isExpired, hpos] using hnot
  have hcapacity : l.withoutExpiry.capacity = l.capacity := rfl
  have htwice := congrArg (fun answers => answers[1]?.map Prod.snd) hsame
  have hwith := answers_spendTwice l (expiryOf l (.ofSec 0))
  have hwithout := answers_spendTwice l.withoutExpiry (expiryOf l (.ofSec 0))
  rw [Limiter.target, hexpired, Option.getD_none] at hwith
  rw [Limiter.target, liveEntry_of_never (l := l.withoutExpiry) rfl, hb, Option.getD_some,
    serve_withoutExpiry, hcapacity] at hwithout
  have hdecision := (hwith.symm.trans htwice).trans hwithout
  simp only [Option.some.injEq, Answer.decision.injEq, and_true] at hdecision
  have hallowed := congrArg Decision.allowed hdecision
  have hempty : (l.serve (expiryOf l (.ofSec 0)) l.capacity ⟨0, .ofSec 0, .ofSec 0⟩).1.allowed =
      false :=
    serve_empty hpos (nanos_expiryOf l) hslow
  rw [(serve_all l _).1] at hallowed
  exact Bool.noConfusion (hallowed.trans hempty)

end

/-- Expiry is not seen: over every run of `AllowN` calls in the order of
their readings, on at most `maxClients` keys, the decisions are those without
expiry, and no key is allowed more than the capacity and the refill. -/
def ExpiryUnobservable (l never : Limiter) : Prop :=
  ∀ calls : List Call, (∀ call ∈ calls, call.isAllowN = true ∧ InRange l call.now) →
    Purge.Ordered Call.now calls → ((keysOf calls).length : Int) ≤ l.maxClients →
    Purge.answers l.step ∅ calls = Purge.answers never.step ∅ calls ∧
    ∀ key first last, (∀ call ∈ calls, first ≤ call.now ∧ call.now ≤ last) →
      spent key (Purge.answers l.step ∅ calls) ≤ l.capacity + l.refillRate * elapsed first last

theorem fits_keysOf {l : Limiter} {calls : List Call}
    (h : ∀ call ∈ calls, call.isAllowN = true ∧ InRange l call.now) :
    ∀ call ∈ calls, Fits l (keysOf calls) call := by
  rintro ⟨now, op⟩ hc
  obtain ⟨hop, hrange⟩ := h _ hc
  cases op with
  | allowN key cost =>
    refine ⟨hrange, key, cost, rfl, ?_⟩
    exact List.mem_dedup.mpr (List.mem_filterMap.mpr ⟨_, hc, rfl⟩)
  | cleanup => cases hop
  | len => cases hop

theorem inRange_withoutExpiry (l : Limiter) (t : Reading) : InRange l.withoutExpiry t := by
  have hrange := Time.nanos_range t
  exact show t.val.nanos + 0 < 2 ^ 63 * 1000000000 by omega

theorem spendTwice_run (l : Limiter) :
    (∀ call ∈ spendTwice l, call.isAllowN = true ∧ InRange l call.now) ∧
    Purge.Ordered Call.now (spendTwice l) ∧
    ((keysOf (spendTwice l)).length : Int) ≤ l.maxClients := by
  obtain ⟨hnonneg, hle⟩ := l.idleTTL_range
  have hzero : (Reading.ofSec 0).val.nanos = 0 := by decide
  have hexpiry := nanos_expiryOf l
  refine ⟨?_, ?_, l.maxClients_pos⟩
  · intro call hc
    simp only [spendTwice, List.mem_cons, List.not_mem_nil, or_false] at hc
    rcases hc with rfl | rfl
    · exact ⟨rfl, show (Reading.ofSec 0).val.nanos + l.idleTTL < 2 ^ 63 * 1000000000 by omega⟩
    · exact ⟨rfl, show (expiryOf l (.ofSec 0)).val.nanos + l.idleTTL < 2 ^ 63 * 1000000000 by omega⟩
  · refine List.pairwise_pair.mpr ?_
    exact show (Reading.ofSec 0).val.nanos ≤ (expiryOf l (.ofSec 0)).val.nanos by omega

theorem new_withoutExpiry {cfg : Config} {l never : Limiter} (hnew : new cfg = .ok l)
    (hnever : new { cfg with idleTTL := 0 } = .ok never) : never = l.withoutExpiry := by
  obtain ⟨-, h₁, h₂, h₃, -, h₅⟩ := new_ok hnew
  obtain ⟨-, h₁', h₂', h₃', h₄', h₅'⟩ := new_ok hnever
  cases l
  cases never
  simp_all [Limiter.withoutExpiry]

/-- Idle expiry only reclaims memory exactly when it is disabled or the time
to live refills the capacity. -/
theorem expiryUnobservable_iff {cfg : Config} {l never : Limiter} (hnew : new cfg = .ok l)
    (hnever : new { cfg with idleTTL := 0 } = .ok never) :
    ExpiryUnobservable l never ↔
      cfg.idleTTL = 0 ∨ (cfg.capacity : ℚ) ≤ cfg.refillRate.toRat * cfg.idleTTL.seconds := by
  obtain ⟨-, hcapacity, hrate, -, httl, -⟩ := new_ok hnew
  rw [new_withoutExpiry hnew hnever, ← hcapacity, ← hrate, ← httl]
  constructor
  · intro h
    by_contra hnot
    rw [not_or, not_le] at hnot
    have hpos : 0 < l.idleTTL := lt_of_le_of_ne l.idleTTL_nonneg (Ne.symm hnot.1)
    obtain ⟨hcalls, hord, hlen⟩ := spendTwice_run l
    exact not_same_spendTwice hpos hnot.2 (h (spendTwice l) hcalls hord hlen).1
  · intro hfull calls hcalls hord hlen
    have hfits := fits_keysOf hcalls
    have hsame := answers_withoutExpiry hlen hfull hord hfits
    refine ⟨hsame, fun key first last hbetween => ?_⟩
    rw [hsame]
    refine spent_le_capacity_add_refill (l := l.withoutExpiry) rfl hlen fun call hc => ?_
    exact ⟨⟨inRange_withoutExpiry l call.now, (hfits call hc).2⟩, hbetween call hc⟩

/-- The small limiter refills in five of the sixty seconds it keeps a bucket. -/
theorem expiryUnobservable_small : ExpiryUnobservable Limiter.small Limiter.small.withoutExpiry :=
  (expiryUnobservable_iff new_small (by decide +kernel)).mpr (.inr (by decide +kernel))

def Limiter.hasty : Limiter := { Limiter.small with
  idleTTL := Duration.second
  idleTTL_nonneg := by decide
  idleTTL_le := by decide }

/-- Its caller spends ten tokens within a second; without expiry the second
five are refused. -/
theorem hasty_expiry_grants_twice :
    let calls : List Call := [⟨.ofSec 0, .allowN [107] 5⟩, ⟨.ofSec 1, .allowN [107] 5⟩]
    new { Config.small with idleTTL := Duration.second } = .ok Limiter.hasty ∧
    Purge.Ordered Call.now calls ∧ ((keysOf calls).length : Int) ≤ Limiter.hasty.maxClients ∧
    Purge.answers Limiter.hasty.step ∅ calls ≠
      Purge.answers Limiter.hasty.withoutExpiry.step ∅ calls ∧
    Limiter.hasty.capacity + Limiter.hasty.refillRate * elapsed (.ofSec 0) (.ofSec 1) <
      spent [107] (Purge.answers Limiter.hasty.step ∅ calls) := by
  decide +kernel

end GoClean.RateLimit
