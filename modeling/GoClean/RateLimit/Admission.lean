import GoClean.RateLimit.Laws

/-!
# The admission bound

While a key's bucket stays resident, the calls on it draw on one balance,
whatever the other keys do and however the readings come: the cost of the
allowed calls is covered by the tokens held at the start and by the refill up
to the latest reading.
-/

namespace GoClean.RateLimit

open Go TokenBucket

def spentBy (key : GoString) : Call × Answer → ℚ
  | (⟨_, .allowN k cost⟩, .decision d _) => if k = key then Limiter.paid d cost else 0
  | _ => 0

def spent (key : GoString) (answers : List (Call × Answer)) : ℚ := (answers.map (spentBy key)).sum

namespace Limiter

def touches (l : Limiter) (key : GoString) (call : Call) : Bool :=
  match call.op with
  | .allowN k cost => decide (k = key) && l.accepts k cost
  | _ => false

/-- The call leaves the key's bucket resident: one that touches it finds it
unexpired, no other one deletes it. -/
def Keeps (l : Limiter) (key : GoString) (buckets : Buckets) (call : Call) : Prop :=
  if l.touches key call then (l.liveEntry call.now buckets key).isSome
  else ((l.step buckets call).1.lookup key).isSome

def StaysResident (l : Limiter) (key : GoString) : Buckets → List Call → Prop
  | _, [] => True
  | buckets, call :: rest =>
    l.Keeps key buckets call ∧ l.StaysResident key (l.step buckets call).1 rest

instance (l : Limiter) (key : GoString) (buckets : Buckets) (call : Call) :
    Decidable (l.Keeps key buckets call) := by
  unfold Keeps
  infer_instance

instance decidableStaysResident (l : Limiter) (key : GoString) :
    ∀ buckets calls, Decidable (l.StaysResident key buckets calls)
  | _, [] => isTrue trivial
  | buckets, call :: rest =>
    have := decidableStaysResident l key (l.step buckets call).1 rest
    inferInstanceAs (Decidable (_ ∧ _))

variable {l : Limiter} {key : GoString} {buckets : Buckets} {call : Call} {b : Bucket}

/-- A call that does not touch the key pays nothing from its bucket and
leaves it as it is, if it leaves it. -/
theorem step_untouched (buckets : Buckets) (h : l.touches key call = false) :
    spentBy key (call, (l.step buckets call).2) = 0 ∧
    ∀ b, (l.step buckets call).1.lookup key = some b → buckets.lookup key = some b := by
  obtain ⟨now, op⟩ := call
  cases op with
  | allowN k cost =>
    by_cases hk : k = key
    · subst hk
      have hacc : l.accepts k cost = false := by simpa [touches] using h
      simp only [step, allowN_rejected hacc, spentBy, paid, rejection_allowed]
      exact ⟨by simp, fun b hb => hb⟩
    · exact ⟨if_neg hk, fun b hb => lookup_of_allowN (Ne.symm hk) hb⟩
  | cleanup =>
    refine ⟨rfl, fun b hb => ?_⟩
    rw [step, cleanup_fst] at hb
    exact lookup_of_cleanupLocked hb
  | len => exact ⟨rfl, fun b hb => lookup_of_cleanupLocked hb⟩

theorem step_touched (h : l.touches key call = true)
    (hlive : l.liveEntry call.now buckets key = some b) :
    ∃ cost, l.accepts key cost = true ∧
      spentBy key (call, (l.step buckets call).2) = paid (l.serve call.now cost b).1 cost ∧
      (l.step buckets call).1.lookup key = some (l.serve call.now cost b).2 := by
  obtain ⟨now, op⟩ := call
  cases op with
  | cleanup => cases h
  | len => cases h
  | allowN k cost =>
    simp only [touches, Bool.and_eq_true, decide_eq_true_eq] at h
    obtain ⟨rfl, hacc⟩ := h
    have htarget : l.target now buckets k = b := by rw [target, hlive]; rfl
    have hroom : l.room now buckets k = (buckets, .free) := by simp [room, hlive]
    obtain ⟨hdecision, hbuckets⟩ := allowN_served now buckets hacc (by simp [hroom])
    refine ⟨cost, hacc, ?_, ?_⟩
    · simp only [step, spentBy, if_true, hdecision, htarget]
    · simp only [step, hbuckets, htarget]
      exact AList.lookup_insert _

/-- One call: the bucket that is left follows the balance, and its time is
not later than the readings. -/
theorem step_evolves (hok : BucketsOk l buckets) (hb : buckets.lookup key = some b)
    (hkeep : l.Keeps key buckets call) :
    ∃ b', (l.step buckets call).1.lookup key = some b' ∧
      Evolves l.refillRate b.level (spentBy key (call, (l.step buckets call).2)) b'.level ∧
      (∀ latest : ℤ, b.lastRefill.val.nanos ≤ latest →
        (l.touches key call = true → call.now.val.nanos ≤ latest) →
        b'.lastRefill.val.nanos ≤ latest) := by
  unfold Keeps at hkeep
  cases htouch : l.touches key call with
  | false =>
    obtain ⟨hspent, hsame⟩ := step_untouched buckets htouch
    rw [htouch, if_neg Bool.false_ne_true] at hkeep
    obtain ⟨b', hb'⟩ := Option.isSome_iff_exists.mp hkeep
    obtain rfl : b = b' := Option.some.inj (hb.symm.trans (hsame b' hb'))
    rw [hspent]
    exact ⟨b, hb', .refl, fun latest hle _ => hle⟩
  | true =>
    rw [htouch, if_pos rfl] at hkeep
    obtain ⟨b', hlive⟩ := Option.isSome_iff_exists.mp hkeep
    obtain rfl : b = b' := Option.some.inj (hb.symm.trans (liveEntry_some.mp hlive).1)
    obtain ⟨cost, hacc, hspent, hleft⟩ := step_touched htouch hlive
    rw [hspent]
    refine ⟨_, hleft, serve_evolves (hok key b hb), fun latest hle hnow => ?_⟩
    rw [serve_lastRefill (hok key b hb)]
    exact max_le hle (hnow rfl)

theorem run_evolves (calls : List Call) :
    ∀ {buckets} {b : Bucket}, BucketsOk l buckets → buckets.lookup key = some b →
    l.StaysResident key buckets calls →
    ∃ b' : Bucket, b'.Ok l ∧
      Evolves l.refillRate b.level (spent key (Purge.answers l.step buckets calls)) b'.level ∧
      (∀ latest : ℤ, b.lastRefill.val.nanos ≤ latest →
        (∀ call ∈ calls, l.touches key call = true → call.now.val.nanos ≤ latest) →
        b'.lastRefill.val.nanos ≤ latest) := by
  induction calls with
  | nil =>
    intro buckets b hok hb _
    exact ⟨b, hok key b hb, .refl, fun latest hle _ => hle⟩
  | cons call rest ih =>
    intro buckets b hok hb hstay
    obtain ⟨b₁, hb₁, hfirst, hlast₁⟩ := step_evolves hok hb hstay.1
    obtain ⟨b₂, hok₂, hrest, hlast₂⟩ := ih (hok.step call) hb₁ hstay.2
    refine ⟨b₂, hok₂, hfirst.trans hrest, fun latest hle hnow => ?_⟩
    refine hlast₂ latest (hlast₁ latest hle (hnow call List.mem_cons_self)) fun c hc => ?_
    exact hnow c (List.mem_cons_of_mem _ hc)

end Limiter

def elapsed (first last : Reading) : ℚ :=
  (max 0 (last.val.nanos - first.val.nanos) : ℤ) / 1000000000

theorem spent_le_of_evolves {l : Limiter} {a b : Bucket} {first latest : Reading}
    (hfirst : a.lastRefill = first) (h : Evolves l.refillRate a.level drawn b.level) (hb : b.Ok l)
    (htime : b.lastRefill.val.nanos ≤ max first.val.nanos latest.val.nanos) :
    drawn ≤ a.tokens + l.refillRate * elapsed first latest := by
  have hlevel : b.level.time ≤ (max first.val.nanos latest.val.nanos : ℤ) / 1000000000 :=
    div_le_div_of_nonneg_right (Int.cast_le.mpr htime) (by norm_num)
  have hbound := h.spent_le l.refillRate_pos.le hb.tokens_nonneg hlevel
  have hdiff : max 0 (latest.val.nanos - first.val.nanos) =
      max first.val.nanos latest.val.nanos - first.val.nanos := by omega
  subst hfirst
  rw [elapsed, hdiff, Int.cast_sub, sub_div]
  exact hbound

/-- Calls on a key whose bucket stays resident, from any state the limiter
can be in and with readings in any order, are not allowed more than the
tokens held at the start and the refill up to the latest reading. -/
theorem spent_le_tokens_add_refill {cfg : Config} {l : Limiter} (hnew : new cfg = .ok l)
    (history calls : List Call) (key : GoString) {b : Bucket}
    (hb : (Purge.final l.step ∅ history).lookup key = some b)
    (hstay : l.StaysResident key (Purge.final l.step ∅ history) calls) (latest : Reading)
    (hlatest : ∀ call ∈ calls, l.touches key call = true → call.now ≤ latest) :
    spent key (Purge.answers l.step (Purge.final l.step ∅ history) calls) ≤
      b.tokens + cfg.refillRate.toRat * elapsed b.lastRefill latest ∧
    spent key (Purge.answers l.step (Purge.final l.step ∅ history) calls) ≤
      cfg.capacity + cfg.refillRate.toRat * elapsed b.lastRefill latest := by
  obtain ⟨-, hcapacity, hrate, -⟩ := new_ok hnew
  have hok := (bucketsOk_empty l).final history
  obtain ⟨b', hok', hevolves, hlast⟩ := Limiter.run_evolves calls hok hb hstay
  have htime : b'.lastRefill.val.nanos ≤ max b.lastRefill.val.nanos latest.val.nanos :=
    hlast _ (le_max_left _ _) fun call hc ht => le_trans (hlatest call hc ht) (le_max_right _ _)
  have hbound := spent_le_of_evolves rfl hevolves hok' htime
  have hfull := (hok key b hb).tokens_le
  rw [hrate] at hbound
  rw [hcapacity] at hfull
  exact ⟨hbound, le_trans hbound (add_le_add hfull le_rfl)⟩

/-- The bound is met: an empty bucket has regained three tokens after three
seconds, they are spent, and a reading that goes back brings none. -/
theorem spent_le_tokens_add_refill_empty :
    let key : GoString := [107]
    let start := Purge.final Limiter.small.step ∅ [⟨.ofSec 10, .allowN key 5⟩]
    let calls : List Call :=
      [⟨.ofSec 11, .allowN [97] 1⟩, ⟨.ofSec 13, .allowN key 3⟩, ⟨.ofSec 12, .allowN key 1⟩]
    spent key (Purge.answers Limiter.small.step start calls) = 3 ∧
    spent key (Purge.answers Limiter.small.step start calls) ≤ 0 + 1 * elapsed
    (.ofSec 10) (.ofSec 13) :=
  ⟨by decide +kernel, (spent_le_tokens_add_refill new_small [⟨.ofSec 10, .allowN [107] 5⟩]
    [⟨.ofSec 11, .allowN [97] 1⟩, ⟨.ofSec 13, .allowN [107] 3⟩, ⟨.ofSec 12, .allowN [107] 1⟩]
    [107] (b := ⟨0, .ofSec 10, .ofSec 10⟩) (by decide +kernel) (by decide +kernel) (.ofSec 13)
    (by decide +kernel)).1⟩

end GoClean.RateLimit
