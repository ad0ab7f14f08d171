import GoClean.RateLimit.Eviction

/-!
# Calls that other calls do not see

Two maps with the same live entries answer every call alike, whatever expired
entries linger in either. So the maintenance calls can be left out of a run,
and, when new keys are refused, so can the calls on other keys for a key that
is never refused for want of room.
-/

namespace GoClean.RateLimit

open Go

def Call.isAllowN (call : Call) : Bool :=
  match call.op with
  | .allowN _ _ => true
  | _ => false

def Call.isOn (key : GoString) (call : Call) : Bool :=
  match call.op with
  | .allowN k _ => decide (k = key)
  | _ => false

def Answer.noRoom : Answer → Bool
  | .decision d _ => decide (d.reason = .capacity)
  | .count _ => false

def SameLive (l : Limiter) (now : Reading) (buckets buckets' : Buckets) : Prop :=
  ∀ key, l.liveEntry now buckets key = l.liveEntry now buckets' key

section
variable {l : Limiter} {now next : Reading} {buckets buckets' : Buckets} {key : GoString}

theorem SameLive.later (hle : now ≤ next) (h : SameLive l now buckets buckets') :
    SameLive l next buckets buckets' := by
  intro key
  rw [Limiter.liveEntry_later hle, h key, ← Limiter.liveEntry_later hle]

theorem SameLive.insert (h : SameLive l now buckets buckets') (b : Bucket) :
    SameLive l now (buckets.insert key b) (buckets'.insert key b) := by
  intro other
  rw [Limiter.liveEntry_insert, Limiter.liveEntry_insert, h other]

theorem SameLive.erase (h : SameLive l now buckets buckets') :
    SameLive l now (buckets.erase key) (buckets'.erase key) := by
  intro other
  rw [Limiter.liveEntry_erase, Limiter.liveEntry_erase, h other]

theorem sameLive_cleanupLocked (l : Limiter) (now : Reading) (buckets : Buckets) :
    SameLive l now (l.cleanupLocked now buckets) buckets :=
  fun _ => Limiter.liveEntry_cleanupLocked ..

theorem sameLive_of_lookup (h : ∀ k, buckets.lookup k = buckets'.lookup k) :
    SameLive l now buckets buckets' :=
  fun key => by rw [Limiter.liveEntry, Limiter.liveEntry, h key]

theorem SameLive.cleanupLocked (h : SameLive l now buckets buckets') (key : GoString) :
    (l.cleanupLocked now buckets).lookup key = (l.cleanupLocked now buckets').lookup key := by
  rw [Limiter.lookup_cleanupLocked, Limiter.lookup_cleanupLocked, h key]

theorem makeRoom_of_full (h : l.maxClients ≤ AssocMap.size (l.cleanupLocked now buckets)) :
    l.makeRoom now buckets =
      if l.overflow = .rejectNew then (l.cleanupLocked now buckets, .full)
      else ((evictOldestLocked (l.cleanupLocked now buckets)).1,
        .evicted (evictOldestLocked (l.cleanupLocked now buckets)).2) := by
  have hle : (AssocMap.size (l.cleanupLocked now buckets) : Int) ≤ AssocMap.size buckets :=
    Int.ofNat_le.mpr (l.size_cleanupLocked_le now buckets)
  simp only [Limiter.makeRoom, le_trans h hle, h, if_true]

theorem makesRoom_of_free (hr : Limiter.MakesRoom l now buckets r)
    (h : (AssocMap.size (l.cleanupLocked now buckets) : Int) < l.maxClients) :
    r.2 = .free ∧ SameLive l now r.1 buckets := by
  cases hr with
  | free _ => exact ⟨rfl, fun _ => rfl⟩
  | swept _ _ => exact ⟨rfl, sameLive_cleanupLocked l now buckets⟩
  | full hfull _ => exact absurd h (not_lt.mpr hfull)
  | evicted hfull _ => exact absurd h (not_lt.mpr hfull)

theorem SameLive.symm (h : SameLive l now buckets buckets') : SameLive l now buckets' buckets :=
  fun key => (h key).symm

theorem SameLive.trans (h : SameLive l now buckets buckets')
    (h' : SameLive l now buckets' buckets'') :
    SameLive l now buckets buckets'' :=
  fun key => (h key).trans (h' key)

/-- Room is made alike: the expired entries that linger in one map are swept
before anything depends on how many there are. -/
theorem SameLive.makeRoom (h : SameLive l now buckets buckets') :
    (l.makeRoom now buckets).2 = (l.makeRoom now buckets').2 ∧
    SameLive l now (l.makeRoom now buckets).1 (l.makeRoom now buckets').1 := by
  have hsize : AssocMap.size (l.cleanupLocked now buckets) = AssocMap.size
      (l.cleanupLocked now buckets') :=
    AssocMap.size_congr h.cleanupLocked
  by_cases hfull : l.maxClients ≤ AssocMap.size (l.cleanupLocked now buckets)
  · rw [makeRoom_of_full hfull, makeRoom_of_full (hsize ▸ hfull)]
    split
    · exact ⟨rfl, sameLive_of_lookup h.cleanupLocked⟩
    · obtain ⟨hkey, hleft⟩ := evictOldestLocked_congr h.cleanupLocked
      exact ⟨congrArg Room.evicted hkey, sameLive_of_lookup hleft⟩
  · have hlt := not_le.mp hfull
    obtain ⟨hfree, hlive⟩ := makesRoom_of_free (l.makeRoom_makesRoom now buckets) hlt
    obtain ⟨hfree', hlive'⟩ := makesRoom_of_free (l.makeRoom_makesRoom now buckets') (hsize ▸ hlt)
    exact ⟨hfree.trans hfree'.symm, hlive.trans (h.trans hlive'.symm)⟩

theorem SameLive.room (key : GoString) (h : SameLive l now buckets buckets') :
    (l.room now buckets key).2 = (l.room now buckets' key).2 ∧
    SameLive l now (l.room now buckets key).1 (l.room now buckets' key).1 := by
  unfold Limiter.room
  rw [h key]
  cases l.liveEntry now buckets' key with
  | some _ => exact ⟨rfl, h⟩
  | none => exact h.erase.makeRoom

theorem SameLive.allowN (key : GoString) (cost : Int) (h : SameLive l now buckets buckets') :
    (l.allowN buckets now key cost).decision = (l.allowN buckets' now key cost).decision ∧
    (l.allowN buckets now key cost).evicted = (l.allowN buckets' now key cost).evicted ∧
    SameLive l now (l.allowN buckets now key cost).buckets
      (l.allowN buckets' now key cost).buckets := by
  cases hacc : l.accepts key cost with
  | false =>
    rw [Limiter.allowN_rejected hacc, Limiter.allowN_rejected hacc]
    exact ⟨rfl, rfl, h⟩
  | true =>
    obtain ⟨hroom, hlive⟩ := h.room key
    rw [Limiter.allowN_eq hacc, Limiter.allowN_eq hacc, ← hroom, Limiter.target,
      h key, ← Limiter.target]
    split
    · exact ⟨rfl, rfl, hlive⟩
    · exact ⟨rfl, rfl, hlive.insert _⟩

theorem SameLive.maintenance (h : SameLive l call.now buckets buckets')
    (hop : call.isAllowN = false) :
    SameLive l call.now (l.step buckets call).1 buckets' := by
  obtain ⟨now, op⟩ := call
  cases op with
  | allowN _ _ => cases hop
  | cleanup =>
    rw [Limiter.step, Limiter.cleanup_fst]
    exact (sameLive_cleanupLocked l now buckets).trans h
  | len => exact (sameLive_cleanupLocked l now buckets).trans h

theorem unwinds_maintenance (l : Limiter) :
    Purge.Unwinds l.step l.step Call.isAllowN Call.now (fun _ _ => True) (SameLive l) where
  kept := by
    rintro t s s' ⟨now, op⟩ hR hle - hop
    cases op with
    | allowN key cost =>
      obtain ⟨hdecision, hevicted, hlive⟩ := (hR.later hle).allowN key cost
      exact ⟨by simp only [Limiter.step, hdecision, hevicted], hlive⟩
    | cleanup => cases hop
    | len => cases hop
  dropped := fun hR hle _ hop => (hR.later hle).maintenance hop

end

/-- Cleanup and Len calls, wherever they stand in a run, change neither the
decision of an `AllowN` call nor the key it evicts. -/
theorem maintenance_unobservable {l : Limiter} {calls calls' : List Call}
    (hord : Purge.Ordered Call.now calls) (hord' : Purge.Ordered Call.now calls')
    (hsame : calls.filter Call.isAllowN = calls'.filter Call.isAllowN) :
    (Purge.answers l.step ∅ calls).filter (fun p => p.1.isAllowN) =
      (Purge.answers l.step ∅ calls').filter (fun p => p.1.isAllowN) := by
  have hpurge : ∀ calls, Purge.Ordered Call.now calls →
      (Purge.answers l.step ∅ calls).filter (fun p => p.1.isAllowN) =
        Purge.answers l.step ∅ (calls.filter Call.isAllowN) :=
    fun calls hord =>
      Purge.answers_purge_init (unwinds_maintenance l) (fun _ _ => rfl) hord (fun _ _ => trivial)
  rw [hpurge calls hord, hpurge calls' hord', hsame]

/-- Four clients on two places: the run with a sweep at the time everything
has expired evicts and decides as the run without. -/
theorem maintenance_unobservable_evicting :
    let l := { Limiter.small with overflow := .evictOldest }
    let before : List Call :=
      [⟨.ofSec 0, .allowN [97] 5⟩, ⟨.ofSec 1, .allowN [98] 1⟩, ⟨.ofSec 2, .allowN [99] 1⟩]
    let after : List Call :=
      [⟨.ofSec 62, .allowN [97] 5⟩, ⟨.ofSec 63, .allowN [100] 1⟩, ⟨.ofSec 64, .allowN [98] 1⟩]
    (Purge.answers l.step ∅ (before ++ ⟨.ofSec 62, .cleanup⟩ :: after)).filter
      (fun p => p.1.isAllowN) =
      (Purge.answers l.step ∅ (before ++ after)).filter (fun p => p.1.isAllowN) :=
  maintenance_unobservable (by decide +kernel) (by decide +kernel) (by decide +kernel)

-- ---------------------------------------------------------------------------
-- Other keys
-- ---------------------------------------------------------------------------

/-- The two maps have the same live entry for the key, and the second one
has no other key. -/
def SameFor (l : Limiter) (key : GoString) (now : Reading) (buckets buckets' : Buckets) : Prop :=
  l.liveEntry now buckets key = l.liveEntry now buckets' key ∧ ∀ k, k ≠ key →
    buckets'.lookup k = none

section
variable {l : Limiter} {now next : Reading} {buckets buckets' : Buckets} {key : GoString}

theorem SameFor.later (hle : now ≤ next) (h : SameFor l key now buckets buckets') :
    SameFor l key next buckets buckets' := by
  refine ⟨?_, h.2⟩
  rw [Limiter.liveEntry_later hle, h.1, ← Limiter.liveEntry_later hle]

theorem room_alone (l : Limiter) (now : Reading) (h : ∀ k, k ≠ key → buckets.lookup k = none) :
    (l.room now buckets key).2 = .free ∧ ∀ k, k ≠ key →
    (l.room now buckets key).1.lookup k = none := by
  have hempty : AssocMap.size (buckets.erase key) = 0 := by
    refine AssocMap.size_eq_zero fun k => ?_
    by_cases hk : k = key
    · rw [hk, AList.lookup_erase]
    · rw [AList.lookup_erase_ne hk, h k hk]
  have hroom : (AssocMap.size (buckets.erase key) : Int) < l.maxClients := by
    rw [hempty]
    exact l.maxClients_pos
  unfold Limiter.room
  split
  · exact ⟨rfl, h⟩
  · rw [Limiter.makeRoom_of_lt hroom]
    exact ⟨rfl, fun k hk => by rw [AList.lookup_erase_ne hk, h k hk]⟩

/-- A call on the key that is not refused for want of room is answered as by
a limiter that has only this key. -/
theorem SameFor.own (h : SameFor l key now buckets buckets')
    (hroom : (l.allowN buckets now key cost).decision.reason ≠ .capacity) :
    (l.allowN buckets now key cost).decision = (l.allowN buckets' now key cost).decision ∧
    SameFor l key now (l.allowN buckets now key cost).buckets
      (l.allowN buckets' now key cost).buckets := by
  cases hacc : l.accepts key cost with
  | false =>
    rw [Limiter.allowN_rejected hacc, Limiter.allowN_rejected hacc]
    exact ⟨rfl, h⟩
  | true =>
    have hnot : (l.room now buckets key).2 ≠ .full := fun hfull =>
      hroom (by rw [Limiter.allowN_refused hacc hfull])
    obtain ⟨hfree, halone⟩ := room_alone l now h.2
    obtain ⟨hd, hb⟩ := Limiter.allowN_served now buckets hacc hnot
    obtain ⟨hd', hb'⟩ := Limiter.allowN_served now buckets' hacc (by rw [hfree]; decide)
    have htarget : l.target now buckets key = l.target now buckets' key := by
      rw [Limiter.target, h.1, ← Limiter.target]
    rw [hd, hd', hb, hb', htarget]
    refine ⟨rfl, ?_, fun k hk => ?_⟩
    · rw [Limiter.liveEntry_insert, Limiter.liveEntry_insert, if_pos rfl, if_pos rfl]
    · rw [AList.lookup_insert_ne hk]
      exact halone k hk

theorem SameFor.other (hpolicy : l.overflow = .rejectNew)
    (h : SameFor l key call.now buckets buckets')
    (hother : call.isOn key = false) : SameFor l key call.now (l.step buckets call).1 buckets' := by
  obtain ⟨now, op⟩ := call
  refine ⟨?_, h.2⟩
  cases op with
  | allowN k cost =>
    have hne : key ≠ k := fun he => by simp [Call.isOn, he] at hother
    exact (Limiter.liveEntry_allowN hpolicy hne).trans h.1
  | cleanup =>
    rw [Limiter.step, Limiter.cleanup_fst, Limiter.liveEntry_cleanupLocked]
    exact h.1
  | len => exact (Limiter.liveEntry_cleanupLocked ..).trans h.1

theorem unwinds_other (hpolicy : l.overflow = .rejectNew) (key : GoString) :
    Purge.Unwinds l.step l.step (Call.isOn key) Call.now
      (fun call answer => call.isOn key = true → answer.noRoom = false) (SameFor l key) where
  kept := by
    rintro t s s' ⟨now, op⟩ hR hle hok hop
    cases op with
    | allowN k cost =>
      obtain rfl : k = key := of_decide_eq_true hop
      have hroom : (l.allowN s now k cost).decision.reason ≠ .capacity :=
        of_decide_eq_false (hok hop)
      obtain ⟨hdecision, hsame⟩ := (hR.later hle).own hroom
      refine ⟨?_, hsame⟩
      simp only [Limiter.step, hdecision, Limiter.evicted_eq_none hpolicy]
    | cleanup => cases hop
    | len => cases hop
  dropped := fun hR hle _ hop => SameFor.other hpolicy (hR.later hle) hop

/-- The decisions on a key that always finds room are those of the run of its
own calls. -/
theorem answers_own (hpolicy : l.overflow = .rejectNew) (key : GoString) {calls : List Call}
    (hord : Purge.Ordered Call.now calls)
    (hroom : ∀ p ∈ Purge.answers l.step ∅ calls, p.1.isOn key = true → p.2.noRoom = false) :
    (Purge.answers l.step ∅ calls).filter (fun p => p.1.isOn key) =
      Purge.answers l.step ∅ (calls.filter (Call.isOn key)) :=
  Purge.answers_purge_init (unwinds_other hpolicy key) (fun _ => ⟨rfl, fun _ _ => rfl⟩) hord hroom

end

/-- Under RejectNew, a key none of whose calls was refused for want of room
gets the decisions it would get with the calls on other keys and the
maintenance calls left out. -/
theorem keys_isolated {cfg : Config} {l : Limiter} (hnew : new cfg = .ok l)
    (hpolicy : cfg.overflow = .rejectNew)
    (key : GoString) {calls : List Call} (hord : Purge.Ordered Call.now calls)
    (hroom : ∀ p ∈ Purge.answers l.step ∅ calls, p.1.isOn key = true → p.2.noRoom = false) :
    (Purge.answers l.step ∅ calls).filter (fun p => p.1.isOn key) =
      Purge.answers l.step ∅ (calls.filter (Call.isOn key)) := by
  obtain ⟨-, -, -, -, -, hover⟩ := new_ok hnew
  exact answers_own (hover.trans hpolicy) key hord hroom

/-- A key on two places shared with two others, one of which is refused; its
bucket expires and is swept by a call of another key. -/
theorem keys_isolated_shared :
    let calls : List Call :=
  [⟨.ofSec 0, .allowN [97] 5⟩, ⟨.ofSec 1, .allowN [98] 1⟩, ⟨.ofSec 2, .allowN [99] 1⟩,
      ⟨.ofSec 3, .allowN [97] 1⟩, ⟨.ofSec 80, .len⟩, ⟨.ofSec 80, .allowN [99] 1⟩,
      ⟨.ofSec 81, .allowN [97] 5⟩]
    (Purge.answers Limiter.small.step ∅ calls).filter (fun p => p.1.isOn [97]) =
      Purge.answers Limiter.small.step ∅ (calls.filter (Call.isOn [97])) :=
  keys_isolated new_small rfl [97] (by decide +kernel) (by decide +kernel)

end GoClean.RateLimit
