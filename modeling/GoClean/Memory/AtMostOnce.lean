import GoClean.Memory.Invariant

/-!
# One item per key and retention window

Under a clock that does not go back, a reading taken before a section is
not ahead of the clock, so a cleanup never removes a record that the clock
has not reached (`Timed`). A retained record excludes markers on its key,
and only a marker's holder inserts; this gives at most one insert for each
key and window, and every other success in the window is a replay of it.
-/

namespace GoClean.Memory

open Go Threads Transition

/-- The clock does not go back. -/
def NonDecreasing (w : World) (_ : Action) (w' : World) : Prop := w.clock.instant ≤ w'.clock.instant

structure Timed (H : Hashes) (w : World) : Prop where
  pending : ∀ (i : Nat) c now, w.calls[i]? = some c → c.pc = .timed now →
    now.instant ≤ w.clock.instant
  retained : ∀ (i : Nat) c k entry, w.calls[i]? = some c → c.key H = some k →
    c.recorded = some entry → w.clock.instant < entry.expiresAt.instant →
    w.store.idempotency.lookup k = some entry

theorem timed_init (H : Hashes) (maxEntries : Int) (clock : Time) :
    Timed H (World.init maxEntries clock) where
  pending i c now hc := by simp [World.init] at hc
  retained i c k entry hc := by simp [World.init] at hc

theorem callStep_timed {H : Hashes} (h : CallStep H clock s c s' c') (hpc : c'.pc = .timed now) :
    now = clock := by
  cases h <;> cases hpc
  rfl

theorem lookup_cleanup {s : Store} (hl : s.idempotency.lookup k = some entry)
    (hnow : now.instant < entry.expiresAt.instant) :
    (s.cleanupIdempotencyLocked now).idempotency.lookup k = some entry :=
  AssocMap.lookup_filter_of_pos hl (Time.before_iff.mpr hnow)

section
variable {H : Hashes} {w w' : World} {i : Nat} {c c' : Call} {s' : Store}

/-- A record survives every effect but a completion on its own key, and a
cleanup by a reading that has reached it. -/
theorem retained_effect {s : Store} (he : Effect H s c c' s')
    (hl : s.idempotency.lookup k = some entry) (hnotdone : c.held H ≠ some k)
    (hnow : ∀ now, c.pc = .timed now → now.instant < entry.expiresAt.instant) :
    s'.idempotency.lookup k = some entry := by
  cases he with
  | quiet | insert | release => exact hl
  | cleanup hpc | reserve hpc => exact lookup_cleanup hl (hnow _ hpc)
  | complete hheld =>
    have hne : k ≠ _ := fun he => hnotdone (he ▸ hheld)
    exact (AList.lookup_insert_ne hne).trans hl

theorem Inv.unheld (h : Inv H w) (hl : w.store.idempotency.lookup k = some entry)
    (hc : w.calls[i]? = some c) : c.held H ≠ some k := by
  intro hheld
  rw [h.disjoint k (h.marked hc hheld)] at hl
  cases hl

theorem Timed.advance (h : Inv H w) (ht : Timed H w) (hc : w.calls[i]? = some c)
    (hcall : CallStep H w.clock w.store c s' c') :
    Timed H { w with store := s', calls := w.calls.set i c' } where
  pending j d now hd hpc := by
    rcases set_cases hd with ⟨-, rfl⟩ | ⟨-, hd⟩
    · exact (callStep_timed hcall hpc ▸ le_rfl)
    · exact ht.pending j d now hd hpc
  retained j d k entry hd hkey hrec hclock := by
    have he := callStep_effect hcall (h.ok i c hc)
    have hold (e : Nat) (b : Call) (hb : w.calls[e]? = some b) (hbk : b.key H = some k)
        (hbr : b.recorded = some entry) : s'.idempotency.lookup k = some entry := by
      have hl := ht.retained e b k entry hb hbk hbr hclock
      exact retained_effect he hl (h.unheld hl hc)
        fun now hpc => lt_of_le_of_lt (ht.pending i c now hc hpc) hclock
    rcases set_cases hd with ⟨-, rfl⟩ | ⟨-, hd⟩
    · rw [key_of_op (callStep_op hcall)] at hkey
      cases he with
      | quiet _ _ hsame | insert _ _ _ hsame | release _ _ _ hsame | cleanup _ _ _ hsame
      | reserve _ _ _ _ hsame => exact hold i c hc hkey (hsame ▸ hrec)
      | complete _ _ hkey' _ _ hrec' =>
        rw [hrec] at hrec'
        cases hrec'
        rw [key_of_op (callStep_op hcall), hkey] at hkey'
        cases hkey'
        exact AList.lookup_insert _
    · exact hold j d hd hkey hrec

theorem timed_step (h : Inv H w) (ht : Timed H w) (hstep : step H w a = some w')
    (hclock : NonDecreasing w a w') : Timed H w' := by
  cases step_stepped hstep with
  | spawn =>
    refine ⟨fun i c now hc hpc => ?_, fun i c k entry hc hkey hrec => ?_⟩
    · rcases snoc_cases hc with ⟨-, rfl⟩ | hc
      · cases hpc
      · exact ht.pending i c now hc hpc
    · rcases snoc_cases hc with ⟨-, rfl⟩ | hc
      · cases hrec
      · exact ht.retained i c k entry hc hkey hrec
  | tick =>
    exact ⟨fun i c now hc hpc => (ht.pending i c now hc hpc).trans hclock,
      fun i c k entry hc hkey hrec hlt => ht.retained i c k entry hc hkey hrec
      (lt_of_le_of_lt hclock hlt)⟩
  | @cancel i d cause hd =>
    refine ⟨fun j c now hc hpc => ?_, fun j c k entry hc hkey hrec hlt => ?_⟩
    · rcases set_cases hc with ⟨-, rfl⟩ | ⟨-, hc⟩
      · exact ht.pending i d now hd hpc
      · exact ht.pending j c now hc hpc
    · rcases set_cases hc with ⟨-, rfl⟩ | ⟨-, hc⟩
      · exact ht.retained i d k entry hd hkey hrec hlt
      · exact ht.retained j c k entry hc hkey hrec hlt
  | advance hc hcall => exact ht.advance h hc hcall

end

theorem timed_run {H : Hashes} (hr : Run (step H) NonDecreasing (World.init maxEntries clock) w) :
    Inv H w ∧ Timed H w :=
  Run.invariant (P := fun w => Inv H w ∧ Timed H w)
    (fun _ _ _ h hs ho => ⟨inv_step h.1 hs, timed_step h.1 h.2 hs ho⟩) hr
    ⟨inv_init H maxEntries clock, timed_init H maxEntries clock⟩

-- ---------------------------------------------------------------------------
-- Inserts and results
-- ---------------------------------------------------------------------------

/-- Call `j` inserts `v` between the two worlds. -/
def Inserts (w w' : World) (j : Nat) (v : Item) : Prop :=
  ∃ c c', w.calls[j]? = some c ∧ w'.calls[j]? = some c' ∧ c.inserted = none ∧ c'.inserted = some v

/-- The successful result of a keyed create, from the section that settles
it on. -/
def Call.success (c : Call) : Option (Item × Bool) :=
  match c.pc with
  | .completed created => some (created, false)
  | .returned (.ok (.created value replayed)) => some (value, replayed)
  | _ => none

theorem success_iff {c : Call} : c.success = some (v, r) ↔
    (c.pc = .completed v ∧ r = false) ∨ c.pc = .returned (.ok (.created v r)) := by
  unfold Call.success
  split
  · next hpc => simp [hpc, eq_comm]
  · next hpc => simp [hpc]
  · next h1 h2 => simpa using ⟨fun hpc => absurd hpc (h1 v), fun hpc => absurd hpc (h2 v r)⟩

section
variable {H : Hashes} {w w' : World} {i j : Nat} {c c' d : Call} {s s' : Store}

theorem callStep_inserts (h : CallStep H clock s c s' c') (hnone : c.inserted = none)
    (hins : c'.inserted = some v) (hkey : c.key H = some k) : c.held H = some k := by
  obtain ⟨op, ctx, pc, inserted, recorded⟩ := c
  cases hnone
  cases h with
  | insert hop hpc =>
    cases hop
    cases hpc
    exact hkey
  | create hop =>
    cases hop
    cases hkey
  | _ => cases hins

theorem inserts_held (hstep : step H w a = some w') (hins : Inserts w w' j v)
    (hd : w.calls[j]? = some d) (hkey : d.key H = some k) : d.held H = some k := by
  obtain ⟨c, c', hc, hc', hnone, hv⟩ := hins
  rw [hd] at hc
  cases hc
  obtain ⟨e, he, hmoved⟩ := step_moved hstep hd
  rw [hc'] at he
  cases he
  cases hmoved with
  | waited =>
    rw [hnone] at hv
    cases hv
  | stepped _ hcall => exact callStep_inserts hcall hnone hv hkey

theorem effect_recorded (he : Effect H s c c' s') (hrec : c.recorded = some entry) :
    c'.recorded = some entry := by
  cases he with
  | quiet _ _ hsame | insert _ _ _ hsame | release _ _ _ hsame | cleanup _ _ _ hsame
  | reserve _ _ _ _ hsame => exact hsame.trans hrec
  | complete _ _ _ _ hnone =>
    rw [hnone] at hrec
    cases hrec

theorem effect_inserted (he : Effect H s c c' s') (hins : c.inserted = some v) :
    c'.inserted = some v := by
  cases he with
  | quiet _ hsame | release _ _ hsame | cleanup _ _ hsame | reserve _ _ _ hsame
  | complete _ _ _ hsame => exact hsame.trans hins
  | insert _ hnone =>
    rw [hnone] at hins
    cases hins

theorem moved_history (hmoved : Moved H w w' c c') (hok : c.Ok) :
    c'.op = c.op ∧ (∀ entry, c.recorded = some entry → c'.recorded = some entry) ∧
      ∀ v, c.inserted = some v → c'.inserted = some v := by
  cases hmoved with
  | waited => exact ⟨rfl, fun _ h => h, fun _ h => h⟩
  | stepped _ hcall =>
    have he := callStep_effect hcall hok
    exact ⟨callStep_op hcall, fun _ h => effect_recorded he h, fun _ h => effect_inserted he h⟩

/-- How a call comes to succeed: it completes its own create, or finds the
record of its key. -/
theorem callStep_success (h : CallStep H clock s c s' c') (hok : c.Ok) (hnone : c.success = none)
    (hsome : c'.success = some (v, r)) (hkey : c.key H = some k) :
    (r = false ∧ c.held H = some k ∧ c.inserted = some v) ∨
      (r = true ∧ ∃ entry, s.idempotency.lookup k = some entry ∧
        s.items.lookup entry.itemID = some v) := by
  obtain ⟨op, ctx, pc, inserted, recorded⟩ := c
  cases h with
  | settle hop hpc hsettled =>
    cases hop
    cases hkey
    generalize keyHash H _ = k at hsettled
    cases hsettled with
    | replay hl _ _ hitem =>
      cases hsome
      exact .inr ⟨rfl, _, (AssocMap.lookup_of_lookup_filter hl).1, hitem⟩
    | _ => cases hsome
  | complete hop hpc =>
    cases hop
    cases hpc
    cases hkey
    cases hsome
    cases hok.keyed rfl
    exact .inl ⟨rfl, rfl, rfl⟩
  | finish _ hpc =>
    cases hpc
    cases hnone
  | create hop | createFails hop =>
    cases hop
    cases hkey
  | copy hno | answer hno =>
    cases op with
    | createIdempotent request => exact absurd rfl (hno request)
    | _ => cases hkey
  | _ => cases hsome

/-- While a record is retained, whoever succeeds under its key gets the
recorded item as a replay. -/
theorem success_in_window (h : Inv H w) (hl : w.store.idempotency.lookup k = some entry)
    (hitem : w.store.items.lookup entry.itemID = some v) (hstep : step H w a = some w')
    (hnone : ∀ c, w.calls[j]? = some c → c.success = none) (hd : w'.calls[j]? = some d)
    (hkey : d.key H = some k) (hsome : d.success = some (v', r)) : v' = v ∧ r = true := by
  cases hj : w.calls[j]? with
  | none =>
    obtain ⟨op, ctx, rfl⟩ := step_new hstep hd hj
    cases hsome
  | some c =>
    obtain ⟨c', hc', hmoved⟩ := step_moved hstep hj
    rw [hd] at hc'
    cases hc'
    cases hmoved with
    | waited =>
      have hsome : c.success = some (v', r) := hsome
      rw [hnone c hj] at hsome
      cases hsome
    | stepped _ hcall =>
      rw [key_of_op (callStep_op hcall)] at hkey
      rcases callStep_success hcall (h.ok j c hj) (hnone c hj) hsome hkey with
        ⟨-, hheld, -⟩ | ⟨rfl, entry', hl', hitem'⟩
      · exact absurd hheld (h.unheld hl hj)
      · rw [hl] at hl'
        cases hl'
        rw [hitem] at hitem'
        cases hitem'
        exact ⟨rfl, rfl⟩

theorem callStep_success_some (h : CallStep H clock s c s' c') (hsome : c.success = some x)
    (hsome' : c'.success = some y) : x = y := by
  obtain ⟨v, r⟩ := x
  obtain ⟨v', r'⟩ := y
  rw [success_iff] at hsome hsome'
  cases h with
  | finish _ hpc =>
    rcases hsome with ⟨hpc', rfl⟩ | hpc' <;> cases hpc.symm.trans hpc'
    rcases hsome' with ⟨hpc', -⟩ | hpc'
    · cases hpc'
    · cases finish_ok (PC.returned.inj hpc')
      rfl
  | answer _ hresult =>
    rcases hsome' with ⟨hpc', -⟩ | hpc'
    · cases hpc'
    · exact absurd (PC.returned.inj hpc') (hresult _ _)
  | enter hpc | refuse hpc | readClock _ hpc | settle _ hpc | reserve _ hpc | proceed _ hpc
  | stop _ hpc | insert _ hpc | insertFails _ hpc | nilID _ hpc | complete _ hpc | clear _ hpc
  | create _ hpc | createFails _ hpc | copy _ hpc =>
    rcases hsome with ⟨hpc', -⟩ | hpc' <;> cases hpc.symm.trans hpc'

theorem callStep_records (h : CallStep H clock s c s' c') (hok : c.Ok) (hnone : c.recorded = none)
    (hrec : c'.recorded = some entry) :
    ∃ request, c.op = .createIdempotent request ∧ c'.pc = .completed request.value ∧
      c'.inserted = some request.value ∧ Records request entry ∧
      s'.idempotency.lookup (keyHash H request) = some entry := by
  obtain ⟨op, ctx, pc, inserted, recorded⟩ := c
  cases hnone
  cases h with
  | complete hop hpc _ hentry =>
    cases hop
    cases hpc
    cases hrec
    cases hok.keyed rfl
    cases hentry
    exact ⟨_, rfl, rfl, rfl, ⟨rfl, rfl⟩, AList.lookup_insert _⟩
  | _ => cases hrec

/-- Call `i` has inserted `v` under key hash `k` and recorded it. -/
def Recorded (H : Hashes) (w : World) (i : Nat) (k : Digest) (entry : IdempotencyEntry) (v : Item) :
    Prop :=
  ∃ c, w.calls[i]? = some c ∧ c.key H = some k ∧ c.recorded = some entry ∧ c.inserted = some v ∧
    entry.itemID = v.id

theorem recorded_step (h : Inv H w) (hrec : Recorded H w i k entry v)
    (hstep : step H w a = some w') :
    Recorded H w' i k entry v := by
  obtain ⟨c, hc, hkey, hr, hi, hid⟩ := hrec
  obtain ⟨c', hc', hmoved⟩ := step_moved hstep hc
  obtain ⟨hop, hkeepr, hkeepi⟩ := moved_history hmoved (h.ok i c hc)
  exact ⟨c', hc', (key_of_op hop).trans hkey, hkeepr entry hr, hkeepi v hi, hid⟩

/-- Every success under `k` that `w` did not have yet is one of `v`. -/
def OnlyResult (H : Hashes) (w w' : World) (i : Nat) (k : Digest) (v : Item) : Prop :=
  ∀ (j : Nat) d v' r, w'.calls[j]? = some d → d.key H = some k → d.success = some (v', r) →
    (∀ b, w.calls[j]? = some b → b.success = none) → v' = v ∧ (r = false → j = i)

theorem onlyResult_step {w₀ : World} (h : Inv H w) (ht : Timed H w)
    (hrec : Recorded H w i k entry v) (hclock : w.clock.instant < entry.expiresAt.instant)
    (honly : OnlyResult H w₀ w i k v) (hstep : step H w a = some w') :
    OnlyResult H w₀ w' i k v := by
  intro j d v' r hd hkey hsome hfresh
  obtain ⟨c, hc, hckey, hcrec, hcins, hid⟩ := hrec
  have hl := ht.retained i c k entry hc hckey hcrec hclock
  have hitem : w.store.items.lookup entry.itemID = some v := hid ▸ h.stored i c v hc hcins
  by_cases hnone : ∀ b, w.calls[j]? = some b → b.success = none
  · obtain ⟨rfl, rfl⟩ := success_in_window h hl hitem hstep hnone hd hkey hsome
    exact ⟨rfl, nofun⟩
  · -- the result was there before, so this step did not change it
    simp only [not_forall] at hnone
    obtain ⟨b, hb, hbsome⟩ := hnone
    obtain ⟨x, hx⟩ := Option.ne_none_iff_exists'.mp hbsome
    obtain ⟨d', hd', hmoved⟩ := step_moved hstep hb
    rw [hd] at hd'
    cases hd'
    have hop := (moved_history hmoved (h.ok j b hb)).1
    have hsame : x = (v', r) := by
      cases hmoved with
      | waited => exact Option.some.inj (hx.symm.trans hsome)
      | stepped _ hcall => exact callStep_success_some hcall hx hsome
    exact honly j b v' r hb ((key_of_op hop).symm.trans hkey)
      (hx.trans (congrArg some hsame)) hfresh

theorem onlyResult_run {w₀ w₁ w₂ : World} (h : Inv H w₁) (ht : Timed H w₁)
    (hrec : Recorded H w₁ i k entry v) (honly : OnlyResult H w₀ w₁ i k v)
    (hr : Run (step H) NonDecreasing w₁ w₂) (hclock : w₂.clock.instant < entry.expiresAt.instant) :
    OnlyResult H w₀ w₂ i k v := by
  suffices hall : Inv H w₂ ∧ Timed H w₂ ∧ Recorded H w₂ i k entry v ∧ OnlyResult H w₀ w₂ i k v from
    hall.2.2.2
  induction hr with
  | refl => exact ⟨h, ht, hrec, honly⟩
  | tail _ hs ho ih =>
    have hbefore := lt_of_le_of_lt ho hclock
    obtain ⟨h, ht, hrec, honly⟩ := ih hbefore
    exact ⟨inv_step h hs, timed_step h ht hs ho, recorded_step h hrec hs,
      onlyResult_step h ht hrec hbefore honly hs⟩

theorem timed_advances (hd : w.calls[j]? = some d) (hop : d.op = .createIdempotent request)
    (hpc : d.pc = .timed now) : ∃ w', step H w (.advance j) = some w' := by
  obtain ⟨op, ctx, pc, inserted, recorded⟩ := d
  cases hop
  cases hpc
  simp only [step, hd, Option.bind_eq_bind, Option.bind_some, Call.advance]
  split
  · exact ⟨_, rfl⟩
  · exact ⟨_, rfl⟩

theorem settles_or_reserves (hop : d.op = .createIdempotent request) (hpc : d.pc = .timed now)
    (hcall : CallStep H clock s d s' c') :
    (∃ result, s' = s.cleanupIdempotencyLocked now ∧
      c' = { d with pc := .returned (result.map fun r => .created r.1 r.2) } ∧
      Settled s' d.ctx (keyHash H request) (requestHash request.fingerprint) result) ∨
    (s.cleanupIdempotencyLocked now).idempotency.lookup (keyHash H request) = none ∧
    keyHash H request ∉ s.inflight ∧
      s' =
        { s.cleanupIdempotencyLocked now with
          inflight := insert (keyHash H request) s.inflight } ∧
      c' = { d with pc := .reserved } := by
  obtain ⟨op, ctx, pc, inserted, recorded⟩ := d
  cases hop
  cases hpc
  cases hcall with
  | settle hop hpc hsettled =>
    cases hop
    cases hpc
    exact .inl ⟨_, rfl, rfl, hsettled⟩
  | reserve hop hpc hnone hin =>
    cases hop
    cases hpc
    exact .inr ⟨hnone, hin, rfl, rfl⟩
  | enter hpc | refuse hpc | readClock _ hpc | proceed _ hpc | stop _ hpc | insert _ hpc
  | insertFails _ hpc | nilID _ hpc | complete _ hpc | clear _ hpc | finish _ hpc | create _ hpc
  | createFails _ hpc | copy _ hpc => cases hpc
  | answer hno => exact absurd rfl (hno request)

theorem timed_settles (hop : d.op = .createIdempotent request) (hpc : d.pc = .timed now)
    (hl : (s.cleanupIdempotencyLocked now).idempotency.lookup (keyHash H request) = some entry)
    (hcall : CallStep H clock s d s' c') :
    s' = s.cleanupIdempotencyLocked now ∧
      ∃ result, c'.pc = .returned (result.map fun r => .created r.1 r.2) ∧
        Settled s' d.ctx (keyHash H request) (requestHash request.fingerprint) result := by
  rcases settles_or_reserves hop hpc hcall with ⟨result, rfl, rfl, hsettled⟩ | ⟨hnone, -⟩
  · exact ⟨rfl, result, rfl, hsettled⟩
  · rw [hl] at hnone
    cases hnone

theorem timed_answered (hd : w.calls[j]? = some d) (hop : d.op = .createIdempotent request)
    (hpc : d.pc = .timed now)
    (hl : (w.store.cleanupIdempotencyLocked now).idempotency.lookup (keyHash H request) =
      some entry) :
    ∃ w' d' result, step H w (.advance j) = some w' ∧ w'.calls[j]? = some d' ∧
      w'.store = w.store.cleanupIdempotencyLocked now ∧
      d'.pc = .returned (result.map fun r => .created r.1 r.2) ∧
      Settled (w.store.cleanupIdempotencyLocked now) d.ctx (keyHash H request)
        (requestHash request.fingerprint) result := by
  obtain ⟨w', hstep⟩ := timed_advances (H := H) hd hop hpc
  obtain ⟨d', hd', -⟩ := step_moved hstep hd
  obtain ⟨hstore, result, hpc', hsettled⟩ := timed_settles hop hpc hl (step_advance hstep hd hd')
  rw [hstore] at hsettled
  exact ⟨w', d', result, hstep, hd', hstore, hpc', hsettled⟩

theorem settled_conflict (hl : s.idempotency.lookup k = some entry) (hfp : rh ≠ entry.fingerprint)
    (h : Settled s ctx k rh result) : result = .error errIdempotencyConflict := by
  cases h with
  | conflict => rfl
  | replay hl' heq | cancelled hl' heq | lost hl' heq =>
    rw [hl] at hl'
    cases hl'
    exact absurd heq.symm hfp
  | busy hl' | full hl' =>
    rw [hl] at hl'
    cases hl'

theorem settled_replay (hl : s.idempotency.lookup k = some entry) (hfp : rh = entry.fingerprint)
    (hitem : s.items.lookup entry.itemID = some v) (hlive : Live ctx)
    (h : Settled s ctx k rh result) :
    result = .ok (v, true) := by
  cases h with
  | conflict hl' hne =>
    rw [hl] at hl'
    cases hl'
    exact absurd hfp.symm hne
  | replay hl' _ _ hitem' =>
    rw [hl] at hl'
    cases hl'
    rw [hitem] at hitem'
    cases hitem'
    rfl
  | cancelled _ _ herr =>
    rw [show contextError ctx = none from hlive] at herr
    cases herr
  | lost hl' _ hlost =>
    rw [hl] at hl'
    cases hl'
    rw [hlost hlive] at hitem
    cases hitem
  | busy hl' | full hl' =>
    rw [hl] at hl'
    cases hl'

end

/-- At most one insert for each key and retention window, in every run whose
clock does not go back: while a call holds the key no other call on it
inserts; while a record is retained no call on its key inserts, and a call
with another fingerprint is refused and changes neither record nor items;
all successes a window settles are of one item, and only the call that
wrote the record reports it as not replayed. -/
theorem at_most_once (H : Hashes) (maxEntries : Int) (clock : Time) (w : World)
    (hr : Run (step H) NonDecreasing (World.init maxEntries clock) w) :
    (∀ (a : Action) (w' : World) (i j : Nat) (c d : Call) (k : Digest) (v : Item),
      step H w a = some w' → w.calls[i]? = some c → c.held H = some k →
      w.calls[j]? = some d → d.key H = some k → j ≠ i → ¬ Inserts w w' j v) ∧
    (∀ (i : Nat) (c : Call) (k : Digest) (entry : IdempotencyEntry), w.calls[i]? = some c →
      c.key H = some k → c.recorded = some entry → w.clock.before entry.expiresAt = true →
      (∀ (a : Action) (w' : World) (j : Nat) (d : Call) (v : Item), step H w a = some w' →
        w.calls[j]? = some d → d.key H = some k → ¬ Inserts w w' j v) ∧
      (∀ (j : Nat) (d : Call) (request : StoreRequest) (now : Time), w.calls[j]? = some d →
        d.op = .createIdempotent request → keyHash H request = k → d.pc = .timed now →
        requestHash request.fingerprint ≠ entry.fingerprint →
        ∃ (w' : World) (d' : Call), step H w (.advance j) = some w' ∧ w'.calls[j]? = some d' ∧
          d'.pc = .returned (.error errIdempotencyConflict) ∧ w'.store.items = w.store.items ∧
          w'.store.idempotency.lookup k = some entry)) ∧
    (∀ (i : Nat) (w₁ w₂ : World) (c c' : Call) (k : Digest) (entry : IdempotencyEntry),
      step H w (.advance i) = some w₁ → w.calls[i]? = some c → c.key H = some k →
      c.recorded = none → w₁.calls[i]? = some c' → c'.recorded = some entry →
      Run (step H) NonDecreasing w₁ w₂ → w₂.clock.before entry.expiresAt = true →
      ∃ v, c'.inserted = some v ∧ c'.success = some (v, false) ∧
        ∀ (j : Nat) (d : Call) (v' : Item) (r : Bool), w₂.calls[j]? = some d → d.key H = some k →
          d.success = some (v', r) → (∀ b, w.calls[j]? = some b → b.success = none) →
          v' = v ∧ (r = false → j = i)) := by
  obtain ⟨h, ht⟩ := timed_run hr
  refine ⟨?_, ?_, ?_⟩
  · intro a w' i j c d k v hstep hc hheld hd hkey hne hins
    exact hne (h.exclusive j i d c k hd hc (inserts_held hstep hins hd hkey) hheld)
  · intro i c k entry hc hkey hrec hclock
    have hlt := Time.before_iff.mp hclock
    have hl := ht.retained i c k entry hc hkey hrec hlt
    refine ⟨fun a w' j d v hstep hd hdkey hins => ?_,
      fun j d request now hd hop hdkey hpc hfp => ?_⟩
    · exact h.unheld hl hd (inserts_held hstep hins hd hdkey)
    · have hkept := lookup_cleanup hl (lt_of_le_of_lt (ht.pending j d now hd hpc) hlt)
      subst hdkey
      obtain ⟨w', d', result, hstep, hd', hstore, hpc', hsettled⟩ := timed_answered hd hop hpc hkept
      rw [settled_conflict hkept hfp hsettled] at hpc'
      exact ⟨w', d', hstep, hd', hpc', by rw [hstore]; rfl, by rw [hstore]; exact hkept⟩
  · intro i w₁ w₂ c c' k entry hstep hc hkey hnone hc' hrec hr' hclock
    have hcall := step_advance hstep hc hc'
    obtain ⟨request, -, hpc, hins, hrecords, -⟩ := callStep_records hcall (h.ok i c hc) hnone hrec
    have hsame : w₁.clock = w.clock := by
      cases step_stepped hstep
      rfl
    have hkey' : c'.key H = some k := (key_of_op (callStep_op hcall)).trans hkey
    refine ⟨request.value, hins, success_iff.mpr (.inl ⟨hpc, rfl⟩), ?_⟩
    refine onlyResult_run (inv_step h hstep) (timed_step h ht hstep (by rw [NonDecreasing, hsame]))
      ⟨c', hc', hkey', hrec, hins, hrecords.2⟩ ?_ hr' (Time.before_iff.mp hclock)
    -- right after the record only call `i` has a new result
    intro j d v' r hd hdkey hsome hfresh
    by_cases hj : j = i
    · subst hj
      rw [hc'] at hd
      cases hd
      cases (success_iff.mpr (.inl ⟨hpc, rfl⟩)).symm.trans hsome
      exact ⟨rfl, fun _ => rfl⟩
    · have hold : w.calls[j]? = some d := by
        cases step_stepped hstep with
        | advance => exact (set_of_ne hj).symm.trans hd
      rw [hfresh d hold] at hsome
      cases hsome

theorem exec_nonDecreasing {H : Hashes} (actions : List Action)
    (h : ∀ a ∈ actions, ∀ t, a ≠ .tick t)
    (hw : exec (step H) w actions = some w') : Run (step H) NonDecreasing w w' := by
  refine exec_run actions (fun a ha s t hs => ?_) hw
  cases step_stepped hs with
  | tick => exact absurd rfl (h _ ha _)
  | _ => exact le_rfl

def recordingActions : List Action :=
  [sampleCall 1, sampleCall 2, .advance 0, .advance 0, .advance 0, .advance 0, .advance 0]

/-- The first call records its item; the second, under the same key, then
gets it as a replay. -/
theorem at_most_once_replay :
    ∃ w w₁ w₂, exec (step Hashes.go) (World.init 2 sampleTime) recordingActions = some w ∧
      step Hashes.go w (.advance 0) = some w₁ ∧
      exec (step Hashes.go) w₁ [.advance 1, .advance 1, .advance 1] = some w₂ ∧
      (w₂.calls[1]?.bind Call.success) = some (sampleItem 1, true) ∧
      ∀ (j : Nat) (d : Call) (v' : Item) (r : Bool), w₂.calls[j]? = some d →
        d.key Hashes.go = some (keyHash Hashes.go (sampleRequest 1)) → d.success = some (v', r) →
        (∀ b, w.calls[j]? = some b → b.success = none) → v' = sampleItem 1 ∧
        (r = false → j = 0) := by
  have hrun : (exec (step Hashes.go) (World.init 2 sampleTime) recordingActions).bind (fun w =>
      (step Hashes.go w (.advance 0)).bind fun w₁ =>
        (exec (step Hashes.go) w₁ [.advance 1, .advance 1, .advance 1]).map fun w₂ =>
          (w.calls[0]?, w₁.calls[0]?, w₂.clock, w₂.calls[1]?.bind Call.success)) =
      some (some ⟨.createIdempotent (sampleRequest 1), some .background, .inserted (sampleItem 1),
          some (sampleItem 1), none⟩,
        some ⟨.createIdempotent (sampleRequest 1), some .background, .completed (sampleItem 1),
          some (sampleItem 1), some ⟨List.Vector.replicate 32 0, (sampleItem 1).id,
            sampleTime.add idempotencyRecordRetention⟩⟩,
        sampleTime, some (sampleItem 1, true)) := by decide +kernel
  obtain ⟨w, hw, hrun⟩ := Option.bind_eq_some_iff.mp hrun
  obtain ⟨w₁, hw₁, hrun⟩ := Option.bind_eq_some_iff.mp hrun
  obtain ⟨w₂, hw₂, hcalls⟩ := Option.map_eq_some_iff.mp hrun
  simp only [Prod.mk.injEq] at hcalls
  obtain ⟨hc, hc', hclock, hsuccess⟩ := hcalls
  have hr := exec_nonDecreasing recordingActions (by simp [recordingActions, sampleCall]) hw
  have hr' := exec_nonDecreasing [.advance 1, .advance 1, .advance 1] (by simp) hw₂
  obtain ⟨v, hv, -, hall⟩ :=
    (at_most_once Hashes.go 2 sampleTime w hr).2.2 0 w₁ w₂ _ _ _ _ hw₁ hc rfl
    rfl hc' rfl hr' (by rw [hclock]; decide)
  cases hv
  exact ⟨w, w₁, w₂, hw, hw₁, hw₂, hsuccess, hall⟩

end GoClean.Memory
