import GoClean.Memory.AtMostOnce

/-!
# A keyed create leaves all or nothing

Once it has returned, a call has inserted its item and written its record,
or neither, and its marker is gone. A record is found by every retry whose
reading of the clock is before its expiry, for whatever reason the first
caller did not see the result. A call that returns another error than a
cancellation has only ever removed records that had expired.
-/

namespace GoClean.Memory

open Go Threads Transition

/-- No call is about to clean up with a reading that has reached `t`. -/
def ReadingsBefore (w : World) (t : Time) : Prop :=
  ∀ (i : Nat) c now, w.calls[i]? = some c → c.pc = .timed now → now.instant < t.instant

/-- No call but `i` takes a step. -/
def OnlyCall (i : Nat) (_ : World) (a : Action) (_ : World) : Prop := ∀ j, a = .advance j → j = i

/-- The store a keyed create leaves behind, since it read `now` at the
store `s`, when nobody else takes a step. -/
inductive Alone (H : Hashes) (s : Store) (now : Time) (k : Digest) (c : Call) : Store → Prop
  | timed : c.pc = .timed now → Alone H s now k c s
  | reserved : c.held H = some k → k ∉ s.inflight →
      Alone H s now k c { s.cleanupIdempotencyLocked now with inflight := insert k s.inflight }
  | returned : c.pc = .returned result → Alone H s now k c (s.cleanupIdempotencyLocked now)
  | wrote : c.inserted ≠ none → Alone H s now k c s'

section
variable {H : Hashes} {w w' : World} {i : Nat} {c c' : Call} {s s' : Store}

theorem lookup_step (h : Inv H w) (hl : w.store.idempotency.lookup k = some entry)
    (hread : ReadingsBefore w entry.expiresAt) (hstep : step H w a = some w') :
    w'.store.idempotency.lookup k = some entry := by
  cases step_stepped hstep with
  | advance hc hcall =>
    exact retained_effect (callStep_effect hcall (h.ok _ _ hc)) hl (h.unheld hl hc)
      fun now hpc => hread _ _ now hc hpc
  | _ => exact hl

/-- As long as no reading reaches its expiry, a record stays, and its
author keeps its item. -/
theorem lookup_run (h : Inv H w) (hrec : Recorded H w i k entry v)
    (hl : w.store.idempotency.lookup k = some entry) (hread : ReadingsBefore w entry.expiresAt)
    (hr : Run (step H) (fun _ _ w' => ReadingsBefore w' entry.expiresAt) w w') :
    Inv H w' ∧ Recorded H w' i k entry v ∧ w'.store.idempotency.lookup k = some entry ∧
      ReadingsBefore w' entry.expiresAt := by
  induction hr with
  | refl => exact ⟨h, hrec, hl, hread⟩
  | tail _ hs ho ih =>
    obtain ⟨h, hrec, hl, hread⟩ := ih
    exact ⟨inv_step h hs, recorded_step h hrec hs, lookup_step h hl hread hs, ho⟩

theorem history_run (h : Inv H w) (hr : Reaches (step H) w w') (hc : w.calls[i]? = some c) :
    ∃ c', w'.calls[i]? = some c' ∧ c'.op = c.op ∧
      (∀ entry, c.recorded = some entry → c'.recorded = some entry) ∧
      ∀ v, c.inserted = some v → c'.inserted = some v := by
  suffices hall : Inv H w' ∧ ∃ c', w'.calls[i]? = some c' ∧ c'.op = c.op ∧
      (∀ entry, c.recorded = some entry → c'.recorded = some entry) ∧
      ∀ v, c.inserted = some v → c'.inserted = some v from hall.2
  induction hr with
  | refl => exact ⟨h, c, hc, rfl, fun _ h => h, fun _ h => h⟩
  | tail _ hs _ ih =>
    obtain ⟨h, c₁, hc₁, hop₁, hrec₁, hins₁⟩ := ih
    obtain ⟨c₂, hc₂, hmoved⟩ := step_moved hs hc₁
    obtain ⟨hop₂, hrec₂, hins₂⟩ := moved_history hmoved (h.ok i c₁ hc₁)
    exact ⟨inv_step h hs, c₂, hc₂, hop₂.trans hop₁, fun e he => hrec₂ e (hrec₁ e he),
      fun v hv => hins₂ v (hins₁ v hv)⟩

theorem lookup_kept {id : UUID} (h : Inv H w) (hr : Reaches (step H) w w')
    (hl : w.store.items.lookup id = some v) :
    w'.store.items.lookup id = some v := by
  obtain ⟨hid, i, c, hc, hins⟩ := h.items id v hl
  obtain ⟨c', hc', -, -, hkeep⟩ := history_run h hr hc
  have hinv' : Inv H w' := hr.invariant (fun _ _ _ hi hs _ => inv_step hi hs) h
  exact hid ▸ hinv'.stored i c' v hc' (hkeep v hins)

theorem held_key (h : c.held H = some k) : c.key H = some k := by
  unfold Call.held at h
  split at h
  · exact h
  · cases h

theorem effect_unchanged (he : Effect H s c c' s') (hkey : c.key H = some k) (hop : c'.op = c.op)
    (hins : c'.inserted = none) (hrec : c'.recorded = none) :
    s'.items = s.items ∧
      (s'.idempotency = s.idempotency ∨
        ∃ now, c.pc = .timed now ∧ s'.idempotency = (s.cleanupIdempotencyLocked now).idempotency) ∧
      s'.inflight.erase k = s.inflight.erase k := by
  cases he with
  | quiet => exact ⟨rfl, .inl rfl, rfl⟩
  | cleanup hpc => exact ⟨rfl, .inr ⟨_, hpc, rfl⟩, rfl⟩
  | reserve hpc _ hheld =>
    have hk := held_key hheld
    rw [key_of_op hop, hkey] at hk
    cases hk
    exact ⟨rfl, .inr ⟨_, hpc, rfl⟩, Finset.erase_insert_eq_erase ..⟩
  | insert _ _ hsome =>
    rw [hins] at hsome
    cases hsome
  | complete _ _ _ _ _ hsome =>
    rw [hrec] at hsome
    cases hsome
  | release hheld =>
    have hk := held_key hheld
    rw [hkey] at hk
    cases hk
    exact ⟨rfl, .inl rfl, Finset.erase_idem⟩

theorem cleanup_cleanup (s : Store) (now : Time) :
    ((s.cleanupIdempotencyLocked now).cleanupIdempotencyLocked now).idempotency =
      (s.cleanupIdempotencyLocked now).idempotency := by
  simp only [Store.cleanupIdempotencyLocked, AssocMap.filter_filter, Bool.and_self]

/-- Records that have expired at a reading do not matter to a call with a
later one. -/
theorem reserve_of_cleanup {records : AssocMap Digest IdempotencyEntry}
    (hle : now.instant ≤ now'.instant)
    (hsame : (Store.cleanupIdempotencyLocked { s with idempotency := records } now).idempotency =
      (s.cleanupIdempotencyLocked now).idempotency) :
    Store.reserve { s with idempotency := records } ctx k rh now' = s.reserve ctx k rh now' := by
  have hlater (m : AssocMap Digest IdempotencyEntry) :
      m.filter (fun _ entry => now'.before entry.expiresAt) =
        (m.filter fun _ entry => now.before entry.expiresAt).filter
          fun _ entry => now'.before entry.expiresAt := by
    rw [AssocMap.filter_filter]
    refine AssocMap.filter_congr m fun _ entry => ?_
    cases hb : now'.before entry.expiresAt with
    | false => rfl
    | true =>
      have hbefore := Time.before_iff.mpr (lt_of_le_of_lt hle (Time.before_iff.mp hb))
      rw [hbefore, Bool.and_true]
  have hclean : Store.cleanupIdempotencyLocked { s with idempotency := records } now' =
      s.cleanupIdempotencyLocked now' := by
    unfold Store.cleanupIdempotencyLocked at hsame ⊢
    simp only at hsame ⊢
    rw [hlater records, hlater s.idempotency, hsame]
  unfold Store.reserve
  rw [hclean]

theorem step_of_cleanup {records : AssocMap Digest IdempotencyEntry} (hc : w.calls[i]? = some c)
    (hop : c.op = .createIdempotent request) (hpc : c.pc = .timed now')
    (hle : now.instant ≤ now'.instant)
    (hsame :
      (Store.cleanupIdempotencyLocked { w.store with idempotency := records } now).idempotency =
        (w.store.cleanupIdempotencyLocked now).idempotency) :
    step H { w with store := { w.store with idempotency := records } } (.advance i) =
      step H w (.advance i) := by
  obtain ⟨op, ctx, pc, inserted, recorded⟩ := c
  cases hop
  cases hpc
  simp only [step, hc, Option.bind_eq_bind, Option.bind_some, Call.advance]
  rw [reserve_of_cleanup hle hsame]

theorem alone_timed (hop : c.op = .createIdempotent request) (hpc : c.pc = .timed now)
    (hcall : CallStep H clock s c s' c') : Alone H s now (keyHash H request) c' s' := by
  rcases settles_or_reserves hop hpc hcall with ⟨result, rfl, rfl, -⟩ | ⟨-, hin, rfl, rfl⟩
  · exact .returned rfl
  · have hheld : Call.held H { c with pc := .reserved } = some (keyHash H request) := by
      rw [Call.held, hop]
      rfl
    exact .reserved hheld hin

/-- While the key is reserved the call writes, or it goes on to give the key
back. -/
theorem alone_reserved {s₀ : Store} (hop : c.op = .createIdempotent request) (hok : c.Ok)
    (hheld : c.held H = some (keyHash H request)) (hin : keyHash H request ∉ s₀.inflight)
    (hcall : CallStep H clock { s₀.cleanupIdempotencyLocked now with
      inflight := insert (keyHash H request) s₀.inflight } c s' c') :
    Alone H s₀ now (keyHash H request) c' s' := by
  obtain ⟨op, ctx, pc, inserted, recorded⟩ := c
  cases hop
  cases hcall with
  | proceed hop hpc | stop hop hpc | insertFails hop hpc | nilID hop hpc =>
    cases hop
    exact .reserved rfl hin
  | insert => exact .wrote (by simp)
  | complete hop hpc =>
    cases hop
    cases hpc
    cases hok.keyed rfl
    exact .wrote (by simp)
  | clear hop hpc =>
    cases hop
    have hback : Store.clearInFlight { s₀.cleanupIdempotencyLocked now with
        inflight := insert (keyHash H request) s₀.inflight } (keyHash H request) =
        s₀.cleanupIdempotencyLocked now := by
      simp only [Store.clearInFlight, Finset.erase_insert hin]
      rfl
    rw [hback]
    exact .returned rfl
  | enter hpc | refuse hpc | readClock _ hpc | settle _ hpc | reserve _ hpc | finish _ hpc
  | create _ hpc | createFails _ hpc | copy _ hpc =>
    cases hpc
    cases hheld
  | answer hno => exact absurd rfl (hno request)

theorem alone_callStep {s₀ : Store} (halone : Alone H s₀ now (keyHash H request) c s)
    (hop : c.op = .createIdempotent request) (hok : c.Ok) (hcall : CallStep H clock s c s' c') :
    Alone H s₀ now (keyHash H request) c' s' := by
  cases halone with
  | timed hpc => exact alone_timed hop hpc hcall
  | reserved hheld hin => exact alone_reserved hop hok hheld hin hcall
  | returned hpc =>
    obtain ⟨op, ctx, pc, inserted, recorded⟩ := c
    cases hop
    cases hpc
    cases hcall with
    | enter hpc | refuse hpc | readClock _ hpc | settle _ hpc | reserve _ hpc | proceed _ hpc
    | stop _ hpc | insert _ hpc | insertFails _ hpc | nilID _ hpc | complete _ hpc | clear _ hpc
    | finish _ hpc | create _ hpc | createFails _ hpc | copy _ hpc => cases hpc
    | answer hno => exact absurd rfl (hno request)
  | wrote hne =>
    obtain ⟨v, hv⟩ := Option.ne_none_iff_exists'.mp hne
    refine .wrote ?_
    rw [effect_inserted (callStep_effect hcall hok) hv]
    exact Option.some_ne_none v

theorem Alone.of_ctx {s₀ : Store} (h : Alone H s₀ now k c s) (ctx : Option Context) :
    Alone H s₀ now k { c with ctx := ctx } s := by
  cases h with
  | timed hpc => exact .timed hpc
  | reserved hheld hin => exact .reserved hheld hin
  | returned hpc => exact .returned hpc
  | wrote hne => exact .wrote hne

theorem alone_step {s₀ : Store} (h : Inv H w) (hc : w.calls[i]? = some c)
    (hop : c.op = .createIdempotent request) (halone : Alone H s₀ now (keyHash H request) c w.store)
    (hstep : step H w a = some w') (honly : OnlyCall i w a w') :
    ∃ c', w'.calls[i]? = some c' ∧ c'.op = .createIdempotent request ∧
      Alone H s₀ now (keyHash H request) c' w'.store := by
  cases step_stepped hstep with
  | spawn => exact ⟨c, snoc_of_some hc, hop, halone⟩
  | tick => exact ⟨c, hc, hop, halone⟩
  | @cancel j d cause hd =>
    by_cases hj : i = j
    · subst hj
      rw [hc] at hd
      cases hd
      exact ⟨_, set_self hc, hop, halone.of_ctx _⟩
    · exact ⟨c, (set_of_ne hj).trans hc, hop, halone⟩
  | @advance j d s' d' hd hcall =>
    cases honly j rfl
    rw [hc] at hd
    cases hd
    exact ⟨d', set_self hc, (callStep_op hcall).trans hop,
      alone_callStep halone hop (h.ok _ c hc) hcall⟩

/-- A keyed create that runs alone and inserts nothing leaves only its
cleanup behind. -/
theorem alone_run (h : Inv H w) (hc : w.calls[i]? = some c) (hop : c.op = .createIdempotent request)
    (hpc : c.pc = .timed now) (hr : Run (step H) (OnlyCall i) w w') (hd : w'.calls[i]? = some d)
    (hpc' : d.pc = .returned result) (hnone : d.inserted = none) :
    w'.store = w.store.cleanupIdempotencyLocked now := by
  have hall : Inv H w' ∧ ∃ c', w'.calls[i]? = some c' ∧ c'.op = .createIdempotent request ∧
      Alone H w.store now (keyHash H request) c' w'.store := by
    clear hd
    induction hr with
    | refl => exact ⟨h, c, hc, hop, .timed hpc⟩
    | tail _ hs ho ih =>
      obtain ⟨h, c₁, hc₁, hop₁, halone⟩ := ih
      exact ⟨inv_step h hs, alone_step h hc₁ hop₁ halone hs ho⟩
  obtain ⟨-, c', hc', -, halone⟩ := hall
  rw [hd] at hc'
  cases hc'
  obtain ⟨op, ctx, pc, inserted, recorded⟩ := d
  cases hpc'
  generalize hs : w'.store = s' at halone
  cases halone with
  | timed hpc => cases hpc
  | reserved hheld => cases hheld
  | returned => rfl
  | wrote hne => exact absurd hnone hne

theorem progress_returned (h : Progress request (.returned result) inserted recorded) :
    ((inserted = some request.value ∧ ∃ entry, recorded = some entry ∧ Records request entry) ∨
      (inserted = none ∧ recorded = none)) ∧
    ∀ err, result = .error err → ¬ IsCancellation err → inserted = none ∧ recorded = none := by
  cases h with
  | settled => exact ⟨.inr ⟨rfl, rfl⟩, fun _ _ _ => ⟨rfl, rfl⟩⟩
  | finished hentry hresult =>
    refine ⟨.inl ⟨rfl, _, rfl, hentry⟩, fun err herr hnot => ?_⟩
    rcases hresult with hok | ⟨err', herr', hcancel⟩
    · cases hok.symm.trans herr
    · cases herr'.symm.trans herr
      exact absurd hcancel hnot

theorem Inv.returned (h : Inv H w) (hc : w.calls[i]? = some c)
    (hop : c.op = .createIdempotent request) (hpc : c.pc = .returned result) :
    ((c.inserted = some request.value ∧ ∃ entry, c.recorded = some entry ∧ Records request entry) ∨
      (c.inserted = none ∧ c.recorded = none)) ∧
    ∀ err, result = .error err → ¬ IsCancellation err → c.inserted = none ∧ c.recorded = none :=
  progress_returned (hpc ▸ (h.ok i c hc).keyed hop)

/-- A keyed create that ends in an error other than a cancellation has
written nothing at any time. -/
theorem failed_writes_nothing (h : Inv H w) (hr : Reaches (step H) w w') (hc : w.calls[i]? = some c)
    (hop : c.op = .createIdempotent request) (hd : w'.calls[i]? = some d)
    (hpc : d.pc = .returned (.error err)) (herr : ¬ IsCancellation err) :
    d.inserted = none ∧ c.inserted = none ∧ c.recorded = none := by
  have h' : Inv H w' := hr.invariant (fun _ _ _ h hs _ => inv_step h hs) h
  obtain ⟨d', hd', hop', hkeepr, hkeepi⟩ := history_run h hr hc
  rw [hd] at hd'
  cases hd'
  obtain ⟨hins, hrec⟩ := (h'.returned hd (hop'.trans hop) hpc).2 err rfl herr
  refine ⟨hins, ?_, ?_⟩
  · cases hv : c.inserted with
    | none => rfl
    | some v => cases (hkeepi v hv).symm.trans hins
  · cases hv : c.recorded with
    | none => rfl
    | some entry => cases (hkeepr entry hv).symm.trans hrec

theorem Inv.marker_of_other (h : Inv H w) (hc : w.calls[i]? = some c)
    (hpc : c.pc = .returned result) (hk : k ∈ w.store.inflight) :
    ∃ (j : Nat) (d : Call), j ≠ i ∧ w.calls[j]? = some d ∧ d.held H = some k := by
  obtain ⟨j, d, hd, hheld⟩ := (h.markers k).mp hk
  refine ⟨j, d, ?_, hd, hheld⟩
  rintro rfl
  rw [hc] at hd
  cases hd
  simp [Call.held, hpc, PC.holding] at hheld

end

/-- Once a keyed create has returned it has inserted its item and written
the record, or neither, with neither for every error but a cancellation,
and a marker on its key is another call's. A retry that reads the clock
before the record expires gets the item. Each step of a call that ends in
such an error keeps the items, removes at most the records expired at its
reading, and touches no marker but its own; and a call whose reading is not
before that one takes the same step whichever records expired at it are still
there, so after a call that failed alone it steps as if that had not run. -/
theorem all_or_nothing (H : Hashes) (maxEntries : Int) (clock : Time) (w : World)
    (hr : Reaches (step H) (World.init maxEntries clock) w) :
    (∀ (i : Nat) (c : Call) (request : StoreRequest) (result : Except Error Reply),
      w.calls[i]? = some c → c.op = .createIdempotent request → c.pc = .returned result →
      (((c.inserted = some request.value ∧
            ∃ entry, c.recorded = some entry ∧ Records request entry) ∨
          (c.inserted = none ∧ c.recorded = none)) ∧
        ∀ err, result = .error err → ¬ IsCancellation err → c.inserted = none ∧ c.recorded = none) ∧
      (keyHash H request ∈ w.store.inflight →
        ∃ (j : Nat) (d : Call), j ≠ i ∧ w.calls[j]? = some d ∧
          d.held H = some (keyHash H request))) ∧
    (∀ (i j : Nat) (w₁ w₂ : World) (c c' d : Call) (request retry : StoreRequest)
        (entry : IdempotencyEntry) (now : Time),
      step H w (.advance i) = some w₁ → w.calls[i]? = some c → c.op = .createIdempotent request →
      c.recorded = none → w₁.calls[i]? = some c' → c'.recorded = some entry →
      ReadingsBefore w₁ entry.expiresAt →
      Run (step H) (fun _ _ w' => ReadingsBefore w' entry.expiresAt) w₁ w₂ →
      w₂.calls[j]? = some d → d.op = .createIdempotent retry → d.pc = .timed now → Live d.ctx →
      keyHash H retry = keyHash H request →
      requestHash retry.fingerprint = requestHash request.fingerprint →
      ∃ (w₃ : World) (d' : Call), step H w₂ (.advance j) = some w₃ ∧ w₃.calls[j]? = some d' ∧
        d'.pc = .returned (.ok (.created request.value true))) ∧
    (∀ (i : Nat) (w₁ w₂ : World) (c d : Call) (request : StoreRequest) (err : Error),
      step H w (.advance i) = some w₁ → w.calls[i]? = some c → c.op = .createIdempotent request →
      Reaches (step H) w₁ w₂ → w₂.calls[i]? = some d → d.pc = .returned (.error err) →
      ¬ IsCancellation err →
      w₁.store.items = w.store.items ∧
      (w₁.store.idempotency = w.store.idempotency ∨
        ∃ now, c.pc = .timed now ∧
          w₁.store.idempotency =
            w.store.idempotency.filter fun _ entry => now.before entry.expiresAt) ∧
      w₁.store.inflight.erase (keyHash H request) = w.store.inflight.erase (keyHash H request)) ∧
    (∀ (j : Nat) (e : Call) (next : StoreRequest) (now now' : Time)
        (records : AssocMap Digest IdempotencyEntry),
      w.calls[j]? = some e → e.op = .createIdempotent next → e.pc = .timed now' →
      now'.before now = false →
      (records.filter fun _ entry => now.before entry.expiresAt) =
        (w.store.idempotency.filter fun _ entry => now.before entry.expiresAt) →
      step H { w with store := { w.store with idempotency := records } } (.advance j) =
        step H w (.advance j)) ∧
    (∀ (i j : Nat) (w₂ : World) (c d e : Call) (request next : StoreRequest) (err : Error)
        (now now' : Time),
      w.calls[i]? = some c → c.op = .createIdempotent request → c.pc = .timed now →
      Run (step H) (OnlyCall i) w w₂ → w₂.calls[i]? = some d → d.pc = .returned (.error err) →
      ¬ IsCancellation err →
      w₂.calls[j]? = some e → e.op = .createIdempotent next → e.pc = .timed now' →
      now'.before now = false →
      step H { w₂ with store := w.store } (.advance j) = step H w₂ (.advance j)) := by
  have h := inv_reachable hr
  refine ⟨?_, ?_, ?_, ?_, ?_⟩
  · intro i c request result hc hop hpc
    exact ⟨h.returned hc hop hpc, h.marker_of_other hc hpc⟩
  · intro i j w₁ w₂ c c' d request retry entry now hstep hc hop hnone hc' hrec hread hr' hd hop' hpc
      hlive hkey hfp
    have hcall := step_advance hstep hc hc'
    obtain ⟨request', hop₁, -, hins, hrecords, hl⟩ :=
      callStep_records hcall (h.ok i c hc) hnone hrec
    cases hop.symm.trans hop₁
    have hkey' : c'.key H = some (keyHash H request) :=
      key_eq ((callStep_op hcall).trans hop)
    obtain ⟨h₂, ⟨b, hb, -, -, hbins, hid⟩, hl₂, hread₂⟩ := lookup_run (inv_step h hstep)
      ⟨c', hc', hkey', hrec, hins, hrecords.2⟩ hl hread hr'
    have hkept := lookup_cleanup hl₂ (hread₂ j d now hd hpc)
    have hitem : w₂.store.items.lookup entry.itemID = some request.value :=
      hid ▸ h₂.stored i b _ hb hbins
    rw [← hkey] at hkept
    obtain ⟨w₃, d', result, hstep₃, hd', -, hpc', hsettled⟩ := timed_answered hd hop' hpc hkept
    rw [settled_replay hkept (hfp.trans hrecords.1.symm) hitem hlive hsettled] at hpc'
    exact ⟨w₃, d', hstep₃, hd', hpc'⟩
  · intro i w₁ w₂ c d request err hstep hc hop hr' hd hpc herr
    obtain ⟨c', hc', hmoved⟩ := step_moved hstep hc
    have hcall := step_advance hstep hc hc'
    obtain ⟨-, hins, hrec⟩ := failed_writes_nothing (inv_step h hstep) hr' hc'
      ((callStep_op hcall).trans hop) hd hpc herr
    exact effect_unchanged (callStep_effect hcall (h.ok i c hc)) (key_eq hop)
      (callStep_op hcall) hins hrec
  · intro j e next now now' records he hop hpc hle hsame
    exact step_of_cleanup he hop hpc (Time.before_eq_false_iff.mp hle) hsame
  · intro i j w₂ c d e request next err now now' hc hop hpc hr' hd hpc' herr he hop' hpc'' hle
    obtain ⟨hnone, -⟩ := failed_writes_nothing h hr'.reaches hc hop hd hpc' herr
    have hstore := alone_run h hc hop hpc hr' hd hpc' hnone
    have hundo : { w₂.store with idempotency := w.store.idempotency } = w.store := by
      rw [hstore]
      rfl
    rw [← hundo]
    refine step_of_cleanup he hop' hpc'' (Time.before_eq_false_iff.mp hle) ?_
    rw [hundo, hstore]
    exact (cleanup_cleanup w.store now).symm

def conflictActions : List Action :=
  [.spawn (.create (sampleItem 1)) (some .background), .advance 0, .advance 0, sampleCall 1] ++
    List.replicate 6 (.advance 1)

theorem all_or_nothing_conflict :
    ∃ w c err, exec (step Hashes.go) (World.init 2 sampleTime) conflictActions = some w ∧
      w.calls[1]? = some c ∧ c.pc = .returned (.error err) ∧ err.is .conflict = true ∧
      c.inserted = none ∧ c.recorded = none := by
  have hrun : (exec (step Hashes.go) (World.init 2 sampleTime) conflictActions).map
      (fun w => w.calls[1]?.map fun c => (c.op, c.pc)) =
      some (some (.createIdempotent (sampleRequest 1),
        .returned (.error (.wrap [] errConflict (str ": id " ++ (sampleItem 1).id.string))))) := by
    decide +kernel
  obtain ⟨w, hw, hcall⟩ := Option.map_eq_some_iff.mp hrun
  obtain ⟨c, hc, hpair⟩ := Option.map_eq_some_iff.mp hcall
  obtain ⟨hop, hpc⟩ := Prod.mk.injEq .. ▸ hpair
  obtain ⟨hins, hrec⟩ := ((all_or_nothing Hashes.go 2 sampleTime w (exec_reaches _ hw)).1 1 c
    (sampleRequest 1) _ hc hop hpc).1.2 _ rfl (by rintro ⟨cause, h⟩; cases cause <;> cases h)
  exact ⟨w, c, _, hw, hc, hpc, by decide, hins, hrec⟩

end GoClean.Memory
