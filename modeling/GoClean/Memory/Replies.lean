import GoClean.Memory.AllOrNothing
import GoClean.Memory.Listing

/-!
# What the store answers

The result of a call speaks about items that are stored, and stay so: `Result`
says for each operation which results it can have, and `answers_step` that
every step keeps what the calls have returned as it should be.
-/

namespace GoClean.Memory

open Go Threads Transition

inductive Fails (ctx : Option Context) : Op → Error → Prop
  | context : contextError ctx = some err → Fails ctx op err
  | refused : op.entryCheck (some .background) = .error err → Fails ctx op err
  | conflict : Fails ctx (.create value) (.wrap [] errConflict text)
  | keyedConflict : Fails ctx (.createIdempotent request) (.wrap [] errConflict text)
  | missing {id : UUID} : Fails ctx (.get id) (.wrap [] errNotFound text)
  | keyed : err ∈ [errIdempotencyConflict, errIdempotencyInProgress, errIdempotencyUnavailable,
      errIdempotencyState] →
      Fails ctx (.createIdempotent request) err

def Stored (s : Store) (values : List Item) : Prop := ∀ v ∈ values, s.items.lookup v.id = some v

/-- The results of a call, from a store that holds `s`. -/
inductive Result (s : Store) (ctx : Option Context) : Op → Except Error Reply → Prop
  | created : s.items.lookup value.id = some value →
      Result s ctx (.create value) (.ok (.item value))
  | keyed : s.items.lookup v.id = some v →
      Result s ctx (.createIdempotent request) (.ok (.created v replayed))
  | found {id : UUID} : s.items.lookup id = some v → Result s ctx (.get id) (.ok (.item v))
  | listed : Stored s rows → rows.length ≤ params.limit.toNat →
      Result s ctx (.list params) (.ok (.items rows))
  | listedAfter : Stored s rows → rows.length ≤ params.limit.toNat →
      Result s ctx (.listAfter params) (.ok (.items rows))
  | failed : Fails ctx op err → Result s ctx op (.error err)

def Op.passes : Op → PC → Bool
  | _, .start | _, .ready | _, .returned _ => true
  | .createIdempotent _, .timed _ | .createIdempotent _, .reserved | .createIdempotent _, .inserting
  | .createIdempotent _, .inserted _ | .createIdempotent _, .failing _ | .createIdempotent _,
      .completed _ => true
  | .list _, .copied _ | .listAfter _, .copied _ => true
  | _, _ => false

/-- What a call carries towards its result, and the result, are as they should be. -/
structure Call.Sound (s : Store) (c : Call) : Prop where
  passes : c.op.passes c.pc = true
  copied : ∀ values, c.pc = .copied values → Stored s values
  failing : ∀ err, c.pc = .failing err → Fails c.ctx c.op err
  returned : ∀ result, c.pc = .returned result → Result s c.ctx c.op result

def Answers (w : World) : Prop := ∀ (i : Nat) c, w.calls[i]? = some c → c.Sound w.store

section
variable {s s' : Store} {ctx : Option Context}

theorem contextError_cancelled (h : contextError ctx = some err) :
    contextError (ctx.map (cancelContext cause)) = some err := by
  cases ctx with
  | none => exact h
  | some ctx =>
    obtain ⟨first, hfirst, rfl⟩ := Option.map_eq_some_iff.mp h
    simp [contextError, cancelContext, hfirst]

theorem Fails.cancelled (h : Fails ctx op err) : Fails (ctx.map (cancelContext cause)) op err := by
  cases h with
  | context hctx => exact .context (contextError_cancelled hctx)
  | refused h => exact .refused h
  | conflict => exact .conflict
  | keyedConflict => exact .keyedConflict
  | missing => exact .missing
  | keyed h => exact .keyed h

theorem entryCheck_error {op : Op} (h : op.entryCheck ctx = .error err) :
    contextError ctx = some err ∨ op.entryCheck (some .background) = .error err := by
  cases op with
  | create value => exact .inl (contextError_of_ensure h)
  | createIdempotent request | get id | list params | listAfter params =>
    rcases bind_error.mp h with hctx | ⟨_, -, hcheck⟩
    · exact .inl (contextError_of_ensure hctx)
    · exact .inr hcheck

theorem entryCheck_fails {op : Op} (h : op.entryCheck ctx = .error err) : Fails ctx op err := by
  rcases entryCheck_error h with hctx | hcheck
  · exact .context hctx
  · exact .refused hcheck

theorem Result.cancelled (h : Result s ctx op result) :
    Result s (ctx.map (cancelContext cause)) op result := by
  cases h with
  | created h => exact .created h
  | keyed h => exact .keyed h
  | found h => exact .found h
  | listed h hlength => exact .listed h hlength
  | listedAfter h hlength => exact .listedAfter h hlength
  | failed h => exact .failed h.cancelled

theorem Result.mono (h : Result s ctx op result)
    (hkept : ∀ id v, s.items.lookup id = some v → s'.items.lookup id = some v) :
    Result s' ctx op result := by
  cases h with
  | created h => exact .created (hkept _ _ h)
  | keyed h => exact .keyed (hkept _ _ h)
  | found h => exact .found (hkept _ _ h)
  | listed h hlength => exact .listed (fun v hv => hkept _ _ (h v hv)) hlength
  | listedAfter h hlength => exact .listedAfter (fun v hv => hkept _ _ (h v hv)) hlength
  | failed h => exact .failed h

theorem Call.Sound.mono {c : Call} (h : c.Sound s)
    (hkept : ∀ id v, s.items.lookup id = some v → s'.items.lookup id = some v) : c.Sound s' where
  passes := h.passes
  copied values hpc v hv := hkept _ _ (h.copied values hpc v hv)
  failing := h.failing
  returned result hpc := (h.returned result hpc).mono hkept

theorem Call.Sound.cancelled {c : Call} (h : c.Sound s) :
    Call.Sound s { c with ctx := c.ctx.map (cancelContext cause) } where
  passes := h.passes
  copied := h.copied
  failing err hpc := (h.failing err hpc).cancelled
  returned result hpc := (h.returned result hpc).cancelled

theorem sound_new (op : Op) (ctx : Option Context) : (Call.new op ctx).Sound s where
  passes := rfl
  copied := nofun
  failing := nofun
  returned := nofun

theorem sound_returned {c : Call} (h : Result s c.ctx c.op result) :
    Call.Sound s { c with pc := .returned result } where
  passes := rfl
  copied := nofun
  failing := nofun
  returned _ hpc := by
    cases hpc
    exact h

theorem sound_between {c : Call} (hpasses : c.op.passes c.pc = true)
    (hcopied : ∀ values, c.pc ≠ .copied values)
    (hfailing : ∀ err, c.pc ≠ .failing err) (hreturned : ∀ result, c.pc ≠ .returned result) :
    c.Sound s where
  passes := hpasses
  copied values hpc := absurd hpc (hcopied values)
  failing err hpc := absurd hpc (hfailing err)
  returned result hpc := absurd hpc (hreturned result)

theorem sound_failing {c : Call} (hop : c.op = .createIdempotent request)
    (h : Fails c.ctx c.op err) :
    Call.Sound s { c with pc := .failing err } where
  passes := by
    rw [hop]
    rfl
  copied := nofun
  failing _ hpc := by
    cases hpc
    exact h
  returned := nofun

theorem sound_copied {c : Call} (hpasses : c.op.passes (.copied values) = true)
    (h : Stored s values) :
    Call.Sound s { c with pc := .copied values } where
  passes := hpasses
  copied _ hpc := by
    cases hpc
    exact h
  failing := nofun
  returned := nofun

theorem pageFrom_stored (h : Stored s values) (less : Item → Item → Bool)
    (limit : Int) (start : Nat) :
    Stored s (pageFrom (sortSlice less values) limit start) ∧
      (pageFrom (sortSlice less values) limit start).length ≤ limit.toNat := by
  rw [pageFrom_eq]
  refine ⟨fun v hv => h v ?_, List.length_take_le _ _⟩
  exact (List.perm_insertionSort _ _).mem_iff.mp (List.mem_of_mem_drop (List.mem_of_mem_take hv))

theorem listTail_result (h : Stored s values) :
    Result s ctx (.list params) ((listTail ctx params values).map .items) := by
  cases hresult : listTail ctx params values with
  | error err =>
    obtain hctx | ⟨_, -, hpure⟩ := bind_error.mp hresult
    · exact .failed (.context (contextError_of_ensure hctx))
    · cases hpure
  | ok rows =>
    obtain ⟨_, -, hrows⟩ := bind_ok.mp hresult
    cases hrows
    obtain ⟨hstored, hlength⟩ := pageFrom_stored h listLess params.limit params.offset.toNat
    exact .listed hstored hlength

theorem listAfterTail_result (h : Stored s values) :
    Result s ctx (.listAfter params) ((listAfterTail ctx params values).map .items) := by
  cases hresult : listAfterTail ctx params values with
  | error err =>
    obtain hctx | ⟨_, -, hpure⟩ := bind_error.mp hresult
    · exact .failed (.context (contextError_of_ensure hctx))
    · cases hpure
  | ok rows =>
    obtain ⟨_, -, hrows⟩ := bind_ok.mp hresult
    cases hrows
    obtain ⟨hstored, hlength⟩ := pageFrom_stored h listAfterLess params.limit _
    exact .listedAfter hstored hlength

theorem getLocked_result {id : UUID} : Result s ctx (.get id) ((s.getLocked ctx id).map .item) := by
  cases hresult : s.getLocked ctx id with
  | error err =>
    obtain hctx | ⟨_, -, hmatch⟩ := bind_error.mp hresult
    · exact .failed (.context (contextError_of_ensure hctx))
    · split at hmatch
      · cases hmatch
      · cases hmatch
        exact .failed .missing
  | ok v =>
    obtain ⟨_, -, hmatch⟩ := bind_ok.mp hresult
    split at hmatch
    · next hl =>
      cases hmatch
      exact .found hl
    · cases hmatch

end

section
variable {H : Hashes} {w w' : World}

theorem callStep_ctx (h : CallStep H clock s c s' c') : c'.ctx = c.ctx := by
  cases h <;> rfl

theorem advance_returned {c : Call} (h : c.pc = .returned result) (s : Store) (clock : Time) :
    c.advance H s clock = none := by
  obtain ⟨op, ctx, pc, inserted, recorded⟩ := c
  cases h
  cases op <;> rfl

theorem step_returned {j : Nat} {c d : Call} (hs : step H w a = some w') (hc : w.calls[j]? = some c)
    (hd : w'.calls[j]? = some d) (hpc : c.pc = .returned result) : d.pc = .returned result := by
  cases a with
  | spawn op ctx =>
    cases hs
    cases (snoc_of_some hc).symm.trans hd
    exact hpc
  | tick clock =>
    cases hs
    cases hc.symm.trans hd
    exact hpc
  | cancel i cause =>
    obtain ⟨b, hb, hs⟩ := Option.bind_eq_some_iff.mp hs
    cases hs
    rcases set_cases hd with ⟨rfl, rfl⟩ | ⟨-, hd⟩
    · cases hb.symm.trans hc
      exact hpc
    · cases hc.symm.trans hd
      exact hpc
  | advance i =>
    obtain ⟨b, hb, hs⟩ := Option.bind_eq_some_iff.mp hs
    obtain ⟨⟨s', b'⟩, hadv, hs⟩ := Option.bind_eq_some_iff.mp hs
    cases hs
    rcases set_cases hd with ⟨rfl, rfl⟩ | ⟨-, hd⟩
    · cases hb.symm.trans hc
      rw [advance_returned hpc] at hadv
      cases hadv
    · cases hc.symm.trans hd
      exact hpc

theorem settled_result {s : Store} (h : Settled s ctx k rh result)
    (hids : ∀ id v, s.items.lookup id = some v → v.id = id) :
    Result s ctx (.createIdempotent request) (result.map fun r => .created r.1 r.2) := by
  cases h with
  | replay _ _ _ hl => exact .keyed (by rw [hids _ _ hl]; exact hl)
  | cancelled _ _ hctx => exact .failed (.context hctx)
  | conflict | lost | busy | full => exact .failed (.keyed (by simp))

theorem finish_result {s : Store} (h : s.items.lookup created.id = some created) :
    Result s ctx (.createIdempotent request) (finish ctx created) := by
  unfold finish
  split
  · next hctx => exact .failed (.context hctx)
  · exact .keyed h

theorem createLocked_fails {s : Store} (h : s.createLocked ctx value = .error err) :
    contextError ctx = some err ∨ ∃ text, err = .wrap [] errConflict text := by
  rcases bind_error.mp h with hctx | ⟨_, -, h⟩
  · exact .inl (contextError_of_ensure hctx)
  · split at h
    · cases h
      exact .inr ⟨_, rfl⟩
    · cases h

theorem advance_sound {i : Nat} {c c' : Call} (h : Inv H w) (hc : w.calls[i]? = some c)
    (ha : c.Sound w.store) (hadv : c.advance H w.store w.clock = some (s', c')) : c'.Sound s' := by
  have hvalues : Stored w.store w.store.values := by
    intro v hv
    obtain ⟨id, hl⟩ := AssocMap.mem_values_iff.mp hv
    rw [(h.items id v hl).1]
    exact hl
  unfold Call.advance at hadv
  split at hadv
  case h_1 hpc =>
    split at hadv
    · cases hadv
      exact sound_between rfl nofun nofun nofun
    · next hcheck =>
      cases hadv
      exact sound_returned (.failed (entryCheck_fails hcheck))
  case h_2 hop _ =>
    cases hadv
    exact sound_between (by rw [hop]; rfl) nofun nofun nofun
  case h_3 request now hop hpc =>
    split at hadv
    · cases hadv
      exact sound_between (by rw [hop]; rfl) nofun nofun nofun
    · next hreserve =>
      cases hadv
      obtain ⟨rfl, hsettled⟩ := reserve_some hreserve
      refine sound_returned ?_
      rw [hop]
      exact settled_result hsettled fun id v hl => (h.items id v hl).1
  case h_4 hop _ =>
    split at hadv
    · next hctx =>
      cases hadv
      exact sound_failing hop (.context hctx)
    · cases hadv
      exact sound_between (by rw [hop]; rfl) nofun nofun nofun
  case h_5 hop _ =>
    split at hadv
    · cases hadv
      exact sound_between (by rw [hop]; rfl) nofun nofun nofun
    · next hcreate =>
      cases hadv
      refine sound_failing hop ?_
      rw [hop]
      rcases createLocked_fails hcreate with hctx | ⟨text, rfl⟩
      · exact .context hctx
      · exact .keyedConflict
  case h_6 hop _ =>
    split at hadv
    · cases hadv
      refine sound_failing hop ?_
      rw [hop]
      exact .keyed (by simp)
    · cases hadv
      exact sound_between (by rw [hop]; rfl) nofun nofun nofun
  case h_7 request err hop hpc =>
    cases hadv
    exact sound_returned (.failed (ha.failing err hpc))
  case h_8 request created hop hpc =>
    have hstored : w.store.items.lookup created.id = some created := by
      have hprogress := (h.ok i c hc).keyed hop
      rw [hpc] at hprogress
      generalize hinserted : c.inserted = inserted, c.recorded = recorded at hprogress
      cases hprogress
      exact h.stored i c _ hc hinserted
    cases hadv
    refine sound_returned ?_
    rw [hop]
    exact finish_result hstored
  case h_9 value hop hpc =>
    split at hadv
    · next hcreate =>
      cases hadv
      obtain ⟨-, rfl⟩ := createLocked_ok hcreate
      refine sound_returned (c := { c with inserted := some value }) ?_
      show Result _ c.ctx c.op _
      rw [hop]
      exact .created (AList.lookup_insert _)
    · next hcreate =>
      cases hadv
      refine sound_returned ?_
      rw [hop]
      rcases createLocked_fails hcreate with hctx | ⟨text, rfl⟩
      · exact .failed (.context hctx)
      · exact .failed .conflict
  case h_10 id hop hpc =>
    cases hadv
    refine sound_returned ?_
    rw [hop]
    exact getLocked_result
  case h_11 hop _ | h_13 hop _ =>
    cases hadv
    exact sound_copied (by rw [hop]; rfl) hvalues
  case h_12 params values hop hpc =>
    cases hadv
    refine sound_returned ?_
    rw [hop]
    exact listTail_result (ha.copied values hpc)
  case h_14 params values hop hpc =>
    cases hadv
    refine sound_returned ?_
    rw [hop]
    exact listAfterTail_result (ha.copied values hpc)
  case h_15 => cases hadv

theorem answers_step (h : Inv H w) (ha : Answers w) (hs : step H w a = some w') : Answers w' := by
  have hkept : ∀ (j : Nat) d, w.calls[j]? = some d → d.Sound w'.store :=
    fun j d hd => (ha j d hd).mono fun id v hl => lookup_kept h (.tail .refl hs trivial) hl
  cases a with
  | spawn op ctx =>
    cases hs
    exact forall_snoc hkept (sound_new op ctx)
  | tick clock =>
    cases hs
    exact hkept
  | cancel i cause =>
    obtain ⟨c, hc, hs⟩ := Option.bind_eq_some_iff.mp hs
    cases hs
    exact forall_set hkept (hkept i c hc).cancelled
  | advance i =>
    obtain ⟨c, hc, hs⟩ := Option.bind_eq_some_iff.mp hs
    obtain ⟨⟨s', c'⟩, hadv, hs⟩ := Option.bind_eq_some_iff.mp hs
    cases hs
    exact forall_set hkept (advance_sound h hc (ha i c hc) hadv)

theorem answers_init (maxEntries : Int) (clock : Time) : Answers (World.init maxEntries clock) := by
  intro i c hc
  simp [World.init] at hc

-- ---------------------------------------------------------------------------
-- Later calls
-- ---------------------------------------------------------------------------

end

end GoClean.Memory
