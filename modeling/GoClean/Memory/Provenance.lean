import Mathlib.Data.Set.Function
import GoClean.Memory.AtMostOnce

/-!
# Where a replayed item comes from

`Service.CreateIdempotent` over the memory store: each caller's scope, key
and input become a store request, and every answer of the store goes back
to the call that inserted the item (`author_of_success`). When SHA-256 has
no collision among the texts that occur, equal key hashes mean equal scope
and key, and equal fingerprints equal fields.
-/

namespace GoClean.Memory

open Go Threads Transition

-- ---------------------------------------------------------------------------
-- Calls through the service
-- ---------------------------------------------------------------------------

/-- The context of a caller: scopes are attached one over the other, and
by nothing else. -/
def attachScopes (base : Option Context) (scopes : List GoString) : Option Context :=
  scopes.foldl withIdempotencyScope (base.map fun ctx => { ctx with scope := none })

structure Caller where
  ctx : Option Context
  input : CreateInput
  key : GoString
  deriving DecidableEq

/-- The store with the callers of its calls, by index. -/
structure ServiceWorld where
  memory : World
  callers : List Caller

def ServiceWorld.init (maxEntries : Int) (clock : Time) : ServiceWorld :=
  ⟨World.init maxEntries clock, []⟩

inductive ServiceAction
  | call (env : CreateEnv) (base : Option Context) (scopes : List GoString) (input : CreateInput)
      (key : GoString)
  | tick (clock : Time)
  | cancel (call : Nat) (cause : ContextCause)
  | advance (call : Nat)

section
variable (H : Hashes)

/-- A request the service refuses does not reach the store. -/
def serviceStep (w : ServiceWorld) : ServiceAction → Option ServiceWorld
  | .call env base scopes input key =>
    let ctx := attachScopes base scopes
    match createIdempotentRequest H env ctx input key with
    | .error _ => some w
    | .ok request =>
      (step H w.memory (.spawn (.createIdempotent request) ctx)).map fun memory =>
        ⟨memory, w.callers ++ [⟨ctx, input, key⟩]⟩
  | .tick clock => (step H w.memory (.tick clock)).map fun memory => { w with memory := memory }
  | .cancel i cause =>
    (step H w.memory (.cancel i cause)).map fun memory => { w with memory := memory }
  | .advance i => (step H w.memory (.advance i)).map fun memory => { w with memory := memory }

end

def ServiceWorld.result (w : ServiceWorld) (i : Nat) : Option (Except Error (Item × Bool)) :=
  match w.memory.calls[i]? with
  | none => none
  | some c =>
    match c.pc with
    | .returned (.ok (.created value replayed)) => some (createIdempotentReply value replayed)
    | .returned (.error err) => some (.error err)
    | _ => none

-- ---------------------------------------------------------------------------
-- Authors
-- ---------------------------------------------------------------------------

def ReplaysHaveAuthors (H : Hashes) (w : World) : Prop :=
  ∀ (i : Nat) c v, w.calls[i]? = some c → c.pc = .returned (.ok (.created v true)) →
    ∃ (j : Nat) (d : Call), w.calls[j]? = some d ∧ d.inserted = some v ∧ d.key H = c.key H

section
variable {H : Hashes} {w w' : World} {i : Nat} {c c' : Call} {s' : Store}

/-- A call that is answered with a replay finds a record whose author
inserted the item, under its own key and fingerprint. -/
theorem Inv.replay_author (h : Inv H w) (hc : w.calls[i]? = some c)
    (hcall : CallStep H w.clock w.store c s' c')
    (hpc : c'.pc = .returned (.ok (.created v true))) :
    ∃ (request : StoreRequest) (j : Nat) (d : Call) (request' : StoreRequest),
      c.op = .createIdempotent request ∧ j ≠ i ∧ w.calls[j]? = some d ∧
      d.op = .createIdempotent request' ∧ d.inserted = some v ∧ v = request'.value ∧
      keyHash H request' = keyHash H request ∧
      requestHash request'.fingerprint = requestHash request.fingerprint := by
  have hok := h.ok i c hc
  obtain ⟨op, ctx, pc, inserted, recorded⟩ := c
  cases hcall with
  | @settle request _ _ _ _ hop hpc' hsettled =>
    cases hop
    cases hpc'
    cases hsettled with
    | replay hl hfp _ hitem =>
      cases hpc
      obtain ⟨j, d, request', hd, hop, hkey, hrec, hrecords, hins, hitem'⟩ :=
        h.item_of_record (AssocMap.lookup_of_lookup_filter hl).1
      cases hitem'.symm.trans hitem
      refine ⟨request, j, d, request', rfl, ?_, hd, hop, hins, rfl, hkey, hrecords.1.symm.trans hfp⟩
      rintro rfl
      cases hc.symm.trans hd
      cases hok.keyed rfl
      cases hrec
    | _ => cases hpc
  | finish => cases finish_ok (PC.returned.inj hpc)
  | answer _ hresult => exact absurd (PC.returned.inj hpc) (hresult v true)
  | _ => cases hpc

theorem replaysHaveAuthors_step (h : Inv H w) (hr : ReplaysHaveAuthors H w)
    (hstep : step H w a = some w') : ReplaysHaveAuthors H w' := by
  -- an author stays one: what it inserted and its key do not change
  have hkeep {k : Option Digest} {v : Item}
      (hex : ∃ (j : Nat) (d : Call), w.calls[j]? = some d ∧ d.inserted = some v ∧ d.key H = k) :
      ∃ (j : Nat) (d : Call), w'.calls[j]? = some d ∧ d.inserted = some v ∧ d.key H = k := by
    obtain ⟨j, d, hd, hins, hkey⟩ := hex
    obtain ⟨d', hd', hmoved⟩ := step_moved hstep hd
    obtain ⟨hop, -, hkeepi⟩ := moved_history hmoved (h.ok j d hd)
    exact ⟨j, d', hd', hkeepi v hins, (key_of_op hop).trans hkey⟩
  intro i c' v hc' hpc
  cases hi : w.calls[i]? with
  | none =>
    obtain ⟨op, ctx, rfl⟩ := step_new hstep hc' hi
    cases hpc
  | some c =>
    obtain ⟨d, hd, hmoved⟩ := step_moved hstep hi
    cases hc'.symm.trans hd
    cases hmoved with
    | waited => exact hkeep (hr i c v hi hpc)
    | stepped _ hcall =>
      obtain ⟨request, j, d, request', hop, -, hd, hop', hins, -, hkey, -⟩ :=
        h.replay_author hi hcall hpc
      refine hkeep ⟨j, d, hd, hins, ?_⟩
      rw [key_of_op (callStep_op hcall), key_eq hop, key_eq hop', hkey]

theorem author_of_success (h : Inv H w) (hr : ReplaysHaveAuthors H w) (hc : w.calls[i]? = some c)
    (hpc : c.pc = .returned (.ok (.created v replayed))) :
    ∃ (j : Nat) (d : Call), w.calls[j]? = some d ∧ d.inserted = some v ∧ d.key H = c.key H := by
  cases replayed with
  | true => exact hr i c v hc hpc
  | false =>
    have hok := h.ok i c hc
    by_cases hkeyed : ∃ request, c.op = .createIdempotent request
    · obtain ⟨request, hop⟩ := hkeyed
      have hprogress := hok.keyed hop
      rw [hpc] at hprogress
      refine ⟨i, c, hc, ?_, rfl⟩
      generalize c.inserted = inserted at hprogress ⊢
      generalize c.recorded = recorded at hprogress
      cases hprogress with
      | settled hne => exact absurd rfl (hne v)
      | finished _ hresult =>
        rcases hresult with hresult | ⟨_, hresult, -⟩
        · cases hresult
          rfl
        · cases hresult
    · exact absurd hpc ((hok.plain fun request hop => hkeyed ⟨request, hop⟩).reply v false)

end

-- ---------------------------------------------------------------------------
-- What a request says about its caller
-- ---------------------------------------------------------------------------

theorem scopedContext_attachScopes (base : Option Context) (scopes : List GoString) :
    ScopedContext (attachScopes base scopes) := by
  have hfold : ∀ ctx, ScopedContext ctx →
      ScopedContext (scopes.foldl withIdempotencyScope ctx) := by
    induction scopes with
    | nil => exact fun ctx h => h
    | cons scope scopes ih => exact fun ctx _ => ih _ (scopedContext_withIdempotencyScope ctx scope)
  refine hfold _ fun c hc scope hscope => ?_
  obtain ⟨ctx, -, rfl⟩ := Option.map_eq_some_iff.mp hc
  cases hscope

section
variable {H : Hashes}

theorem decodeDigest_encode (d : Digest) : decodeDigest (Hex.encodeToString d.toList) = some d := by
  have hlen : (Hex.encodeToString d.toList).length = 64 := by
    rw [Hex.length_encodeToString, d.toList_length]
  have hd : d.toList.length = 32 := d.toList_length
  rw [decodeDigest, if_neg (not_not.mpr hlen), Hex.decode_encodeToString]
  simp only [hd, dif_pos]
  rfl

structure Issued (H : Hashes) (caller : Caller) (request : StoreRequest) (canonical : CreateInput) :
    Prop where
  context : ScopedContext caller.ctx
  key : validString caller.key = true
  input : validateCreateInput caller.input = .ok canonical
  storageKey : request.key = storageIdempotencyKey H caller.ctx caller.key
  fingerprint : requestHash request.fingerprint = H.sum256 (fingerprintPayload canonical)
  name : request.value.name = canonical.name
  description : request.value.description = canonical.description

theorem issued_of_request (hscoped : ScopedContext ctx)
    (h : createIdempotentRequest H env ctx input key = .ok request) :
    ∃ canonical, Issued H ⟨ctx, input, key⟩ request canonical := by
  simp only [createIdempotentRequest, fingerprintCreateInput, newItem, bind_ok, pure_ok] at h
  obtain ⟨_, -, _, hkey, canonical, hcanonical, fp, ⟨again, hagain, rfl⟩, value,
    ⟨id, -, _, -, rfl⟩, rfl⟩ := h
  cases (validateCreateInput_canonical hcanonical).symm.trans hagain
  refine ⟨canonical, hscoped, validString_of_key hkey, hcanonical, rfl, ?_, rfl, rfl⟩
  show requestHash (Hex.encodeToString _) = _
  rw [requestHash, decodeDigest_encode, Option.getD_some]

/-- The texts that are hashed for the callers of a world. -/
def Occurs (H : Hashes) (w : ServiceWorld) (text : List UInt8) : Prop :=
  ∃ caller ∈ w.callers,
    text = storagePayload (idempotencyScopeFromContext caller.ctx) caller.key ∨
    text = storageIdempotencyKey H caller.ctx caller.key ∨
    ∃ canonical, validateCreateInput caller.input = .ok canonical ∧
    text = fingerprintPayload canonical

section
variable {w : ServiceWorld} {caller caller' : Caller} {request request' : StoreRequest}
  {canonical canonical' : CreateInput}

theorem scope_key_of_keyHash (hinj : Set.InjOn H.sum256 {text | Occurs H w text})
    (hmem : caller ∈ w.callers) (hmem' : caller' ∈ w.callers)
    (h : Issued H caller request canonical)
    (h' : Issued H caller' request' canonical') (hhash : keyHash H request = keyHash H request') :
    idempotencyScopeFromContext caller.ctx = idempotencyScopeFromContext caller'.ctx ∧
      caller.key = caller'.key := by
  have hkeys : request.key = request'.key :=
    hinj ⟨caller, hmem, .inr (.inl h.storageKey)⟩ ⟨caller', hmem', .inr (.inl h'.storageKey)⟩ hhash
  rw [h.storageKey, h'.storageKey] at hkeys
  have hdigest : H.sum256 (storagePayload (idempotencyScopeFromContext caller.ctx) caller.key) =
      H.sum256 (storagePayload (idempotencyScopeFromContext caller'.ctx) caller'.key) :=
    List.Vector.toList_injective (Hex.encodeToString_injective (List.append_cancel_left hkeys))
  have hpayload := hinj ⟨caller, hmem, .inl rfl⟩ ⟨caller', hmem', .inl rfl⟩ hdigest
  exact storagePayload_injective (validString_scope h.context)
    (validString_scope h'.context) h.key h'.key
    hpayload

theorem canonical_of_requestHash (hinj : Set.InjOn H.sum256 {text | Occurs H w text})
    (hmem : caller ∈ w.callers) (hmem' : caller' ∈ w.callers)
    (h : Issued H caller request canonical) (h' : Issued H caller' request' canonical')
    (hhash : requestHash request.fingerprint = requestHash request'.fingerprint) :
    canonical = canonical' := by
  rw [h.fingerprint, h'.fingerprint] at hhash
  have hpayload := hinj ⟨caller, hmem, .inr (.inr ⟨canonical, h.input, rfl⟩)⟩
    ⟨caller', hmem', .inr (.inr ⟨canonical', h'.input, rfl⟩)⟩ hhash
  exact fingerprintPayload_injective h.input h'.input hpayload

end

end

-- ---------------------------------------------------------------------------
-- Runs of the service
-- ---------------------------------------------------------------------------

structure ServiceInv (H : Hashes) (w : ServiceWorld) : Prop where
  inv : Inv H w.memory
  authors : ReplaysHaveAuthors H w.memory
  length : w.callers.length = w.memory.calls.length
  issued : ∀ (i : Nat) c, w.memory.calls[i]? = some c → ∃ caller request canonical,
    w.callers[i]? = some caller ∧ c.op = .createIdempotent request ∧
    Issued H caller request canonical

section
variable {H : Hashes} {w w' : ServiceWorld}

theorem ServiceInv.memory_step (h : ServiceInv H w) (hstep : step H w.memory a = some memory)
    (hcalls : memory.calls.length = w.memory.calls.length) :
    ServiceInv H { w with memory := memory } where
  inv := inv_step h.inv hstep
  authors := replaysHaveAuthors_step h.inv h.authors hstep
  length := h.length.trans hcalls.symm
  issued i c' hc' := by
    have hlt : i < w.memory.calls.length := hcalls ▸ (List.getElem?_eq_some_iff.mp hc').1
    obtain ⟨caller, request, canonical, hcaller, hop, hissued⟩ :=
      h.issued i _ (List.getElem?_eq_getElem hlt)
    obtain ⟨d, hd, hmoved⟩ := step_moved hstep (List.getElem?_eq_getElem hlt)
    cases hc'.symm.trans hd
    have hop' := (moved_history hmoved (h.inv.ok i _ (List.getElem?_eq_getElem hlt))).1
    exact ⟨caller, request, canonical, hcaller, hop'.trans hop, hissued⟩

theorem serviceInv_step (h : ServiceInv H w) (hstep : serviceStep H w a = some w') :
    ServiceInv H w' := by
  cases a with
  | call env base scopes input key =>
    unfold serviceStep at hstep
    simp only at hstep
    split at hstep
    · cases hstep
      exact h
    · next request hrequest =>
      obtain ⟨memory, hmemory, rfl⟩ := Option.map_eq_some_iff.mp hstep
      have hspawn := hmemory
      cases hmemory
      refine ⟨inv_step h.inv hspawn, replaysHaveAuthors_step h.inv h.authors hspawn, ?_, ?_⟩
      · simp [h.length]
      · intro i c hc
        rcases snoc_cases hc with ⟨rfl, rfl⟩ | hc
        · obtain ⟨canonical, hissued⟩ :=
            issued_of_request (scopedContext_attachScopes base scopes) hrequest
          refine ⟨_, request, canonical, ?_, rfl, hissued⟩
          rw [← h.length, List.getElem?_concat_length]
        · obtain ⟨caller, request, canonical, hcaller, hop, hissued⟩ := h.issued i c hc
          exact ⟨caller, request, canonical, snoc_of_some hcaller, hop, hissued⟩
  | tick clock =>
    cases hstep
    exact h.memory_step (a := .tick clock) rfl rfl
  | cancel i cause | advance i =>
    obtain ⟨memory, hmemory, rfl⟩ := Option.map_eq_some_iff.mp hstep
    refine h.memory_step hmemory ?_
    cases step_stepped hmemory
    exact List.length_set

theorem serviceInv_reachable (hr : Reaches (serviceStep H) (ServiceWorld.init maxEntries clock) w) :
    ServiceInv H w :=
  hr.invariant (fun _ _ _ h hs _ => serviceInv_step h hs)
    ⟨inv_init H maxEntries clock,
      fun i c v hc => by simp [ServiceWorld.init, World.init] at hc, rfl,
      fun i c hc => by simp [ServiceWorld.init, World.init] at hc⟩

theorem result_ok (h : w.result i = some (.ok (v, replayed))) :
    ∃ c, w.memory.calls[i]? = some c ∧ c.pc = .returned (.ok (.created v replayed)) := by
  unfold ServiceWorld.result at h
  split at h
  · cases h
  · next c hc =>
    refine ⟨c, hc, ?_⟩
    split at h
    · next value replayed' hpc =>
      have hreply := Option.some.inj h
      simp only [createIdempotentReply, bind_ok, pure_ok, Prod.mk.injEq] at hreply
      obtain ⟨_, -, rfl, rfl⟩ := hreply
      exact hpc
    · cases h
    · cases h

theorem result_of_pc (hc : w.memory.calls[i]? = some c) (hc' : w'.memory.calls[i]? = some c')
    (hpc : c'.pc = c.pc) : w'.result i = w.result i := by
  rw [ServiceWorld.result, ServiceWorld.result, hc, hc']
  simp only [hpc]

theorem serviceStep_memory (hstep : serviceStep H w a = some w') :
    w' = w ∨ ∃ b, step H w.memory b = some w'.memory := by
  cases a with
  | call env base scopes input key =>
    unfold serviceStep at hstep
    simp only at hstep
    split at hstep
    · cases hstep
      exact .inl rfl
    · obtain ⟨memory, hmemory, rfl⟩ := Option.map_eq_some_iff.mp hstep
      exact .inr ⟨_, hmemory⟩
  | tick clock =>
    cases hstep
    exact .inr ⟨.tick clock, rfl⟩
  | cancel i cause | advance i =>
    obtain ⟨memory, hmemory, rfl⟩ := Option.map_eq_some_iff.mp hstep
    exact .inr ⟨_, hmemory⟩

theorem replay_callStep (hstep : serviceStep H w a = some w')
    (hold : w.result i ≠ some (.ok (v, true))) (hnew : w'.result i = some (.ok (v, true))) :
    ∃ c s' c', w.memory.calls[i]? = some c ∧ CallStep H w.memory.clock w.memory.store c s' c' ∧
      c'.pc = .returned (.ok (.created v true)) := by
  rcases serviceStep_memory hstep with rfl | ⟨b, hmemory⟩
  · exact absurd hnew hold
  obtain ⟨c', hc', hpc⟩ := result_ok hnew
  cases hi : w.memory.calls[i]? with
  | none =>
    obtain ⟨op, ctx, rfl⟩ := step_new hmemory hc' hi
    cases hpc
  | some c =>
    obtain ⟨d, hd, hmoved⟩ := step_moved hmemory hi
    cases hc'.symm.trans hd
    cases hmoved with
    | waited => exact absurd ((result_of_pc hi hc' rfl).symm.trans hnew) hold
    | stepped _ hcall => exact ⟨c, _, c', rfl, hcall, hpc⟩

theorem ServiceInv.same_caller (h : ServiceInv H w)
    (hinj : Set.InjOn H.sum256 {text | Occurs H w text}) (hi : w.callers[i]? = some caller)
    (hj : w.callers[j]? = some caller') (hri : w.result i = some (.ok (v, replayed)))
    (hrj : w.result j = some (.ok (v', replayed'))) (hid : v'.id = v.id) :
    idempotencyScopeFromContext caller'.ctx = idempotencyScopeFromContext caller.ctx ∧
      caller'.key = caller.key := by
  obtain ⟨c, hc, hpc⟩ := result_ok hri
  obtain ⟨c', hc', hpc'⟩ := result_ok hrj
  obtain ⟨a, b, hb, hbins, hbkey⟩ := author_of_success h.inv h.authors hc hpc
  obtain ⟨a', b', hb', hbins', hbkey'⟩ := author_of_success h.inv h.authors hc' hpc'
  have hsame : a = a' :=
    h.inv.authors a a' b b' v.id hb hb' (by simp [hbins]) (by simp [hbins', hid])
  subst hsame
  cases hb.symm.trans hb'
  obtain ⟨_, request, _, hcaller, hop, hissued⟩ := h.issued _ c hc
  obtain ⟨_, request', _, hcaller', hop', hissued'⟩ := h.issued _ c' hc'
  cases hi.symm.trans hcaller
  cases hj.symm.trans hcaller'
  have hkeys := hbkey'.symm.trans hbkey
  rw [key_eq hop, key_eq hop'] at hkeys
  exact scope_key_of_keyHash hinj (List.mem_of_getElem? hj)
    (List.mem_of_getElem? hi) hissued' hissued
    (Option.some.inj hkeys)

end

/-- In every run of `Service.CreateIdempotent` calls over the memory store,
when SHA-256 has no collision among the hashed texts: a call answered with
a replay of `v` was preceded by another call of the same effective scope,
key and canonical fields that inserted `v`, and `v` carries the caller's
own canonical fields; and two calls answered with the same item have the
same effective scope and key. -/
theorem replay_provenance (H : Hashes) (maxEntries : Int) (clock : Time) (w : ServiceWorld)
    (hr : Reaches (serviceStep H) (ServiceWorld.init maxEntries clock) w)
    (hinj : Set.InjOn H.sum256 {text | Occurs H w text}) :
    (∀ (a : ServiceAction) (w' : ServiceWorld) (i : Nat) (v : Item), serviceStep H w a = some w' →
      w.result i ≠ some (.ok (v, true)) → w'.result i = some (.ok (v, true)) →
      ∃ (caller : Caller) (canonical : CreateInput) (j : Nat) (caller' : Caller) (d : Call),
        w.callers[i]? = some caller ∧ validateCreateInput caller.input = .ok canonical ∧
        v.name = canonical.name ∧ v.description = canonical.description ∧
        j ≠ i ∧ w.callers[j]? = some caller' ∧ w.memory.calls[j]? = some d ∧ d.inserted = some v ∧
        idempotencyScopeFromContext caller'.ctx = idempotencyScopeFromContext caller.ctx ∧
        caller'.key = caller.key ∧ validateCreateInput caller'.input = .ok canonical) ∧
    (∀ (i j : Nat) (caller caller' : Caller) (v v' : Item) (replayed replayed' : Bool),
      w.callers[i]? = some caller → w.callers[j]? = some caller' →
      w.result i = some (.ok (v, replayed)) → w.result j = some (.ok (v', replayed')) →
      v'.id = v.id →
      idempotencyScopeFromContext caller'.ctx = idempotencyScopeFromContext caller.ctx ∧
        caller'.key = caller.key) := by
  have h := serviceInv_reachable hr
  refine ⟨?_, ?_⟩
  · intro a w' i v hstep hold hnew
    obtain ⟨c, s', c', hc, hcall, hpc⟩ := replay_callStep hstep hold hnew
    obtain ⟨request, j, d, request', hop, hne, hd, hop', hins, hv, hkey, hfp⟩ :=
      h.inv.replay_author hc hcall hpc
    obtain ⟨caller, request₁, canonical, hcaller, hop₁, hissued⟩ := h.issued i c hc
    obtain ⟨caller', request₂, canonical', hcaller', hop₂, hissued'⟩ := h.issued j d hd
    cases hop.symm.trans hop₁
    cases hop'.symm.trans hop₂
    have hmem := List.mem_of_getElem? hcaller
    have hmem' := List.mem_of_getElem? hcaller'
    obtain ⟨hscope, hkeys⟩ := scope_key_of_keyHash hinj hmem' hmem hissued' hissued hkey
    have hcanonical := canonical_of_requestHash hinj hmem' hmem hissued' hissued hfp
    subst hcanonical
    subst hv
    exact ⟨caller, canonical', j, caller', d, hcaller, hissued.input, hissued'.name,
      hissued'.description, hne, hcaller', hd, hins, hscope, hkeys, hissued'.input⟩
  · intro i j caller caller' v v' replayed replayed' hi hj hri hrj hid
    exact h.same_caller hinj hi hj hri hrj hid

def sampleEnv (n : UInt8) : CreateEnv where
  generateID := .ok ⟨[n, 0, 0, 0, 0, 0, 0x40, 0, 0x80, 0, 0, 0, 0, 0, 0, 0], rfl⟩
  clock := sampleTime
  wall := sampleTime

def retryActions : List ServiceAction :=
  [.call (sampleEnv 1) (some .background) [str "tenant"] ⟨str "name", str "text"⟩ (str "key"),
    .call (sampleEnv 2) (some .background) [str "other", str "tenant"] ⟨str " name ",
    str "text"⟩ (str "key")] ++
    List.replicate 7 (.advance 0) ++ List.replicate 2 (.advance 1)

def sampleCallers : List Caller :=
  [⟨some ⟨none, some (str "tenant")⟩, ⟨str "name", str "text"⟩, str "key"⟩,
    ⟨some ⟨none, some (str "tenant")⟩, ⟨str " name ", str "text"⟩, str "key"⟩]

theorem sampleCallers_injOn {memory : World} :
    Set.InjOn Hashes.go.sum256 {text | Occurs Hashes.go ⟨memory, sampleCallers⟩ text} := by
  have htexts : ∀ text, Occurs Hashes.go ⟨memory, sampleCallers⟩ text →
      text ∈ [storagePayload (str "tenant") (str "key"),
        storageIdempotencyKey Hashes.go (some ⟨none, some (str "tenant")⟩) (str "key"),
        fingerprintPayload ⟨str "name", str "text"⟩] := by
    rintro text ⟨caller, hmem, htext⟩
    have hall : ∀ caller ∈ sampleCallers,
        validateCreateInput caller.input = .ok ⟨str "name", str "text"⟩ ∧
          caller.ctx = some ⟨none, some (str "tenant")⟩ ∧ caller.key = str "key" := by
            decide +kernel
    obtain ⟨hvalid, hctx, hkey⟩ := hall caller hmem
    rw [hctx, hkey] at htext
    rcases htext with rfl | rfl | ⟨canonical, hcanonical, rfl⟩
    · exact List.mem_cons_self
    · exact List.mem_cons_of_mem _ List.mem_cons_self
    · cases hvalid.symm.trans hcanonical
      exact List.mem_cons_of_mem _ (List.mem_cons_of_mem _ List.mem_cons_self)
  have hdistinct : ∀ a ∈ [storagePayload (str "tenant") (str "key"),
        storageIdempotencyKey Hashes.go (some ⟨none, some (str "tenant")⟩) (str "key"),
        fingerprintPayload ⟨str "name", str "text"⟩],
      ∀ b ∈ [storagePayload (str "tenant") (str "key"),
        storageIdempotencyKey Hashes.go (some ⟨none, some (str "tenant")⟩) (str "key"),
        fingerprintPayload ⟨str "name", str "text"⟩],
      Hashes.go.sum256 a = Hashes.go.sum256 b → a = b := by decide +kernel
  exact fun a ha b hb => hdistinct a (htexts a ha) b (htexts b hb)

theorem replay_provenance_retry :
    ∃ w w' v, exec (serviceStep Hashes.go) (ServiceWorld.init 2 sampleTime) retryActions = some w ∧
      serviceStep Hashes.go w (.advance 1) = some w' ∧ w'.result 1 = some (.ok (v, true)) ∧
      ∃ (j : Nat) (d : Call), j ≠ 1 ∧ w.memory.calls[j]? = some d ∧ d.inserted = some v := by
  have hrun : (exec (serviceStep Hashes.go) (ServiceWorld.init 2 sampleTime) retryActions).bind
    (fun w =>
      (serviceStep Hashes.go w (.advance 1)).map fun w' => (w.callers,
        (w.result 1).isSome, w'.result 1)) =
      some (sampleCallers, false,
      some (.ok (⟨⟨[1, 0, 0, 0, 0, 0, 0x40, 0, 0x80, 0, 0, 0, 0, 0, 0, 0], rfl⟩,
        str "name", str "text", sampleTime⟩, true))) := by decide +kernel
  obtain ⟨w, hw, hrun⟩ := Option.bind_eq_some_iff.mp hrun
  obtain ⟨w', hw', htriple⟩ := Option.map_eq_some_iff.mp hrun
  simp only [Prod.mk.injEq] at htriple
  obtain ⟨hcallers, hbefore, hafter⟩ := htriple
  have hinj : Set.InjOn Hashes.go.sum256 {text | Occurs Hashes.go w text} := by
    obtain ⟨memory, callers⟩ := w
    cases hcallers
    exact sampleCallers_injOn
  obtain ⟨_, _, j, _, d, -, -, -, -, hne, -, hd, hins, -⟩ :=
    (replay_provenance Hashes.go 2 sampleTime w
    (exec_reaches _ hw) hinj).1 _ w' 1 _ hw' (fun he => by rw [he] at hbefore; cases hbefore) hafter
  exact ⟨w, w', _, hw, hw', hafter, j, d, hne, hd, hins⟩

end GoClean.Memory
