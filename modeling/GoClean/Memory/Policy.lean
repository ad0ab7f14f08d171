import GoClean.Item.Create
import GoClean.Memory.AllOrNothing

/-!
# What the memory store holds

Both create paths of the service over the memory store, with any generator
and clock. Each call of the store is remembered with what its candidate was
made from, so a stored item is the candidate of the call that inserted it
(`CreateInv`), and obeys the policy of the domain. Items are never replaced,
also not when the generator repeats an id.
-/

namespace GoClean.Memory

open Go Threads Transition

def Store.get (store : Store) (ctx : Option Context) (id : UUID) : Except Error Item := do
  Op.entryCheck ctx (.get id)
  store.getLocked ctx id

def serviceGet (store : Option Store) (ctx : Option Context) (id : UUID) : Except Error Item := do
  ensureContext ctx
  ensure (decide (id ≠ UUID.zero)) (.validation "id" "must not be nil")
  match store with
  | none => .error errStoreUnavailable
  | some store => store.get ctx id

theorem serviceGet_ok {store : Store} {id : UUID} (hctx : Live ctx) (hid : id ≠ UUID.zero)
    (hl : store.items.lookup id = some v) : serviceGet (some store) ctx id = .ok v := by
  have hlive : ensureContext ctx = .ok () := ensureContext_ok.mpr hctx
  simp only [serviceGet, Store.get, Op.entryCheck, Store.getLocked, hlive, ok_bind, hid, ne_eq,
    not_false_eq_true, decide_true, ensure_true, hl]
  rfl

-- ---------------------------------------------------------------------------
-- Calls through both paths
-- ---------------------------------------------------------------------------

/-- The store with what its calls were made from, by index. -/
structure CreateWorld where
  memory : World
  made : List Made

def CreateWorld.init (maxEntries : Int) (clock : Time) : CreateWorld :=
  ⟨World.init maxEntries clock, []⟩

inductive CreateAction
  | create (made : Made) (ctx : Option Context)
  | createIdempotent (made : Made) (ctx : Option Context) (key : GoString)
  | tick (clock : Time)
  | cancel (call : Nat) (cause : ContextCause)
  | advance (call : Nat)

def CreateAction.made? : CreateAction → Option Made
  | .create made _ => some made
  | .createIdempotent made _ _ => some made
  | _ => none

def CreateWorld.spawn (w : CreateWorld) (made : Made) (op : Op) (ctx : Option Context) :
    CreateWorld :=
  ⟨{ w.memory with calls := w.memory.calls ++ [Call.new op ctx] }, w.made ++ [made]⟩

section
variable (H : Hashes)

def createStep (w : CreateWorld) : CreateAction → Option CreateWorld
  | .create made ctx =>
    match createRequest made.env ctx made.input with
    | .error _ => some w
    | .ok value => some (w.spawn made (.create value) ctx)
  | .createIdempotent made ctx key =>
    match createIdempotentRequest H made.env ctx made.input key with
    | .error _ => some w
    | .ok request => some (w.spawn made (.createIdempotent request) ctx)
  | .tick clock => (step H w.memory (.tick clock)).map fun memory => { w with memory := memory }
  | .cancel i cause =>
    (step H w.memory (.cancel i cause)).map fun memory => { w with memory := memory }
  | .advance i => (step H w.memory (.advance i)).map fun memory => { w with memory := memory }

end

def Op.candidate : Op → Option Item
  | .create value => some value
  | .createIdempotent request => some request.value
  | _ => none

inductive CreateStepped (H : Hashes) (w : CreateWorld) (a : CreateAction) : CreateWorld → Prop
  | refused : CreateStepped H w a w
  | spawned : a.made? = some made → made.candidate = .ok value → op.candidate = some value →
      CreateStepped H w a (w.spawn made op ctx)
  | moved : step H w.memory b = some memory → memory.calls.length = w.memory.calls.length →
      CreateStepped H w a { w with memory := memory }

section
variable {H : Hashes} {w w' : CreateWorld}

theorem createStep_stepped (h : createStep H w a = some w') : CreateStepped H w a w' := by
  cases a with
  | create made ctx =>
    simp only [createStep] at h
    split at h
    · cases h
      exact .refused
    · next hrequest =>
      cases h
      exact .spawned rfl (createRequest_ok hrequest) rfl
  | createIdempotent made ctx key =>
    simp only [createStep] at h
    split at h
    · cases h
      exact .refused
    · next hrequest =>
      cases h
      exact .spawned rfl (createIdempotentRequest_ok hrequest) rfl
  | tick clock =>
    cases h
    exact .moved (b := .tick clock) rfl rfl
  | cancel i cause | advance i =>
    obtain ⟨memory, hmemory, rfl⟩ := Option.map_eq_some_iff.mp h
    refine .moved hmemory ?_
    cases step_stepped hmemory
    exact List.length_set

theorem memory_reaches (hr : Run (createStep H) ok w w') : Reaches (step H) w.memory w'.memory := by
  induction hr with
  | refl => exact .refl
  | tail _ hs _ ih =>
    cases createStep_stepped hs with
    | refused => exact ih
    | @spawned made value op ctx => exact .tail (a := .spawn op ctx) ih rfl trivial
    | moved hmemory _ => exact .tail ih hmemory trivial

end

-- ---------------------------------------------------------------------------
-- The invariant
-- ---------------------------------------------------------------------------

theorem callStep_candidate {H : Hashes} (h : CallStep H clock s c s' c')
    (hc : ∀ v, c.inserted = some v → c.op.candidate = some v)
    (hv : c'.inserted = some v) : c'.op.candidate = some v := by
  cases h with
  | insert hop _ _ =>
    cases hv
    rw [hop]
    rfl
  | create hop _ _ =>
    cases hv
    rw [hop]
    rfl
  | _ => exact hc v hv

/-- Each call has the candidate of what it was made from, which satisfies
`P`, and inserts nothing else. -/
structure CreateInv (H : Hashes) (P : Made → Prop) (w : CreateWorld) : Prop where
  inv : Inv H w.memory
  length : w.made.length = w.memory.calls.length
  candidate : ∀ (i : Nat) (c : Call), w.memory.calls[i]? = some c → ∃ made value,
    w.made[i]? = some made ∧ P made ∧ made.candidate = .ok value ∧ c.op.candidate = some value ∧
    ∀ v, c.inserted = some v → v = value

/-- The actions that start calls from what satisfies `P`. -/
def MadeFrom (P : Made → Prop) : CreateWorld → CreateAction → CreateWorld → Prop :=
  fun _ a _ => ∀ made, a.made? = some made → P made

section
variable {H : Hashes} {P : Made → Prop} {w w' : CreateWorld}

theorem createInv_init (H : Hashes) (P : Made → Prop) (maxEntries : Int) (clock : Time) :
    CreateInv H P (CreateWorld.init maxEntries clock) :=
  ⟨inv_init H maxEntries clock, rfl, fun i c hc => by simp [CreateWorld.init, World.init] at hc⟩

theorem CreateInv.spawn (h : CreateInv H P w) (hmade : P made) (hvalue : made.candidate = .ok value)
    (hop : op.candidate = some value) : CreateInv H P (w.spawn made op ctx) where
  inv := inv_step (a := .spawn op ctx) h.inv rfl
  length := by simp [CreateWorld.spawn, h.length]
  candidate i c hc := by
    rcases snoc_cases hc with ⟨rfl, rfl⟩ | hc
    · refine ⟨made, value, ?_, hmade, hvalue, hop, nofun⟩
      rw [← h.length]
      exact List.getElem?_concat_length
    · obtain ⟨made', value', hm, hrest⟩ := h.candidate i c hc
      exact ⟨made', value', snoc_of_some hm, hrest⟩

theorem CreateInv.moved (h : CreateInv H P w) (hstep : step H w.memory b = some memory)
    (hcalls : memory.calls.length = w.memory.calls.length) :
    CreateInv H P { w with memory := memory } where
  inv := inv_step h.inv hstep
  length := h.length.trans hcalls.symm
  candidate i c' hc' := by
    have hlt : i < w.memory.calls.length := hcalls ▸ (List.getElem?_eq_some_iff.mp hc').1
    obtain ⟨made, value, hm, hmade, hvalue, hop, hins⟩ :=
      h.candidate i _ (List.getElem?_eq_getElem hlt)
    obtain ⟨d, hd, hmoved⟩ := step_moved hstep (List.getElem?_eq_getElem hlt)
    cases hc'.symm.trans hd
    refine ⟨made, value, hm, hmade, hvalue, ?_⟩
    cases hmoved with
    | waited => exact ⟨hop, hins⟩
    | stepped _ hcall =>
      have hop' := (congrArg Op.candidate (callStep_op hcall)).trans hop
      refine ⟨hop', fun v hv => ?_⟩
      have hstored := callStep_candidate hcall (fun v hv => by rw [hins v hv, hop]) hv
      exact Option.some.inj (hstored.symm.trans hop')

theorem createInv_reachable
    (hr : Run (createStep H) (MadeFrom P) (CreateWorld.init maxEntries clock) w) :
    CreateInv H P w := by
  refine hr.invariant (fun w a w' h hs hmade => ?_) (createInv_init H P maxEntries clock)
  cases createStep_stepped hs with
  | refused => exact h
  | spawned ha hvalue hop => exact h.spawn (hmade _ ha) hvalue hop
  | moved hmemory hcalls => exact h.moved hmemory hcalls

theorem CreateInv.stored {id : UUID} (h : CreateInv H P w)
    (hl : w.memory.store.items.lookup id = some v) :
    v.id = id ∧ ∃ made, P made ∧ made.candidate = .ok v := by
  obtain ⟨hid, i, c, hc, hins⟩ := h.inv.items id v hl
  obtain ⟨made, value, -, hmade, hvalue, -, hkeep⟩ := h.candidate i c hc
  exact ⟨hid, made, hmade, (hkeep v hins) ▸ hvalue⟩

/-- Calls made from the same input, id and time of creation insert the same
item, on either path. -/
theorem CreateInv.inserted_eq {Q : Made → Prop} {i j : Nat} {c c' : Call} {made made' : Made}
    (h : CreateInv H P w) (h' : CreateInv H Q w')
    (hc : w.memory.calls[i]? = some c) (hc' : w'.memory.calls[j]? = some c')
    (hm : w.made[i]? = some made) (hm' : w'.made[j]? = some made') (hsame : made.Same made')
    (hv : c.inserted = some v) (hv' : c'.inserted = some v') : v = v' := by
  obtain ⟨_, value, hmade, -, hvalue, -, hkeep⟩ := h.candidate i c hc
  obtain ⟨_, value', hmade', -, hvalue', -, hkeep'⟩ := h'.candidate j c' hc'
  cases hm.symm.trans hmade
  cases hm'.symm.trans hmade'
  rw [hkeep v hv, hkeep' v' hv']
  exact hsame.candidate hvalue hvalue'

end

/-- In every run of both create paths over the memory store: a stored item
has its own id as its key and obeys the policy; it can be read unchanged
from every later state; and calls with the same input, generated id and
reading store the same item, whichever path they take and whatever else
happened. -/
theorem stored_policy (H : Hashes) (maxEntries : Int) (clock : Time) (w : CreateWorld)
    (hr : Run (createStep H) (MadeFrom Made.Dated) (CreateWorld.init maxEntries clock) w) :
    (∀ id v, w.memory.store.items.lookup id = some v → v.id = id ∧ v.Policy) ∧
    (∀ w' id v ctx, Reaches (createStep H) w w' → w.memory.store.items.lookup id = some v →
      Live ctx →
      serviceGet (some w'.memory.store) ctx id = .ok v) ∧
    (∀ maxEntries' clock' w' (i j : Nat) c c' made made' v v',
      Run (createStep H) (MadeFrom Made.Dated) (CreateWorld.init maxEntries' clock') w' →
      w.memory.calls[i]? = some c → w'.memory.calls[j]? = some c' →
      w.made[i]? = some made → w'.made[j]? = some made' → made.Same made' →
      c.inserted = some v → c'.inserted = some v' → v = v') := by
  have h := createInv_reachable hr
  have hpolicy : ∀ id v, w.memory.store.items.lookup id = some v → v.id = id ∧ v.Policy := by
    intro id v hl
    obtain ⟨hid, made, hdated, hvalue⟩ := h.stored hl
    exact ⟨hid, made.candidate_policy hvalue hdated⟩
  refine ⟨hpolicy, ?_, ?_⟩
  · intro w' id v ctx hlater hl hctx
    obtain ⟨hid, hv⟩ := hpolicy id v hl
    exact serviceGet_ok hctx (hid ▸ hv.id_ne_zero) (lookup_kept h.inv (memory_reaches hlater) hl)
  · intro maxEntries' clock' w' i j c c' made made' v v' hr' hc hc' hm hm' hsame hv hv'
    exact h.inserted_eq (createInv_reachable hr') hc hc' hm hm' hsame hv hv'

def sampleMade : Made where
  env := {
    generateID := .ok ⟨[1, 0, 0, 0, 0, 0, 0x40, 0, 0x80, 0, 0, 0, 0, 0, 0, 0], rfl⟩
    clock := sampleTime
    wall := sampleTime }
  input := ⟨str " name ", str "text"⟩

def plainCreate : List CreateAction :=
  .create sampleMade (some .background) :: List.replicate 2 (.advance 0)

def keyedCreate : List CreateAction :=
  .createIdempotent sampleMade (some .background) (str "key") :: List.replicate 7 (.advance 0)

/-- What the first call of a run was made from, what it inserted and what
the store has under that id. -/
def CreateWorld.first (w : CreateWorld) : Option (Made × Item × Item) := do
  let made ← w.made[0]?
  let call ← w.memory.calls[0]?
  let value ← call.inserted
  let stored ← w.memory.store.items.lookup value.id
  some (made, value, stored)

theorem first_some {w : CreateWorld} (h : w.first = some (made, value, stored)) :
    ∃ c, w.made[0]? = some made ∧ w.memory.calls[0]? = some c ∧ c.inserted = some value ∧
      w.memory.store.items.lookup value.id = some stored := by
  simp only [CreateWorld.first, Option.bind_eq_bind, Option.bind_eq_some_iff, Option.some.injEq,
    Prod.mk.injEq] at h
  obtain ⟨made, hmade, c, hc, value, hvalue, stored, hstored, rfl, rfl, rfl⟩ := h
  exact ⟨c, hmade, hc, hvalue, hstored⟩

theorem madeFrom_sample {actions : List CreateAction}
    (h : ∀ a ∈ actions, ∀ made ∈ a.made?, made = sampleMade) :
    ∀ a ∈ actions, ∀ w w', createStep Hashes.go w a = some w' → MadeFrom Made.Dated w a w' := by
  intro a ha w w' _ made hmade
  rw [h a ha made hmade]
  exact fun _ => rfl

theorem stored_policy_both_paths :
    ∃ w w' v, exec (createStep Hashes.go) (CreateWorld.init 2 sampleTime) plainCreate = some w ∧
      exec (createStep Hashes.go) (CreateWorld.init 2 sampleTime) keyedCreate = some w' ∧
      w.memory.store.items.lookup v.id = some v ∧ v.Policy ∧
      serviceGet (some w.memory.store) (some .background) v.id = .ok v ∧
      w'.memory.store.items.lookup v.id = some v := by
  let value : Item := ⟨⟨[1, 0, 0, 0, 0, 0, 0x40, 0, 0x80, 0, 0, 0, 0, 0, 0, 0], rfl⟩, str "name",
    str "text", sampleTime⟩
  have hplain : (exec (createStep Hashes.go) (CreateWorld.init 2 sampleTime) plainCreate).bind
    CreateWorld.first =
      some (sampleMade, value, value) := by decide +kernel
  have hkeyed : (exec (createStep Hashes.go) (CreateWorld.init 2 sampleTime) keyedCreate).bind
    (fun w =>
      w.first.map fun f => (f.1, decide (f.2.2 = f.2.1))) = some (sampleMade, true) := by
        decide +kernel
  obtain ⟨w, hw, hfirst⟩ := Option.bind_eq_some_iff.mp hplain
  obtain ⟨w', hw', hfirst'⟩ := Option.bind_eq_some_iff.mp hkeyed
  obtain ⟨⟨made', v', stored'⟩, hfirst', hsome⟩ := Option.map_eq_some_iff.mp hfirst'
  simp only [Prod.mk.injEq, decide_eq_true_eq] at hsome
  obtain ⟨rfl, rfl⟩ := hsome
  obtain ⟨c, hmade, hc, hins, hl⟩ := first_some hfirst
  obtain ⟨c', hmade', hc', hins', hl'⟩ := first_some hfirst'
  have hr := exec_run plainCreate (madeFrom_sample (by decide)) hw
  have hr' := exec_run keyedCreate (madeFrom_sample (by decide)) hw'
  obtain ⟨hpolicy, hget, hsame⟩ := stored_policy Hashes.go 2 sampleTime w hr
  -- the two paths have stored one item
  have heq := hsame 2 sampleTime w' 0 0 c c' _ _ _ _ hr' hc hc' hmade hmade' ⟨rfl, rfl, rfl,
    fun _ => rfl⟩ hins hins'
  exact ⟨w, w', value, hw, hw', hl, (hpolicy _ _ hl).2, hget w _ _ _ .refl hl rfl, heq ▸ hl'⟩

end GoClean.Memory
