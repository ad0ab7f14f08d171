import GoClean.Memory.Machine

/-!
# The representation invariant

`Progress` says what a keyed create has inserted and recorded at each point
of its code. `Effect` groups the steps of a call by what they do to the
markers, the records and the items; the invariant `Inv` ties these to the
calls and is kept by every effect (`Inv.effect`), so it holds in every
reachable world (`inv_reachable`). Nothing here restricts the clock.
-/

namespace GoClean.Memory

open Go Threads Transition

-- ---------------------------------------------------------------------------
-- One call
-- ---------------------------------------------------------------------------

def PC.holding : PC → Bool
  | .reserved | .inserting | .inserted _ | .failing _ => true
  | _ => false

section
variable (H : Hashes)

def Call.key (c : Call) : Option Digest :=
  match c.op with
  | .createIdempotent request => some (keyHash H request)
  | _ => none

def Call.held (c : Call) : Option Digest := if c.pc.holding then c.key H else none

end

/-- The record a keyed create writes, apart from the time. -/
def Records (request : StoreRequest) (entry : IdempotencyEntry) : Prop :=
  entry.fingerprint = requestHash request.fingerprint ∧ entry.itemID = request.value.id

def FailsWith (err : Error) : Prop :=
  IsContextError err ∨ ∃ text, err = .wrap [] errConflict text

/-- What a keyed create has inserted and recorded when it is at `pc`. -/
inductive Progress (request : StoreRequest) : PC → Option Item → Option IdempotencyEntry → Prop
  | start : Progress request .start none none
  | ready : request.value.id ≠ UUID.zero → Progress request .ready none none
  | timed : request.value.id ≠ UUID.zero → Progress request (.timed now) none none
  | reserved : request.value.id ≠ UUID.zero → Progress request .reserved none none
  | inserting : request.value.id ≠ UUID.zero → Progress request .inserting none none
  | inserted : request.value.id ≠ UUID.zero →
      Progress request (.inserted request.value) (some request.value) none
  | failing : FailsWith err → Progress request (.failing err) none none
  | completed : Records request entry →
      Progress request (.completed request.value) (some request.value) (some entry)
  | settled : (∀ v, result ≠ .ok (.created v false)) → Progress request (.returned result) none none
  | finished : Records request entry →
      (result = .ok (.created request.value false) ∨ ∃ err, result = .error err ∧
        IsCancellation err) →
      Progress request (.returned result) (some request.value) (some entry)

structure Call.Plain (c : Call) : Prop where
  unrecorded : c.recorded = none
  uninserted : (∀ result, c.pc ≠ .returned result) → c.inserted = none
  incomplete : ∀ v, c.pc ≠ .completed v
  reply : ∀ v r, c.pc ≠ .returned (.ok (.created v r))

structure Call.Ok (c : Call) : Prop where
  ctx : c.pc = .start ∨ (∃ result, c.pc = .returned result) ∨ c.ctx ≠ none
  keyed : c.op = .createIdempotent request → Progress request c.pc c.inserted c.recorded
  plain : (∀ request, c.op ≠ .createIdempotent request) → c.Plain

theorem Call.Ok.of_keyed {c : Call} (hop : c.op = .createIdempotent request)
    (hctx : c.pc = .start ∨ (∃ result, c.pc = .returned result) ∨ c.ctx ≠ none)
    (h : Progress request c.pc c.inserted c.recorded) : c.Ok where
  ctx := hctx
  keyed hop' := by
    rw [hop] at hop'
    cases hop'
    exact h
  plain hno := absurd hop (hno request)

theorem Call.Ok.new (op : Op) (ctx : Option Context) : (Call.new op ctx).Ok where
  ctx := .inl rfl
  keyed _ := .start
  plain _ := ⟨rfl, fun _ => rfl, nofun, fun _ _ => nofun⟩

theorem Call.Plain.of_returned {c : Call} (hpc : c.pc = .returned result) (hrec : c.recorded = none)
    (hreply : ∀ v r, result ≠ .ok (.created v r)) : c.Plain where
  unrecorded := hrec
  uninserted h := absurd hpc (h result)
  incomplete v h := by simp [hpc] at h
  reply v r h := hreply v r (PC.returned.inj (hpc.symm.trans h))

theorem validateRequest_ok (h : validateRequest key fingerprint value = .ok u) :
    value.id ≠ UUID.zero := by
  simp only [validateRequest, bind_ok, ensure_ok, decide_eq_true_eq] at h
  obtain ⟨_, -, _, hid, -⟩ := h
  exact hid

theorem entryCheck_ok (h : Op.entryCheck ctx (.createIdempotent request) = .ok u) :
    request.value.id ≠ UUID.zero := by
  simp only [Op.entryCheck, bind_ok] at h
  obtain ⟨_, -, h⟩ := h
  exact validateRequest_ok h

theorem createLocked_error {s : Store} (h : s.createLocked ctx value = .error err) :
    FailsWith err := by
  simp only [Store.createLocked, bind_error] at h
  rcases h with hctx | ⟨_, -, h⟩
  · exact .inl (ensureContext_error hctx)
  · split at h
    · cases h
      exact .inr ⟨_, rfl⟩
    · cases h

theorem settled_ne {s : Store} (h : Settled s ctx k rh result) (v : Item) :
    (result.map fun r => Reply.created r.1 r.2) ≠ .ok (.created v false) := by
  cases h <;> simp [Except.map]

theorem finish_cases (created : Item) (hctx : ctx ≠ none) :
    finish ctx created = .ok (.created created false) ∨
      ∃ err, finish ctx created = .error err ∧ IsCancellation err := by
  unfold finish
  cases hc : contextError ctx with
  | none => exact .inl rfl
  | some err => exact .inr ⟨err, rfl, isCancellation_of hc hctx⟩

theorem finish_error (h : finish ctx created = .error err) : IsContextError err := by
  unfold finish at h
  cases hc : contextError ctx with
  | none =>
    rw [hc] at h
    cases h
  | some err' =>
    rw [hc] at h
    cases h
    exact isContextError_of hc

theorem finish_ok (h : finish ctx created = .ok reply) : reply = .created created false := by
  unfold finish at h
  cases hc : contextError ctx with
  | none =>
    rw [hc] at h
    cases h
    rfl
  | some err =>
    rw [hc] at h
    cases h

theorem entryCheck_ctx {op : Op} (h : op.entryCheck ctx = .ok u) : ctx ≠ none := by
  rintro rfl
  cases op <;> simp only [Op.entryCheck, ensureContext, contextError] at h <;> cases h

theorem callStep_ctx_ok {H : Hashes} {s s' : Store} {c c' : Call} (h : CallStep H clock s c s' c')
    (hok : c.Ok) : c'.pc = .start ∨ (∃ result, c'.pc = .returned result) ∨ c'.ctx ≠ none := by
  have hold (hstart : c.pc ≠ .start) (hreturned : ∀ result, c.pc ≠ .returned result) :
      c.ctx ≠ none := by
    rcases hok.ctx with hpc | ⟨result, hpc⟩ | hctx
    · exact absurd hpc hstart
    · exact absurd hpc (hreturned result)
    · exact hctx
  cases h with
  | enter _ hentry => exact .inr (.inr (entryCheck_ctx hentry))
  | refuse | settle | clear | finish | create | createFails | answer => exact .inr (.inl ⟨_, rfl⟩)
  | readClock _ hpc | reserve _ hpc | proceed _ hpc | stop _ hpc | insert _ hpc | insertFails _ hpc
  | nilID _ hpc | complete _ hpc | copy _ hpc =>
    exact .inr (.inr (hold (by simp [hpc]) (by simp [hpc])))

theorem callStep_ok {H : Hashes} {s s' : Store} {c c' : Call} (h : CallStep H clock s c s' c')
    (hok : c.Ok) : c'.Ok := by
  have hctx := callStep_ctx_ok h hok
  obtain ⟨op, ctx, pc, inserted, recorded⟩ := c
  cases h with
  | enter hpc hentry =>
    cases hpc
    refine ⟨hctx, fun {request} hop => ?_, fun hno => ?_⟩
    · cases hop
      cases hok.keyed rfl
      exact .ready (entryCheck_ok hentry)
    · exact ⟨(hok.plain hno).unrecorded, fun _ => (hok.plain hno).uninserted nofun,
        nofun, fun _ _ => nofun⟩
  | refuse hpc _ =>
    cases hpc
    refine ⟨hctx, fun {request} hop => ?_,
      fun hno => .of_returned rfl (hok.plain hno).unrecorded (fun _ _ => nofun)⟩
    cases hop
    cases hok.keyed rfl
    exact .settled nofun
  | readClock hop hpc =>
    cases hpc
    cases hop
    cases hok.keyed rfl with
    | ready hid => exact .of_keyed rfl hctx (.timed hid)
  | settle hop hpc hsettled =>
    cases hpc
    cases hop
    cases hok.keyed rfl
    exact .of_keyed rfl hctx (.settled (settled_ne hsettled))
  | reserve hop hpc =>
    cases hpc
    cases hop
    cases hok.keyed rfl with
    | timed hid => exact .of_keyed rfl hctx (.reserved hid)
  | proceed hop hpc =>
    cases hpc
    cases hop
    cases hok.keyed rfl with
    | reserved hid => exact .of_keyed rfl hctx (.inserting hid)
  | stop hop hpc herr =>
    cases hpc
    cases hop
    cases hok.keyed rfl
    exact .of_keyed rfl hctx (.failing (.inl (isContextError_of herr)))
  | insert hop hpc =>
    cases hpc
    cases hop
    cases hok.keyed rfl with
    | inserting hid => exact .of_keyed rfl hctx (.inserted hid)
  | insertFails hop hpc hcreate =>
    cases hpc
    cases hop
    cases hok.keyed rfl
    exact .of_keyed rfl hctx (.failing (createLocked_error hcreate))
  | nilID hop hpc hnil =>
    cases hpc
    cases hop
    cases hok.keyed rfl with
    | inserted hid => exact absurd hnil hid
  | complete hop hpc hnil hentry =>
    cases hpc
    cases hop
    cases hok.keyed rfl
    cases hentry
    exact .of_keyed rfl hctx (.completed ⟨rfl, rfl⟩)
  | clear hop hpc =>
    cases hpc
    cases hop
    cases hok.keyed rfl
    exact .of_keyed rfl hctx (.settled nofun)
  | finish hop hpc =>
    cases hpc
    cases hop
    cases hok.keyed rfl with
    | completed hentry =>
      have hlive : ctx ≠ none := by
        rcases hok.ctx with hpc | ⟨_, hpc⟩ | hlive
        · cases hpc
        · cases hpc
        · exact hlive
      exact .of_keyed rfl hctx (.finished hentry (finish_cases _ hlive))
  | create hop hpc =>
    cases hop
    exact ⟨hctx, nofun, fun hno => .of_returned rfl (hok.plain hno).unrecorded (fun _ _ => nofun)⟩
  | createFails hop hpc =>
    cases hop
    exact ⟨hctx, nofun, fun hno => .of_returned rfl (hok.plain hno).unrecorded (fun _ _ => nofun)⟩
  | copy hno hpc =>
    cases hpc
    have hplain := hok.plain hno
    refine ⟨hctx, fun hop => absurd hop (hno _), fun _ => ?_⟩
    exact ⟨hplain.unrecorded, fun _ => hplain.uninserted nofun, nofun, fun _ _ => nofun⟩
  | answer hno hresult =>
    exact ⟨hctx, fun hop => absurd hop (hno _),
      fun hno => .of_returned rfl (hok.plain hno).unrecorded hresult⟩

-- ---------------------------------------------------------------------------
-- Effects
-- ---------------------------------------------------------------------------

/-- A step from `c` to `c'` by its effect on the store. -/
inductive Effect (H : Hashes) (s : Store) (c c' : Call) : Store → Prop
  | quiet : c'.held H = c.held H → c'.inserted = c.inserted → c'.recorded = c.recorded →
      Effect H s c c' s
  | cleanup : c.pc = .timed now → c'.held H = c.held H → c'.inserted = c.inserted →
      c'.recorded = c.recorded → Effect H s c c' (s.cleanupIdempotencyLocked now)
  | reserve : c.pc = .timed now → c.held H = none → c'.held H = some k → c'.inserted = c.inserted →
      c'.recorded = c.recorded → (s.cleanupIdempotencyLocked now).idempotency.lookup k = none →
      k ∉ s.inflight →
      ((s.cleanupIdempotencyLocked now).idempotency.size : Int) + s.inflight.card <
        s.maxIdempotencyEntries →
      Effect H s c c' { s.cleanupIdempotencyLocked now with inflight := insert k s.inflight }
  | insert : c'.held H = c.held H → c.inserted = none → c'.inserted = some v →
      c'.recorded = c.recorded → s.items.lookup v.id = none →
      Effect H s c c' { s with items := s.items.insert v.id v }
  | complete : c.held H = some k → c'.held H = none → c'.key H = some k → c'.inserted = c.inserted →
      c.recorded = none → c'.recorded = some entry → Effect H s c c' (s.complete k entry)
  | release : c.held H = some k → c'.held H = none → c'.inserted = c.inserted →
      c'.recorded = c.recorded → Effect H s c c' (s.clearInFlight k)

theorem callStep_op {H : Hashes} (h : CallStep H clock s c s' c') : c'.op = c.op := by
  cases h <;> rfl

theorem key_eq {H : Hashes} {c : Call} (h : c.op = .createIdempotent request) :
    c.key H = some (keyHash H request) := by
  rw [Call.key, h]

theorem key_of_op {H : Hashes} {c c' : Call} (h : c'.op = c.op) : c'.key H = c.key H := by
  rw [Call.key, Call.key, h]

theorem held_of_plain {H : Hashes} {c c' : Call} (h : ∀ request, c.op ≠ .createIdempotent request)
    (hop : c'.op = c.op) : c'.held H = c.held H := by
  have hkey : c.key H = none := by
    unfold Call.key
    split
    · next hop => exact absurd hop (h _)
    · rfl
  simp [Call.held, key_of_op hop, hkey]

theorem callStep_effect {H : Hashes} {s s' : Store} {c c' : Call} (h : CallStep H clock s c s' c')
    (hok : c.Ok) : Effect H s c c' s' := by
  obtain ⟨op, ctx, pc, inserted, recorded⟩ := c
  cases h with
  | enter hpc _ | refuse hpc _ =>
    cases hpc
    exact .quiet rfl rfl rfl
  | readClock hop hpc | proceed hop hpc _ | stop hop hpc _ | insertFails hop hpc _ | nilID hop hpc _
  | finish hop hpc =>
    cases hop
    cases hpc
    exact .quiet rfl rfl rfl
  | settle hop hpc _ =>
    cases hop
    cases hpc
    exact .cleanup rfl rfl rfl rfl
  | reserve hop hpc hl hin hcap =>
    cases hop
    cases hpc
    exact .reserve rfl rfl rfl rfl rfl hl hin hcap
  | insert hop hpc hl =>
    cases hop
    cases hpc
    cases hok.keyed rfl
    exact .insert rfl rfl rfl rfl hl
  | complete hop hpc _ _ =>
    cases hop
    cases hpc
    cases hok.keyed rfl
    exact .complete rfl rfl rfl rfl rfl rfl
  | clear hop hpc =>
    cases hop
    cases hpc
    exact .release rfl rfl rfl rfl
  | create hop hpc hl =>
    cases hop
    cases hpc
    exact .insert rfl ((hok.plain fun _ => nofun).uninserted fun _ => nofun) rfl rfl hl
  | createFails hop hpc =>
    cases hop
    exact .quiet (held_of_plain (fun _ => nofun) rfl) rfl rfl
  | copy hno _ | answer hno _ =>
    exact .quiet (held_of_plain hno rfl) rfl rfl

-- ---------------------------------------------------------------------------
-- The invariant
-- ---------------------------------------------------------------------------

structure Inv (H : Hashes) (w : World) : Prop where
  ok : ∀ (i : Nat) c, w.calls[i]? = some c → c.Ok
  markers : ∀ k, k ∈ w.store.inflight ↔ Owns (Call.held H) w.calls k
  exclusive : Exclusive (Call.held H) w.calls
  disjoint : ∀ k, k ∈ w.store.inflight → w.store.idempotency.lookup k = none
  capacity : (w.store.idempotency.size : Int) + w.store.inflight.card ≤
    w.store.maxIdempotencyEntries
  /-- A record was written by a call on its key. -/
  recorded : ∀ k entry, w.store.idempotency.lookup k = some entry →
    ∃ (i : Nat) (c : Call), w.calls[i]? = some c ∧ c.key H = some k ∧ c.recorded = some entry
  /-- What a call inserted is stored. -/
  stored : ∀ (i : Nat) c v, w.calls[i]? = some c → c.inserted = some v →
    w.store.items.lookup v.id = some v
  /-- An id was inserted by one call only. -/
  authors : Exclusive (fun c => c.inserted.map Item.id) w.calls
  items : ∀ id v, w.store.items.lookup id = some v →
    v.id = id ∧ ∃ (i : Nat) (c : Call), w.calls[i]? = some c ∧ c.inserted = some v

theorem maxIdempotencyEntries_pos (s : Store) : 0 < s.maxIdempotencyEntries := by
  unfold Store.maxIdempotencyEntries
  split
  · assumption
  · decide

theorem inv_init (H : Hashes) (maxEntries : Int) (clock : Time) :
    Inv H (World.init maxEntries clock) where
  ok i c h := by simp [World.init] at h
  markers k := by
    constructor
    · intro h
      simp [World.init, Store.empty] at h
    · exact fun h => absurd h not_owns_nil
  exclusive := exclusive_nil
  disjoint k h := by simp [World.init, Store.empty] at h
  capacity := (maxIdempotencyEntries_pos _).le
  recorded k entry h := by simp [World.init, Store.empty] at h
  stored i c v h := by simp [World.init] at h
  authors := exclusive_nil
  items id v h := by simp [World.init, Store.empty] at h

section
variable {H : Hashes} {w : World} {i : Nat} {c c' : Call} {s' : Store}

theorem Inv.markers_effect (h : Inv H w) (hc : w.calls[i]? = some c) (he : Effect H w.store c c' s')
    (k : Digest) : k ∈ s'.inflight ↔ Owns (Call.held H) (w.calls.set i c') k := by
  cases he with
  | quiet hheld | cleanup _ hheld | insert hheld =>
    rw [owns_keep hc hheld]
    exact h.markers k
  | reserve _ hfree hheld =>
    rw [owns_acquire hc hfree hheld, ← h.markers]
    exact Finset.mem_insert
  | complete hheld hfree | release hheld hfree =>
    rw [owns_release h.exclusive hc hheld hfree, ← h.markers]
    exact Finset.mem_erase

theorem Inv.exclusive_effect (h : Inv H w) (hc : w.calls[i]? = some c)
    (he : Effect H w.store c c' s') : Exclusive (Call.held H) (w.calls.set i c') := by
  cases he with
  | quiet hheld | cleanup _ hheld | insert hheld => exact exclusive_keep h.exclusive hc hheld
  | reserve _ _ hheld _ _ _ hin =>
    exact exclusive_acquire h.exclusive hheld ((h.markers _).not.mp hin)
  | complete _ hfree | release _ hfree => exact exclusive_release h.exclusive hfree

theorem Inv.marked (h : Inv H w) (hc : w.calls[i]? = some c) (hheld : c.held H = some k) :
    k ∈ w.store.inflight :=
  (h.markers k).mpr ⟨i, c, hc, hheld⟩

theorem Inv.disjoint_effect (h : Inv H w) (he : Effect H w.store c c' s') (k : Digest)
    (hk : k ∈ s'.inflight) : s'.idempotency.lookup k = none := by
  cases he with
  | quiet | insert => exact h.disjoint k hk
  | cleanup => exact AssocMap.lookup_filter_eq_none (h.disjoint k hk)
  | reserve _ _ _ _ _ hl =>
    rcases Finset.mem_insert.mp hk with rfl | hk
    · exact hl
    · exact AssocMap.lookup_filter_eq_none (h.disjoint k hk)
  | complete =>
    obtain ⟨hne, hk⟩ := Finset.mem_erase.mp hk
    exact (AList.lookup_insert_ne hne).trans (h.disjoint k hk)
  | release => exact h.disjoint k (Finset.mem_of_mem_erase hk)

theorem Inv.capacity_effect (h : Inv H w) (hc : w.calls[i]? = some c)
    (he : Effect H w.store c c' s') :
    (s'.idempotency.size : Int) + s'.inflight.card ≤ s'.maxIdempotencyEntries := by
  have hcap := h.capacity
  cases he with
  | quiet | insert => exact hcap
  | @cleanup now =>
    have hsize :=
      AssocMap.size_filter_le (fun _ entry => now.before entry.expiresAt) w.store.idempotency
    show ((AssocMap.filter _ w.store.idempotency).size : Int) + w.store.inflight.card ≤
      w.store.maxIdempotencyEntries
    omega
  | @reserve now k _ _ _ _ _ _ hin hroom =>
    show ((w.store.cleanupIdempotencyLocked now).idempotency.size : Int) +
      (insert k w.store.inflight).card ≤ w.store.maxIdempotencyEntries
    rw [Finset.card_insert_of_notMem hin]
    push_cast
    omega
  | @complete k entry hheld =>
    have hin := h.marked hc hheld
    have hcard := Finset.card_pos.mpr ⟨k, hin⟩
    have hsize := AssocMap.size_insert_of_lookup_none (h.disjoint k hin) entry
    show (AssocMap.size (w.store.idempotency.insert k entry) : Int) +
      (w.store.inflight.erase k).card ≤
      w.store.maxIdempotencyEntries
    rw [Finset.card_erase_of_mem hin, hsize]
    omega
  | @release k =>
    have hcard := Finset.card_erase_le (s := w.store.inflight) (a := k)
    show (w.store.idempotency.size : Int) + (w.store.inflight.erase k).card ≤
      w.store.maxIdempotencyEntries
    omega

theorem Inv.recorded_effect (h : Inv H w) (hc : w.calls[i]? = some c) (hop : c'.op = c.op)
    (he : Effect H w.store c c' s') (k : Digest) (entry : IdempotencyEntry)
    (hl : s'.idempotency.lookup k = some entry) :
    ∃ (j : Nat) (d : Call), (w.calls.set i c')[j]? = some d ∧ d.key H = some k ∧
    d.recorded = some entry := by
  have hkey : c'.key H = c.key H := key_of_op hop
  have hkeep (hrec : c'.recorded = c.recorded) (hold : w.store.idempotency.lookup k = some entry) :
      ∃ (j : Nat) (d : Call), (w.calls.set i c')[j]? = some d ∧ d.key H = some k ∧
        d.recorded = some entry :=
    exists_set hc (fun hq => ⟨hkey.trans hq.1, hrec.trans hq.2⟩) (h.recorded k entry hold)
  cases he with
  | quiet _ _ hrec | insert _ _ _ hrec | release _ _ _ hrec => exact hkeep hrec hl
  | cleanup _ _ _ hrec | reserve _ _ _ _ hrec =>
    exact hkeep hrec (AssocMap.lookup_of_lookup_filter hl).1
  | @complete k' entry' _ _ hkey' _ hnone hrec =>
    rw [Store.complete, AssocMap.lookup_insert_ite] at hl
    split at hl
    · next heq =>
      cases hl
      exact ⟨i, c', set_self hc, heq ▸ hkey', hrec⟩
    · -- the old record has another author: this call had none
      refine exists_set hc (fun hq => ?_) (h.recorded k entry hl)
      rw [hnone] at hq
      cases hq.2

theorem Inv.stored_effect (h : Inv H w) (hc : w.calls[i]? = some c) (he : Effect H w.store c c' s')
    (j : Nat) (d : Call) (v : Item) (hd : (w.calls.set i c')[j]? = some d)
    (hv : d.inserted = some v) :
    s'.items.lookup v.id = some v := by
  have hkeep (hins : c'.inserted = c.inserted) : w.store.items.lookup v.id = some v := by
    rcases set_cases hd with ⟨-, rfl⟩ | ⟨-, hd⟩
    · exact h.stored i c v hc (hins ▸ hv)
    · exact h.stored j d v hd hv
  cases he with
  | quiet _ hins | cleanup _ _ hins | reserve _ _ _ hins | complete _ _ _ hins | release _ _ hins =>
    exact hkeep hins
  | @insert v' _ _ hins _ hnew =>
    show (w.store.items.insert v'.id v').lookup v.id = some v
    rw [AssocMap.lookup_insert_ite]
    rcases set_cases hd with ⟨-, rfl⟩ | ⟨-, hd⟩
    · rw [hins] at hv
      cases hv
      rw [if_pos rfl]
    · have hold := h.stored j d v hd hv
      rw [if_neg (fun he => by rw [he, hnew] at hold; cases hold)]
      exact hold

theorem Inv.authors_effect (h : Inv H w) (hc : w.calls[i]? = some c)
    (he : Effect H w.store c c' s') :
    Exclusive (fun c => c.inserted.map Item.id) (w.calls.set i c') := by
  cases he with
  | quiet _ hins | cleanup _ _ hins | reserve _ _ _ hins | complete _ _ _ hins | release _ _ hins =>
    exact exclusive_keep h.authors hc (congrArg (Option.map Item.id) hins)
  | @insert v' _ _ hins _ hnew =>
    have hacq : c'.inserted.map Item.id = some v'.id := by rw [hins, Option.map_some]
    refine exclusive_acquire h.authors hacq ?_
    rintro ⟨j, d, hd, hid⟩
    obtain ⟨v, hv, hid⟩ := Option.map_eq_some_iff.mp hid
    have hstored := h.stored j d v hd hv
    rw [hid, hnew] at hstored
    cases hstored

theorem Inv.items_effect (h : Inv H w) (hc : w.calls[i]? = some c) (he : Effect H w.store c c' s')
    (id : UUID) (v : Item) (hl : s'.items.lookup id = some v) :
    v.id = id ∧ ∃ (j : Nat) (d : Call), (w.calls.set i c')[j]? = some d ∧ d.inserted = some v := by
  have hkeep (hins : c'.inserted = c.inserted) (hold : w.store.items.lookup id = some v) :
      v.id = id ∧ ∃ (j : Nat) (d : Call), (w.calls.set i c')[j]? = some d ∧ d.inserted = some v :=
    ⟨(h.items id v hold).1, exists_set hc (fun hq => hins.trans hq) (h.items id v hold).2⟩
  cases he with
  | quiet _ hins | cleanup _ _ hins | reserve _ _ _ hins | complete _ _ _ hins | release _ _ hins =>
    exact hkeep hins hl
  | @insert v' _ hnone hins _ hnew =>
    have hl : (w.store.items.insert v'.id v').lookup id = some v := hl
    rw [AssocMap.lookup_insert_ite] at hl
    split at hl
    · next heq =>
      cases hl
      exact ⟨heq.symm, i, c', set_self hc, hins⟩
    · refine ⟨(h.items id v hl).1, exists_set hc (fun hq => ?_) (h.items id v hl).2⟩
      rw [hnone] at hq
      cases hq

theorem Inv.effect (h : Inv H w) (hc : w.calls[i]? = some c) (hok : c'.Ok) (hop : c'.op = c.op)
    (he : Effect H w.store c c' s') : Inv H { w with store := s', calls := w.calls.set i c' } where
  ok := forall_set h.ok hok
  markers := h.markers_effect hc he
  exclusive := h.exclusive_effect hc he
  disjoint := h.disjoint_effect he
  capacity := h.capacity_effect hc he
  recorded := h.recorded_effect hc hop he
  stored := h.stored_effect hc he
  authors := h.authors_effect hc he
  items := h.items_effect hc he

theorem Inv.spawn (h : Inv H w) (op : Op) (ctx : Option Context) :
    Inv H { w with calls := w.calls ++ [Call.new op ctx] } where
  ok := forall_snoc h.ok (.new op ctx)
  markers k := (h.markers k).trans (owns_snoc rfl).symm
  exclusive := exclusive_snoc h.exclusive rfl
  disjoint := h.disjoint
  capacity := h.capacity
  recorded k entry hl := exists_snoc (h.recorded k entry hl)
  stored i c v hc hv := by
    rcases snoc_cases hc with ⟨-, rfl⟩ | hc
    · cases hv
    · exact h.stored i c v hc hv
  authors := exclusive_snoc h.authors rfl
  items id v hl := ⟨(h.items id v hl).1, exists_snoc (h.items id v hl).2⟩

end

theorem Call.Ok.of_cancel {c : Call} (h : c.Ok) (cause : ContextCause) :
    Call.Ok { c with ctx := c.ctx.map (cancelContext cause) } :=
  ⟨h.ctx.imp_right fun hrest => hrest.imp_right fun hctx => by simpa using hctx, h.keyed,
    fun hno => ⟨(h.plain hno).unrecorded, (h.plain hno).uninserted, (h.plain hno).incomplete,
      (h.plain hno).reply⟩⟩

theorem inv_step {H : Hashes} {w w' : World} (h : Inv H w) (hstep : step H w a = some w') :
    Inv H w' := by
  cases step_stepped hstep with
  | spawn => exact h.spawn _ _
  | tick => exact ⟨h.ok, h.markers, h.exclusive, h.disjoint, h.capacity, h.recorded,
      h.stored, h.authors, h.items⟩
  | cancel hc => exact h.effect hc ((h.ok _ _ hc).of_cancel _) rfl (.quiet rfl rfl rfl)
  | advance hc hcall =>
    have hok := h.ok _ _ hc
    exact h.effect hc (callStep_ok hcall hok) (callStep_op hcall) (callStep_effect hcall hok)

theorem inv_reachable {H : Hashes} (hr : Reaches (step H) (World.init maxEntries clock) w) :
    Inv H w :=
  hr.invariant (fun _ _ _ h hs _ => inv_step h hs) (inv_init H maxEntries clock)

-- ---------------------------------------------------------------------------
-- Answers of the reservation section
-- ---------------------------------------------------------------------------

theorem entryCheck_ne_inProgress :
    Op.entryCheck ctx (.createIdempotent request) ≠ .error errIdempotencyInProgress := by
  intro h
  simp only [Op.entryCheck, validateRequest, validateIdempotencyKey, bind_error, ensure_error] at h
  rcases h with h | ⟨_, -, (⟨-, h⟩ | ⟨_, -, -, h⟩) | ⟨_, -, ⟨-, h⟩ | ⟨_, -, -, h⟩⟩⟩
  · rcases isContextError_sentinel (ensureContext_error h) with h | h <;> cases h
  all_goals cases h

theorem failsWith_ne_inProgress (h : FailsWith errIdempotencyInProgress) : False := by
  rcases h with h | ⟨_, h⟩
  · rcases isContextError_sentinel h with h | h <;> cases h
  · cases h

section
variable {H : Hashes} {w : World} {i : Nat} {c c' : Call} {s' : Store}

/-- Whoever is told that the key is busy was told so while another call
held it. -/
theorem Inv.inProgress (h : Inv H w) (hc : w.calls[i]? = some c)
    (hcall : CallStep H w.clock w.store c s' c') (hkey : c.key H = some k)
    (hpc' : c'.pc = .returned (.error errIdempotencyInProgress)) :
    ∃ (j : Nat) (d : Call), j ≠ i ∧ w.calls[j]? = some d ∧ d.held H = some k := by
  have hok := h.ok i c hc
  obtain ⟨op, ctx, pc, inserted, recorded⟩ := c
  have hop : ∃ request, op = .createIdempotent request ∧ keyHash H request = k := by
    cases op <;> cases hkey
    exact ⟨_, rfl, rfl⟩
  obtain ⟨request, rfl, rfl⟩ := hop
  cases hcall with
  | refuse hpc hentry =>
    cases hpc'
    exact absurd hentry entryCheck_ne_inProgress
  | settle hop hpc hsettled =>
    cases hop
    cases hpc
    generalize hr : keyHash H request = k at hsettled hkey ⊢
    cases hsettled with
    | busy _ hin =>
      obtain ⟨j, d, hd, hheld⟩ := (h.markers k).mp hin
      refine ⟨j, d, ?_, hd, hheld⟩
      rintro rfl
      rw [hc] at hd
      cases hd
      cases hheld
    | cancelled _ _ hctx =>
      cases hpc'
      rcases isContextError_sentinel (isContextError_of hctx) with h | h <;> cases h
    | _ => cases hpc'
  | clear hop hpc =>
    cases hop
    cases hpc
    cases hpc'
    cases hok.keyed rfl with
    | failing hfails => exact absurd hfails failsWith_ne_inProgress
  | finish =>
    rcases isContextError_sentinel (finish_error (PC.returned.inj hpc')) with h | h <;> cases h
  | createFails hop => cases hop
  | answer hno => exact absurd rfl (hno request)
  | _ => cases hpc'

theorem Inv.item_of_record (h : Inv H w) (hl : w.store.idempotency.lookup k = some entry) :
    ∃ (i : Nat) (c : Call) (request : StoreRequest), w.calls[i]? = some c ∧
      c.op = .createIdempotent request ∧ keyHash H request = k ∧ c.recorded = some entry ∧
      Records request entry ∧ c.inserted = some request.value ∧
      w.store.items.lookup entry.itemID = some request.value := by
  obtain ⟨i, c, hc, hkey, hrec⟩ := h.recorded k entry hl
  obtain ⟨op, ctx, pc, inserted, recorded⟩ := c
  cases op with
  | createIdempotent request =>
    cases hkey
    cases hrec
    have hprogress := (h.ok i _ hc).keyed rfl
    have hdone : Records request entry ∧ inserted = some request.value := by
      cases hprogress with
      | completed hentry => exact ⟨hentry, rfl⟩
      | finished hentry => exact ⟨hentry, rfl⟩
    obtain ⟨hentry, rfl⟩ := hdone
    refine ⟨i, _, request, hc, rfl, rfl, rfl, hentry, rfl, ?_⟩
    rw [hentry.2]
    exact h.stored i _ request.value hc rfl
  | _ => cases hkey

/-- With a live context the reservation section never finds a record
without its item. -/
theorem Inv.not_lost (h : Inv H w) (hcall : CallStep H w.clock w.store c s' c') (hlive : Live c.ctx)
    (hop : c.op = .createIdempotent request) (hpc : c.pc = .timed now) :
    c'.pc ≠ .returned (.error errIdempotencyState) := by
  intro hpc'
  obtain ⟨op, ctx, pc, inserted, recorded⟩ := c
  cases hpc
  cases hop
  cases hcall with
  | settle _ hpc hsettled =>
    cases hpc
    cases hsettled with
    | lost hl _ hlost =>
      obtain ⟨_, _, _, -, -, -, -, -, -, hitem⟩ :=
        h.item_of_record (AssocMap.lookup_of_lookup_filter hl).1
      have hnone : w.store.items.lookup _ = none := hlost hlive
      rw [hitem] at hnone
      cases hnone
    | cancelled _ _ hctx =>
      have hnone : contextError ctx = none := hlive
      rw [hctx] at hnone
      cases hnone
    | _ => cases hpc'
  | answer hno => exact absurd rfl (hno request)
  | createFails hop => cases hop
  | refuse hpc | clear _ hpc | finish _ hpc => cases hpc
  | _ => cases hpc'

end

/-- In every reachable world: records and markers stay within the limit and
apart; the markers are those of the calls between reservation and
completion or clearing, so that none is left once all calls have returned
and only a call beside one of these is told to wait; every record has its
item, so that no replay under a live context loses it. -/
theorem representation_invariant (H : Hashes) (maxEntries : Int) (clock : Time) (w : World)
    (hr : Reaches (step H) (World.init maxEntries clock) w) :
    (w.store.idempotency.size : Int) + w.store.inflight.card ≤ w.store.maxIdempotencyEntries ∧
    (∀ k, ¬ (k ∈ w.store.idempotency ∧ k ∈ w.store.inflight)) ∧
    (∀ k, k ∈ w.store.inflight ↔ ∃ (i : Nat) (c : Call), w.calls[i]? = some c ∧ c.held H = some k) ∧
    ((∀ c ∈ w.calls, ∃ result, c.pc = .returned result) → w.store.inflight = ∅) ∧
    (∀ (i : Nat) (w' : World) (c c' : Call) (k : Digest), step H w (.advance i) = some w' →
      w.calls[i]? = some c → w'.calls[i]? = some c' → c.key H = some k →
      c'.pc = .returned (.error errIdempotencyInProgress) →
      ∃ (j : Nat) (d : Call), j ≠ i ∧ w.calls[j]? = some d ∧ d.held H = some k) ∧
    (∀ k entry, w.store.idempotency.lookup k = some entry → entry.itemID ∈ w.store.items) ∧
    (∀ (i : Nat) (w' : World) (c c' : Call) (request : StoreRequest) (now : Time),
      step H w (.advance i) = some w' → w.calls[i]? = some c → w'.calls[i]? = some c' →
      c.op = .createIdempotent request → c.pc = .timed now → Live c.ctx →
      c'.pc ≠ .returned (.error errIdempotencyState)) := by
  have h := inv_reachable hr
  refine ⟨h.capacity, ?_, h.markers, ?_, ?_, ?_, ?_⟩
  · rintro k ⟨hrecord, hmarker⟩
    exact AList.lookup_eq_none.mp (h.disjoint k hmarker) hrecord
  · intro hall
    refine Finset.eq_empty_of_forall_notMem fun k hk => ?_
    obtain ⟨i, c, hc, hheld⟩ := (h.markers k).mp hk
    obtain ⟨result, hpc⟩ := hall c (List.mem_of_getElem? hc)
    simp [Call.held, hpc, PC.holding] at hheld
  · intro i w' c c' k hstep hc hc' hkey hpc'
    exact h.inProgress hc (step_advance hstep hc hc') hkey hpc'
  · intro k entry hl
    obtain ⟨_, _, _, -, -, -, -, -, -, hitem⟩ := h.item_of_record hl
    exact AssocMap.mem_of_lookup hitem
  · intro i w' c c' request now hstep hc hc' hop hpc hlive
    exact h.not_lost (step_advance hstep hc hc') hlive hop hpc

/-- Two calls under one key: the first holds it, the second has been told so. -/
theorem representation_invariant_two_calls :
    ∃ w, exec (step Hashes.go) (World.init 2 sampleTime)
        [sampleCall 1, sampleCall 2, .advance 0, .advance 0, .advance 0, .advance 1,
          .advance 1, .advance 1] =
      some w ∧ w.store.inflight.card = 1 ∧
      (w.store.idempotency.size : Int) + w.store.inflight.card ≤ w.store.maxIdempotencyEntries := by
  have hcard : (exec (step Hashes.go) (World.init 2 sampleTime)
      [sampleCall 1, sampleCall 2, .advance 0, .advance 0, .advance 0, .advance 1,
        .advance 1, .advance 1]).map
        (fun w => w.store.inflight.card) = some 1 := by decide +kernel
  obtain ⟨w, hw, hone⟩ := Option.map_eq_some_iff.mp hcard
  exact ⟨w, hw, hone, (representation_invariant Hashes.go 2 sampleTime w (exec_reaches _ hw)).1⟩

end GoClean.Memory
