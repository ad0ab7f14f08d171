import GoClean.Server.Invariant

/-!
# Where the items of answers come from

Every item an answer shows is stored, and every stored item was posted: some
exchange is a POST to the collection, authorised, with a body that describes
the item's fields (`Author`).
-/

namespace GoClean.Server

open Go Auth RateLimit Http HttpApi Threads Transition

section
variable {H : Hashes} {net : Net} {cfg : Settings} {good : Reads → Prop} {w w' : World}

-- ---------------------------------------------------------------------------
-- From answers to the store
-- ---------------------------------------------------------------------------

def replyItems : Memory.Reply → List Item
  | .created value _ => [value]
  | .item value => [value]
  | .items values => values

theorem result_stored {s : Memory.Store} (h : Memory.Result s ctx op (.ok reply))
    (hids : ∀ id v, s.items.lookup id = some v → v.id = id) :
    Memory.Stored s (replyItems reply) := by
  cases h with
  | created hl => exact List.forall_mem_singleton.mpr hl
  | keyed hl => exact List.forall_mem_singleton.mpr hl
  | found hl => exact List.forall_mem_singleton.mpr (by rw [hids _ _ hl]; exact hl)
  | listed hstored _ => exact hstored
  | listedAfter hstored _ => exact hstored

theorem mem_cutRows (h : v ∈ cutRows limit rows) : v ∈ rows := by
  rw [cutRows_eq] at h
  exact List.mem_of_mem_take h

theorem writeCreated_items (h : v ∈ (writeCreated path key result).payload.items) :
    ∃ replayed, result = .ok (v, replayed) := by
  unfold writeCreated at h
  split at h
  · exact absurd h List.not_mem_nil
  · split_ifs at h
    · exact absurd h List.not_mem_nil
    all_goals
      cases List.mem_singleton.mp h
      exact ⟨_, rfl⟩

theorem writePage_items (h : v ∈ (writePage result).response.payload.items) :
    ∃ page, result = .ok page ∧ v ∈ page.items := by
  cases result with
  | error err => exact absurd h List.not_mem_nil
  | ok page => exact ⟨page, rfl, h⟩

theorem writeCursorPage_items (h : v ∈ (writeCursorPage result).response.payload.items) :
    ∃ page, result = .ok page ∧ v ∈ page.items := by
  cases result with
  | error err => exact absurd h List.not_mem_nil
  | ok page => exact ⟨page, rfl, h⟩

theorem listReply_items (h : listReply codec normalized rows = .ok page) :
    page.items = cutRows normalized.limit rows := by
  cases codec with
  | none =>
    cases h
    rfl
  | some codec =>
    obtain ⟨_, -, h⟩ := bind_ok.mp h
    cases h
    rfl

theorem listCursorReply_items (h : listCursorReply codec ctx limit rows = .ok page) :
    page.items = cutRows limit rows := by
  obtain ⟨_, -, h⟩ := bind_ok.mp h
  obtain ⟨_, -, h⟩ := bind_ok.mp h
  cases codec with
  | none => cases h
  | some codec =>
    obtain ⟨_, -, h⟩ := bind_ok.mp h
    obtain ⟨_, -, h⟩ := bind_ok.mp h
    cases h
    rfl

theorem respond_items (h : respond H cfg path ctx encoding pending result = some response)
    (hv : v ∈ response.payload.items) : ∃ reply, result = .ok reply ∧ v ∈ replyItems reply := by
  unfold respond at h
  split at h
  all_goals cases h
  case h_2 =>
    obtain ⟨_, hresult⟩ := writeCreated_items hv
    cases hresult
    exact ⟨_, rfl, List.mem_singleton_self _⟩
  case h_4 =>
    obtain ⟨_, hresult⟩ := writeCreated_items hv
    obtain ⟨_, -, hreply⟩ := bind_ok.mp hresult
    cases hreply
    exact ⟨_, rfl, List.mem_singleton_self _⟩
  case h_6 => exact ⟨_, rfl, hv⟩
  case h_8 =>
    obtain ⟨page, hpage, hv⟩ := writePage_items hv
    rw [listReply_items hpage] at hv
    exact ⟨_, rfl, mem_cutRows hv⟩
  case h_10 =>
    obtain ⟨page, hpage, hv⟩ := writeCursorPage_items hv
    rw [listCursorReply_items hpage] at hv
    exact ⟨_, rfl, mem_cutRows hv⟩
  all_goals exact absurd hv List.not_mem_nil

theorem Inv.shown_call {i : Nat} {e : Exchange} {response : Response} (h : Inv H net cfg good w)
    (he : w.exchanges[i]? = some e) (hphase : e.phase = .answered response)
    (hv : v ∈ response.payload.items) :
    ∃ k c pending encoding result shown, e.call = some k ∧ w.memory.calls[k]? = some c ∧
      Served H net cfg good e.request c.op pending ∧ c.pc = .returned result ∧
      respond H cfg e.request.path e.ctx encoding pending result = some shown ∧
      response = { shown with headers := e.headers ++ shown.headers } := by
  cases h.exchanges i e he with
  | admitted hphase' | waiting hphase' => cases hphase.symm.trans hphase'
  | aborted hphase' =>
    cases hphase.symm.trans hphase'
    exact absurd hv List.not_mem_nil
  | refused hphase' _ _ _ _ hserve =>
    cases hphase.symm.trans hphase'
    rw [show Payload.items _ = [] from serve_error hserve] at hv
    exact absurd hv List.not_mem_nil
  | answered hphase' hcall _ hc _ hserved hpc hrespond =>
    cases hphase.symm.trans hphase'
    exact ⟨_, _, _, _, _, _, hcall, hc, hserved, hpc, hrespond, rfl⟩

theorem Inv.shown {i : Nat} {response : Response} (h : Inv H net cfg good w)
    (hanswer : w.answer i = some response) (hv : v ∈ response.payload.items) :
    w.memory.store.items.lookup v.id = some v := by
  obtain ⟨e, he, hphase⟩ := answer_iff.mp hanswer
  obtain ⟨k, c, _, _, _, _, -, hc, -, hpc, hrespond, rfl⟩ := h.shown_call he hphase hv
  obtain ⟨reply, rfl, hv⟩ := respond_items hrespond hv
  exact result_stored ((h.answers k c hc).returned _ hpc)
    (fun id v hl => (h.memory.items id v hl).1) v hv

-- ---------------------------------------------------------------------------
-- From the store to requests
-- ---------------------------------------------------------------------------

theorem candidate_of_inserted {m : Memory.World}
    (hr : Reaches (Memory.step H) (Memory.World.init maxEntries clock) m) :
    ∀ (k : Nat) c v, m.calls[k]? = some c → c.inserted = some v → c.op.candidate = some v := by
  refine hr.invariant (P := fun m : Memory.World => ∀ (k : Nat) c v, m.calls[k]? = some c →
    c.inserted = some v →
    c.op.candidate = some v) (fun m a m' hm hs _ k c' v hc' hv => ?_)
    (fun k c v hc => by simp [Memory.World.init] at hc)
  cases hk : m.calls[k]? with
  | none =>
    obtain ⟨op, ctx, rfl⟩ := Memory.step_new hs hc' hk
    cases hv
  | some c =>
    obtain ⟨d, hd, hmoved⟩ := Memory.step_moved hs hk
    cases hc'.symm.trans hd
    cases hmoved with
    | waited => exact hm k c v hk hv
    | stepped _ hcall => exact Memory.callStep_candidate hcall (fun v hv => hm k c v hk hv) hv

/-- The request is an authorised POST to the collection, and its body describes
the fields of the item. -/
def Author (H : Hashes) (cfg : Settings) (request : HttpRequest) (v : Item) : Prop :=
  request.method = str "POST" ∧ request.path = itemsPath ∧ Authorised H cfg request.toRequest ∧
    ∃ body r, request.upload.body = some body ∧ Describes body.bytes r ∧
      v.name = trimSpace r.name ∧ v.description = trimSpace r.description

theorem candidate_fields {made : Made} (h : made.candidate = .ok v) :
    v.name = trimSpace made.input.name ∧ v.description = trimSpace made.input.description := by
  simp only [Made.candidate, newItem, bind_ok, pure_ok] at h
  obtain ⟨canonical, hcanonical, _, -, _, -, rfl⟩ := h
  obtain ⟨rfl, -, -⟩ := validateCreateInput_ok hcanonical
  exact ⟨rfl, rfl⟩

theorem Served.made (h : Served H net cfg good request op pending) (hop : op.candidate = some v) :
    findRoute cfg.gin cfg.metricsEnabled request.method request.path = some .createItem ∧
    ∃ reads input key, good reads ∧
      readCreate (newMaxBodyBytes []) request.header request.upload = .ok (input, key) ∧
      Made.candidate ⟨reads.create, input⟩ = .ok v := by
  obtain ⟨-, cause, reads, hgood, hserve⟩ := h
  cases serve_ok hserve with
  | create hroute hread hvalue =>
    cases hop
    exact ⟨hroute, reads, _, _, hgood, hread, createRequest_ok hvalue⟩
  | createIdempotent hroute hread hrequest =>
    cases hop
    exact ⟨hroute, reads, _, _, hgood, hread, createIdempotentRequest_ok hrequest⟩
  | get | list | listCursor => cases hop

theorem Served.author (h : Served H net cfg good request op pending) (hop : op.candidate = some v) :
    Author H cfg request v := by
  obtain ⟨hroute, reads, input, key, -, hread, hv⟩ := h.made hop
  obtain ⟨hname, hdescription⟩ := candidate_fields hv
  obtain ⟨-, hbody⟩ := readCreate_ok.mp hread
  obtain ⟨body, hupload, -, -, -, hdescribes⟩ := decodeStrictJSON_iff.mp hbody
  rcases findRoute_item hroute rfl with ⟨hmethod, hpath, -⟩ | ⟨-, -, hother⟩ | ⟨-, _, -, hother⟩
  · exact ⟨hmethod, hpath, h.1, body, _, hupload, hdescribes, hname, hdescription⟩
  · cases hother
  · cases hother

theorem Inv.candidate {id : UUID} (h : Inv H net cfg good w)
    (hr : Reaches (Memory.step H) (Memory.World.init maxEntries clock) w.memory)
    (hl : w.memory.store.items.lookup id = some v) :
    ∃ (j : Nat) (e : Exchange) (op : Memory.Op) (pending : Pending), w.exchanges[j]? = some e ∧
      Served H net cfg good e.request op pending ∧ op.candidate = some v := by
  obtain ⟨-, k, c, hc, hinserted⟩ := h.memory.items id v hl
  have hop := candidate_of_inserted hr k c v hc hinserted
  obtain ⟨j, e, he, hcall⟩ := h.owned k c hc
  cases h.exchanges j e he with
  | admitted _ hnone | aborted _ hnone | refused _ hnone =>
    rw [hcall] at hnone
    cases hnone
  | waiting _ hcall' _ hc' _ hserved | answered _ hcall' _ hc' _ hserved =>
    cases hcall.symm.trans hcall'
    cases hc.symm.trans hc'
    exact ⟨j, e, _, _, he, hserved, hop⟩

end

/-- Whatever requests come and however their steps interleave: every item that
any answer shows, to whomever, was sent by an authorised POST to the
collection whose body describes the item's name and description. -/
theorem shown_items_were_posted (H : Hashes) (net : Net) (cfg : Settings) (maxEntries : Int)
    (clock : Time) (w : World) (hr : Reaches (step H net cfg) (World.init maxEntries clock) w) :
    ∀ i response v, w.answer i = some response → v ∈ response.payload.items →
      ∃ (j : Nat) (e : Exchange), w.exchanges[j]? = some e ∧ Author H cfg e.request v := by
  intro i response v hanswer hv
  have h := inv_reachable hr
  obtain ⟨j, e, op, pending, he, hserved, hop⟩ :=
    h.candidate (memory_reaches hr) (h.shown hanswer hv)
  exact ⟨j, e, he, hserved.author hop⟩

def listActions : List Action :=
  createActions 0 1 ++ [sampleArrival (sampleHttp (str "GET") itemsPath [] ⟨0, none⟩),
    .dispatch 1 (sampleReads 2)] ++
    List.replicate 3 (.advance 1) ++ [.finish 1 Memory.sampleTime]

theorem shown_items_were_posted_listed :
    ∃ w response,
    exec (step Hashes.go plainNet sampleSettings) (World.init 2 Memory.sampleTime) listActions =
      some w ∧
      w.answer 1 = some response ∧ response.payload.items = [created 1] ∧
      ∃ (j : Nat) (e : Exchange), w.exchanges[j]? = some e ∧
      Author Hashes.go sampleSettings e.request (created 1) := by
  have hrun : (exec (step Hashes.go plainNet sampleSettings) (World.init 2 Memory.sampleTime)
    listActions).bind
      (fun w => (w.answer 1).map fun response => response.payload.items) = some [created 1] := by
        decide +kernel
  obtain ⟨w, hw, hrun⟩ := Option.bind_eq_some_iff.mp hrun
  obtain ⟨response, hanswer, hitems⟩ := Option.map_eq_some_iff.mp hrun
  exact ⟨w, response, hw, hanswer, hitems, shown_items_were_posted _ _ _ _ _ w
    (exec_reaches _ hw) 1 response _ hanswer
    (by rw [hitems]; exact List.mem_singleton_self _)⟩

end GoClean.Server
