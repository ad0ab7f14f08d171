import GoClean.Server.Provenance

/-!
# Reading what was created

The answer to a POST that created or replayed an item names the item's
location. Whoever asks there afterwards gets the item.
-/

namespace GoClean.Server

open Go Auth RateLimit Http HttpApi Threads Transition

section
variable {H : Hashes} {net : Net} {cfg : Settings} {good : Reads → Prop} {w w' : World}

-- ---------------------------------------------------------------------------
-- The answer to a POST
-- ---------------------------------------------------------------------------

theorem writeCreated_shown (h : v ∈ (writeCreated path key result).payload.items) :
    v.id ≠ UUID.zero ∧ (writeCreated path key result).payload = .item v ∧
      (str "Location", resourceLocation path v.id) ∈ (writeCreated path key result).headers := by
  obtain ⟨replayed, rfl⟩ := writeCreated_items h
  unfold writeCreated at h ⊢
  dsimp only at h ⊢
  split_ifs at h ⊢ with hzero
  · exact absurd h List.not_mem_nil
  all_goals exact ⟨hzero, rfl, List.mem_append_right _ List.mem_cons_self⟩

theorem respond_create (h : respond H cfg path ctx encoding .create result = some response) :
    ∃ created, response = writeCreated path none created := by
  cases result with
  | error err =>
    cases h
    exact ⟨_, rfl⟩
  | ok reply =>
    cases reply <;> cases h
    exact ⟨_, rfl⟩

theorem respond_createIdempotent
    (h : respond H cfg path ctx encoding (.createIdempotent key) result = some response) :
    ∃ created, response = writeCreated path (some key) created := by
  cases result with
  | error err =>
    cases h
    exact ⟨_, rfl⟩
  | ok reply =>
    cases reply <;> cases h
    exact ⟨_, rfl⟩

theorem respond_post (hserves : Serves H cfg request ctx reads op pending)
    (hmethod : request.method = str "POST")
    (h : respond H cfg path ctx' encoding pending result = some response) :
    request.path = itemsPath ∧ ∃ key created, response = writeCreated path key created := by
  have hpath {route : Route} (hroute : findRoute cfg.gin cfg.metricsEnabled request.method
    request.path = some route)
      (hitem : route.isItem = true) : request.path = itemsPath ∧ route = .createItem := by
    rcases findRoute_item hroute hitem with ⟨-, hpath, hcreate⟩ | ⟨hget, -⟩ | ⟨hget, -⟩
    · exact ⟨hpath, hcreate⟩
    · exact absurd (hmethod.symm.trans hget) (by decide)
    · exact absurd (hmethod.symm.trans hget) (by decide)
  cases hserves with
  | create hroute => exact ⟨(hpath hroute rfl).1, _, respond_create h⟩
  | createIdempotent hroute => exact ⟨(hpath hroute rfl).1, _, respond_createIdempotent h⟩
  | get hroute | list hroute | listCursor hroute => cases (hpath hroute rfl).2

/-- A POST that is answered with an item was sent to the collection, and the
answer names the item's location. -/
theorem Inv.posted {i : Nat} {e : Exchange} {response : Response} (h : Inv H net cfg good w)
    (he : w.exchanges[i]? = some e) (hphase : e.phase = .answered response)
    (hmethod : e.request.method = str "POST") (hv : v ∈ response.payload.items) :
    v.id ≠ UUID.zero ∧ response.payload = .item v ∧
      (str "Location", resourceLocation itemsPath v.id) ∈ response.headers := by
  obtain ⟨_, _, _, _, _, _, -, -, hserved, -, hrespond, rfl⟩ := h.shown_call he hphase hv
  obtain ⟨-, cause, reads, -, hserve⟩ := hserved
  obtain ⟨hpath, key, created, rfl⟩ := respond_post (serve_ok hserve) hmethod hrespond
  obtain ⟨hid, hitem, hlocation⟩ := writeCreated_shown hv
  exact ⟨hid, hitem, List.mem_append_right _ (hpath ▸ hlocation)⟩

-- ---------------------------------------------------------------------------
-- Later requests
-- ---------------------------------------------------------------------------

theorem writeServiceError_cancellation (h : IsCancellation err) :
    writeServiceError err = ⟨500, "internal_error", "internal server error", none⟩ := by
  obtain ⟨cause, rfl⟩ := h
  cases cause <;> rfl

theorem Served.get {id : UUID} (h : Served H net cfg good request op pending)
    (hroute : findRoute cfg.gin cfg.metricsEnabled request.method request.path =
      some (.getItem param))
    (hread : readID cfg.uuids param = .ok id) : op = .get id ∧ pending = .get := by
  obtain ⟨-, cause, reads, -, hserve⟩ := h
  cases serve_ok hserve with
  | create hroute' | createIdempotent hroute' | list hroute' | listCursor hroute' =>
    rw [hroute] at hroute'
    cases hroute'
  | get hroute' hread' =>
    rw [hroute] at hroute'
    cases hroute'
    cases hread.symm.trans hread'
    exact ⟨rfl, rfl⟩

/-- An exchange that was not served: the security middleware refused it, or its
context was done when it was answered. -/
inductive Unserved (e : Exchange) (response : Response) : Prop
  | refused : e.refusal = some err →
      response = ⟨err.status, e.headers, .error err.code err.message⟩ → Unserved e response
  | cancelled : ¬Live e.ctx →
      response = { internalServerError with headers := e.headers } → Unserved e response

theorem unserved_of_context {e : Exchange} (h : contextError e.ctx = some err) (hctx : e.ctx ≠ none)
    (hresponse : response = (writeServiceError err).response) :
    Unserved e { response with headers := e.headers ++ response.headers } := by
  refine .cancelled (fun hlive => ?_) ?_
  · cases h.symm.trans hlive
  · rw [hresponse, writeServiceError_cancellation (isCancellation_of h hctx)]
    simp [ErrorResponse.response, internalServerError, writeError]

theorem Inv.read {j : Nat} {e : Exchange} {response : Response} {id : UUID}
    (h : Inv H net cfg good w) (he : w.exchanges[j]? = some e)
    (hphase : e.phase = .answered response)
    (hroute : findRoute cfg.gin cfg.metricsEnabled e.request.method e.request.path =
      some (.getItem param))
    (hread : readID cfg.uuids param = .ok id) (hl : w.memory.store.items.lookup id = some v)
    (hfound : ∀ k c text, e.call = some k → w.memory.calls[k]? = some c → c.op = .get id →
      c.pc ≠ .returned (.error (.wrap [] errNotFound text))) :
    response.status = 200 ∧ response.payload = .item v ∨ Unserved e response := by
  have hid := (readID_ok.mp hread).2
  cases h.exchanges j e he with
  | admitted hphase' | waiting hphase' => cases hphase.symm.trans hphase'
  | aborted hphase' _ hrefusal =>
    cases hphase.symm.trans hphase'
    exact .inr (.refused hrefusal rfl)
  | refused hphase' _ _ hctx _ hserve =>
    cases hphase.symm.trans hphase'
    simp only [serve, hroute, serveGet, hread, ok_bind] at hserve
    rcases bind_error.mp hserve with hget | ⟨_, -, hpure⟩
    · obtain ⟨err, herr, rfl⟩ := mapError_error hget
      rcases bind_error.mp herr with herr | ⟨_, -, herr⟩
      · exact .inr (unserved_of_context (contextError_of_ensure herr)
          (hctx (versioned_of_item hroute rfl)) rfl)
      · simp [hid, pure, Except.pure] at herr
    · cases hpure
  | answered hphase' hcall _ hc hctx hserved hpc hresponse =>
    cases hphase.symm.trans hphase'
    obtain ⟨hop, rfl⟩ := hserved.get hroute hread
    have hresult := (h.answers _ _ hc).returned _ hpc
    have hfound text := hfound _ _ text hcall hc hop
    rw [hpc] at hfound
    rw [hop] at hresult
    cases hresult with
    | found hl' =>
      cases hl.symm.trans hl'
      cases hresponse
      exact .inl ⟨rfl, rfl⟩
    | failed hfails =>
      cases hresponse
      cases hfails with
      | context herr =>
        exact .inr (unserved_of_context (hctx ▸ herr) (hctx ▸ h.contexts _ _ hc) rfl)
      | refused hcheck =>
        simp [Memory.Op.entryCheck, ensureContext, contextError, Context.background, hid] at hcheck
      | missing => exact absurd rfl (hfound _)

end

end GoClean.Server
