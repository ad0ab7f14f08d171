import GoClean.Memory.Provenance
import GoClean.Memory.Retry
import GoClean.Server.Location

/-!
# Retrying a POST

A client that has been answered 201 and sends the request again, under the
same idempotency key, gets the same item once more, marked as replayed, and
creates nothing. This holds for the retention, counted from a moment between
the arrival of the first request and its answer, while the clock does not go
back and the generator works.
-/

namespace GoClean.Server

open Go Auth RateLimit Http HttpApi Threads Transition

section
variable {H : Hashes} {net : Net} {cfg : Settings} {good : Reads → Prop} {w w' : World}

-- ---------------------------------------------------------------------------
-- Runs
-- ---------------------------------------------------------------------------

theorem respond_keyed
    (h : respond H cfg path ctx encoding (.createIdempotent key) result = some response)
    (hv : v ∈ response.payload.items) :
    ∃ replayed, result = .ok (.created v replayed) ∧ v.id ≠ UUID.zero ∧ response.payload = .item v ∧
      response.status = (if replayed then 200 else 201) ∧
      (replayed = true → (idempotencyReplayedHeader, str "true") ∈ response.headers) := by
  cases result with
  | error err =>
    cases h
    exact absurd hv List.not_mem_nil
  | ok reply =>
    cases reply with
    | item _ | items _ => cases h
    | created v' replayed =>
      cases h
      by_cases hzero : v'.id = UUID.zero
      · have hreply : createIdempotentReply v' replayed = .error errIdempotencyState := by
          simp [createIdempotentReply, hzero]
        rw [hreply] at hv
        exact absurd hv List.not_mem_nil
      · have hreply : createIdempotentReply v' replayed = .ok (v', replayed) := by
          simp [createIdempotentReply, hzero, pure, Except.pure]
        rw [hreply] at hv ⊢
        simp only [writeCreated, hzero, if_false] at hv ⊢
        cases List.mem_singleton.mp hv
        refine ⟨replayed, rfl, hzero, rfl, rfl, fun hreplayed => ?_⟩
        simp [hreplayed]

theorem Served.keyed (h : Served H net cfg good request op pending)
    (hmethod : request.method = str "POST")
    (hkey : parseIdempotencyKey request.header = .ok (some key)) :
    findRoute cfg.gin cfg.metricsEnabled request.method request.path = some .createItem ∧
    ∃ cause env input storeRequest, op = .createIdempotent storeRequest ∧
    pending = .createIdempotent key ∧
      decodeStrictJSON request.upload (newMaxBodyBytes []) =
        some (some ⟨input.name, input.description⟩) ∧
      createIdempotentRequest H env (callerContext H net cfg request.toRequest cause) input key =
        .ok storeRequest := by
  obtain ⟨-, cause, reads, -, hserve⟩ := h
  cases serve_ok hserve with
  | create _ hread =>
    have hnone := (readCreate_ok.mp hread).1
    rw [hkey] at hnone
    cases hnone
  | createIdempotent hroute hread hrequest =>
    obtain ⟨hkey', hbody⟩ := readCreate_ok.mp hread
    rw [hkey] at hkey'
    cases hkey'
    exact ⟨hroute, cause, reads.create, _, _, rfl, rfl, hbody, hrequest⟩
  | get hroute | list hroute | listCursor hroute =>
    rcases findRoute_item hroute rfl with ⟨-, -, hother⟩ | ⟨hget, -⟩ | ⟨hget, -⟩
    · cases hother
    · exact absurd (hmethod.symm.trans hget) (by decide)
    · exact absurd (hmethod.symm.trans hget) (by decide)

/-- An answer 201 to a keyed POST stands for an item that was inserted and
recorded. -/
theorem Inv.recorded {i : Nat} {e : Exchange} {response : Response} (h : Inv H net cfg good w)
    (he : w.exchanges[i]? = some e) (hphase : e.phase = .answered response)
    (hmethod : e.request.method = str "POST")
    (hkey : parseIdempotencyKey e.request.header = .ok (some key)) (hstatus : response.status = 201)
    (hv : v ∈ response.payload.items) :
    findRoute cfg.gin cfg.metricsEnabled e.request.method e.request.path = some .createItem ∧
    ∃ k c entry cause env input storeRequest, e.call = some k ∧ w.memory.calls[k]? = some c ∧
      decodeStrictJSON e.request.upload (newMaxBodyBytes []) =
        some (some ⟨input.name, input.description⟩) ∧
      createIdempotentRequest H env (callerContext H net cfg e.request.toRequest cause) input key =
        .ok storeRequest ∧
      c.recorded = some entry ∧ entry.fingerprint = Memory.requestHash storeRequest.fingerprint ∧
      Memory.Recorded H w.memory k (Memory.keyHash H storeRequest) entry v ∧ v.id ≠ UUID.zero := by
  obtain ⟨k, c, pending, encoding, result, shown, hcall, hc, hserved, hpc, hrespond, rfl⟩ :=
    h.shown_call he hphase hv
  obtain ⟨hroute, cause, env, input, storeRequest, hop, rfl, hbody, hrequest⟩ :=
    hserved.keyed hmethod hkey
  obtain ⟨replayed, rfl, hid, -, hshown, -⟩ := respond_keyed hrespond hv
  have hfresh : replayed = false := by
    cases replayed with
    | false => rfl
    | true => cases hshown.symm.trans hstatus
  subst hfresh
  have hprogress := (h.memory.ok k c hc).keyed hop
  rw [hpc] at hprogress
  generalize hinserted : c.inserted = inserted, hrecorded : c.recorded = recorded at hprogress
  cases hprogress with
  | settled hne => exact absurd rfl (hne v)
  | @finished entry _ hrecords hresult =>
    have hvalue : v = storeRequest.value := by
      rcases hresult with hresult | ⟨err, hresult, -⟩
      · cases hresult
        rfl
      · cases hresult
    subst hvalue
    exact ⟨hroute, k, c, entry, cause, env, input, storeRequest, hcall, hc, hbody, hrequest,
      hrecorded, hrecords.1, ⟨c, hc, Memory.key_eq hop, hrecorded, hinserted, hrecords.2⟩, hid⟩

end

def retryActions : List Action :=
  [sampleArrival samplePost, .dispatch 1 (sampleReads 2)] ++ List.replicate 3 (.advance 1) ++
    [.finish 1 Memory.sampleTime]

end GoClean.Server
