import GoClean.Item.CursorRejection
import GoClean.Item.Service

/-!
# How a cursor listing fails

`ListCursor` with a context that may be cancelled between its checks. Its
errors are trees that can wrap several sentinels. `ServerSide` are those that
do not blame the client: a position of the store that is invalid wraps
`ErrInvalidCursor` too, but joined with `ErrCursorState`. Only what `Decode`
says of the token blames the client.
-/

namespace GoClean

open Go

/-- The error wraps no `ErrInvalidCursor`, or a sentinel that is tested before
it. -/
def ServerSide (err : Error) : Prop :=
  err.is .invalidCursor = true → err.is .cursorUnavailable = true ∨ err.is .cursorState = true

def FailsServerSide (result : Except Error α) : Prop := ∀ err, result = .error err → ServerSide err

-- ---------------------------------------------------------------------------
-- Errors on the server's side
-- ---------------------------------------------------------------------------

theorem serverSide_of_unavailable (h : err.is .cursorUnavailable = true) : ServerSide err :=
  fun _ => .inl h

theorem serverSide_of_state (h : err.is .cursorState = true) : ServerSide err := fun _ => .inr h

theorem serverSide_of_not_invalid (h : err.is .invalidCursor = false) : ServerSide err := by
  intro hinvalid
  rw [h] at hinvalid
  cases hinvalid

theorem serverSide_cursorState_join (err : Error) : ServerSide (.join errCursorState err) :=
  serverSide_of_state rfl

theorem serverSide_invalidCursor (reason : GoString) : ¬ServerSide (invalidCursor reason) := by
  intro h
  rcases h rfl with h | h <;> cases h

theorem failsServerSide_bind {first : Except Error α} {rest : α → Except Error β}
    (hfirst : FailsServerSide first)
    (hrest : ∀ value, first = .ok value → FailsServerSide (rest value)) :
    FailsServerSide (first >>= rest) := by
  intro err h
  rcases bind_error.mp h with h | ⟨value, hvalue, h⟩
  · exact hfirst err h
  · exact hrest value hvalue err h

theorem failsServerSide_error (h : ServerSide err) :
    FailsServerSide (.error err : Except Error α) := by
  rintro _ ⟨⟩
  exact h

theorem failsServerSide_ok (value : α) : FailsServerSide (.ok value : Except Error α) := by
  rintro _ ⟨⟩

theorem failsServerSide_ensure (h : ServerSide err) : FailsServerSide (ensure b err) := by
  intro err' herr
  obtain ⟨-, rfl⟩ := ensure_error.mp herr
  exact h

theorem failsServerSide_context (ctx : Option Context) : FailsServerSide (ensureContext ctx) := by
  intro err h
  refine serverSide_of_not_invalid ?_
  rcases ensureContext_error h with rfl | ⟨cause, rfl⟩
  · rfl
  · cases cause <;> rfl

theorem failsServerSide_mapError (result : Except Error α) :
    FailsServerSide (result.mapError (.join errCursorState)) := by
  cases result with
  | ok value => exact failsServerSide_ok value
  | error err => exact failsServerSide_error (serverSide_cursorState_join err)

theorem failsServerSide_position (value : Item) :
    FailsServerSide (cursorPositionForItem value) := by
  unfold cursorPositionForItem
  simp only
  split
  · exact failsServerSide_error (serverSide_cursorState_join _)
  · exact failsServerSide_ok _

theorem failsServerSide_nextCursor (codec : CursorCodec) (hasMore : Bool) (items : List Item) :
    FailsServerSide (codec.nextCursor hasMore items) := by
  unfold CursorCodec.nextCursor
  split
  · exact failsServerSide_bind (failsServerSide_position _) fun _ _ => failsServerSide_mapError _
  · exact failsServerSide_ok _

-- ---------------------------------------------------------------------------
-- The listing
-- ---------------------------------------------------------------------------

structure ReachesCodec (service : Service) (ctx : ListStage → Option Context)
    (codec : CursorCodec) : Prop where
  live : Live (ctx .entered)
  store : service.store ≠ none
  codec : service.cursorCodec = some codec

structure PassedOn (request : CursorRequest) : Prop where
  limit : 1 ≤ request.limit ∧ request.limit ≤ maxPageSize
  nonempty : request.cursor ≠ []
  length_le : request.cursor.length ≤ maxCursorBytes

section
variable {service : Service} {ctx : ListStage → Option Context} {codec : CursorCodec}
    {request : CursorRequest}

/-- The size bound has been tested before, and a position that the codec got
wrong is joined with `ErrCursorState`. -/
theorem failsServerSide_resume (hpassed : PassedOn request)
    (hdecode : FailsServerSide (codec.decode request.cursor)) :
    FailsServerSide (codec.resume request.cursor) := by
  simp only [CursorCodec.resume, hpassed.nonempty, if_false, hpassed.length_le, decide_true,
    ensure_true, ok_bind]
  refine failsServerSide_bind hdecode fun position _ => ?_
  exact failsServerSide_bind (failsServerSide_mapError _) fun _ _ => failsServerSide_ok _

theorem listCursorDuring_serverSide (hpassed : PassedOn request)
    (hstore : ∀ store ∈ service.store, ∀ listAfter ∈ store.listAfter, ∀ params,
      FailsServerSide (listAfter (ctx .reading) params))
    (hdecode : ∀ codec, ReachesCodec service ctx codec →
      FailsServerSide (codec.decode request.cursor)) :
    FailsServerSide (service.listCursorDuring ctx request) := by
  unfold Service.listCursorDuring
  refine failsServerSide_bind (failsServerSide_context _) fun _ hentered => ?_
  have hlive := ensureContext_ok.mp hentered
  refine failsServerSide_bind (failsServerSide_ensure (serverSide_of_not_invalid rfl)) fun _ _ => ?_
  split
  · next store codec hservice hcodec =>
    have hreach : ReachesCodec service ctx codec := ⟨hlive, by simp [hservice], hcodec⟩
    refine failsServerSide_bind (failsServerSide_resume hpassed (hdecode codec hreach))
      fun after _ => ?_
    split
    · exact failsServerSide_error (serverSide_of_unavailable rfl)
    · next listAfter hcapable =>
      refine failsServerSide_bind (hstore store hservice listAfter hcapable _) fun rows _ => ?_
      refine failsServerSide_bind (failsServerSide_context _) fun _ _ => ?_
      refine failsServerSide_bind (failsServerSide_ensure (serverSide_of_state rfl)) fun _ _ => ?_
      refine failsServerSide_bind (failsServerSide_nextCursor codec _ _) fun _ _ => ?_
      exact failsServerSide_bind (failsServerSide_context _) fun _ _ => failsServerSide_ok _
  · exact failsServerSide_error (serverSide_of_unavailable rfl)

theorem listCursorDuring_of_decode (hpassed : PassedOn request)
    (hreach : ReachesCodec service ctx codec) (hdecode : codec.decode request.cursor = .error err) :
    service.listCursorDuring ctx request = .error err := by
  obtain ⟨store, hstore⟩ := Option.ne_none_iff_exists'.mp hreach.store
  have hentered : ensureContext (ctx .entered) = .ok () := ensureContext_ok.mpr hreach.live
  have hne : request.limit ≠ 0 := by
    have := hpassed.limit.1
    omega
  have hrange : 0 ≤ request.limit ∧ request.limit ≤ maxPageSize :=
    ⟨(Int.zero_le_ofNat 1).trans hpassed.limit.1, hpassed.limit.2⟩
  have hresume : codec.resume request.cursor = .error err := by
    simp only [CursorCodec.resume, hpassed.nonempty, if_false, hpassed.length_le, decide_true,
      ensure_true, ok_bind, hdecode, error_bind]
  simp only [Service.listCursorDuring, hentered, hne, if_false, hrange, and_self, decide_true,
    ensure_true, ok_bind, hstore, hreach.codec, hresume, error_bind]

end

end GoClean
