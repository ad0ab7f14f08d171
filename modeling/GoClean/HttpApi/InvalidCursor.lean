import GoClean.HttpApi.Handler
import GoClean.Postgres.Listing

/-!
# Who is to blame for an invalid cursor

The cursor branch of `Handler.List` over every service of the repository: with
a codec or none, and over either store or one without keyset reads. It answers
400 exactly where `Decode` rejects the token. A request ends wherever the
context, the clock, the store or the codec fails; none of that is the client's
fault.
-/

namespace GoClean.Memory

/-- `List` when the context is looked at again after the sort; `none` is a nil
`*Store`. -/
def listDuring (store : Option Store) (sorted ctx : Option Context) (params : ListParams) :
    Except Error (List Item) := do
  ensureContext ctx
  match store with
  | none => .error errStoreUnavailable
  | some store =>
    listParamsCheck params
    listTail sorted params store.values

def listAfterDuring (store : Option Store) (sorted ctx : Option Context)
    (params : CursorListParams) :
    Except Error (List Item) := do
  ensureContext ctx
  match store with
  | none => .error errCursorUnavailable
  | some store =>
    listAfterParamsCheck params
    listAfterTail sorted params store.values

theorem failsServerSide_listAfterDuring (store : Option Store) (sorted ctx : Option Context)
    (params : CursorListParams) :
    FailsServerSide (listAfterDuring store sorted ctx params) := by
  unfold listAfterDuring
  refine failsServerSide_bind (failsServerSide_context ctx) fun _ _ => ?_
  split
  · exact failsServerSide_error (serverSide_of_unavailable rfl)
  · refine failsServerSide_bind (failsServerSide_params params) fun _ _ => ?_
    exact failsServerSide_bind (failsServerSide_context sorted) fun _ _ => failsServerSide_ok _

end GoClean.Memory

namespace GoClean.HttpApi

open Go

-- ---------------------------------------------------------------------------
-- A request and what happens around it
-- ---------------------------------------------------------------------------

/-- The store of a service. The memory store comes with the context it sees
after the sort. -/
inductive Backend
  | offsetOnly (list : Option Context → ListParams → Except Error (List Item))
  | memory (store : Option Memory.Store) (sorted : Option Context)
  | postgres (store : Postgres.Store)

def Backend.listStore : Backend → ListStore
  | offsetOnly list => ⟨list, none⟩
  | memory store sorted =>
    ⟨Memory.listDuring store sorted, some (Memory.listAfterDuring store sorted)⟩
  | postgres store => store.listStore

/-- A `*SignedCursorCodec` that reads its clock at two times; `none` is nil. -/
def signedCodec (H : Hashes) (decodeClock encodeClock : Time) :
    Option SignedCursorCodec → CursorCodec
  | none => ⟨fun _ => .error errCursorUnavailable, fun _ => .error errCursorUnavailable⟩
  | some codec => ⟨codec.encode H encodeClock, codec.decode H decodeClock⟩

/-- A request to a `Service`: its store and codec, the readings of the codec's
clock, and the context at each stage. -/
structure Call where
  store : Option Backend
  codec : Option (Option SignedCursorCodec)
  decodeClock : Time
  encodeClock : Time
  contexts : ListStage → Option Context

def Call.service (H : Hashes) (call : Call) : Service where
  store := call.store.map Backend.listStore
  cursorCodec := call.codec.map (signedCodec H call.decodeClock call.encodeClock)

/-- What `New` was given: nothing, a service without cursors, or a
`*item.Service`. -/
inductive Injected
  | missing
  | offsetOnly (list : ListParams → Except Error Page)
  | service (call : Call)

def Injected.handler (H : Hashes) : Injected → Handler
  | missing => ⟨none⟩
  | offsetOnly list => ⟨some ⟨list, none⟩⟩
  | service call =>
    ⟨some ⟨(call.service H).list (call.contexts .entered),
      some ((call.service H).listCursorDuring call.contexts)⟩⟩

def Injected.Plain : Injected → Prop
  | service call => ∀ store db, call.store = some (.postgres store) → store.db = some db → db.Plain
  | _ => True

/-- `Decode` of the codec was reached and rejected the token. -/
inductive DecodeRejects (H : Hashes) : Injected → GoString → Prop
  | rejected (codec : SignedCursorCodec) : Live (call.contexts .entered) → call.store ≠ none →
      call.codec = some (some codec) → Rejected H codec call.decodeClock token →
      DecodeRejects H (.service call) token

-- ---------------------------------------------------------------------------
-- The service
-- ---------------------------------------------------------------------------

section
variable {H : Hashes} {call : Call} {request : CursorRequest}

theorem failsServerSide_store (hplain : (Injected.service call).Plain) :
    ∀ store ∈ (call.service H).store, ∀ listAfter ∈ store.listAfter, ∀ params,
      FailsServerSide (listAfter (call.contexts .reading) params) := by
  rintro store hstore listAfter hlistAfter params
  obtain ⟨backend, hbackend, rfl⟩ := Option.map_eq_some_iff.mp hstore
  cases backend with
  | offsetOnly list => cases hlistAfter
  | memory store sorted =>
    cases hlistAfter
    exact Memory.failsServerSide_listAfterDuring store sorted _ params
  | postgres store =>
    cases hlistAfter
    exact Postgres.failsServerSide_listAfter (fun db hdb => hplain store db hbackend hdb) _ params

theorem failsServerSide_decode (h : ¬DecodeRejects H (.service call) token)
    (hreach : ReachesCodec (call.service H) call.contexts codec) :
    FailsServerSide (codec.decode token) := by
  obtain ⟨signed, hsigned, rfl⟩ := Option.map_eq_some_iff.mp hreach.codec
  cases signed with
  | none => exact failsServerSide_error (serverSide_of_unavailable rfl)
  | some signed =>
    have hstore : call.store ≠ none := fun hnone => hreach.store (by rw [Call.service, hnone]; rfl)
    intro err herr
    rcases decode_error_cases herr with ⟨hrejected, -⟩ | ⟨-, rfl⟩
    · exact absurd (.rejected signed hreach.live hstore hsigned hrejected) h
    · exact serverSide_of_unavailable rfl

theorem listCursorDuring_rejected (hpassed : PassedOn request)
    (h : DecodeRejects H (.service call) request.cursor) :
    ∃ reason, (call.service H).listCursorDuring call.contexts request =
      .error (invalidCursor reason) := by
  cases h with
  | rejected codec hlive hstore hcodec hrejected =>
    obtain ⟨reason, hreason⟩ := hrejected.isInvalid
    have hreach : ReachesCodec (call.service H) call.contexts
        (signedCodec H call.decodeClock call.encodeClock (some codec)) := by
      refine ⟨hlive, ?_, ?_⟩
      · rwa [Call.service, ne_eq, Option.map_eq_none_iff]
      · rw [Call.service, hcodec, Option.map_some]
    exact ⟨reason, listCursorDuring_of_decode hpassed hreach hreason⟩

-- ---------------------------------------------------------------------------
-- The answer
-- ---------------------------------------------------------------------------

theorem list_rejected (hquery : parseListRequest rawQuery = some (.cursor request))
    (h : DecodeRejects H injected request.cursor) :
    (injected.handler H).list rawQuery = .error
    ⟨400, "invalid_cursor", "invalid pagination cursor", none⟩ := by
  obtain ⟨call, rfl⟩ : ∃ call, injected = .service call := by
    cases h
    exact ⟨_, rfl⟩
  obtain ⟨reason, hreason⟩ := listCursorDuring_rejected (passedOn_of_parse hquery) h
  have hblame := writeServiceError_blames (serverSide_invalidCursor reason)
  simp only [Handler.list, hquery, listByCursor, Injected.handler, Option.bind_some, hreason,
    writeCursorPage, hblame]

theorem list_not_rejected (hplain : injected.Plain)
    (hquery : parseListRequest rawQuery = some (.cursor request))
    (h : ¬DecodeRejects H injected request.cursor) :
    ((injected.handler H).list rawQuery).status ≠ 400 := by
  cases injected with
  | missing =>
    simp only [Handler.list, hquery, listByCursor, Injected.handler, Option.bind_none]
    decide
  | offsetOnly list =>
    simp only [Handler.list, hquery, listByCursor, Injected.handler, Option.bind_some]
    decide
  | service call =>
    have hside :=
      listCursorDuring_serverSide (passedOn_of_parse hquery) (failsServerSide_store hplain)
      fun codec hreach => failsServerSide_decode h hreach
    simp only [Handler.list, hquery, listByCursor, Injected.handler, Option.bind_some]
    cases hresult : (call.service H).listCursorDuring call.contexts request with
    | error err => exact writeServiceError_serverSide (hside err hresult)
    | ok page => exact show 200 ≠ 400 by decide

/-- The cursor branch answers 400, and then `invalid_cursor`, exactly where
`Decode` was reached and rejected the token. The error of a row without a
position wraps `ErrInvalidCursor` as well and is answered 503. -/
theorem invalid_cursor_iff (H : Hashes) (injected : Injected) (rawQuery : Option GoString)
    (request : CursorRequest)
    (hplain : injected.Plain) (hquery : parseListRequest rawQuery = some (.cursor request)) :
    (((injected.handler H).list rawQuery).status = 400 ↔ DecodeRejects H injected request.cursor) ∧
      (DecodeRejects H injected request.cursor → (injected.handler H).list rawQuery =
        .error ⟨400, "invalid_cursor", "invalid pagination cursor", none⟩) ∧
      ∀ value err, cursorPositionForItem value = .error err →
        err.is .invalidCursor = true ∧ (writeServiceError err).status = 503 := by
  refine ⟨⟨fun hstatus => ?_, fun h => ?_⟩, list_rejected hquery, fun value err h => ?_⟩
  · by_contra h
    exact list_not_rejected hplain hquery h hstatus
  · rw [list_rejected hquery h]
    rfl
  · simp only [cursorPositionForItem] at h
    split at h
    · next invalid hinvalid =>
      cases h
      obtain ⟨reason, rfl⟩ := CursorPosition.validate_error hinvalid
      exact ⟨rfl, rfl⟩
    · cases h

end

def refusedCall (codec : Option (Option SignedCursorCodec)) : Call where
  store := some (.postgres ⟨some ⟨fun _ _ => .error (.foreign "connection refused")⟩⟩)
  codec := codec
  decodeClock := ⟨63900000000, 5, none⟩
  encodeClock := ⟨63900000000, 6, none⟩
  contexts := fun _ => some .background

theorem refusedCall_plain (codec : Option (Option SignedCursorCodec)) :
    (Injected.service (refusedCall codec)).Plain := by
  rintro store db ⟨⟩ ⟨⟩
  refine ⟨fun h => ?_, fun h => ?_, fun h => ?_⟩
  · cases h
    rfl
  · cases h
  · cases h

/-- A token that is too short is refused by the codec, and without a codec it is
not looked at. -/
theorem invalid_cursor_iff_short :
    ((Injected.service (refusedCall (some (some sampleCodec)))).handler Hashes.go).list
    (some (str "cursor=v1_x")) =
      .error ⟨400, "invalid_cursor", "invalid pagination cursor", none⟩ ∧
    (((Injected.service (refusedCall none)).handler Hashes.go).list
      (some (str "cursor=v1_x"))).status ≠ 400 := by
  have hquery : parseListRequest (some (str "cursor=v1_x")) = some (.cursor ⟨20, str "v1_x"⟩) := by
    decide +kernel
  have hshort : ∀ wire, wire.length = cursorWireBytes →
      str "v1_x" ≠ cursorPrefix ++ Base64.encodeToString wire := by
    intro wire hlen htoken
    have hlength := congrArg List.length htoken
    rw [List.length_append, Base64.length_encodeToString, hlen] at hlength
    exact absurd hlength (by decide)
  constructor
  · exact (invalid_cursor_iff Hashes.go _ _ _ (refusedCall_plain _) hquery).2.1
      (.rejected sampleCodec rfl (by simp [refusedCall]) rfl (.malformed hshort))
  · rw [Ne, (invalid_cursor_iff Hashes.go _ _ _ (refusedCall_plain _) hquery).1]
    rintro ⟨codec, -, -, hcodec, -⟩
    cases hcodec

end GoClean.HttpApi
