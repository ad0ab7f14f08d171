import GoClean.Item.CursorLaws

/-!
# Rejected tokens

`Decode` blames the client for a token in four cases, which `Rejected` states
in terms of the layout of tokens and not of the checks: it is no spelling, its
MAC is not the codec's, what the MAC covers is no position, or its time has
come. The only other failure is a clock that reads the zero time.
-/

namespace GoClean

open Go

/-- What the MAC covers is the position of an item, with an expiry or none. -/
structure Readable (payload : List UInt8) (position : CursorPosition) (expiresAt : Time) :
    Prop where
  layout : ∃ expiry, expiry.length = cursorTimeBytes ∧
    payload = payloadOf position.createdAt expiry position.id ∧
    readOptionalTime expiry = some expiresAt
  utc : position.createdAt = position.createdAt.utc
  valid : position.validate = .ok ()

/-- The tokens that are the client's fault when the clock reads `clock`. -/
inductive Rejected (H : Hashes) (codec : SignedCursorCodec) (clock : Time) (token : GoString) : Prop
  | malformed :
      (∀ wire, wire.length = cursorWireBytes → token ≠ cursorPrefix ++ Base64.encodeToString wire) →
      Rejected H codec clock token
  | forged : wire.length = cursorWireBytes → token = cursorPrefix ++ Base64.encodeToString wire →
      wire.drop cursorPayloadBytes ≠ (codec.mac H (wire.take cursorPayloadBytes)).toList →
      Rejected H codec clock token
  | unreadable : payload.length = cursorPayloadBytes → token = codec.seal H payload →
      (∀ position expiresAt, ¬Readable payload position expiresAt) → Rejected H codec clock token
  | expired : payload.length = cursorPayloadBytes → token = codec.seal H payload →
      Readable payload position expiresAt → expiresAt.isZero = false → clock.isZero = false →
      clock.before expiresAt = false → Rejected H codec clock token

def IsInvalid (result : Except Error α) : Prop := ∃ reason, result = .error (invalidCursor reason)

-- ---------------------------------------------------------------------------
-- The errors of the parts
-- ---------------------------------------------------------------------------

theorem isInvalid_ensure (h : ensure b (invalidCursor reason) = .error err) :
    ∃ reason, err = invalidCursor reason :=
  ⟨reason, (ensure_error.mp h).2.symm⟩

theorem orInvalid_error (h : orInvalid reason found = .error err) :
    ∃ reason, err = invalidCursor reason := by
  cases found with
  | none => exact ⟨reason, (Except.error.inj h).symm⟩
  | some a => cases h

theorem CursorPosition.validate_error {position : CursorPosition}
    (h : position.validate = .error err) :
    ∃ reason, err = invalidCursor reason := by
  simp only [CursorPosition.validate, bind_error] at h
  rcases h with h | ⟨_, -, h | ⟨_, -, h⟩⟩ <;> exact isInvalid_ensure h

theorem decodeWire_error (h : decodeWire token = .error err) :
    ∃ reason, err = invalidCursor reason := by
  simp only [decodeWire, bind_error] at h
  rcases h with h | ⟨_, -, h | ⟨_, -, h | ⟨_, -, h | ⟨_, -, h | ⟨_, -, h⟩⟩⟩⟩⟩
  · exact isInvalid_ensure h
  · exact isInvalid_ensure h
  · exact orInvalid_error h
  · exact isInvalid_ensure h
  · exact isInvalid_ensure h
  · cases h

-- ---------------------------------------------------------------------------
-- Decode
-- ---------------------------------------------------------------------------

section
variable {H : Hashes} {codec : SignedCursorCodec} {clock : Time}

theorem decode_malformed
    (h : ∀ wire, wire.length = cursorWireBytes →
      token ≠ cursorPrefix ++ Base64.encodeToString wire) :
    IsInvalid (codec.decode H clock token) := by
  cases hwire : decodeWire token with
  | ok wire =>
    obtain ⟨htoken, hlen⟩ := decodeWire_ok hwire
    exact absurd htoken (h wire hlen)
  | error err =>
    obtain ⟨reason, rfl⟩ := decodeWire_error hwire
    exact ⟨reason, by rw [SignedCursorCodec.decode, hwire, error_bind]⟩

theorem decode_forged (hlen : wire.length = cursorWireBytes)
    (h : wire.drop cursorPayloadBytes ≠ (codec.mac H (wire.take cursorPayloadBytes)).toList) :
    IsInvalid (codec.decode H clock (cursorPrefix ++ Base64.encodeToString wire)) := by
  refine ⟨str "authentication failed", ?_⟩
  simp only [SignedCursorCodec.decode, decodeWire_spelled hlen, ok_bind, h, decide_false,
    ensure_false, error_bind]

theorem decode_readable (h : Readable payload position expiresAt) :
    codec.decode H clock (codec.seal H payload) =
      (do checkExpiry clock expiresAt; pure position) := by
  obtain ⟨⟨expiry, hlen, rfl, hexpires⟩, hutc, hvalid⟩ := h
  have hposition : (⟨position.createdAt.utc, position.id⟩ : CursorPosition) = position := by
    rw [← hutc]
  rw [decode_sealed hlen, hexpires, hposition, hvalid]
  rfl

/-- The checks between the MAC and the clock: one of them fails, or the payload
is readable. -/
theorem decode_payload (H : Hashes) (codec : SignedCursorCodec) (clock : Time)
    (hlen : payload.length = cursorPayloadBytes) :
    IsInvalid (codec.decode H clock (codec.seal H payload)) ∨ ∃ position expiresAt,
    Readable payload position expiresAt := by
  have htake : (payload ++ (codec.mac H payload).toList).take cursorPayloadBytes = payload :=
    List.take_left' hlen
  have hdrop : (payload ++ (codec.mac H payload).toList).drop cursorPayloadBytes =
      (codec.mac H payload).toList :=
    List.drop_left' hlen
  simp only [SignedCursorCodec.decode, decodeWire_seal codec hlen, ok_bind, htake, hdrop,
    decide_true, ensure_true]
  cases hversion : payload.headD 0 == cursorVersion with
  | false => exact .inl ⟨_, rfl⟩
  | true =>
    cases hcreated : readTime ((payload.drop 1).take cursorTimeBytes) with
    | none => exact .inl ⟨_, rfl⟩
    | some createdAt =>
      cases hexpires :
        readOptionalTime ((payload.drop (1 + cursorTimeBytes)).take cursorTimeBytes) with
      | none => exact .inl ⟨_, rfl⟩
      | some expiresAt =>
        cases hvalid : CursorPosition.validate ⟨createdAt,
          uuidCopy (payload.drop (1 + 2 * cursorTimeBytes))⟩ with
        | error err =>
          obtain ⟨reason, rfl⟩ := CursorPosition.validate_error hvalid
          exact .inl ⟨reason, by simp only [ensure_true, orInvalid, ok_bind, hvalid, error_bind]⟩
        | ok _ =>
          have hlayout := payload_layout hlen hversion hcreated
          have hexpiry : ((payload.drop (1 + cursorTimeBytes)).take cursorTimeBytes).length =
              cursorTimeBytes := by
            simp [hlen, cursorPayloadBytes, cursorTimeBytes]
          exact .inr ⟨⟨createdAt, uuidCopy (payload.drop (1 + 2 * cursorTimeBytes))⟩, expiresAt,
            ⟨_, hexpiry, hlayout.symm, hexpires⟩, (readTime_some hcreated).2, hvalid⟩

theorem checkExpiry_error (h : checkExpiry clock expiresAt = .error err) :
    err = errCursorClock ∧ clock.isZero = true ∨
    (∃ reason, err = invalidCursor reason) ∧
      expiresAt.isZero = false ∧ clock.isZero = false ∧ clock.before expiresAt = false := by
  cases hexpires : expiresAt.isZero with
  | true => simp [checkExpiry, hexpires] at h
  | false =>
    cases hclock : clock.isZero with
    | true =>
      simp only [checkExpiry, hexpires, Bool.false_eq_true, if_false, Time.isZero_utc, hclock,
        Bool.not_true, ensure_false, error_bind] at h
      exact .inl ⟨(Except.error.inj h).symm, rfl⟩
    | false =>
      rw [checkExpiry_eq hclock hexpires] at h
      split_ifs at h with hbefore
      exact .inr ⟨⟨_, (Except.error.inj h).symm⟩, rfl, rfl, Bool.eq_false_iff.mpr hbefore⟩

theorem Rejected.isInvalid (h : Rejected H codec clock token) :
    IsInvalid (codec.decode H clock token) := by
  cases h with
  | malformed h => exact decode_malformed h
  | forged hlen htoken hmac => exact htoken ▸ decode_forged hlen hmac
  | unreadable hlen htoken h =>
    rcases decode_payload H codec clock hlen with hinvalid | ⟨position, expiresAt, hread⟩
    · exact htoken ▸ hinvalid
    · exact absurd hread (h position expiresAt)
  | expired hlen htoken hread hexpires hclock hbefore =>
    refine ⟨str "expired token", ?_⟩
    rw [htoken, decode_readable hread, checkExpiry_eq hclock hexpires,
      if_neg (Bool.eq_false_iff.mp hbefore), error_bind]

theorem rejected_or_readable (H : Hashes) (codec : SignedCursorCodec) (clock : Time)
    (token : GoString) :
    Rejected H codec clock token ∨ ∃ payload position expiresAt,
    payload.length = cursorPayloadBytes ∧
      token = codec.seal H payload ∧ Readable payload position expiresAt := by
  by_cases hspelled : ∃ wire, wire.length = cursorWireBytes ∧
    token = cursorPrefix ++ Base64.encodeToString wire
  · obtain ⟨wire, hlen, htoken⟩ := hspelled
    by_cases hmac : wire.drop cursorPayloadBytes =
      (codec.mac H (wire.take cursorPayloadBytes)).toList
    · have hpayload : (wire.take cursorPayloadBytes).length = cursorPayloadBytes := by
        simp [hlen, cursorWireBytes]
      have hseal : token = codec.seal H (wire.take cursorPayloadBytes) := by
        rw [SignedCursorCodec.seal, ← hmac, List.take_append_drop, htoken]
      by_cases hread : ∃ position expiresAt,
        Readable (wire.take cursorPayloadBytes) position expiresAt
      · obtain ⟨position, expiresAt, hread⟩ := hread
        exact .inr ⟨_, position, expiresAt, hpayload, hseal, hread⟩
      · exact .inl (.unreadable hpayload hseal fun position expiresAt h =>
          hread ⟨position, expiresAt, h⟩)
    · exact .inl (.forged hlen htoken hmac)
  · exact .inl (.malformed fun wire hlen htoken => hspelled ⟨wire, hlen, htoken⟩)

/-- `Decode` fails by the clock or with a `CursorError`, and with that exactly
for the rejected tokens. -/
theorem decode_error_cases (h : codec.decode H clock token = .error err) :
    Rejected H codec clock token ∧ (∃ reason, err = invalidCursor reason) ∨
      ¬Rejected H codec clock token ∧ err = errCursorClock := by
  have hinvalid : Rejected H codec clock token → ∃ reason, err = invalidCursor reason := by
    intro hrejected
    obtain ⟨reason, hreason⟩ := hrejected.isInvalid
    exact ⟨reason, Except.error.inj (h.symm.trans hreason)⟩
  by_cases hrejected : Rejected H codec clock token
  · exact .inl ⟨hrejected, hinvalid hrejected⟩
  · obtain ⟨payload, position, expiresAt, hlen, htoken, hread⟩ :=
      (rejected_or_readable H codec clock token).resolve_left hrejected
    rw [htoken, decode_readable hread] at h
    have hexpiry : checkExpiry clock expiresAt = .error err := by
      rcases bind_error.mp h with h | ⟨_, -, h⟩
      · exact h
      · cases h
    rcases checkExpiry_error hexpiry with ⟨rfl, -⟩ | ⟨-, hexpires, hclock, hbefore⟩
    · exact .inr ⟨hrejected, rfl⟩
    · exact absurd (.expired hlen htoken hread hexpires hclock hbefore) hrejected

end

end GoClean
