import GoClean.Item.Cursor

/-!
# Tokens decode to what was encoded, and have one spelling

A token is `seal` of a payload, and a payload is laid out from a position
and an expiry field (`payloadOf`). `encode_ok` and `decode_ok` say that
both directions of the codec speak about exactly such tokens;
`decode_sealed` evaluates `Decode` on one. The round trip with expiry and
the uniqueness of accepted spellings follow from these three.
-/

namespace GoClean

open Go

def payloadOf (createdAt : Time) (expiry : List UInt8) (id : UUID) : List UInt8 :=
  cursorVersion :: (createdAt.wire ++ (expiry ++ id.toList))

def SignedCursorCodec.seal (H : Hashes) (codec : SignedCursorCodec) (payload : List UInt8) :
    GoString :=
  cursorPrefix ++ Base64.encodeToString (payload ++ (codec.mac H payload).toList)

-- ---------------------------------------------------------------------------
-- Fields
-- ---------------------------------------------------------------------------

section
variable {createdAt : Time} {expiry : List UInt8} {id : UUID}

theorem length_payloadOf (h : expiry.length = cursorTimeBytes) :
    (payloadOf createdAt expiry id).length = cursorPayloadBytes := by
  simp [payloadOf, h, cursorPayloadBytes, cursorTimeBytes]

theorem payloadOf_createdAt :
    ((payloadOf createdAt expiry id).drop 1).take cursorTimeBytes = createdAt.wire := by
  rw [payloadOf, List.drop_succ_cons, List.drop_zero]
  exact List.take_left' (by rw [Time.length_wire, cursorTimeBytes])

theorem payloadOf_rest :
    (payloadOf createdAt expiry id).drop (1 + cursorTimeBytes) = expiry ++ id.toList := by
  rw [payloadOf, Nat.add_comm, List.drop_succ_cons]
  exact List.drop_left' (by rw [Time.length_wire, cursorTimeBytes])

theorem payloadOf_expiry (h : expiry.length = cursorTimeBytes) :
    ((payloadOf createdAt expiry id).drop (1 + cursorTimeBytes)).take cursorTimeBytes = expiry := by
  rw [payloadOf_rest]
  exact List.take_left' h

theorem payloadOf_id (h : expiry.length = cursorTimeBytes) :
    (payloadOf createdAt expiry id).drop (1 + 2 * cursorTimeBytes) = id.toList := by
  have hsplit : 1 + 2 * cursorTimeBytes = 1 + cursorTimeBytes + cursorTimeBytes := by omega
  rw [hsplit, ← List.drop_drop, payloadOf_rest]
  exact List.drop_left' h

end

theorem uuidCopy_toList (id : UUID) : uuidCopy id.toList = id := by
  apply List.Vector.toList_injective
  show (id.toList ++ List.replicate 16 0).take 16 = id.toList
  exact List.take_left' id.toList_length

theorem putTime_eq (t : Time) : putTime t = .ok t.wire := by
  rw [putTime, Time.marshalBinary_utc]
  simp [cursorTimeBytes]

theorem readTime_wire (t : Time) : readTime t.wire = some t.utc := by
  have hm : t.utc.utc.marshalBinary = some t.wire := Time.marshalBinary_utc t
  simp [readTime, Time.unmarshalBinary_wire, hm, cursorTimeBytes]
  rfl

theorem readTime_some (h : readTime source = some t) : source = t.wire ∧ t = t.utc := by
  simp only [readTime, Option.bind_eq_bind] at h
  split at h
  · cases h
  · obtain ⟨value, -, h⟩ := Option.bind_eq_some_iff.mp h
    rw [Time.marshalBinary_utc, Option.bind_some] at h
    split at h
    · next hc =>
      cases h
      exact ⟨hc.2.symm, rfl⟩
    · cases h

theorem readOptionalTime_zeros :
    readOptionalTime (List.replicate cursorTimeBytes 0) = some Time.zero := by
  simp [readOptionalTime]

theorem readOptionalTime_wire (t : Time) : readOptionalTime t.wire = some t.utc := by
  have hne : t.wire ≠ List.replicate cursorTimeBytes 0 := by
    intro h
    have hhead := congrArg List.head? h
    simp [Time.wire, cursorTimeBytes] at hhead
  rw [readOptionalTime, if_neg (by simp [cursorTimeBytes]), if_neg hne, readTime_wire]

-- ---------------------------------------------------------------------------
-- The two directions
-- ---------------------------------------------------------------------------

section
variable {H : Hashes} {codec : SignedCursorCodec} {id : UUID}

theorem length_seal (codec : SignedCursorCodec) (h : payload.length = cursorPayloadBytes) :
    (codec.seal H payload).length = 109 := by
  simp only [SignedCursorCodec.seal, List.length_append, Base64.length_encodeToString, h,
    List.Vector.toList_length]
  decide

/-- A successful `Encode` seals the position with an expiry field: zeros
without a TTL, otherwise the time the TTL ends, which is after the clock. -/
theorem encode_ok (h : codec.encode H clock position = .ok token) :
    position.validate = .ok () ∧ clock.isZero = false ∧ ∃ expiry,
      token = codec.seal H (payloadOf position.createdAt expiry position.id) ∧
      ((¬ 0 < codec.ttl ∧ expiry = List.replicate cursorTimeBytes 0) ∨
        (0 < codec.ttl ∧ expiry = (clock.utc.add codec.ttl).wire ∧
          clock.instant < (clock.utc.add codec.ttl).instant)) := by
  simp only [SignedCursorCodec.encode, bind_ok, ensure_ok, pure_ok, putTime_eq] at h
  obtain ⟨_, hval, _, hclock, createdAt, hcreated, expiry, hexpiry, _, -, rfl⟩ := h
  have hcreated : position.createdAt.wire = createdAt := Except.ok.inj hcreated
  refine ⟨hval, by simpa using hclock, expiry, ?_, ?_⟩
  · rw [← hcreated, SignedCursorCodec.seal, payloadOf]
  · unfold SignedCursorCodec.expiryField at hexpiry
    split at hexpiry
    · next hpos =>
      simp only [bind_ok, ensure_ok, putTime_eq] at hexpiry
      obtain ⟨_, hafter, _, -, hput⟩ := hexpiry
      have hput : (clock.utc.add codec.ttl).wire = expiry := Except.ok.inj hput
      exact .inr ⟨hpos, hput.symm, by simpa using Time.after_iff.mp hafter⟩
    · next hpos => exact .inl ⟨hpos, (Except.ok.inj hexpiry).symm⟩

theorem encode_eq {position : CursorPosition} {clock : Time} (hvalid : position.validate = .ok ())
    (hclock : clock.isZero = false) (hexpiry : codec.expiryField clock.utc position = .ok expiry)
    (hlen : expiry.length = cursorTimeBytes) :
    codec.encode H clock position =
      .ok (codec.seal H (payloadOf position.createdAt expiry position.id)) := by
  have hpayload : (payloadOf position.createdAt expiry position.id).length = cursorPayloadBytes :=
    length_payloadOf hlen
  have htoken := length_seal (H := H) codec hpayload
  simp only [SignedCursorCodec.encode, hvalid, ok_bind, hclock, Time.isZero_utc, Bool.not_false,
    ensure_true, putTime_eq, Except.mapError, hexpiry]
  simp only [SignedCursorCodec.seal, payloadOf] at htoken ⊢
  rw [htoken]
  rfl

/-- With a TTL, `Encode` succeeds whenever the token outlives both the
clock reading and the position. -/
theorem encode_eq_ok {position : CursorPosition} {clock : Time}
    (hvalid : position.validate = .ok ()) (hclock : clock.isZero = false) (httl : 0 < codec.ttl)
    (hafter : (clock.utc.add codec.ttl).after clock = true)
    (hposition : (clock.utc.add codec.ttl).after position.createdAt = true) :
    codec.encode H clock position = .ok (codec.seal H
      (payloadOf position.createdAt (clock.utc.add codec.ttl).wire position.id)) := by
  have hafter' : (clock.utc.add codec.ttl).after clock.utc = true := hafter
  refine encode_eq hvalid hclock ?_ (Time.length_wire _)
  simp only [SignedCursorCodec.expiryField, httl, if_true, hafter', hposition, ensure_true,
    ok_bind, putTime_eq]
  rfl

theorem decodeWire_spelled (h : wire.length = cursorWireBytes) :
    decodeWire (cursorPrefix ++ Base64.encodeToString wire) = .ok wire := by
  have hlen : (Base64.encodeToString wire).length = 106 := by
    rw [Base64.length_encodeToString, h]
    rfl
  have hpre : hasPrefix (cursorPrefix ++ Base64.encodeToString wire) cursorPrefix = true :=
    hasPrefix_iff.mpr ⟨_, rfl⟩
  have hne : Base64.encodeToString wire ≠ [] := by
    intro e
    simp [e] at hlen
  have htotal : (cursorPrefix ++ Base64.encodeToString wire).length ≤ maxCursorBytes := by
    rw [List.length_append, hlen]
    decide
  simp only [decodeWire, List.drop_left, hpre, Base64.decodeString_encodeToString, orInvalid,
    ok_bind, htotal, hne, h,
    ne_eq, List.append_eq_nil_iff, and_false, not_false_eq_true, and_self, decide_true,
    Bool.and_self, ensure_true]
  rfl

theorem decodeWire_seal (codec : SignedCursorCodec) (h : payload.length = cursorPayloadBytes) :
    decodeWire (codec.seal H payload) = .ok (payload ++ (codec.mac H payload).toList) := by
  refine decodeWire_spelled ?_
  rw [List.length_append, h, List.Vector.toList_length]
  rfl

theorem decodeWire_ok (h : decodeWire token = .ok wire) :
    token = cursorPrefix ++ Base64.encodeToString wire ∧ wire.length = cursorWireBytes := by
  simp only [decodeWire, bind_ok, ensure_ok, pure_ok, Bool.and_eq_true, decide_eq_true_eq] at h
  obtain ⟨_, ⟨-, hpre⟩, _, -, bytes, -, _, hlen, _, hcanon, rfl⟩ := h
  obtain ⟨rest, rfl⟩ := hasPrefix_iff.mp hpre
  rw [List.drop_left] at hcanon
  exact ⟨by rw [hcanon], hlen⟩

/-- `Decode` on a sealed payload: the MAC, the version and the position
time pass, and what is left are the expiry field, the position and the
clock. -/
theorem decode_sealed (hexp : expiry.length = cursorTimeBytes) (clock : Time) :
    codec.decode H clock (codec.seal H (payloadOf createdAt expiry id)) = (do
      let expiresAt ← orInvalid "invalid expiry time" (readOptionalTime expiry)
      CursorPosition.validate ⟨createdAt.utc, id⟩
      checkExpiry clock expiresAt
      pure ⟨createdAt.utc, id⟩) := by
  have hlen : (payloadOf createdAt expiry id).length = cursorPayloadBytes := length_payloadOf hexp
  have htake :
    (payloadOf createdAt expiry id ++ (codec.mac H (payloadOf createdAt expiry id)).toList).take
      cursorPayloadBytes = payloadOf createdAt expiry id := List.take_left' hlen
  have hdrop :
    (payloadOf createdAt expiry id ++ (codec.mac H (payloadOf createdAt expiry id)).toList).drop
      cursorPayloadBytes = (codec.mac H (payloadOf createdAt expiry id)).toList :=
        List.drop_left' hlen
  have hversion : ((payloadOf createdAt expiry id).headD 0 == cursorVersion) = true := by
    simp [payloadOf]
  simp only [SignedCursorCodec.decode, decodeWire_seal codec hlen, ok_bind, htake, hdrop,
    decide_true,
    ensure_true, hversion, payloadOf_createdAt, readTime_wire, orInvalid, payloadOf_expiry hexp,
    payloadOf_id hexp, uuidCopy_toList]

/-- A payload with the version and a readable time is its own layout, field by
field. -/
theorem payload_layout (hlen : payload.length = cursorPayloadBytes)
    (hversion : (payload.headD 0 == cursorVersion) = true)
    (hcreated : readTime ((payload.drop 1).take cursorTimeBytes) = some createdAt) :
    payloadOf createdAt ((payload.drop (1 + cursorTimeBytes)).take cursorTimeBytes)
      (uuidCopy (payload.drop (1 + 2 * cursorTimeBytes))) = payload := by
  obtain ⟨hsource, -⟩ := readTime_some hcreated
  have hid : (uuidCopy (payload.drop (1 + 2 * cursorTimeBytes))).toList =
      payload.drop (1 + 2 * cursorTimeBytes) := by
    show (payload.drop (1 + 2 * cursorTimeBytes) ++ List.replicate 16 0).take 16 = _
    exact List.take_left' (by simp [hlen, cursorPayloadBytes, cursorTimeBytes])
  cases payload with
  | nil => simp [cursorPayloadBytes] at hlen
  | cons version rest =>
    have hv : version = cursorVersion := by simpa using hversion
    rw [payloadOf, ← hsource, hid, ← hv]
    simp only [cursorTimeBytes, List.drop_succ_cons, List.drop_zero,
      show 1 + 15 = 15 + 1 from rfl, show 1 + 2 * 15 = 30 + 1 from rfl]
    have h30 : rest.drop 30 = (rest.drop 15).drop 15 := by rw [List.drop_drop]
    rw [h30, List.take_append_drop, List.take_append_drop]

/-- Every accepted token is the sealed payload of its position and of some
expiry field. -/
theorem decode_ok (h : codec.decode H clock token = .ok position) :
    position.createdAt = position.createdAt.utc ∧ ∃ expiry, expiry.length = cursorTimeBytes ∧
      token = codec.seal H (payloadOf position.createdAt expiry position.id) := by
  simp only [SignedCursorCodec.decode, bind_ok, ensure_ok, pure_ok, decide_eq_true_eq] at h
  obtain ⟨wire, hwire, _, hmac, _, hversion, createdAt, hcreated, expiresAt, -, _, -, _, -, rfl⟩ :=
    h
  obtain ⟨htoken, hlen⟩ := decodeWire_ok hwire
  have hcreated : readTime (((wire.take cursorPayloadBytes).drop 1).take cursorTimeBytes) =
      some createdAt := by
    cases hr : readTime (((wire.take cursorPayloadBytes).drop 1).take cursorTimeBytes) with
    | none => rw [hr] at hcreated; cases hcreated
    | some t => rw [hr] at hcreated; rw [Except.ok.inj hcreated]
  refine ⟨(readTime_some hcreated).2,
    ((wire.take cursorPayloadBytes).drop (1 + cursorTimeBytes)).take cursorTimeBytes, ?_, ?_⟩
  · simp [hlen, cursorWireBytes, cursorPayloadBytes, cursorTimeBytes]
  · have hplen : (wire.take cursorPayloadBytes).length = cursorPayloadBytes := by
      simp [hlen, cursorWireBytes, cursorPayloadBytes, cursorTimeBytes]
    have hpayload := payload_layout hplen hversion hcreated
    rw [hpayload, SignedCursorCodec.seal, ← hmac, List.take_append_drop]
    exact htoken

end

-- ---------------------------------------------------------------------------
-- The round trip
-- ---------------------------------------------------------------------------

theorem newSignedCursorCodec_ok (h : newSignedCursorCodec H secret options = .ok codec) :
    codec.key = H.sum256 secret ∧ 0 ≤ codec.ttl ∧ codec.ttl ≤ maxCursorTTL := by
  simp only [newSignedCursorCodec, validateCursorCodecConfig, bind_ok, ensure_ok, pure_ok,
    decide_eq_true_eq] at h
  obtain ⟨_, -, _, ⟨_, httl, -⟩, rfl⟩ := h
  exact ⟨rfl, httl⟩

theorem seal_congr (hkey : codec'.key = codec.key) (hpurpose : codec'.purpose = codec.purpose) :
    SignedCursorCodec.seal H codec' payload = SignedCursorCodec.seal H codec payload := by
  simp only [SignedCursorCodec.seal, SignedCursorCodec.mac, SignedCursorCodec.message,
    hkey, hpurpose]

theorem isZero_of_zero_lt {t : Time} (h : Time.zero.instant < t.instant) : t.isZero = false := by
  rw [← Bool.not_eq_true, Time.isZero_iff]
  exact fun e => absurd h (e ▸ lt_irrefl _)

theorem checkExpiry_zero (clock : Time) : checkExpiry clock Time.zero = .ok () := by
  simp [checkExpiry, Time.isZero, Time.zero]

theorem checkExpiry_eq {clock expiresAt : Time} (hclock : clock.isZero = false)
    (hexp : expiresAt.isZero = false) :
    checkExpiry clock expiresAt =
      if clock.before expiresAt then .ok () else .error (invalidCursor "expired token") := by
  have hbefore : clock.utc.before expiresAt = clock.before expiresAt := rfl
  simp [checkExpiry, hexp, hclock, hbefore, ensure]

theorem decode_encoded {codec codec' : SignedCursorCodec} {position : CursorPosition} {t0 t1 : Time}
    (hkey : codec'.key = codec.key) (hpurpose : codec'.purpose = codec.purpose)
    (httl : 0 ≤ codec.ttl) (h0 : Time.zero.before t0 = true) (h1 : Time.zero.before t1 = true)
    (hencode : codec.encode H t0 position = .ok token) :
    codec'.decode H t1 token =
      if codec.ttl = 0 ∨ t1.before (t0.add codec.ttl) = true then
      .ok ⟨position.createdAt.utc, position.id⟩
      else .error (invalidCursor "expired token") := by
  obtain ⟨hvalid, -, expiry, rfl, hexpiry⟩ := encode_ok hencode
  have hvalid' : CursorPosition.validate ⟨position.createdAt.utc, position.id⟩ = .ok () := hvalid
  have hrunning : t1.isZero = false := isZero_of_zero_lt (Time.before_iff.mp h1)
  rw [← seal_congr hkey hpurpose]
  rcases hexpiry with ⟨hnone, rfl⟩ | ⟨hpos, rfl, hlater⟩
  · have hzero : codec.ttl = 0 := le_antisymm (not_lt.mp hnone) httl
    rw [decode_sealed (by simp), readOptionalTime_zeros, if_pos (.inl hzero)]
    simp only [orInvalid, ok_bind, hvalid', checkExpiry_zero]
    rfl
  · -- the expiry lies after `t0`, so it is not the zero time
    have hend : (t0.utc.add codec.ttl).utc.isZero = false :=
      isZero_of_zero_lt (lt_trans (Time.before_iff.mp h0) hlater)
    have hbefore : t1.before (t0.utc.add codec.ttl).utc = t1.before (t0.add codec.ttl) := rfl
    rw [decode_sealed (by simp [cursorTimeBytes]), readOptionalTime_wire]
    simp only [orInvalid, ok_bind, hvalid', checkExpiry_eq hrunning hend,
      hbefore, hpos.ne', false_or]
    split <;> rfl

/-- What a codec encodes at `t0` decodes at `t1` to the same instant and
id, for any codec of the same secret and purpose, until the encoder's TTL
has passed; from then on it is an invalid cursor. `t0.add` is the
addition of `time.Time`. -/
theorem decode_encode (H : Hashes) (secret : List UInt8) (options options' : List CursorCodecOption)
    (codec codec' : SignedCursorCodec) (position : CursorPosition) (t0 t1 : Time) (token : GoString)
    (hcodec : newSignedCursorCodec H secret options = .ok codec)
    (hcodec' : newSignedCursorCodec H secret options' = .ok codec')
    (hpurpose : codec'.purpose = codec.purpose)
    (h0 : Time.zero.before t0 = true) (h1 : Time.zero.before t1 = true)
    (hencode : codec.encode H t0 position = .ok token) :
    (codec.ttl = 0 ∨ t1.before (t0.add codec.ttl) = true →
      codec'.decode H t1 token = .ok ⟨position.createdAt.utc, position.id⟩) ∧
    (¬ (codec.ttl = 0 ∨ t1.before (t0.add codec.ttl) = true) →
      ∃ err, codec'.decode H t1 token = .error err ∧ err.is .invalidCursor = true) := by
  obtain ⟨hkey, httl, -⟩ := newSignedCursorCodec_ok hcodec
  obtain ⟨hkey', -⟩ := newSignedCursorCodec_ok hcodec'
  rw [decode_encoded (hkey'.trans hkey.symm) hpurpose httl h0 h1 hencode]
  constructor
  · intro hlive
    rw [if_pos hlive]
  · intro hdead
    rw [if_neg hdead]
    exact ⟨_, rfl, rfl⟩

def sampleSecret : List UInt8 := List.replicate 32 0x2a

/-- The codec of `sampleSecret` with tokens of one hour. -/
def sampleCodec : SignedCursorCodec := ⟨Hashes.go.sum256 sampleSecret, Duration.hour, cursorPurpose⟩

def samplePosition : CursorPosition :=
  ⟨⟨63800000000, 123456789, some 3600⟩, ⟨List.replicate 16 9, rfl⟩⟩

theorem sampleCodec_new :
    newSignedCursorCodec Hashes.go sampleSecret [withCursorTTL Duration.hour] =
      .ok sampleCodec := by
  rfl

/-- The token of `sampleCodec` for `samplePosition` that expires at a time. -/
def sampleToken (expires : Time) : GoString :=
  sampleCodec.seal Hashes.go (payloadOf samplePosition.createdAt expires.wire samplePosition.id)

/-- A decoder without a TTL of its own reads the one-hour token up to its
last nanosecond. -/
theorem decode_encode_hour :
    SignedCursorCodec.decode Hashes.go { sampleCodec with ttl := 0 } ⟨63900003600, 4, none⟩
        (sampleToken ⟨63900003600, 5, none⟩) =
      .ok ⟨⟨63800000000, 123456789, none⟩, samplePosition.id⟩ ∧
    ∃ err, SignedCursorCodec.decode Hashes.go { sampleCodec with ttl := 0 } ⟨63900003600, 5, none⟩
        (sampleToken ⟨63900003600, 5, none⟩) = .error err ∧ err.is .invalidCursor = true := by
  have hdecoder : newSignedCursorCodec Hashes.go sampleSecret [withCursorTTL 0] =
      .ok { sampleCodec with ttl := 0 } := rfl
  have htoken : sampleCodec.encode Hashes.go ⟨63900000000, 5, none⟩ samplePosition =
      .ok (sampleToken ⟨63900003600, 5, none⟩) :=
    encode_eq_ok rfl (by decide) (by decide) (by decide) (by decide)
  refine ⟨?_, ?_⟩
  · exact (decode_encode _ _ _ _ _ _ samplePosition _ _ _ sampleCodec_new hdecoder rfl
      (by decide) (by decide) htoken).1 (by decide)
  · exact (decode_encode _ _ _ _ _ _ samplePosition _ _ _ sampleCodec_new hdecoder rfl
      (by decide) (by decide) htoken).2 (by decide)

-- ---------------------------------------------------------------------------
-- One spelling, one purpose
-- ---------------------------------------------------------------------------

def tokenExpiry (token : GoString) : List UInt8 :=
  match decodeWire token with
  | .ok wire => (wire.drop (1 + cursorTimeBytes)).take cursorTimeBytes
  | .error _ => []

section
variable {H : Hashes} {codec codec' : SignedCursorCodec}

theorem tokenExpiry_seal {createdAt : Time} {id : UUID} (h : expiry.length = cursorTimeBytes) :
    tokenExpiry (codec.seal H (payloadOf createdAt expiry id)) = expiry := by
  have hlen : (payloadOf createdAt expiry id).length = cursorPayloadBytes := length_payloadOf h
  rw [tokenExpiry, decodeWire_seal codec hlen]
  show List.take cursorTimeBytes (List.drop (1 + cursorTimeBytes) (_ ++ _)) = expiry
  rw [List.drop_append_of_le_length (by rw [hlen]; decide), payloadOf_rest, List.append_assoc]
  exact List.take_left' h

theorem decode_injective {p p' : CursorPosition} (h : codec.decode H t token = .ok p)
    (h' : codec.decode H t' token' = .ok p') (htime : p.createdAt.equal p'.createdAt = true)
    (hid : p.id = p'.id) (hexpiry : tokenExpiry token = tokenExpiry token') : token = token' := by
  obtain ⟨hutc, expiry, hlen, rfl⟩ := decode_ok h
  obtain ⟨hutc', expiry', hlen', rfl⟩ := decode_ok h'
  rw [tokenExpiry_seal hlen, tokenExpiry_seal hlen'] at hexpiry
  have hcreated : p.createdAt = p'.createdAt :=
    Time.eq_of_instant (Time.equal_iff.mp htime) (by rw [hutc, hutc']; rfl)
  rw [hexpiry, hcreated, hid]

theorem message_ne (h : codec.purpose ≠ codec'.purpose)
    (payload : List UInt8) : codec.message payload ≠ codec'.message payload :=
  fun he => h (List.append_cancel_right he)

theorem decode_mac_eq (h : codec.decode H t token = .ok p)
    (h' : codec'.decode H t' token = .ok p') :
    ∃ payload, codec.mac H payload = codec'.mac H payload := by
  obtain ⟨-, expiry, hlen, hseal⟩ := decode_ok h
  obtain ⟨-, expiry', hlen', hseal'⟩ := decode_ok h'
  have hp : (payloadOf p.createdAt expiry p.id).length = cursorPayloadBytes := length_payloadOf hlen
  have hp' : (payloadOf p'.createdAt expiry' p'.id).length = cursorPayloadBytes :=
    length_payloadOf hlen'
  have hwire := decodeWire_seal (H := H) codec hp
  rw [← hseal, hseal', decodeWire_seal codec' hp'] at hwire
  obtain ⟨hpayload, hmac⟩ := List.append_inj (Except.ok.inj hwire) (hp'.trans hp.symm)
  rw [← hpayload] at hmac
  exact ⟨_, (List.Vector.toList_injective hmac).symm⟩

end

/-- Two different accepted strings differ in the position or in the expiry
bytes; a string accepted under two purposes is an HMAC collision under the
key of the secret. -/
theorem decode_nonmalleable (H : Hashes) (secret : List UInt8) (options : List CursorCodecOption)
    (codec : SignedCursorCodec) (hcodec : newSignedCursorCodec H secret options = .ok codec) :
    (∀ (t t' : Time) (token token' : GoString) (p p' : CursorPosition),
      codec.decode H t token = .ok p → codec.decode H t' token' = .ok p' → token ≠ token' →
        ¬ (p.createdAt.equal p'.createdAt = true ∧ p.id = p'.id) ∨
          tokenExpiry token ≠ tokenExpiry token') ∧
    (∀ (options' : List CursorCodecOption) (codec' : SignedCursorCodec) (t t' : Time)
        (token : GoString) (p p' : CursorPosition),
      newSignedCursorCodec H secret options' = .ok codec' → codec.purpose ≠ codec'.purpose →
      codec.decode H t token = .ok p → codec'.decode H t' token = .ok p' →
        ∃ payload, codec.purpose ++ 0 :: payload ≠ codec'.purpose ++ 0 :: payload ∧
          H.hmac (H.sum256 secret) (codec.purpose ++ 0 :: payload) =
            H.hmac (H.sum256 secret) (codec'.purpose ++ 0 :: payload)) := by
  refine ⟨?_, ?_⟩
  · intro t t' token token' p p' h h' hne
    by_contra hsame
    obtain ⟨hposition, hexpiry⟩ := not_or.mp hsame
    obtain ⟨htime, hid⟩ := not_not.mp hposition
    exact hne (decode_injective h h' htime hid (not_not.mp hexpiry))
  · intro options' codec' t t' token p p' hcodec' hpurpose h h'
    obtain ⟨payload, hmac⟩ := decode_mac_eq h h'
    refine ⟨payload, message_ne hpurpose payload, ?_⟩
    rw [SignedCursorCodec.mac, SignedCursorCodec.mac, (newSignedCursorCodec_ok hcodec).1,
      (newSignedCursorCodec_ok hcodec').1] at hmac
    exact hmac

theorem sampleToken_decode {t expires : Time} (hexpires : expires.isZero = false)
    (ht : t.before expires = true) (hrunning : t.isZero = false) :
    sampleCodec.decode Hashes.go t (sampleToken expires) =
      .ok ⟨samplePosition.createdAt.utc, samplePosition.id⟩ := by
  have hvalid : CursorPosition.validate ⟨samplePosition.createdAt.utc, samplePosition.id⟩ =
      .ok () := rfl
  have hbefore : t.before expires.utc = true := ht
  rw [sampleToken, decode_sealed (by simp [cursorTimeBytes]), readOptionalTime_wire]
  simp only [orInvalid, ok_bind, hvalid,
    checkExpiry_eq hrunning (expires.isZero_utc.trans hexpires), hbefore, if_true]
  rfl

def constantHashes : Hashes := ⟨fun _ => Hashes.go.sum256 [], fun _ _ => Hashes.go.sum256 []⟩

def constantCodec (purpose : GoString) : SignedCursorCodec :=
  ⟨Hashes.go.sum256 [], defaultCursorTTL, purpose⟩

theorem constantCodec_decode (purpose : GoString) :
    (constantCodec purpose).decode constantHashes ⟨63900000000, 5, none⟩
        ((constantCodec purpose).seal constantHashes
          (payloadOf samplePosition.createdAt (List.replicate 15 0) samplePosition.id)) =
      .ok ⟨samplePosition.createdAt.utc, samplePosition.id⟩ := by
  rw [decode_sealed (by simp [cursorTimeBytes])]
  rfl

/-- Tokens issued a second apart; and, under the constant hash, one token
read under two purposes. -/
theorem decode_nonmalleable_sample :
    (¬ (samplePosition.createdAt.utc.equal samplePosition.createdAt.utc = true ∧
        samplePosition.id = samplePosition.id) ∨
      tokenExpiry (sampleToken ⟨63900003600, 5, none⟩) ≠
        tokenExpiry (sampleToken ⟨63900003601, 5, none⟩)) ∧
    ∃ payload, (str "a") ++ 0 :: payload ≠ (str "b") ++ 0 :: payload ∧
      constantHashes.hmac (constantHashes.sum256 sampleSecret) ((str "a") ++ 0 :: payload) =
        constantHashes.hmac (constantHashes.sum256 sampleSecret) ((str "b") ++ 0 :: payload) := by
  have hne : sampleToken ⟨63900003600, 5, none⟩ ≠ sampleToken ⟨63900003601, 5, none⟩ := by
    intro h
    have hexpiry := congrArg tokenExpiry h
    rw [sampleToken, sampleToken, tokenExpiry_seal (by decide),
      tokenExpiry_seal (by decide)] at hexpiry
    exact absurd hexpiry (by decide)
  refine ⟨?_, ?_⟩
  · refine (decode_nonmalleable Hashes.go sampleSecret _ sampleCodec sampleCodec_new).1
      ⟨63900000000, 5, none⟩ ⟨63900000001, 5, none⟩ _ _
      ⟨samplePosition.createdAt.utc, samplePosition.id⟩
      ⟨samplePosition.createdAt.utc, samplePosition.id⟩ (sampleToken_decode ?_ ?_ ?_)
      (sampleToken_decode ?_ ?_ ?_) hne
    all_goals decide
  · exact (decode_nonmalleable constantHashes sampleSecret [withCursorPurpose (str "a")]
      (constantCodec (str "a")) rfl).2 [withCursorPurpose (str "b")]
        (constantCodec (str "b")) _ _ _ _ _
      rfl (by decide) (constantCodec_decode (str "a")) (constantCodec_decode (str "b"))

end GoClean
