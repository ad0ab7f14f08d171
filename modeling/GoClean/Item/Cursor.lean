import GoClean.Go.Base64
import GoClean.Item.Model

/-!
# Signed cursors

`internal/item/cursor.go`, the codec half. A token is `v1_` and the
base64url text of a 47-byte payload (version, position time, expiry or
zeros, item id) followed by its MAC. The purpose is covered by the MAC and
not stored. Each call takes the reading of the codec's clock it would see.
-/

namespace GoClean

open Go

def defaultCursorTTL : Duration := 24 * Duration.hour
def maxCursorTTL : Duration := 30 * 24 * Duration.hour
def minCursorSigningKeyBytes : Nat := 32
def maxCursorBytes : Nat := 512
def cursorVersion : UInt8 := 1
def cursorPrefix : GoString := str "v1_"
def cursorTimeBytes : Nat := 15
def cursorPayloadBytes : Nat := 1 + cursorTimeBytes + cursorTimeBytes + 16
def cursorWireBytes : Nat := cursorPayloadBytes + 32
def cursorPurpose : GoString := str "item-list-cursor/v1"

structure CursorPosition where
  createdAt : Time
  id : UUID
  deriving DecidableEq

def CursorPosition.validate (position : CursorPosition) : Except Error Unit := do
  ensure (decide (position.id ≠ UUID.zero)) (invalidCursor "position id is required")
  ensure (!position.createdAt.isZero) (invalidCursor "position time is required")
  -- `time.Unix` carries a nanosecond field of a second or more, so such a time fails here.
  let canonical := position.createdAt.utc
  ensure ((Time.unixUTC canonical.unix canonical.nsec).equal canonical)
    (invalidCursor "position time is out of range")

def cursorPositionForItem (value : Item) : Except Error CursorPosition :=
  let position : CursorPosition := ⟨value.createdAt, value.id⟩
  match position.validate with
  | .error err => .error (.join errCursorState err)
  | .ok _ => .ok position

theorem cursorPositionForItem_ok (h : cursorPositionForItem v = .ok position) :
    position = ⟨v.createdAt, v.id⟩ ∧ position.validate = .ok () := by
  simp only [cursorPositionForItem] at h
  split at h
  · cases h
  · next hok =>
    cases h
    exact ⟨rfl, hok⟩

structure CursorListParams where
  limit : Int
  after : Option CursorPosition
  deriving DecidableEq

/-- `SignedCursorCodec` without its clock, whose readings are arguments. -/
structure SignedCursorCodec where
  key : Digest
  ttl : Duration
  purpose : GoString

structure CursorCodecConfig where
  ttl : Duration
  purpose : GoString

abbrev CursorCodecOption := CursorCodecConfig → CursorCodecConfig

def withCursorTTL (ttl : Duration) : CursorCodecOption := fun config => { config with ttl := ttl }

def withCursorPurpose (purpose : GoString) : CursorCodecOption :=
  fun config => { config with purpose := purpose }

def validateCursorCodecConfig (config : CursorCodecConfig) : Except Error Unit := do
  ensure (decide (0 ≤ config.ttl ∧ config.ttl ≤ maxCursorTTL))
    (.wrap [] errInvalidCursor (str ": cursor TTL must be zero or at most 720h0m0s"))
  ensure (decide (config.purpose ≠ [] ∧ config.purpose.length ≤ 128) &&
      validString config.purpose && !hasControl config.purpose)
    (.wrap [] errInvalidCursor (str ": invalid cursor purpose"))

section
variable (H : Hashes)

def newSignedCursorCodec (secret : List UInt8) (options : List CursorCodecOption) :
    Except Error SignedCursorCodec := do
  ensure (decide (minCursorSigningKeyBytes ≤ secret.length))
    (.wrap [] errInvalidCursor (str ": signing key must contain at least 32 bytes"))
  let config := options.foldl (fun config option => option config) ⟨defaultCursorTTL, cursorPurpose⟩
  validateCursorCodecConfig config
  pure ⟨H.sum256 secret, config.ttl, config.purpose⟩

def SignedCursorCodec.message (codec : SignedCursorCodec) (payload : List UInt8) : List UInt8 :=
  codec.purpose ++ 0 :: payload

def SignedCursorCodec.mac (codec : SignedCursorCodec) (payload : List UInt8) : Digest :=
  H.hmac codec.key (codec.message payload)

end

def putTime (value : Time) : Except Error (List UInt8) :=
  match value.utc.marshalBinary with
  | none => .error (.foreign "Time.MarshalBinary: unexpected zone offset")
  | some encoded =>
    if encoded.length = cursorTimeBytes then .ok encoded
    else .error (.foreign "unexpected cursor time encoding size")

def readTime (source : List UInt8) : Option Time := do
  if source.length ≠ cursorTimeBytes then none
  else
    let value ← Time.unmarshalBinary source
    let canonical := value.utc
    let canonicalWire ← canonical.marshalBinary
    if canonicalWire.length = cursorTimeBytes ∧ canonicalWire = source then some canonical else none

def readOptionalTime (source : List UInt8) : Option Time :=
  if source.length ≠ cursorTimeBytes then none
  else if source = List.replicate cursorTimeBytes 0 then some Time.zero
  else readTime source

def uuidCopy (source : List UInt8) : UUID :=
  ⟨(source ++ List.replicate 16 0).take 16, by simp⟩

def orInvalid (reason : GoString) : Option α → Except Error α
  | some a => .ok a
  | none => .error (invalidCursor reason)

def errCursorClock : Error :=
  .join errCursorUnavailable (.foreign "cursor clock returned zero time")

section
variable (H : Hashes)

def SignedCursorCodec.expiryField (codec : SignedCursorCodec) (now : Time)
    (position : CursorPosition) : Except Error (List UInt8) :=
  if 0 < codec.ttl then do
    let expires := now.add codec.ttl
    ensure (expires.after now) (.join errCursorUnavailable (.foreign "cursor expiry overflow"))
    ensure (expires.after position.createdAt)
      (.join errCursorState (.foreign "cursor expiry precedes position"))
    (putTime expires).mapError (.join errCursorUnavailable)
  else .ok (List.replicate cursorTimeBytes 0)

def SignedCursorCodec.encode (codec : SignedCursorCodec) (clock : Time)
    (position : CursorPosition) : Except Error GoString := do
  position.validate
  let now := clock.utc
  ensure (!now.isZero) errCursorClock
  let createdAt ← (putTime position.createdAt).mapError (.join errCursorState)
  let expires ← codec.expiryField now position
  let payload := cursorVersion :: (createdAt ++ (expires ++ position.id.toList))
  let wire := payload ++ (codec.mac H payload).toList
  let token := cursorPrefix ++ Base64.encodeToString wire
  ensure (decide (token.length ≤ maxCursorBytes))
    (.join errCursorUnavailable (.foreign "encoded cursor exceeds size bound"))
  pure token

/-- The base64 layer of `Decode`: the canonical spelling of 79 bytes. -/
def decodeWire (token : GoString) : Except Error (List UInt8) := do
  ensure (decide (token ≠ [] ∧ token.length ≤ maxCursorBytes) && hasPrefix token cursorPrefix)
    (invalidCursor "malformed token")
  let encoded := token.drop cursorPrefix.length
  ensure (decide (encoded ≠ [])) (invalidCursor "malformed token")
  let wire ← orInvalid "malformed token" (Base64.decodeString encoded)
  ensure (decide (wire.length = cursorWireBytes)) (invalidCursor "malformed token")
  ensure (decide (Base64.encodeToString wire = encoded)) (invalidCursor "non-canonical token")
  pure wire

/-- The expiry check of `Decode`, when the clock reads `clock`. -/
def checkExpiry (clock expiresAt : Time) : Except Error Unit :=
  if expiresAt.isZero then .ok ()
  else do
    let now := clock.utc
    ensure (!now.isZero) errCursorClock
    ensure (now.before expiresAt) (invalidCursor "expired token")

def SignedCursorCodec.decode (codec : SignedCursorCodec) (clock : Time) (token : GoString) :
    Except Error CursorPosition := do
  let wire ← decodeWire token
  let payload := wire.take cursorPayloadBytes
  let providedMAC := wire.drop cursorPayloadBytes
  ensure (decide (providedMAC = (codec.mac H payload).toList))
    (invalidCursor "authentication failed")
  ensure (payload.headD 0 == cursorVersion) (invalidCursor "unsupported version")
  let createdAt ← orInvalid "invalid position time"
    (readTime ((payload.drop 1).take cursorTimeBytes))
  let expiresAt ← orInvalid "invalid expiry time"
    (readOptionalTime ((payload.drop (1 + cursorTimeBytes)).take cursorTimeBytes))
  let position : CursorPosition := ⟨createdAt, uuidCopy (payload.drop (1 + 2 * cursorTimeBytes))⟩
  position.validate
  checkExpiry clock expiresAt
  pure position

end

end GoClean
