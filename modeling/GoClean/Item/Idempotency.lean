import GoClean.Go.Json
import GoClean.Item.Model

/-!
# Idempotency keys, fingerprints and scopes

`internal/item/idempotency.go`. A keyed create goes to the store under a
hash of its scope and key, with a hash of its canonical fields as the
fingerprint. Both hashes are of JSON text; `H` stands for SHA-256.
-/

namespace GoClean

open Go

def maxIdempotencyKeyBytes : Nat := 255

def idempotencyRecordRetention : Duration := 24 * Duration.hour

def maxIdempotencyEntries : Int := 10000

def defaultIdempotencyScope : GoString := str "items:create"

def isTokenByte (c : UInt8) : Bool :=
  decide (97 ≤ c ∧ c ≤ 122) || decide (65 ≤ c ∧ c ≤ 90) || decide (48 ≤ c ∧ c ≤ 57) ||
  (str "!#$%&'*+-.^_`|~").contains c

def validateIdempotencyKey (key : GoString) : Except Error Unit := do
  ensure (decide (key ≠ [] ∧ key.length ≤ maxIdempotencyKeyBytes))
    (.validation "idempotency_key" "must contain 1-255 ASCII token bytes")
  ensure (key.all isTokenByte) (.validation "idempotency_key" "must be an HTTP token")

section
variable (H : Hashes)

def fingerprintPayload (canonical : CreateInput) : GoString :=
  Json.marshalPair "name" "description" canonical.name canonical.description

def fingerprintCreateInput (input : CreateInput) : Except Error GoString := do
  let canonical ← validateCreateInput input
  pure (Hex.encodeToString (H.sum256 (fingerprintPayload canonical)).toList)

def withIdempotencyScope (ctx : Option Context) (scope : GoString) : Option Context :=
  ctx.map fun c =>
    let bad := decide (scope = [] ∨ 512 < scope.length) || !validString scope || hasControl scope
    { c with scope := some (if bad then defaultIdempotencyScope else scope) }

def idempotencyScopeFromContext : Option Context → GoString
  | none => defaultIdempotencyScope
  | some ctx =>
    match ctx.scope with
    | some scope => if scope = [] then defaultIdempotencyScope else scope
    | none => defaultIdempotencyScope

def storagePayload (scope key : GoString) : GoString :=
  str "go-clean-architecture/idempotency/v1:" ++ Json.marshalPair "scope" "key" scope key

def storageIdempotencyKey (ctx : Option Context) (key : GoString) : GoString :=
  str "v1_" ++
    Hex.encodeToString (H.sum256 (storagePayload (idempotencyScopeFromContext ctx) key)).toList

/-- What `Service.Create` and `Service.CreateIdempotent` read from outside:
the generator's answer, the clock, and the wall clock they fall back on. -/
structure CreateEnv where
  generateID : Except Error UUID
  clock : Time
  wall : Time

/-- The candidate both create paths assemble: a version 4 UUID and a UTC
time that is not the zero time. -/
def newItem (env : CreateEnv) (canonical : CreateInput) : Except Error Item := do
  let id ← env.generateID.mapError (.join errIDGeneration)
  ensure (decide (id ≠ UUID.zero ∧ id.version = 4) && id.isRFC4122)
    (.join errIDGeneration (.join errInvalidInput
      (.foreign "generated UUID must be RFC4122 version 4")))
  let createdAt := if env.clock.isZero then env.wall else env.clock
  pure ⟨id, canonical.name, canonical.description, createdAt.utc⟩

/-- The arguments of one `Store.CreateIdempotent` call. -/
structure StoreRequest where
  value : Item
  key : GoString
  fingerprint : GoString
  deriving DecidableEq

def createIdempotentRequest (env : CreateEnv) (ctx : Option Context) (input : CreateInput)
    (key : GoString) : Except Error StoreRequest := do
  ensureContext ctx
  validateIdempotencyKey key
  let canonical ← validateCreateInput input
  let fingerprint ← fingerprintCreateInput H canonical
  let value ← newItem env canonical
  pure ⟨value, storageIdempotencyKey H ctx key, fingerprint⟩

def createIdempotentReply (created : Item) (replayed : Bool) : Except Error (Item × Bool) := do
  ensure (decide (created.id ≠ UUID.zero)) errIdempotencyState
  pure (created, replayed)

end

-- ---------------------------------------------------------------------------
-- What the hashed texts determine
-- ---------------------------------------------------------------------------

theorem fingerprintPayload_injective (ha : validateCreateInput a = .ok ca)
    (hb : validateCreateInput b = .ok cb) (h : fingerprintPayload ca = fingerprintPayload cb) :
    ca = cb := by
  obtain ⟨-, han, had⟩ := validateCreateInput_ok ha
  obtain ⟨-, hbn, hbd⟩ := validateCreateInput_ok hb
  obtain ⟨hn, hd⟩ := Json.marshalPair_injective han hbn had hbd h
  cases ca
  cases cb
  simp_all

theorem isTokenByte_ascii (h : isTokenByte c = true) : c < 0x80 := by
  have hall : ∀ c, isTokenByte c = true → c < 0x80 := forall_byte (by decide +kernel)
  exact hall c h

theorem validString_of_key (h : validateIdempotencyKey key = .ok u) : validString key = true := by
  simp only [validateIdempotencyKey, bind_ok, ensure_ok, List.all_eq_true] at h
  obtain ⟨_, -, htoken⟩ := h
  exact validString_of_ascii fun b hb => isTokenByte_ascii (htoken b hb)

/-- A scope that `withIdempotencyScope` or its absence leaves in a context. -/
def ScopedContext (ctx : Option Context) : Prop :=
  ∀ c, ctx = some c → ∀ scope, c.scope = some scope → validString scope = true

theorem validString_defaultScope : validString defaultIdempotencyScope = true := by decide +kernel

theorem scopedContext_withIdempotencyScope (ctx : Option Context) (scope : GoString) :
    ScopedContext (withIdempotencyScope ctx scope) := by
  intro c hc s hs
  cases ctx with
  | none => simp [withIdempotencyScope] at hc
  | some base =>
    simp only [withIdempotencyScope, Option.map_some, Option.some.injEq] at hc
    subst hc
    simp only [Option.some.injEq] at hs
    subst hs
    split
    · exact validString_defaultScope
    · next h =>
      simp only [Bool.or_eq_true, not_or, Bool.not_eq_true, Bool.not_eq_false'] at h
      exact h.1.2

theorem validString_scope (h : ScopedContext ctx) :
    validString (idempotencyScopeFromContext ctx) = true := by
  cases ctx with
  | none => exact validString_defaultScope
  | some c =>
    cases hs : c.scope with
    | none =>
      simp only [idempotencyScopeFromContext, hs]
      exact validString_defaultScope
    | some scope =>
      simp only [idempotencyScopeFromContext, hs]
      by_cases he : scope = []
      · rw [if_pos he]
        exact validString_defaultScope
      · rw [if_neg he]
        exact h c rfl scope hs

theorem storagePayload_injective (hs : validString s = true) (ht : validString t = true)
    (hk : validString k = true) (hl : validString l = true)
    (h : storagePayload s k = storagePayload t l) : s = t ∧ k = l :=
  Json.marshalPair_injective hs ht hk hl (List.append_cancel_left h)

/-- The scope of the context, if it has one, was set by
`WithIdempotencyScope`, here or on a context it was derived from. -/
def ScopeSet (ctx : Option Context) : Prop :=
  ∀ c, ctx = some c → c.scope = none ∨
    ∃ base scope d, withIdempotencyScope (some base) scope = some d ∧ c.scope = d.scope

theorem ScopeSet.scopedContext (h : ScopeSet ctx) : ScopedContext ctx := by
  intro c hc s hs
  rcases h c hc with hnone | ⟨base, scope, d, hd, hscope⟩
  · rw [hs] at hnone
    cases hnone
  · exact scopedContext_withIdempotencyScope (some base) scope d hd s (hscope ▸ hs)

/-- The hashed texts are equal only for equal fields, and an input has the
fingerprint of its canonical form. -/
theorem payloads_unambiguous (H : Hashes) :
    (∀ a b ca cb, validateCreateInput a = .ok ca → validateCreateInput b = .ok cb →
      (fingerprintPayload ca = fingerprintPayload cb ↔
        trimSpace a.name = trimSpace b.name ∧
        trimSpace a.description = trimSpace b.description)) ∧
    (∀ a ca, validateCreateInput a = .ok ca →
      fingerprintCreateInput H a = fingerprintCreateInput H ca) ∧
    ∀ ctx ctx' key key', ScopeSet ctx → ScopeSet ctx' → validateIdempotencyKey key = .ok () →
      validateIdempotencyKey key' = .ok () →
      (storagePayload (idempotencyScopeFromContext ctx) key =
          storagePayload (idempotencyScopeFromContext ctx') key' ↔
        idempotencyScopeFromContext ctx = idempotencyScopeFromContext ctx' ∧ key = key') := by
  refine ⟨fun a b ca cb ha hb => ⟨fun h => ?_, ?_⟩, fun a ca ha => ?_,
    fun ctx ctx' key key' hctx hctx' hk hk' => ⟨fun h => ?_, ?_⟩⟩
  · obtain rfl := fingerprintPayload_injective ha hb h
    have hsame := (validateCreateInput_ok ha).1.symm.trans (validateCreateInput_ok hb).1
    exact CreateInput.mk.inj hsame
  · rintro ⟨hname, hdescription⟩
    rw [(validateCreateInput_ok ha).1, (validateCreateInput_ok hb).1, hname, hdescription]
  · rw [fingerprintCreateInput, fingerprintCreateInput, ha, validateCreateInput_canonical ha]
  · exact storagePayload_injective (validString_scope hctx.scopedContext)
      (validString_scope hctx'.scopedContext) (validString_of_key hk) (validString_of_key hk') h
  · rintro ⟨hscope, rfl⟩
    rw [hscope]

theorem payloads_unambiguous_sample :
    fingerprintPayload ⟨str "a", str "b"⟩ ≠ fingerprintPayload ⟨str "a\",", str "b"⟩ ∧
    storagePayload (idempotencyScopeFromContext none) (str "k") ≠
      storagePayload (idempotencyScopeFromContext none) (str "l") := by
  obtain ⟨hfields, -, hkeys⟩ := payloads_unambiguous Hashes.go
  have ha : validateCreateInput ⟨str " a", str "b"⟩ = .ok ⟨str "a", str "b"⟩ := by decide +kernel
  have hb : validateCreateInput ⟨str "a\",", str "b"⟩ = .ok ⟨str "a\",", str "b"⟩ := by
    decide +kernel
  have hnil : ScopeSet none := fun c hc => nomatch hc
  refine ⟨fun h => ?_, fun h => ?_⟩
  · exact absurd ((hfields _ _ _ _ ha hb).mp h).1 (by decide +kernel)
  · have hsame := (hkeys none none _ _ hnil hnil (by decide +kernel) (by decide +kernel)).mp h
    exact absurd hsame.2 (by decide)

end GoClean
