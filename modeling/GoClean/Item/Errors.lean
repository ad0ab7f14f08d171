import GoClean.Go.Text

/-!
# Errors and contexts

Errors are trees: a sentinel, a `ValidationError` or `CursorError` that
unwraps to its sentinel, a `%w` wrap, or an `errors.Join`. `Error.is` is
`errors.Is` against a sentinel. A context carries the cause of its
cancellation, once there is one, and the idempotency scope.
-/

namespace GoClean

open Go

/-- The package's sentinels, with those of `context` and `pgx` it tests for. -/
inductive Sentinel
  | invalidInput
  | notFound
  | conflict
  | storeUnavailable
  | idGeneration
  | idempotencyConflict
  | idempotencyInProgress
  | idempotencyUnavailable
  | idempotencyState
  | invalidCursor
  | cursorUnavailable
  | cursorState
  | canceled
  | deadlineExceeded
  | noRows
  deriving DecidableEq, Repr

inductive Error
  | sentinel (s : Sentinel)
  | validation (field reason : GoString)
  | cursor (reason : GoString)
  | wrap (before : GoString) (inner : Error) (after : GoString)
  | join (first second : Error)
  | foreign (text : GoString)
  deriving DecidableEq

abbrev errInvalidInput : Error := .sentinel .invalidInput
abbrev errNotFound : Error := .sentinel .notFound
abbrev errConflict : Error := .sentinel .conflict
abbrev errStoreUnavailable : Error := .sentinel .storeUnavailable
abbrev errIDGeneration : Error := .sentinel .idGeneration
abbrev errIdempotencyConflict : Error := .sentinel .idempotencyConflict
abbrev errIdempotencyInProgress : Error := .sentinel .idempotencyInProgress
abbrev errIdempotencyUnavailable : Error := .sentinel .idempotencyUnavailable
abbrev errIdempotencyState : Error := .sentinel .idempotencyState
abbrev errInvalidCursor : Error := .sentinel .invalidCursor
abbrev errCursorUnavailable : Error := .sentinel .cursorUnavailable
abbrev errCursorState : Error := .sentinel .cursorState

def Error.is : Error → Sentinel → Bool
  | .sentinel s, t => s == t
  | .validation .., t => t == .invalidInput
  | .cursor _, t => t == .invalidCursor
  | .wrap _ inner _, t => inner.is t
  | .join first second, t => first.is t || second.is t
  | .foreign _, _ => false

abbrev invalidCursor (reason : GoString) : Error := .cursor reason

-- ---------------------------------------------------------------------------
-- Fallible code
-- ---------------------------------------------------------------------------

/-- An `if` that returns an error unless its condition holds. -/
def ensure (holds : Bool) (err : Error) : Except Error Unit :=
  if holds then .ok () else .error err

theorem bind_ok {first : Except ε α} {rest : α → Except ε β} :
    first >>= rest = .ok result ↔ ∃ value, first = .ok value ∧ rest value = .ok result := by
  cases first with
  | error err => simp [bind, Except.bind]
  | ok value => simp [bind, Except.bind]

theorem bind_error {first : Except ε α} {rest : α → Except ε β} :
    first >>= rest = .error err ↔ first = .error err ∨ ∃ value, first = .ok value ∧
    rest value = .error err := by
  cases first with
  | error err' => simp [bind, Except.bind]
  | ok value => simp [bind, Except.bind]

theorem pure_ok {value result : α} : (pure value : Except ε α) = .ok result ↔ value = result := by
  constructor
  · exact Except.ok.inj
  · exact congrArg Except.ok

theorem mapError_ok {x : Except ε α} {f : ε → ε'} (h : x.mapError f = .ok v) : x = .ok v := by
  cases x with
  | error _ => cases h
  | ok _ => exact congrArg _ (Except.ok.inj h)

theorem mapError_error {x : Except ε α} {f : ε → ε'} (h : x.mapError f = .error r) :
    ∃ err, x = .error err ∧ f err = r := by
  cases x with
  | error err => exact ⟨err, rfl, Except.error.inj h⟩
  | ok _ => cases h

@[simp] theorem ensure_ok : ensure b err = .ok u ↔ b = true := by
  cases b <;> simp [ensure]

theorem ensure_error : ensure b err = .error err' ↔ b = false ∧ err = err' := by
  cases b <;> simp [ensure]

@[simp] theorem ensure_true (err : Error) : ensure true err = .ok () := rfl

@[simp] theorem ensure_false (err : Error) : ensure false err = .error err := rfl

@[simp] theorem ok_bind (a : α) (f : α → Except ε β) : (Except.ok a >>= f) = f a := rfl

@[simp] theorem error_bind (e : ε) (f : α → Except ε β) : (Except.error e >>= f) = .error e := rfl

-- ---------------------------------------------------------------------------
-- Contexts
-- ---------------------------------------------------------------------------

inductive ContextCause
  | canceled
  | deadlineExceeded
  deriving DecidableEq, Repr

def ContextCause.error : ContextCause → Error
  | .canceled => .sentinel .canceled
  | .deadlineExceeded => .sentinel .deadlineExceeded

structure Context where
  cause : Option ContextCause
  /-- The value under `idempotencyScopeKey`. -/
  scope : Option GoString
  deriving DecidableEq

def Context.background : Context := ⟨none, none⟩

/-- `contextError`; `none` is a nil context. -/
def contextError : Option Context → Option Error
  | none => some (.validation "context" "must not be nil")
  | some ctx => ctx.cause.map ContextCause.error

def ensureContext (ctx : Option Context) : Except Error Unit :=
  match contextError ctx with
  | some err => .error err
  | none => .ok ()

/-- A context that is not nil and not done. -/
def Live (ctx : Option Context) : Prop := contextError ctx = none

instance (ctx : Option Context) : Decidable (Live ctx) := inferInstanceAs (Decidable (_ = _))

@[simp] theorem ensureContext_ok : ensureContext ctx = .ok u ↔ Live ctx := by
  unfold ensureContext Live
  cases contextError ctx <;> simp

/-- What a context that is not nil reports. -/
def IsCancellation (err : Error) : Prop := ∃ cause : ContextCause, err = cause.error

theorem isCancellation_of (h : contextError ctx = some err) (hctx : ctx ≠ none) :
    IsCancellation err := by
  cases ctx with
  | none => exact absurd rfl hctx
  | some ctx =>
    obtain ⟨cause, -, rfl⟩ := Option.map_eq_some_iff.mp h
    exact ⟨cause, rfl⟩

/-- The errors a context check gives: a nil context, or the cause of a
cancellation. -/
def IsContextError (err : Error) : Prop :=
  err = .validation "context" "must not be nil" ∨ IsCancellation err

theorem isContextError_of (h : contextError ctx = some err) : IsContextError err := by
  cases ctx with
  | none => exact .inl (Option.some.inj h).symm
  | some ctx =>
    obtain ⟨cause, -, rfl⟩ := Option.map_eq_some_iff.mp h
    exact .inr ⟨cause, rfl⟩

theorem contextError_of_ensure (h : ensureContext ctx = .error err) :
    contextError ctx = some err := by
  unfold ensureContext at h
  split at h
  · next herr =>
    cases h
    exact herr
  · cases h

theorem ensureContext_error (h : ensureContext ctx = .error err) : IsContextError err :=
  isContextError_of (contextError_of_ensure h)

theorem isContextError_sentinel (h : IsContextError (.sentinel s)) :
    s = .canceled ∨ s = .deadlineExceeded := by
  rcases h with h | ⟨cause, h⟩
  · cases h
  · cases cause <;> cases h <;> simp

end GoClean
