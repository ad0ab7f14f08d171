import GoClean.Go.Uuid
import GoClean.Http.Security

/-!
# Request identifiers

`observabilityMiddleware` gives every response an identifier: that of the
request if it sent one, and else a fresh one. What it logs is not modelled.
-/

namespace GoClean.Http

open Go

def requestIDHeader : GoString := "X-Request-ID"
def maxRequestIDBytes : Nat := 128

-- The loop of the source has the alphabet of idempotency keys.
def validRequestID (value : GoString) : Bool :=
  decide (value ≠ [] ∧ value.length ≤ maxRequestIDBytes) && value.all isTokenByte

/-- `http.Header.Values`, for a name in its canonical form. -/
def headerValues (header : List (GoString × List GoString)) (name : GoString) : List GoString :=
  (header.lookup name).getD []

/-- `requestIDFor`, when `uuid.NewString` would return the text form of `generated`. -/
def requestIDFor (header : List (GoString × List GoString)) (generated : UUID) : GoString :=
  match headerValues header "X-Request-Id" with
  | [value] => if validRequestID value then value else generated.string
  | _ => generated.string

end GoClean.Http
