import Mathlib.Data.Rat.Defs
import GoClean.Go.Text
import GoClean.Go.Time

/-!
# Floating-point values and formatted errors

A finite `float64` is read as the rational number it stands for. An error of
`fmt.Errorf` is kept as its format and its arguments, which determine its
text.
-/

namespace GoClean.Go

inductive Float64
  | nan
  | inf (negative : Bool)
  | finite (q : ℚ)
  deriving DecidableEq

namespace Float64

def isNaN (x : Float64) : Bool := x == .nan

def isInf : Float64 → Bool
  | .inf _ => true
  | _ => false

/-- `x <= y`; nothing is ordered with a value that is not a number. -/
def le : Float64 → Float64 → Bool
  | .nan, _ => false
  | _, .nan => false
  | .inf true, _ => true
  | _, .inf false => true
  | .inf false, _ => false
  | _, .inf true => false
  | .finite p, .finite q => decide (p ≤ q)

def lt : Float64 → Float64 → Bool
  | .nan, _ => false
  | _, .nan => false
  | .inf true, y => y != .inf true
  | x, .inf false => x != .inf false
  | .inf false, _ => false
  | _, .inf true => false
  | .finite p, .finite q => decide (p < q)

/-- The number a finite value stands for. -/
def toRat : Float64 → ℚ
  | .finite q => q
  | _ => 0

end Float64

inductive FmtArg
  | int (n : Int)
  | float (x : Float64)
  | duration (d : Duration)
  | string (s : GoString)
  deriving DecidableEq

structure Errorf where
  format : GoString
  args : List FmtArg := []
  deriving DecidableEq

def reject (fails : Bool) (err : Errorf) : Except Errorf Unit :=
  if fails then .error err else .ok ()

@[simp] theorem reject_ok : reject fails err = .ok u ↔ fails = false := by
  cases fails <;> simp [reject]

end GoClean.Go
