import Stencil.Double.Decimal

/-!
# The text of a double

Doubles are written with the fewest digits that read back and never with an exponent.  An integral
double below `10 ^ 16` is written in full with one decimal place.
-/

namespace Stencil.Double

/-- Integral doubles from here on are written without a decimal place. -/
def placeLimit : Nat := 10000000000000000

/-- The integer that a mantissa and an exponent denote, if it is one. -/
def integral? (mantissa : Nat) (exponent : Int) : Option Nat :=
  if 0 ≤ exponent then some (mantissa <<< exponent.toNat)
  else
    let whole := mantissa >>> (-exponent).toNat
    if whole <<< (-exponent).toNat = mantissa then some whole else none

/-- The digits of a double that is finite and not negative. -/
def magnitude (mantissa : Nat) (exponent : Int) : List Char :=
  match integral? mantissa exponent with
  | some whole =>
      if whole < placeLimit then Nat.toDigits 10 whole ++ ['.', '0']
      else (shortest mantissa exponent).positional
  | none => (shortest mantissa exponent).positional

/-- The text of a double. -/
def render (number : Float) : String :=
  match form number with
  | .notANumber => "NaN"
  | .infinite negative => if negative then "-Infinity" else "Infinity"
  | .finite negative mantissa exponent =>
      let digits := magnitude mantissa exponent
      String.ofList (if negative then '-' :: digits else digits)

/-- The text of a double in a description of values: very large and very small ones have an
exponent, and all others a decimal point. -/
def describe (number : Float) : String :=
  match form number with
  | .notANumber => "NaN"
  | .infinite negative => if negative then "-inf" else "inf"
  | .finite negative mantissa exponent =>
      let size := signed false number.abs
      let digits :=
        if mantissa ≠ 0 ∧ (size < 1e-4 ∨ 1e16 ≤ size) then (shortest mantissa exponent).scientific
        else magnitude mantissa exponent
      String.ofList (if negative then '-' :: digits else digits)

end Stencil.Double
