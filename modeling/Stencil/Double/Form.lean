/-!
# What a double stands for

A double is not a number, an infinity, or a natural number scaled by a power of two, with a sign.
Display, remainder and conversion to integers work on this form in exact arithmetic.
-/

namespace Stencil.Double

/-- The value that a double denotes. -/
inductive Form where
  | notANumber
  | infinite (negative : Bool)
  /-- The number `mantissa * 2 ^ exponent` with a sign. -/
  | finite (negative : Bool) (mantissa : Nat) (exponent : Int)
deriving DecidableEq, Repr

/-- Exponent of the smallest doubles. -/
def leastExponent : Int := -1074

/-- The smallest mantissa of a double that has its full precision. -/
def fullMantissa : Nat := 1 <<< 52

/-- Reads the sign, the exponent and the fraction out of the bits of a double. -/
def Form.ofBits (bits : Nat) : Form :=
  let negative := decide (1 <<< 63 ≤ bits)
  let biased := (bits >>> 52) % 2048
  let fraction := bits % fullMantissa
  if biased = 2047 then
    if fraction = 0 then .infinite negative else .notANumber
  else if biased = 0 then .finite negative fraction leastExponent
  else .finite negative (fullMantissa + fraction) ((biased : Int) - 1075)

/-- The value that a double denotes. -/
def form (number : Float) : Form :=
  .ofBits number.toBits.toNat

/-- The double that is not a number. -/
def notANumber : Float := 0.0 / 0.0

/-- The infinite double of a sign. -/
def infinity (negative : Bool) : Float :=
  if negative then -1.0 / 0.0 else 1.0 / 0.0

/-- Puts a sign on a double that has none. -/
def signed (negative : Bool) (number : Float) : Float :=
  if negative then -number else number

/-- The double `mantissa * 2 ^ exponent`, for numbers that are doubles: the mantissa is moved to
its full width as far as the least exponent allows. -/
def ofScaled (mantissa : Nat) (exponent : Int) : Float :=
  if mantissa = 0 then 0.0
  else
    let excess := (mantissa.log2 : Int) - 52
    let shift := max excess (leastExponent - exponent)
    let full :=
      if 0 ≤ shift then mantissa >>> shift.toNat else mantissa <<< (-shift).toNat
    let fullExponent := exponent + shift
    if full < fullMantissa then .ofBits full.toUInt64
    else .ofBits (((fullExponent + 1075).toNat * fullMantissa + (full - fullMantissa)).toUInt64)

/-- The remainder of the division that truncates its quotient: it has the sign of the dividend. -/
def remainder (dividend divisor : Float) : Float :=
  match form dividend, form divisor with
  | .notANumber, _ | _, .notANumber | .infinite _, _ => notANumber
  | .finite .., .infinite _ => dividend
  | .finite negative mantissa exponent, .finite _ divisorMantissa divisorExponent =>
      if divisorMantissa = 0 then notANumber
      else
        let least := min exponent divisorExponent
        let whole := mantissa <<< (exponent - least).toNat
        let divisorWhole := divisorMantissa <<< (divisorExponent - least).toNat
        signed negative (ofScaled (whole % divisorWhole) least)

/-- Rounds toward zero to an integer between two bounds; what is not a number becomes zero. -/
def truncate (least greatest : Int) (number : Float) : Int :=
  match form number with
  | .notANumber => 0
  | .infinite negative => if negative then least else greatest
  | .finite negative mantissa exponent =>
      let whole :=
        if 0 ≤ exponent then mantissa <<< exponent.toNat else mantissa >>> (-exponent).toNat
      max least (min greatest (if negative then -(whole : Int) else (whole : Int)))

/-- Equal doubles are equal and a larger one is greater; all else, also what is not a number,
counts as less. -/
def order (left right : Float) : Ordering :=
  if left == right then .eq else if right < left then .gt else .lt

end Stencil.Double
