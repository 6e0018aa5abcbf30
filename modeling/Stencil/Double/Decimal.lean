import Stencil.Double.Form

/-!
# The shortest decimal of a double

A decimal that lies between the two midpoints around a double reads back as that double; the
midpoints themselves do so when the mantissa is even.  Among the decimals that read back, the one
with the fewest digits is taken; of two with equally few the nearer one, and of two equally near the
greater one.
-/

namespace Stencil.Double

/-- The number `digits * 10 ^ exponent`. -/
structure Decimal where
  digits : Nat
  exponent : Int
deriving DecidableEq, Repr

/-- The numbers that round to one double, in units of a power of ten. -/
structure Interval where
  low : Nat
  middle : Nat
  high : Nat
  /-- Whether the ends belong to the interval. -/
  closed : Bool
  /-- The power of ten that is the unit. -/
  exponent : Int
deriving Repr

namespace Interval

/-- Whether a number of units lies in the interval. -/
def contains (interval : Interval) (units : Nat) : Bool :=
  if interval.closed then interval.low ≤ units && units ≤ interval.high
  else interval.low < units && units < interval.high

/-- The interval around a positive double.  Below a power of two doubles stand twice as close. -/
def around (mantissa : Nat) (exponent : Int) : Interval :=
  let below := if mantissa = fullMantissa ∧ leastExponent < exponent then 1 else 2
  let quarter := exponent - 2
  let scale := if 0 ≤ quarter then 1 <<< quarter.toNat else Nat.pow 5 (-quarter).toNat
  { low := (4 * mantissa - below) * scale
    middle := 4 * mantissa * scale
    high := (4 * mantissa + 2) * scale
    closed := mantissa % 2 == 0
    exponent := min quarter 0 }

/-- The multiple of a unit that lies in the interval and is nearest to its middle. -/
def nearestMultiple? (interval : Interval) (unit : Nat) : Option Nat :=
  let below := interval.middle / unit
  let above := below + 1
  match interval.contains (below * unit), interval.contains (above * unit) with
  | true, true =>
      if interval.middle - below * unit < above * unit - interval.middle then some below
      else some above
  | true, false => some below
  | false, true => some above
  | false, false => none

/-- Looks for a decimal in the interval that ends in the given number of zeros, or in fewer. -/
def shortestFrom (interval : Interval) : Nat → Decimal
  | 0 => ⟨interval.middle, interval.exponent⟩
  | zeros + 1 =>
      match interval.nearestMultiple? (Nat.pow 10 (zeros + 1)) with
      | some digits => ⟨digits, interval.exponent + (zeros + 1 : Nat)⟩
      | none => shortestFrom interval zeros

/-- The decimal with the fewest digits in the interval. -/
def shortest (interval : Interval) : Decimal :=
  interval.shortestFrom (Nat.toDigits 10 interval.middle).length

end Interval

/-- The shortest decimal that reads back as a positive double. -/
def shortest (mantissa : Nat) (exponent : Int) : Decimal :=
  (Interval.around mantissa exponent).shortest

/-- The digits of a decimal without an exponent. -/
def Decimal.positional (decimal : Decimal) : List Char :=
  let digits := Nat.toDigits 10 decimal.digits
  if 0 ≤ decimal.exponent then digits ++ List.replicate decimal.exponent.toNat '0'
  else
    let places := (-decimal.exponent).toNat
    let padded := List.replicate (places + 1 - digits.length) '0' ++ digits
    padded.take (padded.length - places) ++ '.' :: padded.drop (padded.length - places)

/-- The digits of a decimal with a point after the first one and an exponent. -/
def Decimal.scientific (decimal : Decimal) : List Char :=
  match Nat.toDigits 10 decimal.digits with
  | [] => []
  | first :: fraction =>
      let point := if fraction.isEmpty then [] else '.' :: fraction
      let exponent := decimal.exponent + fraction.length
      first :: point ++ 'e' :: (toString exponent).toList

end Stencil.Double
