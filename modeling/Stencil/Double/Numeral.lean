import Stencil.Double.Form

/-!
# Decimal numerals

The value of a row of digits, integers with a sign, and the numerals that doubles are read from:
digits with an optional point and an optional exponent, or a name of an infinity or of what is not
a number.
-/

namespace Stencil

namespace Numeral

/-- The value of a row of decimal digits. -/
def value (digits : List Char) : Nat :=
  digits.foldl (fun total digit => 10 * total + (digit.toNat - '0'.toNat)) 0

/-- Cuts an optional sign off; answers whether it is a minus. -/
def splitSign : List Char → Bool × List Char
  | '-' :: characters => (true, characters)
  | '+' :: characters => (false, characters)
  | characters => (false, characters)

/-- The value of an optional sign and at least one digit. -/
def integer? (characters : List Char) : Option Int :=
  let (negative, digits) := splitSign characters
  if digits.isEmpty || !digits.all Char.isDigit then none
  else some (if negative then -(value digits : Int) else (value digits : Int))

/-- The value of a numeral if it lies between two bounds. -/
def integerWithin? (least greatest : Int) (characters : List Char) : Option Int :=
  (integer? characters).filter fun number => least ≤ number && number ≤ greatest

end Numeral

namespace Double

/-- The double nearest to `digits * 10 ^ exponent`. -/
def ofDecimal (digits : Nat) (exponent : Int) : Float :=
  Float.ofScientific digits (exponent < 0) exponent.natAbs

/-- The double of digits before and after a point, scaled by a power of ten. -/
def ofDigits (whole fraction : List Char) (exponent : Int) : Float :=
  ofDecimal (Numeral.value (whole ++ fraction)) (exponent - fraction.length)

/-- The exponent at the end of a numeral; no exponent counts as zero. -/
def exponent? : List Char → Option Int
  | [] => some 0
  | mark :: characters =>
      if mark == 'e' || mark == 'E' then Numeral.integer? characters else none

/-- The double of an unsigned numeral with an optional point and an optional exponent. -/
def ofNumeral? (characters : List Char) : Option Float :=
  let whole := characters.takeWhile Char.isDigit
  let (fraction, tail) :=
    match characters.dropWhile Char.isDigit with
    | '.' :: rest => (rest.takeWhile Char.isDigit, rest.dropWhile Char.isDigit)
    | rest => ([], rest)
  if whole.isEmpty && fraction.isEmpty then none
  else (exponent? tail).map fun exponent => ofDigits whole fraction exponent

/-- The double of an unsigned numeral or name, with the letters of names in either case. -/
def ofUnsigned? (characters : List Char) : Option Float :=
  let name := String.ofList (characters.map Char.toLower)
  if name == "nan" then some notANumber
  else if name == "inf" || name == "infinity" then some (infinity false)
  else ofNumeral? characters

/-- The double that a text names, with an optional sign. -/
def ofText? (characters : List Char) : Option Float :=
  let (negative, unsigned) := Numeral.splitSign characters
  (ofUnsigned? unsigned).map (signed negative)

end Double

end Stencil
