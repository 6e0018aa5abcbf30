import Stencil.Double.Numeral
import Stencil.Primitive.Arithmetic
import Stencil.Text.Blank

/-!
# Conversions between primitives

Longs are narrowed by dropping high bits, doubles by truncation to the nearest bound, and strings
are read as numerals without the blanks around them.
-/

namespace Stencil

namespace Primitive

/-- The int of a primitive.  A string that is no numeral of an int is an error, and a primitive of
another kind has none. -/
def toInt? : Primitive → Option (Except TemplateError Int32)
  | int value => some (.ok value)
  | long value => some (.ok (Int32.ofInt value.toInt))
  | double value =>
      some (.ok (Int32.ofInt (Double.truncate Int32.minValue.toInt Int32.maxValue.toInt value)))
  | char value => some (.ok (Int32.ofNat value.toNat))
  | string value =>
      some <|
        match Numeral.integerWithin? Int32.minValue.toInt Int32.maxValue.toInt
            (Text.trimBlanks value.toList) with
        | some number => .ok (Int32.ofInt number)
        | none => .error (.type (.notInt value))
  | boolean _ => none

/-- The long of a number. -/
def toLong? : Primitive → Option Int64
  | int value => some (widen value)
  | long value => some value
  | double value =>
      some (Int64.ofInt (Double.truncate Int64.minValue.toInt Int64.maxValue.toInt value))
  | _ => none

/-- The double of a number or of a string that is a numeral. -/
def toDouble? : Primitive → Option (Except TemplateError Float)
  | string value =>
      some <|
        match Double.ofText? (Text.trimBlanks value.toList) with
        | some number => .ok number
        | none => .error (.type (.notDouble value))
  | value => if value.isNumber then some (.ok value.toDouble) else none

end Primitive

end Stencil
