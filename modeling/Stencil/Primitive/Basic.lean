import Stencil.Double.Text
import Stencil.Kind

/-!
# Primitive values

Scalars and strings, with their kinds and the texts they are written as.
-/

namespace Stencil

/-- A value without parts. -/
inductive Primitive where
  | int (value : Int32)
  | long (value : Int64)
  | double (value : Float)
  | char (value : Char)
  | boolean (value : Bool)
  | string (value : String)
deriving DecidableEq

namespace Primitive

instance : Inhabited Primitive := ⟨.boolean false⟩

def kind : Primitive → Kind
  | int _ => .int
  | long _ => .long
  | double _ => .double
  | char _ => .char
  | boolean _ => .boolean
  | string _ => .string

/-- Whether arithmetic promotes a value of this kind to wider numbers. -/
def isNumber : Primitive → Bool
  | int _ | long _ | double _ => true
  | _ => false

/-- The text that a primitive is written as. -/
def render : Primitive → String
  | int value => toString value.toInt
  | long value => toString value.toInt
  | double value => Double.render value
  | char value => String.singleton value
  | boolean value => if value then "true" else "false"
  | string value => value

/-- Primitives are equal when they have one kind and equal values; doubles follow IEEE equality, so
what is not a number equals nothing. -/
def equal : Primitive → Primitive → Bool
  | int left, int right => left == right
  | long left, long right => left == right
  | double left, double right => left == right
  | char left, char right => left == right
  | boolean left, boolean right => left == right
  | string left, string right => left == right
  | _, _ => false

end Primitive

end Stencil
