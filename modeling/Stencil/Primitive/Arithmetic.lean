import Stencil.Error
import Stencil.Primitive.Basic

/-!
# Arithmetic and comparison of primitives

Ints and longs are promoted to the wider of two operands and wrap around; a double makes the result
a double.  A char and an int give a char, two chars an int, and a string on either side of `+`
appends texts.
-/

namespace Stencil

namespace Operator

/-- The operator on doubles. -/
def onDoubles (operator : Operator) (left right : Float) : Float :=
  match operator with
  | plus => left + right
  | minus => left - right
  | times => left * right
  | divide => left / right
  | modulo => Double.remainder left right

/-- The operator on words of one size, which truncates quotients and refuses zero divisors. -/
def onWords {ω : Type} [Add ω] [Sub ω] [Mul ω] [Div ω] [Mod ω] [OfNat ω 0] [DecidableEq ω]
    (operator : Operator) (left right : ω) : Except TemplateError ω :=
  match operator with
  | plus => .ok (left + right)
  | minus => .ok (left - right)
  | times => .ok (left * right)
  | divide => if right = 0 then .error (.type .divisionByZero) else .ok (left / right)
  | modulo => if right = 0 then .error (.type .divisionByZero) else .ok (left % right)

end Operator

/-- The character of a code point. -/
def charOfCode? (code : Int) : Option Char :=
  if h : 0 ≤ code ∧ code.toNat.isValidChar then some (Char.ofNatAux code.toNat h.2) else none

/-- The character of a code point, or the error that names the code. -/
def charOfCode (code : Int) : Except TemplateError Char :=
  match charOfCode? code with
  | some character => .ok character
  | none => .error (.type (.invalidCharCode code))

namespace Primitive

/-- The long that an int widens to. -/
def widen (value : Int32) : Int64 := Int64.ofInt value.toInt

/-- The double nearest to a numeric primitive; other primitives are not numbers. -/
def toDouble : Primitive → Float
  | int value => Float.ofInt value.toInt
  | long value => Float.ofInt value.toInt
  | double value => value
  | _ => Double.notANumber

/-- Whether `+` joins the texts of two primitives, one of which is a string. -/
def joins : Primitive → Primitive → Bool
  | string _, boolean _ | boolean _, string _ => false
  | _, _ => true

/-- Appends the texts of two primitives. -/
def concatenate (left right : Primitive) : Except TemplateError Primitive :=
  if left.joins right then .ok (string (left.render ++ right.render))
  else .error (.type (.cannotConcatenate left.kind right.kind))

/-- Applies an operator that no rule for numbers and chars covers: only `+` with a string does
something. -/
def computeOnTexts (operator : Operator) (left right : Primitive) :
    Except TemplateError Primitive :=
  if operator = .plus ∧ (left.kind = .string ∨ right.kind = .string) then
    left.concatenate right
  else .error (.type (.operatorUndefined operator left.kind right.kind))

/-- Applies an operator to two primitives. -/
def compute (operator : Operator) (left right : Primitive) :
    Except TemplateError Primitive :=
  match left, right with
  | int a, int b => (operator.onWords a b).map int
  | int a, long b => (operator.onWords (widen a) b).map long
  | long a, int b => (operator.onWords a (widen b)).map long
  | long a, long b => (operator.onWords a b).map long
  | int _, double b => .ok (double (operator.onDoubles left.toDouble b))
  | long _, double b => .ok (double (operator.onDoubles left.toDouble b))
  | double a, int _ => .ok (double (operator.onDoubles a right.toDouble))
  | double a, long _ => .ok (double (operator.onDoubles a right.toDouble))
  | double a, double b => .ok (double (operator.onDoubles a b))
  | char a, int b => do
      let code ← operator.onWords (Int64.ofNat a.toNat) (widen b)
      return char (← charOfCode code.toInt)
  | char a, char b =>
      (operator.onWords (Int32.ofNat a.toNat) (Int32.ofNat b.toNat)).map int
  | _, _ => computeOnTexts operator left right

/-- The ordering of two integers of either width, or nothing for other primitives. -/
def integerOrder? : Primitive → Primitive → Option Ordering
  | int a, int b => some (compare a.toInt b.toInt)
  | int a, long b => some (compare a.toInt b.toInt)
  | long a, int b => some (compare a.toInt b.toInt)
  | long a, long b => some (compare a.toInt b.toInt)
  | _, _ => none

/-- The ordering of primitives that only know equality: unequal ones count as less. -/
def equalityOrder (comparison : Comparison) (left right : Primitive) :
    Except TemplateError Ordering :=
  if comparison.testsEquality then .ok (if left.equal right then .eq else .lt)
  else .error (.type (.onlyEquality left.kind comparison))

/-- The ordering that a comparison of two primitives tests. -/
def order (comparison : Comparison) (left right : Primitive) : Except TemplateError Ordering :=
  match left, right with
  | boolean _, boolean _ | string _, string _ => equalityOrder comparison left right
  | char a, char b => .ok (compare a.toNat b.toNat)
  | _, _ =>
      match integerOrder? left right with
      | some ordering => .ok ordering
      | none =>
          if left.isNumber && right.isNumber then
            .ok (Double.order left.toDouble right.toDouble)
          else .error (.type (.cannotCompare left.kind right.kind comparison))

/-- Compares two primitives. -/
def compares (comparison : Comparison) (left right : Primitive) : Except TemplateError Bool :=
  (order comparison left right).map comparison.holds

end Primitive

end Stencil
