import Stencil.Expression.Evaluation

/-!
# Conditions

A condition compares two values or is a boolean.  Primitives follow their own rules of comparison;
all other values only know equality.
-/

namespace Stencil

/-- The test of a loop or a branch. -/
inductive Condition where
  | compare (left : Expression) (comparison : Comparison) (right : Expression)
  /-- An expression whose value must be a boolean. -/
  | value (expression : Expression)

/-- Compares two values of any kind. -/
def Heap.compares (heap : Heap) (comparison : Comparison) (left right : Value) :
    Except TemplateError Bool :=
  match left, right with
  | .primitive left, .primitive right => left.compares comparison right
  | left, right =>
      if comparison.testsEquality then .ok (comparison.holds (heap.valueOrder left right))
      else .error (.type (.cannotCompare left.kind right.kind comparison))

namespace Condition

variable {η : Type}

/-- Whether a condition holds in a scope. -/
def evaluate (host : Host η) (scope : ScopeRef) : Condition → Evaluator η Bool
  | compare left comparison right => do
      let left ← left.evaluate host scope
      let right ← right.evaluate host scope
      (← Evaluator.heap).compares comparison left right
  | value expression => do
      let value ← expression.evaluate host scope
      match value.boolean? with
      | some truth => return truth
      | none => throw (.type (.conditionNotBoolean value.kind))

end Condition

end Stencil
