import Stencil.Expression.Basic
import Stencil.Host

/-!
# Evaluation of expressions

Operands, list elements and arguments are evaluated from left to right.  The target of a call is
looked up before its arguments are evaluated.
-/

namespace Stencil

variable {η : Type}

/-- What a name stands for: in a scope at the beginning of a path, in a value after that. -/
def Heap.find? (heap : Heap) (scope : ScopeRef) (receiver : Option Value) (name : String) :
    Option Binding :=
  match receiver with
  | none => heap.lookup? scope name
  | some value => heap.memberOf? value name

/-- The error of a name that stands for nothing. -/
def undefinedIn (receiver : Option Value) (name : String) : TemplateError :=
  match receiver with
  | none => .reference (.undefinedName name)
  | some value => .reference (.notMember name value.kind)

/-- The value of a name that is not called. -/
def readName (scope : ScopeRef) (receiver : Option Value) (name : String) : Evaluator η Value := do
  match (← Evaluator.heap).find? scope receiver name with
  | some binding => Evaluator.onHeap fun heap => heap.valueOf binding
  | none => throw (undefinedIn receiver name)

/-- The function that a call is about to run. -/
def callTarget (scope : ScopeRef) (receiver : Option Value) (name : String) (indexed : Bool) :
    Evaluator η Callable := do
  let heap ← Evaluator.heap
  match heap.find? scope receiver name with
  | some (.entry (.function function)) => return heap.callable function
  | some (.entry other) => throw (.type (.notFunction name other.kind))
  | some (.member owner method) => return .member owner method
  | none =>
      if indexed then throw (.type (.cannotIndex (receiver.map Value.kind)))
      else throw (undefinedIn receiver name)

/-- Requires a primitive operand. -/
def operand (operator : Operator) (value : Value) : Except TemplateError Primitive :=
  match value with
  | .primitive value => .ok value
  | other => .error (.type (.operandNotPrimitive operator other.kind))

mutual

/-- The value of an expression in a scope. -/
def Expression.evaluate (host : Host η) (scope : ScopeRef) : Expression → Evaluator η Value
  | .literal value => return .primitive value
  | .reference path => followFrom host scope none path
  | .list isMutable items => do
      let values ← evaluateAll host scope items
      return .list (← Evaluator.onHeap fun heap => heap.newList isMutable values)
  | .binary left operator right => do
      let left ← operand operator (← left.evaluate host scope)
      let right ← operand operator (← right.evaluate host scope)
      return .primitive (← left.compute operator right)

/-- The values of expressions, from left to right. -/
def evaluateAll (host : Host η) (scope : ScopeRef) : List Expression → Evaluator η (List Value)
  | [] => return []
  | expression :: expressions => do
      let value ← expression.evaluate host scope
      return value :: (← evaluateAll host scope expressions)

/-- Follows a path from the value reached so far. -/
def followFrom (host : Host η) (scope : ScopeRef) (reached : Option Value) :
    List Segment → Evaluator η Value
  | [] =>
      match reached with
      | some value => return value
      | none => throw (.reference .emptyPath)
  | segment :: path => do
      let value ← segment.follow host scope reached
      followFrom host scope (some value) path

/-- Takes one step of a path. -/
def Segment.follow (host : Host η) (scope : ScopeRef) (reached : Option Value) :
    Segment → Evaluator η Value
  | .property name => readName scope reached name
  | .call name arguments _ indexed => do
      let target ← callTarget scope reached name indexed
      let values ← evaluateAll host scope arguments
      target.invoke host reached values

end

/-- The value that a path leads to from a scope. -/
def Path.follow (host : Host η) (scope : ScopeRef) (path : Path) : Evaluator η Value :=
  followFrom host scope none path

end Stencil
