import Stencil.Expression.Basic

/-!
# Operators that wait for their right operand

While an expression is read, finished operands and the operators and open groups between them wait
on two stacks.  A new operator first lets those take their operands that bind at least as tight, so
equal ranks group to the left.
-/

namespace Stencil

/-- What waits between operands. -/
inductive Waiting where
  | operator (operator : Operator)
  /-- An open parenthesis. -/
  | group
deriving DecidableEq

/-- Operands and what waits between them, last first. -/
structure OperatorStack where
  operands : List Expression := []
  waiting : List Waiting := []

namespace OperatorStack

/-- Puts the last two operands together. -/
def combine (operator : Operator) : List Expression → Option (List Expression)
  | right :: left :: operands => some (.binary left operator right :: operands)
  | _ => none

/-- Adds an operand. -/
def pushOperand (stack : OperatorStack) (operand : Expression) : OperatorStack :=
  { stack with operands := operand :: stack.operands }

/-- Opens a group. -/
def openGroup (stack : OperatorStack) : OperatorStack :=
  { stack with waiting := .group :: stack.waiting }

/-- Lets the operators down to the innermost open group take their operands, and closes it. -/
def closeFrom : List Waiting → List Expression → Option OperatorStack
  | [], operands => some ⟨operands, []⟩
  | .group :: waiting, operands => some ⟨operands, waiting⟩
  | .operator operator :: waiting, operands => do
      closeFrom waiting (← combine operator operands)

/-- Closes the innermost open group. -/
def closeGroup? (stack : OperatorStack) : Option OperatorStack :=
  closeFrom stack.waiting stack.operands

/-- Lets the operators take their operands that bind at least as tight as a new one. -/
def pushFrom (operator : Operator) :
    List Waiting → List Expression → Option OperatorStack
  | .operator top :: waiting, operands =>
      if operator.precedence < top.precedence then
        some ⟨operands, .operator operator :: .operator top :: waiting⟩
      else do
        pushFrom operator waiting (← combine top operands)
  | waiting, operands => some ⟨operands, .operator operator :: waiting⟩

/-- Adds an operator. -/
def pushOperator? (stack : OperatorStack) (operator : Operator) :
    Option OperatorStack :=
  pushFrom operator stack.waiting stack.operands

/-- Lets every operator take its operands. -/
def finishFrom : List Waiting → List Expression → Option Expression
  | [], [expression] => some expression
  | [], _ => none
  | .group :: waiting, operands => finishFrom waiting operands
  | .operator operator :: waiting, operands => do
      finishFrom waiting (← combine operator operands)

/-- The expression that all operands and operators make. -/
def finish? (stack : OperatorStack) : Option Expression :=
  finishFrom stack.waiting stack.operands

end OperatorStack

end Stencil
