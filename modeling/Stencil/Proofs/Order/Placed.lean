import Stencil.Expression.Grammar

/-!
# Expressions with their places

What an evaluation does belongs to places of the text: a name is looked up where it begins, an
operand is taken where it ends, and a function is called where its call is closed.  Expressions that
keep these places are read just as the bare ones are, and give them when their places are forgotten.
-/

namespace Stencil

open Text

/-- What an evaluation does, with its place in the text. -/
inductive Action where
  /-- A name or an index is looked up: the place where it begins. -/
  | lookup (place : Nat)
  /-- An operand is taken, and an operation done once it has both: the place where the operand
  ends. -/
  | operation (place : Nat)
  /-- A function is called: the place behind the bracket that closes the call. -/
  | call (place : Nat)
deriving DecidableEq, Repr

namespace Action

def place : Action → Nat
  | lookup place | operation place | call place => place

def isCall : Action → Bool
  | call _ => true
  | _ => false

end Action

mutual

/-- An expression with its places. -/
inductive PlacedExpression where
  | literal (value : Primitive)
  | reference (first : PlacedSegment) (others : List PlacedSegment)
  | list (isMutable : Bool) (items : List PlacedExpression)
  /-- Both operands come with the places where they end. -/
  | binary (left : PlacedExpression) (leftEnd : Nat) (operator : Operator)
      (right : PlacedExpression) (rightEnd : Nat)

/-- A step of a path with the place where it begins and, if it is a call, the place behind the
bracket that closes it. -/
inductive PlacedSegment where
  | property (place : Nat) (name : String)
  | call (place : Nat) (name : String) (arguments : List PlacedExpression) (silent indexed : Bool)
      (closed : Nat)

end

instance : Inhabited PlacedExpression := ⟨.literal default⟩

mutual

/-- The bare expression. -/
def PlacedExpression.erase : PlacedExpression → Expression
  | .literal value => .literal value
  | .reference first others => .reference (first.erase :: PlacedSegment.eraseAll others)
  | .list isMutable items => .list isMutable (PlacedExpression.eraseAll items)
  | .binary left _ operator right _ => .binary left.erase operator right.erase

def PlacedExpression.eraseAll : List PlacedExpression → List Expression
  | [] => []
  | expression :: expressions => expression.erase :: PlacedExpression.eraseAll expressions

/-- The bare step of a path. -/
def PlacedSegment.erase : PlacedSegment → Segment
  | .property _ name => .property name
  | .call _ name arguments silent indexed _ =>
      .call name (PlacedExpression.eraseAll arguments) silent indexed

def PlacedSegment.eraseAll : List PlacedSegment → List Segment
  | [] => []
  | segment :: path => segment.erase :: PlacedSegment.eraseAll path

end

theorem PlacedSegment.eraseAll_append (path others : List PlacedSegment) :
    eraseAll (path ++ others) = eraseAll path ++ eraseAll others := by
  induction path with
  | nil => rfl
  | cons segment path induction => exact congrArg (segment.erase :: ·) induction

mutual

/-- What the evaluation of an expression does if nothing fails. -/
def PlacedExpression.actions : PlacedExpression → List Action
  | .literal _ => []
  | .reference first others => first.actions ++ PlacedSegment.allActions others
  | .list _ items => PlacedExpression.allActions items
  | .binary left leftEnd _ right rightEnd =>
      left.actions ++ ([.operation leftEnd] ++ (right.actions ++ [.operation rightEnd]))

def PlacedExpression.allActions : List PlacedExpression → List Action
  | [] => []
  | expression :: expressions => expression.actions ++ PlacedExpression.allActions expressions

/-- What is done to take a step of a path if nothing fails. -/
def PlacedSegment.actions : PlacedSegment → List Action
  | .property place _ => [.lookup place]
  | .call place _ arguments _ _ closed =>
      [.lookup place] ++ (PlacedExpression.allActions arguments ++ [.call closed])

def PlacedSegment.allActions : List PlacedSegment → List Action
  | [] => []
  | segment :: path => segment.actions ++ PlacedSegment.allActions path

end

theorem PlacedSegment.allActions_append (path others : List PlacedSegment) :
    allActions (path ++ others) = allActions path ++ allActions others := by
  induction path with
  | nil => rfl
  | cons segment path induction =>
      change segment.actions ++ allActions (path ++ others) = _
      rw [induction, ← List.append_assoc]
      rfl

/-- Operands with the places where they end, and what waits between them, last first. -/
structure PlacedStack where
  operands : List (PlacedExpression × Nat) := []
  waiting : List Waiting := []

namespace PlacedStack

def combine (operator : Operator) :
    List (PlacedExpression × Nat) → Option (List (PlacedExpression × Nat))
  | (right, rightEnd) :: (left, leftEnd) :: operands =>
      some ((.binary left leftEnd operator right rightEnd, rightEnd) :: operands)
  | _ => none

def pushOperand (stack : PlacedStack) (operand : PlacedExpression) (finish : Nat) : PlacedStack :=
  { stack with operands := (operand, finish) :: stack.operands }

def openGroup (stack : PlacedStack) : PlacedStack :=
  { stack with waiting := .group :: stack.waiting }

def closeFrom : List Waiting → List (PlacedExpression × Nat) → Option PlacedStack
  | [], operands => some ⟨operands, []⟩
  | .group :: waiting, operands => some ⟨operands, waiting⟩
  | .operator operator :: waiting, operands => do
      closeFrom waiting (← combine operator operands)

def closeGroup? (stack : PlacedStack) : Option PlacedStack :=
  closeFrom stack.waiting stack.operands

def pushFrom (operator : Operator) :
    List Waiting → List (PlacedExpression × Nat) → Option PlacedStack
  | .operator top :: waiting, operands =>
      if operator.precedence < top.precedence then
        some ⟨operands, .operator operator :: .operator top :: waiting⟩
      else do
        pushFrom operator waiting (← combine top operands)
  | waiting, operands => some ⟨operands, .operator operator :: waiting⟩

def pushOperator? (stack : PlacedStack) (operator : Operator) : Option PlacedStack :=
  pushFrom operator stack.waiting stack.operands

def finishFrom : List Waiting → List (PlacedExpression × Nat) → Option PlacedExpression
  | [], [(expression, _)] => some expression
  | [], _ => none
  | .group :: waiting, operands => finishFrom waiting operands
  | .operator operator :: waiting, operands => do
      finishFrom waiting (← combine operator operands)

def finish? (stack : PlacedStack) : Option PlacedExpression :=
  finishFrom stack.waiting stack.operands

/-- The bare operands. -/
def eraseOperands (operands : List (PlacedExpression × Nat)) : List Expression :=
  operands.map fun operand => operand.1.erase

/-- The bare stack. -/
def erase (stack : PlacedStack) : OperatorStack :=
  ⟨eraseOperands stack.operands, stack.waiting⟩

theorem erase_combine (operator : Operator) (operands : List (PlacedExpression × Nat)) :
    (combine operator operands).map eraseOperands =
      OperatorStack.combine operator (eraseOperands operands) := by
  match operands with
  | [] => rfl
  | [_] => rfl
  | _ :: _ :: _ => rfl

theorem erase_closeFrom (waiting : List Waiting) (operands : List (PlacedExpression × Nat)) :
    (closeFrom waiting operands).map erase =
      OperatorStack.closeFrom waiting (eraseOperands operands) := by
  induction waiting generalizing operands with
  | nil => rfl
  | cons top waiting induction =>
      cases top with
      | group => rfl
      | operator operator =>
          rw [closeFrom, OperatorStack.closeFrom, ← erase_combine]
          cases combine operator operands with
          | none => rfl
          | some combined => exact induction combined

theorem erase_pushFrom (operator : Operator) (waiting : List Waiting)
    (operands : List (PlacedExpression × Nat)) :
    (pushFrom operator waiting operands).map erase =
      OperatorStack.pushFrom operator waiting (eraseOperands operands) := by
  induction waiting generalizing operands with
  | nil => rfl
  | cons top waiting induction =>
      cases top with
      | group => rfl
      | operator top =>
          rw [pushFrom, OperatorStack.pushFrom, ← erase_combine]
          split
          · rfl
          · cases combine top operands with
            | none => rfl
            | some combined => exact induction combined

theorem erase_finishFrom (waiting : List Waiting) (operands : List (PlacedExpression × Nat)) :
    (finishFrom waiting operands).map PlacedExpression.erase =
      OperatorStack.finishFrom waiting (eraseOperands operands) := by
  induction waiting generalizing operands with
  | nil =>
      match operands with
      | [] => rfl
      | [_] => rfl
      | _ :: _ :: _ => rfl
  | cons top waiting induction =>
      cases top with
      | group => exact induction operands
      | operator operator =>
          rw [finishFrom, OperatorStack.finishFrom, ← erase_combine]
          cases combine operator operands with
          | none => rfl
          | some combined => exact induction combined

variable (stack : PlacedStack)

theorem erase_closeGroup? : stack.erase.closeGroup? = stack.closeGroup?.map erase :=
  (erase_closeFrom stack.waiting stack.operands).symm

theorem erase_pushOperator? (operator : Operator) :
    stack.erase.pushOperator? operator = (stack.pushOperator? operator).map erase :=
  (erase_pushFrom operator stack.waiting stack.operands).symm

theorem erase_finish? : stack.erase.finish? = stack.finish?.map PlacedExpression.erase :=
  (erase_finishFrom stack.waiting stack.operands).symm

end PlacedStack

namespace PlacedGrammar

open Stencil.Parser

def argumentsFrom (nested : Parser Cursor (Option PlacedExpression)) :
    Nat → Parser Cursor (List PlacedExpression)
  | 0 => return []
  | fuel + 1 => do
      let argument ← require "an argument" (← nested)
      let _ ← scan Scan.skipSpaces
      if ← scan (Scan.accept ',') then return argument :: (← argumentsFrom nested fuel)
      else if ← scan (Scan.accept ')') then return [argument]
      else fail (.expected "`,` or `)` after an argument")

def arguments (nested : Parser Cursor (Option PlacedExpression)) :
    Parser Cursor (List PlacedExpression) := do
  let _ ← scan Scan.skipSpaces
  if ← scan (Scan.accept ')') then return []
  else argumentsFrom nested ((← scan Scan.remaining) + 1)

def indexes (nested : Parser Cursor (Option PlacedExpression)) :
    Nat → Parser Cursor (List PlacedSegment)
  | 0 => return []
  | fuel + 1 => do
      let place ← scan Scan.pointer
      if ← scan (Scan.accept '[') then
        let _ ← scan Scan.skipSpaces
        let index ← require "an index expression" (← nested)
        expectSymbol ']'
        let closed ← scan Scan.pointer
        return .call place "get" [index] false true closed :: (← indexes nested fuel)
      else return []

def namedSegment (nested : Parser Cursor (Option PlacedExpression)) (silent : Bool) :
    Parser Cursor PlacedSegment := do
  let place ← scan Scan.pointer
  let name ← scan (Scan.takeWhile isNamePart)
  if ← scan (Scan.accept '(') then
    let arguments ← arguments nested
    return .call place name arguments silent false (← scan Scan.pointer)
  else return .property place name

/-- The first segment of a path and the others, given how to read those behind a point. -/
def segmentsWith (nested : Parser Cursor (Option PlacedExpression))
    (later : Bool → Parser Cursor (List PlacedSegment)) (silent : Bool) :
    Parser Cursor (PlacedSegment × List PlacedSegment) := do
  let segment ← namedSegment nested silent
  let followers ← indexes nested ((← scan Scan.remaining) + 1)
  if ← scan Grammar.acceptPoint then
    let silent ← scan (Scan.accept '@')
    if ← scan (Scan.currentIs isNameInitial) then
      return (segment, followers ++ (← later silent))
    else fail (.expected "a property name")
  else return (segment, followers)

def segmentsFrom (nested : Parser Cursor (Option PlacedExpression)) :
    Nat → Bool → Parser Cursor (List PlacedSegment)
  | 0, _ => return []
  | fuel + 1, silent => do
      let (first, others) ← segmentsWith nested (segmentsFrom nested fuel) silent
      return first :: others

def path? (nested : Parser Cursor (Option PlacedExpression)) :
    Parser Cursor (Option (PlacedSegment × List PlacedSegment)) := do
  let place ← scan Scan.pointer
  let silent ← scan (Scan.accept '@')
  if ← scan (Scan.currentIs isNameInitial) then
    return some (← segmentsWith nested (segmentsFrom nested (← scan Scan.remaining)) silent)
  else if silent then fail (.expected "a property name")
  else
    scan (Scan.returnTo place)
    return none

def reference? (nested : Parser Cursor (Option PlacedExpression)) :
    Parser Cursor (Option (PlacedSegment × List PlacedSegment)) := do
  let opened ←
    if ← scan (Scan.acceptText "@var(") then pure true else scan (Scan.acceptText "@const(")
  if opened then
    let _ ← scan Scan.skipSpaces
    let path ← require "a reference" (← path? nested)
    expectSymbol ')'
    return some path
  else return none

def list? (nested : Parser Cursor (Option PlacedExpression)) :
    Parser Cursor (Option PlacedExpression) := do
  if ← scan (Scan.acceptText "@list(") then return some (.list false (← arguments nested))
  else if ← scan (Scan.acceptText "@mutable_list(") then
    return some (.list true (← arguments nested))
  else return none

def markedOperand? (nested : Parser Cursor (Option PlacedExpression)) :
    Parser Cursor (Option PlacedExpression) := do
  match ← reference? nested with
  | some (first, others) => return some (.reference first others)
  | none => list? nested

def plainOperand? (nested : Parser Cursor (Option PlacedExpression)) :
    Parser Cursor (Option PlacedExpression) := do
  if let some text ← Literal.string? then return some (.literal (.string text))
  if let some character ← Literal.char? then return some (.literal (.char character))
  if let some number ← scan Literal.number? then return some (.literal number)
  if let some truth ← scan Literal.boolean? then return some (.literal (.boolean truth))
  return (← path? nested).map fun path => .reference path.1 path.2

def operand? (nested : Parser Cursor (Option PlacedExpression)) :
    Parser Cursor (Option PlacedExpression) := do
  if (← scan Scan.current) == some '@' then markedOperand? nested else plainOperand? nested

def closeGroups : Nat → PlacedStack → Parser Cursor (PlacedStack × Nat)
  | 0, stack => return (stack, 0)
  | opened + 1, stack => do
      let place ← scan Scan.pointer
      let _ ← scan Scan.skipSpaces
      if ← scan (Scan.accept ')') then
        closeGroups opened (← Grammar.wellFormed stack.closeGroup?)
      else
        scan (Scan.returnTo place)
        return (stack, opened + 1)

def expressionFrom (nested : Parser Cursor (Option PlacedExpression)) (start : Nat) :
    Nat → PlacedStack → Nat → Parser Cursor (Option PlacedExpression)
  | 0, _, _ => return none
  | fuel + 1, stack, opened => do
      let _ ← scan Scan.skipSpaces
      if ← scan (Scan.accept '(') then
        expressionFrom nested start fuel stack.openGroup (opened + 1)
      else
        match ← operand? nested with
        | none =>
            if stack.operands.isEmpty && opened == 0 then
              scan (Scan.returnTo start)
              return none
            else fail (.expected "a value")
        | some operand =>
            let finish ← scan Scan.pointer
            let (stack, opened) ← closeGroups opened (stack.pushOperand operand finish)
            match ← scan Grammar.operator? with
            | some operator =>
                expressionFrom nested start fuel
                  (← Grammar.wellFormed (stack.pushOperator? operator)) opened
            | none =>
                if opened = 0 then return some (← Grammar.wellFormed stack.finish?)
                else fail (.expected "`)` to close the expression")

def expressionWithin : Nat → Parser Cursor (Option PlacedExpression)
  | 0 => return none
  | depth + 1 => do
      let start ← scan Scan.pointer
      expressionFrom (expressionWithin depth) start ((← scan Scan.remaining) + 1) {} 0

/-- An expression with its places, if an operand begins here. -/
def expression? : Parser Cursor (Option PlacedExpression) := do
  expressionWithin ((← scan Scan.remaining) + 1)

end PlacedGrammar

end Stencil
