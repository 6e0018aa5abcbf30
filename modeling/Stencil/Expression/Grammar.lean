import Stencil.Expression.Literal
import Stencil.Expression.OperatorStack

/-!
# The grammar of expressions and paths

The parsers of arguments, indexes and operands take the parser of nested expressions as a parameter;
`expressionWithin` ties the knot, one level of brackets at a time.  Every nested expression stands
behind a bracket, so the characters that are left bound the levels.
-/

namespace Stencil.Grammar

open Text Stencil.Parser

variable {σ : Type} [Source σ]

/-- The arguments after the opening parenthesis of a call, up to the closing one. -/
def argumentsFrom (nested : Parser σ (Option Expression)) : Nat → Parser σ (List Expression)
  | 0 => return []
  | fuel + 1 => do
      let argument ← require "an argument" (← nested)
      let _ ← scan Scan.skipSpaces
      if ← scan (Scan.accept ',') then return argument :: (← argumentsFrom nested fuel)
      else if ← scan (Scan.accept ')') then return [argument]
      else fail (.expected "`,` or `)` after an argument")

/-- What stands between the parentheses of a call. -/
def arguments (nested : Parser σ (Option Expression)) : Parser σ (List Expression) := do
  let _ ← scan Scan.skipSpaces
  if ← scan (Scan.accept ')') then return []
  else argumentsFrom nested ((← scan Scan.remaining) + 1)

/-- The indexes after a name or a call. -/
def indexes (nested : Parser σ (Option Expression)) : Nat → Parser σ (List Segment)
  | 0 => return []
  | fuel + 1 => do
      if ← scan (Scan.accept '[') then
        let _ ← scan Scan.skipSpaces
        let index ← require "an index expression" (← nested)
        expectSymbol ']'
        return .call "get" [index] false true :: (← indexes nested fuel)
      else return []

/-- A name or a call, after the mark of silent calls. -/
def namedSegment (nested : Parser σ (Option Expression)) (silent : Bool) :
    Parser σ Segment := do
  let name ← scan (Scan.takeWhile isNamePart)
  if ← scan (Scan.accept '(') then
    return .call name (← arguments nested) silent false
  else return .property name

/-- A point with a name after it; a point without one is left alone. -/
def acceptPoint : StateM σ Bool := do
  let place ← Scan.pointer
  if ← Scan.accept '.' then
    if ← Scan.currentIs fun character => character == '@' || isNameInitial character then
      return true
    else
      Scan.returnTo place
      return false
  else return false

/-- The segments of a path from one of them on. -/
def segmentsFrom (nested : Parser σ (Option Expression)) (silent : Bool) :
    Nat → Parser σ (List Segment)
  | 0 => return []
  | fuel + 1 => do
      let segment ← namedSegment nested silent
      let followers ← indexes nested ((← scan Scan.remaining) + 1)
      if ← scan acceptPoint then
        let silent ← scan (Scan.accept '@')
        if ← scan (Scan.currentIs isNameInitial) then
          return segment :: followers ++ (← segmentsFrom nested silent fuel)
        else fail (.expected "a property name")
      else return segment :: followers

/-- A path, if a name or the mark of a silent call begins here. -/
def path? (nested : Parser σ (Option Expression)) : Parser σ (Option Path) := do
  let place ← scan Scan.pointer
  let silent ← scan (Scan.accept '@')
  if ← scan (Scan.currentIs isNameInitial) then
    return some (← segmentsFrom nested silent ((← scan Scan.remaining) + 1))
  else if silent then fail (.expected "a property name")
  else
    scan (Scan.returnTo place)
    return none

/-- A path in `@var(...)` or `@const(...)`. -/
def reference? (nested : Parser σ (Option Expression)) : Parser σ (Option Path) := do
  let opened ←
    if ← scan (Scan.acceptText "@var(") then pure true else scan (Scan.acceptText "@const(")
  if opened then
    let _ ← scan Scan.skipSpaces
    let path ← require "a reference" (← path? nested)
    expectSymbol ')'
    return some path
  else return none

/-- A list in `@list(...)` or `@mutable_list(...)`. -/
def list? (nested : Parser σ (Option Expression)) : Parser σ (Option Expression) := do
  if ← scan (Scan.acceptText "@list(") then return some (.list false (← arguments nested))
  else if ← scan (Scan.acceptText "@mutable_list(") then
    return some (.list true (← arguments nested))
  else return none

/-- An operand that begins with the mark of directives. -/
def markedOperand? (nested : Parser σ (Option Expression)) : Parser σ (Option Expression) := do
  match ← reference? nested with
  | some path => return some (.reference path)
  | none => list? nested

/-- An operand that begins with no mark: a literal or a path. -/
def plainOperand? (nested : Parser σ (Option Expression)) : Parser σ (Option Expression) := do
  if let some text ← Literal.string? then return some (.literal (.string text))
  if let some character ← Literal.char? then return some (.literal (.char character))
  if let some number ← scan Literal.number? then return some (.literal number)
  if let some truth ← scan Literal.boolean? then return some (.literal (.boolean truth))
  return (← path? nested).map .reference

/-- An operand of an operator. -/
def operand? (nested : Parser σ (Option Expression)) : Parser σ (Option Expression) := do
  if (← scan Scan.current) == some '@' then markedOperand? nested else plainOperand? nested

/-- Requires that the stacks hold what an operator needs. -/
def wellFormed {α : Type} (found : Option α) : Parser σ α :=
  match found with
  | some found => return found
  | none => fail .malformedExpression

/-- Closes as many of the open groups as parentheses follow; answers how many stay open. -/
def closeGroups : Nat → OperatorStack → Parser σ (OperatorStack × Nat)
  | 0, stack => return (stack, 0)
  | opened + 1, stack => do
      let place ← scan Scan.pointer
      let _ ← scan Scan.skipSpaces
      if ← scan (Scan.accept ')') then closeGroups opened (← wellFormed stack.closeGroup?)
      else
        scan (Scan.returnTo place)
        return (stack, opened + 1)

/-- The operator that follows after spaces; if none does, the spaces are left alone. -/
def operator? : StateM σ (Option Operator) := do
  let place ← Scan.pointer
  let _ ← Scan.skipSpaces
  match (← Scan.current).bind Operator.ofSymbol? with
  | some operator =>
      let _ ← Scan.step
      return some operator
  | none =>
      Scan.returnTo place
      return none

/-- Reads an expression on from where an operand is due. -/
def expressionFrom (nested : Parser σ (Option Expression)) (start : Nat) :
    Nat → OperatorStack → Nat → Parser σ (Option Expression)
  | 0, _, _ => return none
  | fuel + 1, stack, opened => do
      let _ ← scan Scan.skipSpaces
      if ← scan (Scan.accept '(') then
        expressionFrom nested start fuel stack.openGroup (opened + 1)
      else
        match ← operand? nested with
        | none =>
            if stack.operands.isEmpty && opened == 0 then
              scan (Scan.returnTo start)
              return none
            else fail (.expected "a value")
        | some operand =>
            let (stack, opened) ← closeGroups opened (stack.pushOperand operand)
            match ← scan operator? with
            | some operator =>
                expressionFrom nested start fuel (← wellFormed (stack.pushOperator? operator))
                  opened
            | none =>
                if opened = 0 then return some (← wellFormed stack.finish?)
                else fail (.expected "`)` to close the expression")

/-- An expression whose brackets are nested at most `depth` deep. -/
def expressionWithin : Nat → Parser σ (Option Expression)
  | 0 => return none
  | depth + 1 => do
      let start ← scan Scan.pointer
      expressionFrom (expressionWithin depth) start ((← scan Scan.remaining) + 1) {} 0

/-- An expression, if an operand begins here.  Spaces after it are left alone. -/
def expression? : Parser σ (Option Expression) := do
  expressionWithin ((← scan Scan.remaining) + 1)

/-- An expression that must begin here. -/
def expression (what : String) : Parser σ Expression := do
  require what (← expression?)

/-- A path in `@var(...)` or `@const(...)`. -/
def reference : Parser σ (Option Path) :=
  reference? expression?

end Stencil.Grammar
