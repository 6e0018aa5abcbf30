import Stencil.Condition.Grammar
import Stencil.Directive.Body

/-!
# Loops

`@for(...) body @endfor`.  A name, perhaps with a second one, before a colon begins a loop over a
list; a name before a single equals sign begins a numbered loop; anything else is a condition.
-/

namespace Stencil.Directive

open Text Stencil.Parser

variable {σ : Type} [Source σ]

/-- The name of the index after the name of the element.  The outer answer is missing if a comma
is not followed by a name. -/
def indexName? : StateM σ (Option (Option String)) := do
  if ← Scan.accept ',' then
    let _ ← Scan.skipSpaces
    match ← name? with
    | none => return none
    | some index =>
        let _ ← Scan.skipSpaces
        return some (some index)
  else return some none

/-- The names and the colon that begin a loop over a list. -/
def elementNames? : StateM σ (Option (String × Option String)) := do
  match ← name? with
  | none => return none
  | some element =>
      let _ ← Scan.skipSpaces
      match ← indexName? with
      | none => return none
      | some index => if ← Scan.accept ':' then return some (element, index) else return none

/-- `element, index: iterable` -/
def iterableHeader? : Parser σ (Option LoopHeader) := do
  match ← scan elementNames? with
  | none => return none
  | some (element, index) =>
      let _ ← scan Scan.skipSpaces
      let iterable ← Grammar.expression "a list to iterate over"
      return some (.iterable element index iterable)

/-- The name and the equals sign that begin a numbered loop. -/
def counterName? : StateM σ (Option String) := do
  match ← name? with
  | none => return none
  | some name =>
      let _ ← Scan.skipSpaces
      if ← Scan.accept '=' then
        if (← Scan.current) == some '=' then return none else return some name
      else return none

/-- Requires the name of the counter again. -/
def expectCounter (name : String) : Parser σ Unit := do
  let _ ← scan Scan.skipSpaces
  if (← scan name?) == some name then return ()
  else fail (.expected s!"the loop variable `{name}`")

/-- The operator and the step that lead from one number to the next. -/
def counterStep : Parser σ (Operator × Expression) := do
  if ← scan (Scan.acceptText "++") then return (.plus, .literal (.int 1))
  else if ← scan (Scan.acceptText "--") then return (.minus, .literal (.int 1))
  else
    let operator ← require "a step operator"
      ((← scan Scan.current).bind Operator.ofSymbol?)
    let _ ← scan Scan.step
    let _ ← scan Scan.skipSpaces
    return (operator, ← Grammar.expression "a step value")

/-- `name = start; name comparison bound; name operator step` -/
def numberedHeader? : Parser σ (Option LoopHeader) := do
  match ← scan counterName? with
  | none => return none
  | some name =>
      let _ ← scan Scan.skipSpaces
      let start ← Grammar.expression "a start value"
      expectSymbol ';'
      expectCounter name
      let _ ← scan Scan.skipSpaces
      let comparison ← require "a comparison operator" (← scan Grammar.comparison?)
      let _ ← scan Scan.skipSpaces
      let bound ← Grammar.expression "a loop bound"
      expectSymbol ';'
      expectCounter name
      let _ ← scan Scan.skipSpaces
      let (operator, step) ← counterStep
      return some (.numbered name start comparison bound operator step)

/-- What stands between the parentheses of a loop. -/
def loopHeader : Parser σ LoopHeader := do
  let _ ← scan Scan.skipSpaces
  if let some header ← Scan.attempt iterableHeader? then return header
  if let some header ← Scan.attempt numberedHeader? then return header
  return .conditional (← require "a loop condition" (← Grammar.condition?))

/-- A loop. -/
def loop? (context : BlockContext) : DirectiveParser σ (Option Node) := do
  if ← DirectiveParser.scan (Scan.acceptText "@for(") then
    let header ← DirectiveParser.parse loopHeader
    DirectiveParser.parse (expectSymbol ')')
    let _ ← DirectiveParser.scan Scan.acceptBreak
    let (range, _) ← DirectiveParser.parse (bodyRange context.limit "@for(" ["@endfor"])
    let scope ← DirectiveParser.newScope context "for"
    let body ← newBody context range .loopBody scope some
    return some (.loop header body)
  else return none

end Stencil.Directive
