import Stencil.Condition.Grammar
import Stencil.Directive.Body

/-!
# Branches

`@if(...) body` with any number of `@elseif(...) body`, at most one `@else body` after them, and
`@endif`.
-/

namespace Stencil.Directive

open Text Stencil.Parser

variable {σ : Type} [Source σ]

/-- The condition of a branch, its closing parenthesis and a break. -/
def branchCondition : Parser σ Condition := do
  let _ ← scan Scan.skipSpaces
  let condition ← require "a condition" (← Grammar.condition?)
  expectSymbol ')'
  let _ ← scan Scan.acceptBreak
  return condition

/-- What can close the body of a branch. -/
def branchKeywords : List String := ["@elseif(", "@else", "@endif"]

/-- The body of a branch and the index of the keyword that closes it. -/
def branchBody (context : BlockContext) : DirectiveParser σ (BlockRef × Nat) := do
  let (range, found) ← DirectiveParser.parse (bodyRange context.limit "@if(" branchKeywords)
  let scope ← DirectiveParser.newScope context "if"
  let body ← newBody context range .branch scope fun _ => context.enclosingLoop
  return (body, found)

/-- The body after `@else`, which must be the last one. -/
def lastBody (context : BlockContext) : DirectiveParser σ BlockRef := do
  let _ ← DirectiveParser.scan Scan.acceptBreak
  let (body, found) ← branchBody context
  if found < 2 then DirectiveParser.parse (fail .branchAfterElse) else return body

/-- The bodies from the one of a condition on. -/
def branchesFrom (context : BlockContext) :
    Nat → Condition → DirectiveParser σ (List (Condition × BlockRef) × Option BlockRef)
  | 0, _ => return ([], none)
  | fuel + 1, condition => do
      let (body, found) ← branchBody context
      match found with
      | 0 =>
          let next ← DirectiveParser.parse branchCondition
          let (conditions, otherwise) ← branchesFrom context fuel next
          return ((condition, body) :: conditions, otherwise)
      | 1 => return ([(condition, body)], some (← lastBody context))
      | _ => return ([(condition, body)], none)

/-- Branches, after the opening of the first one. -/
def branches (context : BlockContext) : DirectiveParser σ Node := do
  let condition ← DirectiveParser.parse branchCondition
  let fuel ← DirectiveParser.scan Scan.remaining
  let (conditions, otherwise) ← branchesFrom context (fuel + 1) condition
  return .branches conditions otherwise

end Stencil.Directive
