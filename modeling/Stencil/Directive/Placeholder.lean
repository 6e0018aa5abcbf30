import Stencil.Directive.Body
import Stencil.Expression.Grammar

/-!
# Placeholder directives

`@define_placeholder(name, definition, parameter) body @end_define_placeholder`,
`@placeholder(name, argument)` and `@use_placeholder(name, definition)`.
-/

namespace Stencil.Directive

open Text Stencil.Parser

variable {σ : Type} [Source σ]

/-- At most so many further names, each after a comma. -/
def furtherNames : Nat → Parser σ (List String)
  | 0 => do
      let _ ← scan Scan.skipSpaces
      if ← scan (Scan.accept ',') then fail .tooManyPlaceholderNames else return []
  | allowed + 1 => do
      let _ ← scan Scan.skipSpaces
      if ← scan (Scan.accept ',') then
        let name ← expectName "a name"
        return name :: (← furtherNames allowed)
      else return []

/-- A placeholder definition, after its opening. -/
def definition (context : BlockContext) : DirectiveParser σ Node := do
  let name ← DirectiveParser.parse (expectName "a placeholder name")
  let further ← DirectiveParser.parse (furtherNames 2)
  DirectiveParser.parse (expectSymbol ')')
  let _ ← DirectiveParser.scan Scan.acceptBreak
  let (range, _) ← DirectiveParser.parse
    (bodyRange context.limit "@define_placeholder(" ["@end_define_placeholder"])
  let _ ← DirectiveParser.scan Scan.acceptBreak
  let scope ← DirectiveParser.newScope context s!"placeholder {name}"
  let body ← newBody context range .placeholder scope fun _ => none
  return .definePlaceholder ⟨name, further.headD name⟩ further[1]? body

/-- The use of the default definition with an optional argument, after its opening. -/
def defaultUse : Parser σ Node := do
  let name ← expectName "a placeholder name"
  let _ ← scan Scan.skipSpaces
  let argument ←
    if ← scan (Scan.accept ',') then
      let _ ← scan Scan.skipSpaces
      pure (some (← Grammar.expression "a placeholder argument"))
    else pure none
  expectSymbol ')'
  return .usePlaceholder (.default name) argument

/-- The use of a definition, after its opening. -/
def definitionUse : Parser σ Node := do
  let name ← expectName "a placeholder name"
  let _ ← scan Scan.skipSpaces
  let definition ←
    if ← scan (Scan.accept ',') then expectName "a definition name" else pure name
  expectSymbol ')'
  return .usePlaceholder ⟨name, definition⟩ none

/-- A directive on placeholders. -/
def placeholder? (context : BlockContext) : DirectiveParser σ (Option Node) := do
  if ← DirectiveParser.scan (Scan.acceptText "@define_placeholder(") then
    return some (← definition context)
  else if ← DirectiveParser.scan (Scan.acceptText "@placeholder(") then
    return some (← DirectiveParser.parse defaultUse)
  else if ← DirectiveParser.scan (Scan.acceptText "@use_placeholder(") then
    return some (← DirectiveParser.parse definitionUse)
  else return none

end Stencil.Directive
