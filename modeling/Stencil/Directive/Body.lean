import Stencil.Directive.Parser

/-!
# Bodies of directives

The body of a directive reaches to the keyword that closes it.  It is found by a search for keywords
alone and becomes a block that is parsed later.  One space or newline in front of the closing
keyword is not part of the body.
-/

namespace Stencil.Directive

open Text Stencil.Parser Stencil.DirectiveParser

variable {σ : Type} [Source σ]

/-- A range of a source. -/
structure BodyRange where
  start : Nat
  length : Nat
deriving DecidableEq, Repr

/-- Whether a space or a newline stands right before the place. -/
def afterBreak : StateM σ Bool := do
  if ← Scan.isAfter ' ' then return true else Scan.isAfter '\n'

/-- Bytes of a body that ends at the place. -/
def bodyLength (start : Nat) : StateM σ Nat := do
  let length := (← Scan.pointer) - start
  if length = 0 then return 0
  else if ← afterBreak then return length - 1
  else return length

/-- Finds the end of the body that begins here and consumes the keyword that closes it; answers the
range of the body and the index of the keyword.  The last keyword ends the directive. -/
def bodyRange (limit : Nat) (opening : String) (keywords : List String) :
    Parser σ (BodyRange × Nat) := do
  let start ← scan Scan.pointer
  let found ← scan (Scan.closingKeyword? opening keywords)
  match found with
  | some index =>
      if (← scan Scan.pointer) < limit then
        let length ← scan (bodyLength start)
        let _ ← scan (Scan.acceptText (keywords.getD index ""))
        return (⟨start, length⟩, index)
      else fail (.missingTerminator (keywords.getLastD ""))
  | none => fail (.missingTerminator (keywords.getLastD ""))

/-- Makes the block of a body whose closing keyword was just consumed. -/
def newBody (context : BlockContext) (range : BodyRange) (role : BlockRole) (scope : ScopeRef)
    (enclosingLoop : BlockRef → Option BlockRef) : DirectiveParser σ BlockRef := do
  let finish ← DirectiveParser.scan Scan.pointer
  newBlock fun id =>
    { source := context.source, start := range.start, length := range.length, finish, scope, role,
      enclosingLoop := enclosingLoop id }

end Stencil.Directive
