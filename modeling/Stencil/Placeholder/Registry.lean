import Stencil.Dictionary
import Stencil.Directive.Block

/-!
# The registry of placeholders

Placeholders in the order in which their keys were first defined.  A value that is no string is
written through the default placeholder of its kind; the ones that a render begins with write the
text of the value.
-/

namespace Stencil

/-- The body of a placeholder and the name that its argument is bound to. -/
structure Placeholder where
  body : BlockRef
  parameter? : Option String
deriving DecidableEq, Repr

/-- The name of the argument of a placeholder that states none. -/
def Placeholder.defaultParameter : String := "__param__"

/-- The name that the argument is bound to. -/
def Placeholder.parameter (placeholder : Placeholder) : String :=
  placeholder.parameter?.getD Placeholder.defaultParameter

/-- Placeholders by key. -/
abbrev Placeholder.Registry := Dictionary Placeholder.Key Placeholder

/-- The kinds whose values are written through a placeholder from the beginning. -/
def placeholderKinds : List Kind :=
  [.int, .long, .double, .char, .boolean, .list, .mutableList, .object, .function]

/-- The body of the placeholder that a kind begins with. -/
def defaultBody : Kind → String
  | .list | .mutableList => "@var(__param__.joinToString())"
  | _ => "@var(__param__.toString())"

end Stencil
