/-!
# Placeholder keys

Placeholders are known by a name and a definition.  The default definition of a name is the name
itself, and messages then leave it out.
-/

namespace Stencil

/-- What a placeholder is known by. -/
structure Placeholder.Key where
  name : String
  definition : String
deriving DecidableEq, Repr

namespace Placeholder.Key

/-- The default definition of a name. -/
def default (name : String) : Placeholder.Key := ⟨name, name⟩

/-- The key as messages write it. -/
def render (key : Placeholder.Key) : String :=
  if key.name = key.definition then key.name else s!"{key.name}/{key.definition}"

end Placeholder.Key

end Stencil
