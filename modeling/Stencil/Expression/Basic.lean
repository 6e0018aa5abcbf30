import Stencil.Operator
import Stencil.Primitive.Basic

/-!
# Expressions and paths

An expression is a literal, a reference, a list or an operator between two expressions.  A path
leads from a name in scope through members and calls to a value.
-/

namespace Stencil

mutual

/-- What a directive computes with. -/
inductive Expression where
  | literal (value : Primitive)
  | reference (path : List Segment)
  | list (isMutable : Bool) (items : List Expression)
  | binary (left : Expression) (operator : Operator) (right : Expression)

/-- One step of a path. -/
inductive Segment where
  | property (name : String)
  /-- A call; an index is a call of `get`, and the result of a silent call is not written. -/
  | call (name : String) (arguments : List Expression) (silent indexed : Bool)

end

instance : Inhabited Expression := ⟨.literal default⟩

/-- A reference that is followed segment by segment. -/
abbrev Path := List Segment

/-- Whether the last segment is a silent call. -/
def Path.isSilent (path : Path) : Bool :=
  match path.getLast? with
  | some (.call _ _ silent _) => silent
  | _ => false

end Stencil
