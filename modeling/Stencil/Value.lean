import Stencil.Primitive.Basic

/-!
# Values

A value is a primitive or refers to something on the heap: a list, an object or a function.  Copies
of a reference mean the same thing, so what is done through one is seen through all.  Whether a list
may change is part of its reference, so a kind can be told without the heap.
-/

namespace Stencil

/-- A scope or object on the heap. -/
structure ScopeRef where
  index : Nat
deriving DecidableEq, Repr, Inhabited

/-- The scope that everything else is inside of. -/
def ScopeRef.global : ScopeRef := ⟨0⟩

/-- A list on the heap: where its elements are, and whether they may be changed through this
reference. -/
structure ListRef where
  isMutable : Bool
  index : Nat
deriving DecidableEq, Repr, Inhabited

/-- A function on the heap. -/
structure FunctionRef where
  index : Nat
deriving DecidableEq, Repr, Inhabited

/-- What a name can be bound to. -/
inductive Value where
  | primitive (value : Primitive)
  | list (reference : ListRef)
  | object (scope : ScopeRef)
  | function (function : FunctionRef)
deriving DecidableEq

namespace Value

instance : Inhabited Value := ⟨.primitive default⟩

def kind : Value → Kind
  | primitive value => value.kind
  | list reference => if reference.isMutable then .mutableList else .list
  | object _ => .object
  | function _ => .function

abbrev int (value : Int32) : Value := primitive (.int value)

abbrev long (value : Int64) : Value := primitive (.long value)

abbrev double (value : Float) : Value := primitive (.double value)

abbrev char (value : Char) : Value := primitive (.char value)

abbrev boolean (value : Bool) : Value := primitive (.boolean value)

abbrev string (value : String) : Value := primitive (.string value)

/-- The number of an int value. -/
def int? : Value → Option Int32
  | primitive (.int value) => some value
  | _ => none

/-- The truth of a boolean value. -/
def boolean? : Value → Option Bool
  | primitive (.boolean value) => some value
  | _ => none

/-- The text of a string value. -/
def string? : Value → Option String
  | primitive (.string value) => some value
  | _ => none

end Value

end Stencil
