import Stencil.Heap.Scope

/-!
# Equality and comparison of values

Primitives are equal by kind and value, lists when they are one list or equal element by element,
objects and functions when they are one.  Comparing two objects with `==` looks at their entries
instead, in any order, and calls two objects without entries unequal.
-/

namespace Stencil

namespace Heap

/-- Equality of values that are nested at most `depth` deep. -/
def equalWithin (heap : Heap) : Nat → Value → Value → Bool
  | 0, _, _ => false
  | depth + 1, left, right =>
      match left, right with
      | .primitive left, .primitive right => left.equal right
      | .list left, .list right =>
          left.index = right.index ||
            (heap.items left).isEqv (heap.items right) (equalWithin heap depth)
      | .object left, .object right => left = right
      | .function left, .function right => left = right
      | _, _ => false

/-- A bound on how deep pairs of values can be nested when no pair contains itself. -/
def pairBound (heap : Heap) : Nat :=
  heap.depthBound * heap.depthBound

/-- Equality of values. -/
def equal (heap : Heap) (left right : Value) : Bool :=
  heap.equalWithin heap.pairBound left right

/-- Whether every entry of one dictionary has an equal one in the other. -/
def entriesWithin (heap : Heap) (left right : Dictionary String Value) : Bool :=
  left.entries.all fun entry => (right.get? entry.1).any fun value => heap.equal entry.2 value

/-- The ordering of two objects: equal or less. -/
def objectOrder (heap : Heap) (left right : ScopeRef) : Ordering :=
  let leftEntries := heap.entries left
  let rightEntries := heap.entries right
  if leftEntries.isEmpty && rightEntries.isEmpty then .lt
  else if leftEntries.size = rightEntries.size && heap.entriesWithin leftEntries rightEntries then
    .eq
  else .lt

/-- The ordering of two values that are not both primitive: equal or less. -/
def valueOrder (heap : Heap) (left right : Value) : Ordering :=
  match left, right with
  | .object left, .object right => heap.objectOrder left right
  | _, _ => if heap.equal left right then .eq else .lt

end Heap

end Stencil
