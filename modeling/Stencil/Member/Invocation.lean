import Stencil.Heap.Display
import Stencil.Heap.List
import Stencil.Member.Conversion

/-!
# Calls of members

A member first looks at its arguments and then at its receiver.  Only `add` and `remove` change the
heap, and a call that fails changes nothing.
-/

namespace Stencil

/-- Whether a text occurs in another one. -/
def occursIn (part : List Char) : List Char → Bool
  | [] => part.isEmpty
  | character :: characters =>
      part.isPrefixOf (character :: characters) || occursIn part characters

namespace Member

/-- The error of a member that the receiver does not have. -/
def undefinedFor (member : Member) (receiver : Value) : TemplateError :=
  .type (.memberUndefined member.name receiver.kind)

/-- Requires that the receiver has what a member needs. -/
def require {α : Type} (member : Member) (receiver : Value) : Option α → Except TemplateError α
  | some found => .ok found
  | none => .error (member.undefinedFor receiver)

/-- Requires an exact number of arguments. -/
def expectCount (member : Member) (arguments : List Value) (count : Nat) :
    Except TemplateError Unit :=
  if arguments.length = count then .ok ()
  else .error (.arity member.name (.exactly count) arguments.length)

/-- The only argument of a call. -/
def onlyArgument (member : Member) : List Value → Except TemplateError Value
  | [argument] => .ok argument
  | arguments => .error (.arity member.name (.exactly 1) arguments.length)

/-- The primitive of a value. -/
def primitive? : Value → Option Primitive
  | .primitive value => some value
  | _ => none

/-- The list of a value. -/
def list? : Value → Option ListRef
  | .list reference => some reference
  | _ => none

/-- The place that an index argument names. -/
def indexOfArgument (argument : Value) : Except TemplateError Nat :=
  match argument.int? with
  | some index =>
      if 0 ≤ index.toInt then .ok index.toInt.toNat
      else .error (.reference (.indexOutOfBounds index.toInt))
  | none => .error (.type (.indexNotInt argument.kind))

/-- Number of characters of a string or of elements of a list. -/
def sizeOf? (heap : Heap) : Value → Option Nat
  | .primitive (.string text) => some text.length
  | .list reference => some (heap.items reference).length
  | _ => none

/-- The characters of a string or the elements of a list. -/
def elements? (heap : Heap) : Value → Option (List Value)
  | .primitive (.string text) => some (text.toList.map .char)
  | .list reference => some (heap.items reference)
  | _ => none

/-- The text that is looked for in a string. -/
def needle (argument : Value) : Except TemplateError (List Char) :=
  match argument with
  | .primitive (.string text) => .ok text.toList
  | .primitive (.char character) => .ok [character]
  | _ => .error (.type (.stringCannotContain argument.kind))

/-- Whether all arguments are elements of a list, keys of an object or parts of a string.  All
arguments of a string are looked at before it answers. -/
def containsAll (heap : Heap) (receiver : Value) (arguments : List Value) :
    Except TemplateError Bool :=
  match receiver with
  | .primitive (.string text) => do
      let needles ← arguments.mapM needle
      return needles.all fun part => occursIn part text.toList
  | .list reference => .ok (arguments.all (heap.listContains reference))
  | .object object =>
      .ok (arguments.all fun argument => argument.string?.any (heap.contains object))
  | _ => .error (contains.undefinedFor receiver)

/-- The separator that an optional argument gives. -/
def separator : List Value → Except TemplateError String
  | [] => .ok ","
  | [argument] =>
      match argument.string? with
      | some text => .ok text
      | none => .error (.type .separatorNotString)
  | arguments => .error (.arity joinToString.name .optional arguments.length)

/-- The answer of a member that changes nothing. -/
def answer (member : Member) (receiver : Value) (arguments : List Value) (heap : Heap) :
    Except TemplateError Value := do
  match member with
  | .getType =>
      member.expectCount arguments 0
      return .string receiver.kind.name
  | .toString =>
      member.expectCount arguments 0
      return .string (heap.display receiver)
  | .toInt =>
      member.expectCount arguments 0
      return .int (← ← member.require receiver ((primitive? receiver).bind Primitive.toInt?))
  | .toLong =>
      member.expectCount arguments 0
      return .long (← member.require receiver ((primitive? receiver).bind Primitive.toLong?))
  | .toDouble =>
      member.expectCount arguments 0
      return .double (← ← member.require receiver ((primitive? receiver).bind Primitive.toDouble?))
  | .toChar =>
      member.expectCount arguments 0
      let code ← member.require receiver receiver.int?
      return .char (← charOfCode code.toInt)
  | .size =>
      member.expectCount arguments 0
      return .int (Int32.ofNat (← member.require receiver (sizeOf? heap receiver)))
  | .get =>
      let index ← indexOfArgument (← member.onlyArgument arguments)
      match (← member.require receiver (elements? heap receiver))[index]? with
      | some element => return element
      | none => throw (.reference (.indexOutOfBounds index))
  | .contains =>
      if arguments.isEmpty then throw (.arity member.name (.atLeast 1) 0)
      else return .boolean (← containsAll heap receiver arguments)
  | .indexOf =>
      let argument ← member.onlyArgument arguments
      let reference ← member.require receiver (list? receiver)
      match heap.indexOf? reference argument with
      | some index => return .int (Int32.ofNat index)
      | none => return .int (-1)
  | .joinToString =>
      let between ← separator arguments
      let reference ← member.require receiver (list? receiver)
      return .string (String.intercalate between ((heap.items reference).map heap.display))
  | .add | .remove => throw (member.undefinedFor receiver)

/-- Calls a member of a value. -/
def invoke (member : Member) (receiver : Value) (arguments : List Value) (heap : Heap) :
    Except TemplateError (Value × Heap) := do
  match member with
  | .add =>
      let argument ← member.onlyArgument arguments
      let reference ← member.require receiver (list? receiver)
      return (.boolean true, ← heap.push reference argument)
  | .remove =>
      let argument ← member.onlyArgument arguments
      let reference ← member.require receiver (list? receiver)
      let (found, heap) ← heap.removeItem reference argument
      return (.boolean found, heap)
  | _ => return (← member.answer receiver arguments heap, heap)

end Member

end Stencil
