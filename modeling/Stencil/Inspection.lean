import Stencil.Heap.Display

/-!
# Descriptions of values

A description names the kind of each value, so that values of different kinds with one text can be
told apart.  Strings and chars are quoted.
-/

namespace Stencil

/-- The hexadecimal escape of a character. -/
def escapeCode (character : Char) : List Char :=
  ['\x5c', 'u', '\x7b'] ++ Nat.toDigits 16 character.toNat ++ ['\x7d']

/-- The form of a character between quotes of a kind. -/
def escapeIn (quote character : Char) : List Char :=
  if character = quote ∨ character = '\x5c' then ['\x5c', character]
  else if character = '\n' then ['\x5c', 'n']
  else if character = '\r' then ['\x5c', 'r']
  else if character = '\t' then ['\x5c', 't']
  else if character = '\x00' then ['\x5c', '0']
  else if character.toNat < 32 ∨ (127 ≤ character.toNat ∧ character.toNat < 160) then
    escapeCode character
  else [character]

/-- Characters between quotes of a kind. -/
def quotedIn (quote : Char) (characters : List Char) : String :=
  String.ofList (quote :: characters.flatMap (escapeIn quote) ++ [quote])

/-- The description of a primitive. -/
def Primitive.inspect : Primitive → String
  | int value => s!"Int({value.toInt})"
  | long value => s!"Long({value.toInt})"
  | double value => s!"Double({Double.describe value})"
  | char value => "Char(" ++ quotedIn '\x27' [value] ++ ")"
  | boolean value => s!"Boolean({value})"
  | string value => "String(" ++ quotedIn '\x22' value.toList ++ ")"

namespace Heap

/-- The description of a value that is nested at most `depth` deep. -/
def inspectWithin (heap : Heap) : Nat → Value → Option String
  | 0, _ => none
  | depth + 1, value =>
      match value with
      | .primitive value => some value.inspect
      | .list list => do
          let texts ← (heap.items list).mapM (inspectWithin heap depth)
          return "[" ++ String.intercalate ", " texts ++ "]"
      | .object object => some s!"Object({object.index})"
      | .function function => some s!"Function({(heap.callable function).render})"

/-- The description of a value, empty for one that contains itself. -/
def inspect (heap : Heap) (value : Value) : String :=
  (heap.inspectWithin heap.depthBound value).getD ""

end Heap

end Stencil
