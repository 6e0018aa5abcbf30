import Stencil.Heap.Basic

/-!
# The text of values

Lists are their elements with commas between them, objects one line per entry between braces.  The
lines of an object that is itself an entry are indented by one tab more.
-/

namespace Stencil

/-- Puts a tab at the beginning of every line but the first. -/
def indent (text : String) : String :=
  String.ofList (text.toList.flatMap fun character =>
    if character = '\n' then ['\n', '\t'] else [character])

namespace Heap

/-- The line of an entry. -/
def entryLine (key : String) (value : Value) (text : String) : String :=
  let body :=
    match value with
    | .object _ => indent text
    | _ => text
  "\n\t" ++ key ++ " : " ++ body

/-- The text of an object, given the texts of its values.  An entry that is the object itself has no
line. -/
def objectText (heap : Heap) (textOf : Value → Option String) (object : ScopeRef) :
    Option String := do
  let entries := (heap.scope object).entries.entries
  if entries.isEmpty then return "\x7b\x7d"
  let others := entries.filter fun entry => entry.2 ≠ .object object
  let lines ← others.mapM fun entry => do
    return entryLine entry.1 entry.2 (← textOf entry.2)
  return "\x7b" ++ String.join lines ++ "\n\x7d"

/-- The text of a value that is nested at most `depth` deep. -/
def displayWithin (heap : Heap) : Nat → Value → Option String
  | 0, _ => none
  | depth + 1, value =>
      match value with
      | .primitive value => some value.render
      | .list list => do
          let texts ← (heap.items list).mapM (displayWithin heap depth)
          return String.intercalate "," texts
      | .object object => heap.objectText (displayWithin heap depth) object
      | .function function => some (heap.callable function).render

/-- The text of a value.  One that contains itself, other than as a direct entry, has no text. -/
def display? (heap : Heap) (value : Value) : Option String :=
  heap.displayWithin heap.depthBound value

/-- The text of a value, empty for one that contains itself. -/
def display (heap : Heap) (value : Value) : String :=
  (heap.display? value).getD ""

end Heap

end Stencil
