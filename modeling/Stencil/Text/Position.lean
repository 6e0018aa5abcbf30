/-!
# Positions and checkpoints

A position tells a reader of an error message where in a text something stands: lines and columns
count from one, columns count characters, and the offset counts bytes of the UTF-8 form.
-/

namespace Stencil.Text

/-- A place in a text. -/
structure Position where
  line : Nat
  column : Nat
  offset : Nat
deriving DecidableEq, Repr

namespace Position

/-- The place before the first character. -/
def start : Position := ⟨1, 1, 0⟩

instance : Inhabited Position := ⟨start⟩

/-- Line and column as messages write them. -/
def render (position : Position) : String :=
  s!"{position.line}:{position.column}"

end Position

/-- The offsets behind the newlines of a text that begins at an offset. -/
def newlineEnds (offset : Nat) : List Char → List Nat
  | [] => []
  | character :: characters =>
      if character = '\n' then (offset + 1) :: newlineEnds (offset + 1) characters
      else newlineEnds (offset + character.utf8Size) characters

/-- The table of the offsets at which the lines of a text begin. -/
def lineStarts (text : List Char) : Array Nat :=
  (0 :: newlineEnds 0 text).toArray

/-- Halves the range of a table, at most `fuel` times, in which the first entry beyond an offset is
to be found. -/
def searchBeyond (table : Array Nat) (offset : Nat) : Nat → Nat → Nat → Nat
  | 0, low, _ => low
  | fuel + 1, low, high =>
      if low < high then
        let middle := (low + high) / 2
        if table.getD middle 0 ≤ offset then searchBeyond table offset fuel (middle + 1) high
        else searchBeyond table offset fuel low middle
      else low

/-- The index of the first entry of a table that is beyond an offset. -/
def partitionPoint (table : Array Nat) (offset : Nat) : Nat :=
  searchBeyond table offset table.size 0 table.size

/-- The characters of a text that end at or before an offset. -/
def before : List Char → Nat → List Char
  | [], _ => []
  | character :: characters, offset =>
      if character.utf8Size ≤ offset then
        character :: before characters (offset - character.utf8Size)
      else []

/-- The characters of a text from an offset on. -/
def onwards : List Char → Nat → List Char
  | [], _ => []
  | character :: characters, offset =>
      if offset = 0 then character :: characters
      else onwards characters (offset - character.utf8Size)

/-- Line, column and offset of a place of a text: the line is searched in the table of the lines,
and the column counts the characters from where it starts. -/
def positionAt (text : List Char) (offset : Nat) : Position :=
  let starts := lineStarts text
  let line := partitionPoint starts offset
  let start := starts.getD (line - 1) 0
  ⟨line, (onwards (before text offset) start).length + 1, offset⟩

/-- A saved place that a failed attempt goes back to. -/
structure Checkpoint where
  pointer : Nat
  position : Position
deriving DecidableEq, Repr

end Stencil.Text
