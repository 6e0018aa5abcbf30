import Stencil.Text.CodeRange

/-!
# The property `White_Space`

The blanks that are cut off both ends of a text before a number is read from it, and that end the
path of an embedded text.
-/

namespace Stencil.Text

/-- Ranges of the property `White_Space`. -/
def blankRanges : CodeRanges :=
  [(0x9, 0xd), (0x20, 0x20), (0x85, 0x85), (0xa0, 0xa0), (0x1680, 0x1680), (0x2000, 0x200a),
   (0x2028, 0x2029), (0x202f, 0x202f), (0x205f, 0x205f), (0x3000, 0x3000)]

/-- Whether a character has the property `White_Space`. -/
def isBlank (character : Char) : Bool :=
  blankRanges.contains character.toNat

theorem isBlank_of_isWhitespace {character : Char} (blank : character.isWhitespace = true) :
    isBlank character = true := by
  have cases : ((character = ' ' ∨ character = '\t') ∨ character = '\r') ∨ character = '\n' := by
    simpa [Char.isWhitespace] using blank
  rcases cases with ((rfl | rfl) | rfl) | rfl <;> decide

/-- Cuts the blanks off both ends. -/
def trimBlanks (characters : List Char) : List Char :=
  ((characters.dropWhile isBlank).reverse.dropWhile isBlank).reverse

end Stencil.Text
