import Stencil.Text.Alphabetic
import Stencil.Text.Numeric

/-!
# Character classes of directives

Names start with a letter or an underscore and go on with letters, digits or underscores, in any
script.  Spaces may separate the tokens of a directive.  A single space or newline after a
directive belongs to it.
-/

namespace Stencil.Text

/-- First character of a variable, property or placeholder name. -/
def isNameInitial (character : Char) : Bool :=
  isAlphabetic character || character == '_'

/-- Any character of a name. -/
def isNamePart (character : Char) : Bool :=
  isAlphabetic character || isNumeric character || character == '_'

/-- Space between the tokens of a directive. -/
def isTokenSpace (character : Char) : Bool :=
  character == ' ' || character == '\t'

/-- The character that ends a directive or comes before a closing one. -/
def isBreak (character : Char) : Bool :=
  character == ' ' || character == '\n'

theorem isNamePart_of_isNameInitial {character : Char} (start : isNameInitial character = true) :
    isNamePart character = true := by
  simp only [isNameInitial, Bool.or_eq_true] at start
  rcases start with letter | underscore
  · simp [isNamePart, letter]
  · simp [isNamePart, underscore]

/-- Whether a keyword ends inside a word, so that a name character after it would extend it. -/
def endsInName (keyword : String) : Bool :=
  keyword.toList.getLast?.any isNamePart

end Stencil.Text
