import Stencil.Error
import Stencil.Text.Scan

/-!
# Parsers

A parser is a scan that may fail with an error.  A failure leaves the source where it arose, and its
position is the place there unless a rule names another one.
-/

namespace Stencil

open Text

/-- A scan of a source that may fail. -/
abbrev Parser (σ : Type) := ExceptT TemplateError (StateM σ)

namespace Parser

variable {σ : Type}

/-- Runs a scan that cannot fail. -/
def scan {α : Type} (run : StateM σ α) : Parser σ α := ExceptT.lift run

variable [Source σ]

/-- Fails at the place of the source. -/
def fail {α : Type} (problem : ParseProblem) : Parser σ α := do
  throw (.parse problem (← scan Scan.position))

/-- Requires that a scan found something. -/
def require {α : Type} (what : String) (found : Option α) : Parser σ α :=
  match found with
  | some found => return found
  | none => fail (.expected what)

/-- Skips spaces and requires a character. -/
def expectSymbol (character : Char) : Parser σ Unit := do
  let _ ← scan Scan.skipSpaces
  if ← scan (Scan.accept character) then return ()
  else fail (.expected s!"`{character}`")

/-- A name, if one begins here. -/
def name? : StateM σ (Option String) := do
  if ← Scan.currentIs isNameInitial then return some (← Scan.takeWhile isNamePart)
  else return none

/-- Skips spaces and requires a name. -/
def expectName (what : String) : Parser σ String := do
  let _ ← scan Scan.skipSpaces
  require what (← scan name?)

end Parser

end Stencil
