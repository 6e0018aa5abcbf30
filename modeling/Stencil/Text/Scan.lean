import Stencil.Text.NameChar
import Stencil.Text.Source

/-!
# Scanning

Every scan here is made of the operations of a source.  A scan that can fail consumes exactly what
it matched or goes back to where it began.
-/

namespace Stencil.Text.Scan

variable {σ : Type} [Source σ]

/-- The character at the place. -/
def current : StateM σ (Option Char) := Source.current

/-- Steps past the current character; answers false at the end. -/
def step : StateM σ Bool := Source.step

/-- Offset of the place. -/
def pointer : StateM σ Nat := return Source.pointer (← get)

/-- Line, column and offset of the place. -/
def position : StateM σ Position := return Source.position (← get)

/-- Whether every character was passed. -/
def hasEnded : StateM σ Bool := return Source.hasEnded (← get)

/-- A bound on the number of steps that are left. -/
def remaining : StateM σ Nat := return Source.remaining (← get)

/-- Goes to a place where the source has been. -/
def returnTo (place : Nat) : StateM σ Unit := do
  let _ ← Source.seek place

/-- Saves the place. -/
def checkpoint : StateM σ Checkpoint := return ⟨← pointer, ← position⟩

/-- Goes back to a saved place. -/
def restore (saved : Checkpoint) : StateM σ Unit :=
  returnTo saved.pointer

/-- Whether the current character exists and has a property. -/
def currentIs (property : Char → Bool) : StateM σ Bool :=
  return (← current).any property

/-- Consumes the given character. -/
def accept (expected : Char) : StateM σ Bool := do
  if (← current) == some expected then step else return false

/-- Consumes the given characters one after another; goes back to the given place at the
first that differs. -/
def acceptAll (place : Nat) : List Char → StateM σ Bool
  | [] => return true
  | expected :: characters => do
      if ← accept expected then acceptAll place characters
      else
        returnTo place
        return false

/-- Consumes the given text, or nothing. -/
def acceptText (literal : String) : StateM σ Bool := do
  acceptAll (← pointer) literal.toList

/-- Whether the given text comes next. -/
def looksAt (literal : String) : StateM σ Bool := do
  let place ← pointer
  let found ← acceptText literal
  returnTo place
  return found

/-- Whether the given keyword comes next and, if it ends inside a word, the word ends there too. -/
def looksAtKeyword (keyword : String) : StateM σ Bool := do
  let place ← pointer
  let found ←
    if ← acceptText keyword then
      if endsInName keyword then
        if ← currentIs isNamePart then pure false else pure true
      else pure true
    else pure false
  returnTo place
  return found

/-- Collects characters in front of those already read, last first, as long as they have a
property, over at most `fuel` characters. -/
def takeWhileFrom (property : Char → Bool) : Nat → List Char → StateM σ (List Char)
  | 0, taken => return taken
  | fuel + 1, taken => do
      match ← current with
      | none => return taken
      | some character =>
          if property character then
            let _ ← step
            takeWhileFrom property fuel (character :: taken)
          else return taken

/-- Consumes the longest run of characters that have a property. -/
def takeWhile (property : Char → Bool) : StateM σ String := do
  let taken ← takeWhileFrom property ((← remaining) + 1) []
  return String.ofList taken.reverse

/-- Steps over spaces, at most `fuel` of them. -/
def skipSpacesFrom : Nat → Bool → StateM σ Bool
  | 0, skipped => return skipped
  | fuel + 1, skipped => do
      if ← currentIs isTokenSpace then
        let _ ← step
        skipSpacesFrom fuel true
      else return skipped

/-- Steps over spaces between tokens; answers whether there was one. -/
def skipSpaces : StateM σ Bool := do
  skipSpacesFrom ((← remaining) + 1) false

/-- Consumes one space or newline. -/
def acceptBreak : StateM σ Bool := do
  if ← currentIs isBreak then step else return false

/-- Steps forward until a test succeeds before the end, over at most `fuel` characters. -/
def advanceUntil (test : StateM σ Bool) : Nat → StateM σ Bool
  | 0 => return false
  | fuel + 1 => do
      if ← hasEnded then return false
      else if ← test then return true
      else
        let _ ← step
        advanceUntil test fuel

/-- Steps forward until a test succeeds, or goes back. -/
def search (test : StateM σ Bool) : StateM σ Bool := do
  let place ← pointer
  if ← advanceUntil test ((← remaining) + 1) then return true
  else
    returnTo place
    return false

/-- Goes to the first place after the given text. -/
def skipPast (literal : String) : StateM σ Bool :=
  search (acceptText literal)

/-- Goes to the first place where the given text comes next. -/
def skipTo (literal : String) : StateM σ Bool :=
  search (looksAt literal)

/-- Whether the given character stands right before the place. -/
def isAfter (character : Char) : StateM σ Bool := do
  let place ← pointer
  if place < character.utf8Size then return false
  else
    let found ←
      if ← Source.seek (place - character.utf8Size) then
        pure ((← current) == some character)
      else pure false
    returnTo place
    return found

/-- Steps over at most `fuel` characters. -/
def advanceFrom : Nat → StateM σ Unit
  | 0 => return ()
  | fuel + 1 => do
      if ← step then advanceFrom fuel else return ()

/-- Goes to the end and answers its offset. -/
def toEnd : StateM σ Nat := do
  advanceFrom ((← remaining) + 1)
  pointer

/-- Runs a scan and goes back if it found nothing. -/
def orRewind {α : Type} (scan : StateM σ (Option α)) : StateM σ (Option α) := do
  let place ← pointer
  match ← scan with
  | some found => return some found
  | none =>
      returnTo place
      return none

/-- Runs a scan that may fail: goes back if it found nothing, and stays where a failure left it. -/
def attempt {ε α : Type} (scan : ExceptT ε (StateM σ) (Option α)) :
    ExceptT ε (StateM σ) (Option α) := do
  let place ← (pointer : StateM σ Nat)
  match ← scan with
  | some found => return some found
  | none =>
      (returnTo place : StateM σ Unit)
      return none

/-- Index of the first keyword that comes next. -/
def keywordIndex? : List String → Nat → StateM σ (Option Nat)
  | [], _ => return none
  | keyword :: keywords, index => do
      if ← looksAtKeyword keyword then return some index
      else keywordIndex? keywords (index + 1)

/-- Walks over nested blocks to the first keyword outside them, in at most `fuel` rounds.  The depth
counts the openings that still wait for their terminator. -/
def closingKeywordFrom (opening : String) (keywords : List String) (terminator : String) :
    Nat → Nat → StateM σ (Option Nat)
  | 0, _ => return none
  | fuel + 1, depth => do
      if ← hasEnded then return none
      if (← current) == some '@' then
        if ← acceptText opening then
          closingKeywordFrom opening keywords terminator fuel (depth + 1)
        else
          match ← keywordIndex? keywords 0 with
          | some index =>
              if depth = 0 then return some index
              else if index + 1 = keywords.length then
                let _ ← acceptText terminator
                closingKeywordFrom opening keywords terminator fuel (depth - 1)
              else
                let _ ← step
                closingKeywordFrom opening keywords terminator fuel depth
          | none =>
              let _ ← step
              closingKeywordFrom opening keywords terminator fuel depth
      else
        let _ ← step
        closingKeywordFrom opening keywords terminator fuel depth

/-- Goes to the first of the keywords that stands outside nested blocks and answers its index.  The
opening text begins a nested block; the last keyword ends one, and the others separate its parts. -/
def closingKeyword? (opening : String) (keywords : List String) : StateM σ (Option Nat) := do
  match keywords.getLast? with
  | none => return none
  | some terminator =>
      let place ← pointer
      let rounds := 2 * ((← remaining) + 1)
      match ← closingKeywordFrom opening keywords terminator rounds 0 with
      | some index => return some index
      | none =>
          returnTo place
          return none

end Stencil.Text.Scan
