import Stencil.Double.Numeral
import Stencil.Parser
import Stencil.Primitive.Basic

/-!
# Literals

Numbers, strings in double quotes, chars in single quotes, and the two booleans.  An integer that
does not fit an int is a long, and one that fits neither is no literal.
-/

namespace Stencil.Literal

open Text Stencil.Parser

variable {σ : Type} [Source σ]

/-- The int of a row of digits with an optional minus. -/
def int? (characters : List Char) : Option Int32 :=
  (Numeral.integerWithin? Int32.minValue.toInt Int32.maxValue.toInt characters).map Int32.ofInt

/-- The long of a row of digits with an optional minus. -/
def long? (characters : List Char) : Option Int64 :=
  (Numeral.integerWithin? Int64.minValue.toInt Int64.maxValue.toInt characters).map Int64.ofInt

/-- The narrowest integer of a row of digits with an optional minus. -/
def integer? (characters : List Char) : Option Primitive :=
  match int? characters with
  | some value => some (.int value)
  | none => (long? characters).map .long

/-- A point and at least one digit. -/
def decimals? : StateM σ (Option String) :=
  Scan.orRewind do
    if ← Scan.accept '.' then
      let digits ← Scan.takeWhile Char.isDigit
      if digits.isEmpty then return none else return some digits
    else return none

/-- A number such as `42`, `-7`, `3.5` or `9L`. -/
def number? : StateM σ (Option Primitive) :=
  Scan.orRewind do
    let negative ← Scan.accept '-'
    let digits ← Scan.takeWhile Char.isDigit
    if digits.isEmpty then return none
    let sign := if negative then ['-'] else []
    let whole := sign ++ digits.toList
    match ← decimals? with
    | some decimals => return (Double.ofText? (whole ++ '.' :: decimals.toList)).map .double
    | none =>
        if ← Scan.accept 'L' then return (long? whole).map .long
        else return integer? whole

/-- The character that a backslash and a character stand for. -/
def unescape : Char → Char
  | 'n' => '\n'
  | 't' => '\t'
  | 'r' => '\r'
  | character => character

/-- The characters up to the closing quote, after those already read, which come last first.  A
string that does not end is an error where it began. -/
def stringFrom (start : Position) : Nat → List Char → Parser σ String
  | 0, _ => throw (.parse .unterminatedString start)
  | fuel + 1, taken => do
      match ← scan Scan.current with
      | none => throw (.parse .unterminatedString start)
      | some character =>
          let _ ← scan Scan.step
          if character = '\x22' then return String.ofList taken.reverse
          else if character = '\x5c' then
            match ← scan Scan.current with
            | none => throw (.parse .unterminatedString start)
            | some escaped =>
                let _ ← scan Scan.step
                stringFrom start fuel (unescape escaped :: taken)
          else stringFrom start fuel (character :: taken)

/-- A string in double quotes. -/
def string? : Parser σ (Option String) := do
  if (← scan Scan.current) == some '\x22' then
    let start ← scan Scan.position
    let fuel ← scan Scan.remaining
    let _ ← scan Scan.step
    return some (← stringFrom start fuel [])
  else return none

/-- The character after an opening single quote. -/
def quoted? : StateM σ (Option Char) := do
  match ← Scan.current with
  | some '\x5c' =>
      let _ ← Scan.step
      return (← Scan.current).map unescape
  | other => return other

/-- A character in single quotes. -/
def char? : Parser σ (Option Char) := do
  if (← scan Scan.current) == some '\x27' then
    let start ← scan Scan.position
    let _ ← scan Scan.step
    match ← scan quoted? with
    | none => throw (.parse .unterminatedChar start)
    | some character =>
        let _ ← scan Scan.step
        if ← scan (Scan.accept '\x27') then return some character
        else throw (.parse .charNotSingle start)
  else return none

/-- The word of one of the two booleans. -/
def truth? : StateM σ (Option Bool) := do
  if ← Scan.acceptText "true" then return some true
  else if ← Scan.acceptText "false" then return some false
  else return none

/-- One of the two booleans, where the word ends. -/
def boolean? : StateM σ (Option Bool) :=
  Scan.orRewind do
    match ← truth? with
    | none => return none
    | some value => if ← Scan.currentIs isNamePart then return none else return some value

end Stencil.Literal
