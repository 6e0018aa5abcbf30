import Stencil.Proofs.Error
import Stencil.Proofs.Parser.Congruence
import Stencil.Proofs.Text.Mirror

/-!
# Parsers of placed sources

Parsers are scans that may fail, so a parser of a source that is placed in a text also answers,
fails and moves as the same parser of the cursor over that text does.  The positions of its errors
are those of the cursor, seen from the source.
-/

namespace Stencil

open Text

/-- The error at another position, if it has one. -/
def TemplateError.relocate (position : Position → Position) : TemplateError → TemplateError
  | .parse problem place => .parse problem (position place)
  | error => error

theorem TemplateError.relocate_id (error : TemplateError) : error.relocate id = error := by
  cases error <;> rfl

namespace Parser

variable {σ : Type} [Source σ] {α β γ : Type} {anchor : Cursor}
  {placement : Placement σ anchor.text}

/-- A parser of a source answers what one of its cursor does, changed, and fails and moves as that
one does. -/
def MirrorsAs (change : α → β) (anchor : Cursor) (placement : Placement σ anchor.text)
    (left : Parser σ α) (right : Parser Cursor β) : Prop :=
  FollowsOrFails placement.Stands TemplateError.OtherThanSeek
    (TemplateError.relocate placement.position) change left right

/-- A parser of a source answers, fails and moves as one of its cursor does. -/
def Mirrors (anchor : Cursor) (placement : Placement σ anchor.text) (left : Parser σ α)
    (right : Parser Cursor α) : Prop :=
  MirrorsAs id anchor placement left right

namespace MirrorsAs

variable {change : α → β}

theorem pure (change : α → β) (answer : α) :
    MirrorsAs change anchor placement (Pure.pure answer : Parser σ α) (Pure.pure (change answer)) :=
  FollowsOrFails.pure change answer

theorem throw (error : TemplateError) (expected : TemplateError.OtherThanSeek error) :
    MirrorsAs change anchor placement (MonadExcept.throw error : Parser σ α)
      (MonadExcept.throw (error.relocate placement.position)) :=
  FollowsOrFails.throw error expected

theorem ite {condition : Prop} [Decidable condition] {yes no : Parser σ α}
    {yesCursor noCursor : Parser Cursor β} (holds : MirrorsAs change anchor placement yes yesCursor)
    (fails : MirrorsAs change anchor placement no noCursor) :
    MirrorsAs change anchor placement (if condition then yes else no)
      (if condition then yesCursor else noCursor) :=
  FollowsOrFails.ite Iff.rfl holds fails

theorem fail (problem : ParseProblem) (expected : ∀ offset, problem ≠ .cannotSeek offset) :
    MirrorsAs change anchor placement (fail problem : Parser σ α) (fail problem) :=
  FollowsOrFails.bind (FollowsOrFails.lift Text.Mirrors.position) fun position =>
    throw (.parse problem position) fun offset _ same =>
      expected offset (TemplateError.parse.inj same).1

end MirrorsAs

namespace Mirrors

/-- A parser of a cursor that mirrors itself only goes forward. -/
theorem keeps {parser : Parser Cursor α}
    (mirrors : Mirrors anchor (.itself anchor.text) parser parser)
    (cursor : Cursor) (reaches : anchor.Reaches cursor) :
    anchor.Reaches (parser.run.run cursor).2 :=
  (mirrors.1 cursor cursor ⟨rfl, reaches⟩).2.2

theorem otherThanSeek {parser : Parser Cursor α}
    (mirrors : Mirrors anchor (.itself anchor.text) parser parser) {cursor : Cursor}
    (reaches : anchor.Reaches cursor) {error : TemplateError}
    (failed : (parser.run.run cursor).1 = .error error) : TemplateError.OtherThanSeek error :=
  mirrors.2 cursor cursor ⟨rfl, reaches⟩ error failed

theorem pure (answer : α) :
    Mirrors anchor placement (Pure.pure answer : Parser σ α) (Pure.pure answer) :=
  FollowsOrFails.pure id answer

theorem throw (error : TemplateError) (expected : TemplateError.OtherThanSeek error) :
    Mirrors anchor placement (MonadExcept.throw error : Parser σ α)
      (MonadExcept.throw (error.relocate placement.position)) :=
  MirrorsAs.throw error expected

theorem bindAs {change : β → γ} {first : Parser σ α} {firstCursor : Parser Cursor α}
    {next : α → Parser σ β} {nextCursor : α → Parser Cursor γ}
    (here : Mirrors anchor placement first firstCursor)
    (later : ∀ answer, MirrorsAs change anchor placement (next answer) (nextCursor answer)) :
    MirrorsAs change anchor placement (first >>= next) (firstCursor >>= nextCursor) :=
  FollowsOrFails.bind here later

theorem bind {first : Parser σ α} {firstCursor : Parser Cursor α} {next : α → Parser σ β}
    {nextCursor : α → Parser Cursor β} (here : Mirrors anchor placement first firstCursor)
    (later : ∀ answer, Mirrors anchor placement (next answer) (nextCursor answer)) :
    Mirrors anchor placement (first >>= next) (firstCursor >>= nextCursor) :=
  here.bindAs later

theorem ite {condition : Prop} [Decidable condition] {yes no : Parser σ α}
    {yesCursor noCursor : Parser Cursor α} (holds : Mirrors anchor placement yes yesCursor)
    (fails : Mirrors anchor placement no noCursor) :
    Mirrors anchor placement (if condition then yes else no)
      (if condition then yesCursor else noCursor) :=
  MirrorsAs.ite holds fails

theorem scan {run : StateM σ α} {runCursor : StateM Cursor α}
    (inner : Text.Mirrors anchor placement run runCursor) :
    Mirrors anchor placement (scan run) (scan runCursor) :=
  FollowsOrFails.lift inner

theorem pointer_bindAs {change : α → β} {next : Nat → Parser σ α}
    {nextCursor : Nat → Parser Cursor β}
    (later : ∀ place : σ, anchor.Reaches (placement.cursor place) →
      MirrorsAs change anchor placement (next (Source.pointer place))
        (nextCursor (Source.pointer place + placement.shift))) :
    MirrorsAs change anchor placement (Parser.scan Scan.pointer >>= next)
      (Parser.scan Scan.pointer >>= nextCursor) := by
  refine FollowsOrFails.of_state ?_
  rintro source _ ⟨rfl, reaches⟩
  refine ⟨_, _, later source reaches, rfl, ?_⟩
  rw [placement.pointer_eq]
  rfl

theorem pointer_bind {next : Nat → Parser σ β} {nextCursor : Nat → Parser Cursor β}
    (later : ∀ place : σ, anchor.Reaches (placement.cursor place) →
      Mirrors anchor placement (next (Source.pointer place))
        (nextCursor (Source.pointer place + placement.shift))) :
    Mirrors anchor placement (Parser.scan Scan.pointer >>= next)
      (Parser.scan Scan.pointer >>= nextCursor) :=
  pointer_bindAs later

theorem position_bind {next : Position → Parser σ β} {nextCursor : Position → Parser Cursor β}
    (later : ∀ position, Mirrors anchor placement (next position)
      (nextCursor (placement.position position))) :
    Mirrors anchor placement (Parser.scan Scan.position >>= next)
      (Parser.scan Scan.position >>= nextCursor) :=
  FollowsOrFails.bind (FollowsOrFails.lift Text.Mirrors.position) later

theorem rewind {place : σ} (within : anchor.Reaches (placement.cursor place)) (answer : α) :
    Mirrors anchor placement
      (do Parser.scan (Scan.returnTo (Source.pointer place)); return answer : Parser σ α)
      (do
        Parser.scan (Scan.returnTo (Source.pointer place + placement.shift))
        return answer) :=
  (scan (.returnTo within)).bind fun _ => pure answer

theorem fail (problem : ParseProblem) (expected : ∀ offset, problem ≠ .cannotSeek offset) :
    Mirrors anchor placement (fail problem : Parser σ α) (fail problem) :=
  MirrorsAs.fail problem expected

/-- The rules of the grammar go along with it. -/
def congruence (anchor : Cursor) (placement : Placement σ anchor.text) : Congruence σ Cursor where
  scans := Text.Mirrors anchor placement
  parses := Mirrors anchor placement
  answer := .pure
  andThen := .bind
  test := .ite
  current := .current
  step := .step
  skipSpaces := .skipSpaces
  acceptBreak := .acceptBreak
  accept := .accept
  acceptText := .acceptText
  currentIs := .currentIs
  takeWhile := .takeWhile
  orRewind := .orRewind
  pure := pure
  bind := bind
  ite := ite
  scan := scan
  position_bind later := position_bind fun position => later position _ fun problem ordinary =>
    throw (.parse problem position) fun offset _ same =>
      ordinary.2 offset (TemplateError.parse.inj same).1
  pointer_bind later := pointer_bind fun place within =>
    later (Source.pointer place) _ fun answer => rewind within answer

theorem require (what : String) (found : Option α) :
    Mirrors anchor placement (require what found : Parser σ α) (require what found) :=
  (congruence anchor placement).require what found

theorem expectSymbol (character : Char) :
    Mirrors anchor placement (expectSymbol character : Parser σ Unit) (expectSymbol character) :=
  (congruence anchor placement).expectSymbol character

theorem expectName (what : String) :
    Mirrors anchor placement (expectName what : Parser σ String) (expectName what) :=
  (congruence anchor placement).expectName what

end Mirrors

end Parser

end Stencil
