import Stencil.Text.Cursor

/-!
# Sources

A source is a text that can be looked at in place.  Looking at the current character is the only
operation that a source may record; stepping, seeking and asking for the place are never recorded.
There are three kinds: a cursor, a source that counts how often it was looked at, and the closed
choice between the two that a render keeps for each of its texts.
-/

namespace Stencil.Text

/-- The operations that every scan is built from. -/
class Source (σ : Type) where
  /-- Offset of the place. -/
  pointer : σ → Nat
  /-- Line, column and offset of the place. -/
  position : σ → Position
  /-- Whether every character was passed. -/
  hasEnded : σ → Bool
  /-- A bound on the number of steps that are left. -/
  remaining : σ → Nat
  /-- The character at the place. -/
  current : StateM σ (Option Char)
  /-- Steps past the current character; answers false at the end. -/
  step : StateM σ Bool
  /-- Goes to an offset; answers false and stays if no character begins or ends there. -/
  seek : Nat → StateM σ Bool

instance : Source Cursor where
  pointer := Cursor.offset
  position := Cursor.position
  hasEnded cursor := cursor.rest.isEmpty
  remaining := Cursor.remaining
  current cursor := (cursor.rest.head?, cursor)
  step cursor := (!cursor.rest.isEmpty, cursor.advance)
  seek target cursor :=
    match cursor.seek? target with
    | some found => (true, found)
    | none => (false, cursor)

/-- A source together with the number of times its current character was looked at. -/
structure Counted (σ : Type) where
  inner : σ
  reads : Nat := 0

namespace Counted

variable {σ : Type}

/-- Runs an operation of the inner source without counting it. -/
def lift {α : Type} (operation : StateM σ α) : StateM (Counted σ) α := fun source =>
  let (answer, inner) := operation source.inner
  (answer, { source with inner })

/-- Forgets what was counted so far. -/
def resetReads (source : Counted σ) : Counted σ :=
  { source with reads := 0 }

instance [Source σ] : Source (Counted σ) where
  pointer source := Source.pointer source.inner
  position source := Source.position source.inner
  hasEnded source := Source.hasEnded source.inner
  remaining source := Source.remaining source.inner
  current source := lift Source.current { source with reads := source.reads + 1 }
  step := lift Source.step
  seek target := lift (Source.seek target)

end Counted

/-- A plain text or one whose reads are counted. -/
inductive AnySource where
  | plain (cursor : Cursor)
  | counted (source : Counted Cursor)

namespace AnySource

instance : Inhabited AnySource := ⟨.plain default⟩

/-- The cursor that does the reading. -/
def cursor : AnySource → Cursor
  | .plain cursor => cursor
  | .counted source => source.inner

/-- How often a counting source was looked at; a plain one does not know. -/
def reads? : AnySource → Option Nat
  | .plain _ => none
  | .counted source => some source.reads

/-- Runs an operation on whichever source is there. -/
def lift {α : Type} (onPlain : StateM Cursor α) (onCounted : StateM (Counted Cursor) α) :
    StateM AnySource α
  | .plain cursor =>
      let (answer, cursor) := onPlain cursor
      (answer, .plain cursor)
  | .counted source =>
      let (answer, source) := onCounted source
      (answer, .counted source)

instance : Source AnySource where
  pointer source := Source.pointer source.cursor
  position source := Source.position source.cursor
  hasEnded source := Source.hasEnded source.cursor
  remaining source := Source.remaining source.cursor
  current := lift Source.current Source.current
  step := lift Source.step Source.step
  seek target := lift (Source.seek target) (Source.seek target)

end AnySource

end Stencil.Text
