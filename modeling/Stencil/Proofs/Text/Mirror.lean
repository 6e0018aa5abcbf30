import Stencil.Proofs.Text.Behind
import Stencil.Proofs.Text.Placement
import Stencil.Proofs.Text.Simulation

/-!
# Scans of placed sources

A scan of a source that is placed in a text answers as the same scan of the cursor over that text
and leads to the place of the cursor that is reached there.  No scan goes back behind the place
where it began, so `Mirrors` also keeps an anchor that stays at or before every place on the way.
-/

namespace Stencil.Text

variable {σ : Type} [Source σ] {α β γ δ : Type} {anchor : Cursor}
  {placement : Placement σ anchor.text}

/-- Looks for a character at a target and goes back to a place. -/
def Scan.lookThere (character : Char) (target place : Nat) : StateM σ Bool := do
  let found ← if ← Source.seek target then pure ((← current) == some character) else pure false
  returnTo place
  return found

theorem Scan.isAfter_of_fits {source : σ} (character : Char)
    (fits : character.utf8Size ≤ Source.pointer source) :
    (isAfter character).run source =
      (lookThere character (Source.pointer source - character.utf8Size)
        (Source.pointer source)).run source := by
  have unfolded : (isAfter character).run source =
      (if Source.pointer source < character.utf8Size then return false
      else lookThere character (Source.pointer source - character.utf8Size)
        (Source.pointer source)).run source := rfl
  rw [unfolded, if_neg (Nat.not_lt.mpr fits)]

/-- A placed source and its cursor move together. -/
theorem Placement.simulates : Simulates placement.shift placement.Stands where
  pointer_eq := by
    rintro source _ ⟨rfl, -⟩
    exact placement.pointer_eq source
  hasEnded_eq := by
    rintro source _ ⟨rfl, -⟩
    exact placement.hasEnded_eq source
  remaining_eq := by
    rintro source _ ⟨rfl, -⟩
    exact placement.remaining_eq source
  current := by
    rintro source _ ⟨rfl, reaches⟩
    exact ⟨placement.current_eq source, placement.cursor_current source, reaches⟩
  step := by
    rintro source _ ⟨rfl, reaches⟩
    exact ⟨placement.step_eq source, placement.cursor_step source, reaches.advance⟩
  returnTo := by
    rintro place _ ⟨rfl, within⟩ source _ ⟨rfl, reaches⟩
    have text : (placement.cursor place).text = (placement.cursor source).text :=
      within.1.trans reaches.1.symm
    have back := Scan.returnTo_run (placement.cursor place) (placement.cursor source) text
    have found : (placement.cursor source).seek? (placement.cursor place).offset =
        some (placement.cursor place) := Cursor.seek?_eq_some_iff.mpr ⟨text, rfl⟩
    have moved := placement.cursor_seek (Source.pointer place) source
    rw [placement.pointer_eq, found] at moved
    rw [placement.pointer_eq, back]
    exact ⟨rfl, moved, within⟩

/-- A scan of a source answers what one of its cursor does, changed, and moves the cursor as that
one does. -/
def MirrorsAs (change : α → β) (anchor : Cursor) (placement : Placement σ anchor.text)
    (left : StateM σ α) (right : StateM Cursor β) : Prop :=
  Follows placement.Stands change left right

/-- A scan of a source answers as one of its cursor does and moves the cursor as that one does. -/
def Mirrors (anchor : Cursor) (placement : Placement σ anchor.text) (left : StateM σ α)
    (right : StateM Cursor α) : Prop :=
  MirrorsAs id anchor placement left right

namespace MirrorsAs

variable {change : α → β}

theorem pure (change : α → β) (answer : α) :
    MirrorsAs change anchor placement (Pure.pure answer : StateM σ α)
      (Pure.pure (change answer)) :=
  Follows.pure change answer

theorem ite {condition : Prop} [Decidable condition] {yes no : StateM σ α}
    {yesCursor noCursor : StateM Cursor β} (holds : MirrorsAs change anchor placement yes yesCursor)
    (fails : MirrorsAs change anchor placement no noCursor) :
    MirrorsAs change anchor placement (if condition then yes else no)
      (if condition then yesCursor else noCursor) :=
  Follows.ite Iff.rfl holds fails

end MirrorsAs

namespace Mirrors

/-- A scan of a cursor that mirrors itself only goes forward. -/
theorem keeps {run : StateM Cursor α} (mirrors : Mirrors anchor (.itself anchor.text) run run)
    (cursor : Cursor) (reaches : anchor.Reaches cursor) : anchor.Reaches (run.run cursor).2 :=
  (mirrors cursor cursor ⟨rfl, reaches⟩).2.2

theorem reaches {run : StateM Cursor α} {cursor : Cursor}
    (mirrors : Mirrors cursor (.itself cursor.text) run run) :
    cursor.Reaches (run.run cursor).2 :=
  mirrors.keeps cursor (.refl cursor)

theorem pure (answer : α) :
    Mirrors anchor placement (Pure.pure answer : StateM σ α) (Pure.pure answer) :=
  Follows.pure id answer

theorem bindAs {change : β → γ} {first : StateM σ α} {firstCursor : StateM Cursor α}
    {next : α → StateM σ β} {nextCursor : α → StateM Cursor γ}
    (here : Mirrors anchor placement first firstCursor)
    (later : ∀ answer, MirrorsAs change anchor placement (next answer) (nextCursor answer)) :
    MirrorsAs change anchor placement (first >>= next) (firstCursor >>= nextCursor) :=
  Follows.bind here later

theorem bind {first : StateM σ α} {firstCursor : StateM Cursor α} {next : α → StateM σ β}
    {nextCursor : α → StateM Cursor β} (here : Mirrors anchor placement first firstCursor)
    (later : ∀ answer, Mirrors anchor placement (next answer) (nextCursor answer)) :
    Mirrors anchor placement (first >>= next) (firstCursor >>= nextCursor) :=
  here.bindAs later

theorem ite {condition : Prop} [Decidable condition] {yes no : StateM σ α}
    {yesCursor noCursor : StateM Cursor α} (holds : Mirrors anchor placement yes yesCursor)
    (fails : Mirrors anchor placement no noCursor) :
    Mirrors anchor placement (if condition then yes else no)
      (if condition then yesCursor else noCursor) :=
  MirrorsAs.ite holds fails

/-- Tests of places hold together if places are compared with places. -/
theorem ite_iff {condition conditionCursor : Prop} [Decidable condition]
    [Decidable conditionCursor] {yes no : StateM σ α} {yesCursor noCursor : StateM Cursor α}
    (same : condition ↔ conditionCursor) (holds : Mirrors anchor placement yes yesCursor)
    (fails : Mirrors anchor placement no noCursor) :
    Mirrors anchor placement (if condition then yes else no)
      (if conditionCursor then yesCursor else noCursor) :=
  Follows.ite same holds fails

theorem pointer_bind {next : Nat → StateM σ β} {nextCursor : Nat → StateM Cursor β}
    (later : ∀ place : σ, anchor.Reaches (placement.cursor place) →
      Mirrors anchor placement (next (Source.pointer place))
        (nextCursor (Source.pointer place + placement.shift))) :
    Mirrors anchor placement (Scan.pointer >>= next) (Scan.pointer >>= nextCursor) := by
  refine placement.simulates.pointer_bind ?_
  rintro place _ ⟨rfl, within⟩
  exact later place within

theorem returnTo {place : σ} (within : anchor.Reaches (placement.cursor place)) :
    Mirrors anchor placement (Scan.returnTo (Source.pointer place) : StateM σ Unit)
      (Scan.returnTo (Source.pointer place + placement.shift)) :=
  placement.simulates.returnTo ⟨rfl, within⟩

theorem rewind {place : σ} (within : anchor.Reaches (placement.cursor place)) (answer : α) :
    Mirrors anchor placement
      (do Scan.returnTo (Source.pointer place); return answer : StateM σ α)
      (do Scan.returnTo (Source.pointer place + placement.shift); return answer) :=
  placement.simulates.rewind ⟨rfl, within⟩ answer

theorem current :
    Mirrors anchor placement (Scan.current : StateM σ (Option Char)) Scan.current :=
  placement.simulates.current

theorem step : Mirrors anchor placement (Scan.step : StateM σ Bool) Scan.step :=
  placement.simulates.step

theorem position : MirrorsAs placement.position anchor placement
    (Scan.position : StateM σ Position) Scan.position := by
  rintro source _ ⟨rfl, reaches⟩
  exact ⟨placement.position_eq source reaches.1, rfl, reaches⟩

theorem hasEnded : Mirrors anchor placement (Scan.hasEnded : StateM σ Bool) Scan.hasEnded :=
  placement.simulates.hasEnded

theorem remaining : Mirrors anchor placement (Scan.remaining : StateM σ Nat) Scan.remaining :=
  placement.simulates.remaining

theorem currentIs (property : Char → Bool) :
    Mirrors anchor placement (Scan.currentIs property : StateM σ Bool) (Scan.currentIs property) :=
  placement.simulates.currentIs property

theorem accept (expected : Char) :
    Mirrors anchor placement (Scan.accept expected : StateM σ Bool) (Scan.accept expected) :=
  placement.simulates.accept expected

theorem acceptText (literal : String) :
    Mirrors anchor placement (Scan.acceptText literal : StateM σ Bool) (Scan.acceptText literal) :=
  placement.simulates.acceptText literal

theorem looksAtKeyword (keyword : String) :
    Mirrors anchor placement (Scan.looksAtKeyword keyword : StateM σ Bool)
      (Scan.looksAtKeyword keyword) :=
  placement.simulates.looksAtKeyword keyword

theorem takeWhile (property : Char → Bool) :
    Mirrors anchor placement (Scan.takeWhile property : StateM σ String)
      (Scan.takeWhile property) :=
  placement.simulates.takeWhile property

theorem skipSpaces : Mirrors anchor placement (Scan.skipSpaces : StateM σ Bool) Scan.skipSpaces :=
  placement.simulates.skipSpaces

theorem acceptBreak :
    Mirrors anchor placement (Scan.acceptBreak : StateM σ Bool) Scan.acceptBreak :=
  placement.simulates.acceptBreak

theorem toEnd : MirrorsAs (· + placement.shift) anchor placement (Scan.toEnd : StateM σ Nat)
    Scan.toEnd := by
  refine remaining.bindAs fun _ => Follows.bind (placement.simulates.advanceFrom _) fun _ => ?_
  rintro source _ ⟨rfl, reaches⟩
  exact ⟨placement.pointer_eq source, rfl, reaches⟩

theorem orRewind {scan : StateM σ (Option α)} {scanCursor : StateM Cursor (Option α)}
    (inner : Mirrors anchor placement scan scanCursor) :
    Mirrors anchor placement (Scan.orRewind scan) (Scan.orRewind scanCursor) :=
  placement.simulates.orRewind inner

theorem closingKeyword? (opening : String) (keywords : List String) :
    Mirrors anchor placement (Scan.closingKeyword? opening keywords : StateM σ (Option Nat))
      (Scan.closingKeyword? opening keywords) :=
  placement.simulates.closingKeyword? opening keywords

theorem seek {text : List Char} {placement : Placement σ (Cursor.ofList text).text} (target : Nat) :
    Mirrors (.ofList text) placement (Source.seek target : StateM σ Bool)
      (Source.seek (target + placement.shift)) := by
  rintro source _ ⟨rfl, reaches⟩
  rw [Scan.seek_run]
  refine ⟨placement.seek_eq target source, placement.cursor_seek target source, ?_⟩
  cases found : (placement.cursor source).seek? (target + placement.shift) with
  | none => exact reaches
  | some place =>
      have same := (Cursor.seek?_eq_some_iff.mp found).1
      exact ⟨same.trans reaches.1, Nat.zero_le _⟩

theorem lookThere {text : List Char} {placement : Placement σ (Cursor.ofList text).text}
    (character : Char) {place : σ}
    (within : (Cursor.ofList text).Reaches (placement.cursor place)) (target : Nat) :
    Mirrors (.ofList text) placement
      (Scan.lookThere character target (Source.pointer place) : StateM σ Bool)
      (Scan.lookThere character (target + placement.shift)
        (Source.pointer place + placement.shift)) :=
  (seek target).bind fun _ =>
    ite (current.bind fun _ => rewind within _) (rewind within false)

/-- A look at the character right before a place stays within the part that the source is read for,
if such a character fits there. -/
theorem isAfter (character : Char) :
    Follows (fun source cursor => placement.Stands source cursor ∧
        character.utf8Size ≤ Source.pointer source) id
      (Scan.isAfter character : StateM σ Bool) (Scan.isAfter character) := by
  rintro source _ ⟨⟨rfl, reaches⟩, fits⟩
  let whole : Placement σ (Cursor.ofList anchor.text).text := placement
  have within : (Cursor.ofList anchor.text).Reaches (whole.cursor source) :=
    ⟨reaches.1, Nat.zero_le _⟩
  have place : Source.pointer (placement.cursor source) =
      Source.pointer source + placement.shift := (placement.pointer_eq source).symm
  have fitsCursor : character.utf8Size ≤ Source.pointer (placement.cursor source) := by
    rw [place]
    exact Nat.le_trans fits (Nat.le_add_right _ _)
  have back : (Source.pointer source + placement.shift) - character.utf8Size =
      (Source.pointer source - character.utf8Size) + placement.shift := by omega
  have looks : Mirrors (.ofList anchor.text) whole _ _ :=
    lookThere character within (Source.pointer source - character.utf8Size)
  obtain ⟨answers, cursors, -⟩ := looks source _ ⟨rfl, within⟩
  have stays := congrArg Prod.snd (Scan.isAfter_run character (placement.cursor source))
  rw [← back, ← place, ← Scan.isAfter_of_fits character fitsCursor,
    ← Scan.isAfter_of_fits character fits] at answers cursors
  change _ = placement.cursor source at stays
  rw [stays] at cursors ⊢
  have pointers := placement.pointer_eq ((Scan.isAfter character : StateM σ Bool).run source).2
  change placement.cursor _ = _ at cursors
  rw [cursors, ← placement.pointer_eq source] at pointers
  refine ⟨answers, ⟨cursors, reaches⟩, ?_⟩
  rw [Nat.add_right_cancel pointers]
  exact fits

end Mirrors

end Stencil.Text
