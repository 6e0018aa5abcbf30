import Stencil.Text.CursorScan

/-!
# Sources that follow a cursor

Every kind of source keeps a cursor, and its operations answer as those of the cursor do.  What a
source records besides, such as the number of its reads, has no influence on the answers.
-/

namespace Stencil.Text

namespace Cursor

/-- A place at or after another one in the same text. -/
def Reaches (earlier later : Cursor) : Prop :=
  later.text = earlier.text ∧ earlier.offset ≤ later.offset

namespace Reaches

theorem refl (cursor : Cursor) : cursor.Reaches cursor :=
  ⟨rfl, Nat.le_refl _⟩

theorem trans {first second third : Cursor} (before : first.Reaches second)
    (after : second.Reaches third) : first.Reaches third :=
  ⟨after.1.trans before.1, Nat.le_trans before.2 after.2⟩

end Reaches

theorem offset_le_offset_advance (cursor : Cursor) : cursor.offset ≤ cursor.advance.offset := by
  obtain ⟨passed, rest, offset, remaining, offset_eq, remaining_eq⟩ := cursor
  cases rest with
  | nil => exact Nat.le_refl _
  | cons character rest => exact Nat.le_add_right _ _

theorem Reaches.advance {earlier later : Cursor} (reaches : earlier.Reaches later) :
    earlier.Reaches later.advance :=
  reaches.trans ⟨text_advance later, offset_le_offset_advance later⟩

end Cursor

/-- A source whose operations are those of a cursor in it. -/
class Tracked (σ : Type) [Source σ] where
  cursor : σ → Cursor
  pointer_eq (source : σ) : Source.pointer source = (cursor source).offset
  position_eq (source : σ) : Source.position source = (cursor source).position
  hasEnded_eq (source : σ) : Source.hasEnded source = (cursor source).rest.isEmpty
  remaining_eq (source : σ) : Source.remaining source = (cursor source).remaining
  current_eq (source : σ) :
    ((Source.current : StateM σ (Option Char)).run source).1 = (cursor source).rest.head?
  cursor_current (source : σ) :
    cursor ((Source.current : StateM σ (Option Char)).run source).2 = cursor source
  step_eq (source : σ) :
    ((Source.step : StateM σ Bool).run source).1 = !(cursor source).rest.isEmpty
  cursor_step (source : σ) :
    cursor ((Source.step : StateM σ Bool).run source).2 = (cursor source).advance
  seek_eq (target : Nat) (source : σ) :
    ((Source.seek target : StateM σ Bool).run source).1 =
      ((cursor source).seek? target).isSome
  cursor_seek (target : Nat) (source : σ) :
    cursor ((Source.seek target : StateM σ Bool).run source).2 =
      ((cursor source).seek? target).getD (cursor source)

instance : Tracked Cursor where
  cursor := id
  pointer_eq _ := rfl
  position_eq _ := rfl
  hasEnded_eq _ := rfl
  remaining_eq _ := rfl
  current_eq _ := rfl
  cursor_current _ := rfl
  step_eq _ := rfl
  cursor_step _ := rfl
  seek_eq target source := by
    rw [Scan.seek_run]
    rfl
  cursor_seek target source := by
    rw [Scan.seek_run]
    rfl

instance {σ : Type} [Source σ] [Tracked σ] : Tracked (Counted σ) where
  cursor source := Tracked.cursor source.inner
  pointer_eq source := Tracked.pointer_eq source.inner
  position_eq source := Tracked.position_eq source.inner
  hasEnded_eq source := Tracked.hasEnded_eq source.inner
  remaining_eq source := Tracked.remaining_eq source.inner
  current_eq source := Tracked.current_eq source.inner
  cursor_current source := Tracked.cursor_current source.inner
  step_eq source := Tracked.step_eq source.inner
  cursor_step source := Tracked.cursor_step source.inner
  seek_eq target source := Tracked.seek_eq target source.inner
  cursor_seek target source := Tracked.cursor_seek target source.inner

instance : Tracked AnySource where
  cursor := AnySource.cursor
  pointer_eq _ := rfl
  position_eq _ := rfl
  hasEnded_eq _ := rfl
  remaining_eq _ := rfl
  current_eq source := by cases source <;> rfl
  cursor_current source := by cases source <;> rfl
  step_eq source := by cases source <;> rfl
  cursor_step source := by cases source <;> rfl
  seek_eq target source := by
    cases source with
    | plain cursor => exact Tracked.seek_eq target cursor
    | counted source => exact Tracked.seek_eq target source
  cursor_seek target source := by
    cases source with
    | plain cursor => exact Tracked.cursor_seek target cursor
    | counted source => exact Tracked.cursor_seek target source

end Stencil.Text
