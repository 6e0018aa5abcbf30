import Stencil.Text.CursorScan

/-!
# Looking back from a cursor

The character right before a place is the last one that was passed.
-/

namespace Stencil.Text

open Cursor

/-- A place is behind a character exactly if that character was passed last. -/
theorem Cursor.seek?_sub_utf8Size {cursor found : Cursor} (character : Char)
    (fits : character.utf8Size ≤ cursor.offset)
    (reached : cursor.seek? (cursor.offset - character.utf8Size) = some found) :
    found.rest.head? = some character ↔ cursor.passed.head? = some character := by
  obtain ⟨text, offset⟩ := seek?_eq_some_iff.mp reached
  obtain ⟨middle, passed, rest⟩ := exists_middle text (by omega)
  have bytes : byteLength middle = character.utf8Size := by
    have total := congrArg byteLength passed
    rw [byteLength_append, ← cursor.offset_eq, ← found.offset_eq] at total
    omega
  have positive := character.utf8Size_pos
  rcases List.eq_nil_or_concat middle with rfl | ⟨middle, first, rfl⟩
  · simp only [byteLength] at bytes
    omega
  · have firstOf : found.rest.head? = some first := by simp [rest]
    rw [List.concat_eq_append, byteLength_append] at bytes
    simp only [byteLength, Nat.add_zero] at bytes
    constructor
    · intro isCharacter
      have same : first = character := Option.some.inj (firstOf.symm.trans isCharacter)
      have nothing : middle = [] := eq_nil_of_byteLength_eq_zero (by rw [same] at bytes; omega)
      simp [passed, nothing, same]
    · intro isCharacter
      cases middle with
      | nil =>
          have same : first = character := by simpa [passed] using isCharacter
          rw [firstOf, same]
      | cons last middle =>
          have same : last = character := by simpa [passed] using isCharacter
          have firstPositive := first.utf8Size_pos
          simp only [byteLength, same] at bytes
          omega

theorem Scan.isAfter_run (character : Char) (cursor : Cursor) :
    (isAfter character).run cursor = pure (cursor.passed.head? == some character, cursor) := by
  have behind : cursor.passed.head? = some character → character.utf8Size ≤ cursor.offset := by
    intro isLast
    obtain ⟨passed, split⟩ := List.head?_eq_some_iff.mp isLast
    rw [cursor.offset_eq, split]
    exact Nat.le_add_right _ _
  by_cases fits : cursor.offset < character.utf8Size
  · have answer : (cursor.passed.head? == some character) = false := by
      apply beq_false_of_ne
      intro isLast
      have enough := behind isLast
      omega
    simp [isAfter, fits, answer]
  · cases reached : cursor.seek? (cursor.offset - character.utf8Size) with
    | none =>
        have answer : (cursor.passed.head? == some character) = false := by
          apply beq_false_of_ne
          intro isLast
          obtain ⟨passed, split⟩ := List.head?_eq_some_iff.mp isLast
          have boundary : cursor.seek? (cursor.offset - character.utf8Size) =
              some (between passed (character :: cursor.rest)) := by
            apply seek?_eq_some_iff.mpr
            constructor
            · simp [text, split]
            · rw [cursor.offset_eq, split]
              simp [byteLength]
          rw [boundary] at reached
          cases reached
        simp [isAfter, fits, seek_run, reached, returnTo_run cursor cursor rfl, answer]
    | some found =>
        have text := (seek?_eq_some_iff.mp reached).1
        have back := returnTo_run cursor found text.symm
        have same := seek?_sub_utf8Size character (by omega) reached
        have answer : (found.rest.head? == some character) =
            (cursor.passed.head? == some character) := by
          rw [Bool.eq_iff_iff]
          simpa using same
        simp [isAfter, fits, seek_run, reached, back, answer]

end Stencil.Text
