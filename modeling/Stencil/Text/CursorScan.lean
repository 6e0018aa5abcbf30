import Stencil.Text.Scan

/-!
# Scans on a cursor

What the scans do on a text in memory, said of the characters that are left: literals consume
exactly themselves or nothing, runs are maximal, and a look leaves the cursor where it is.
-/

namespace Stencil.Text.Scan

open Cursor

@[simp]
theorem current_run (cursor : Cursor) :
    (current : StateM Cursor (Option Char)).run cursor = pure (cursor.rest.head?, cursor) := rfl

@[simp]
theorem step_run (cursor : Cursor) :
    (step : StateM Cursor Bool).run cursor = pure (!cursor.rest.isEmpty, cursor.advance) := rfl

@[simp]
theorem pointer_run (cursor : Cursor) :
    (pointer : StateM Cursor Nat).run cursor = pure (cursor.offset, cursor) := rfl

@[simp]
theorem hasEnded_run (cursor : Cursor) :
    (hasEnded : StateM Cursor Bool).run cursor = pure (cursor.rest.isEmpty, cursor) := rfl

@[simp]
theorem remaining_run (cursor : Cursor) :
    (remaining : StateM Cursor Nat).run cursor = pure (cursor.remaining, cursor) := rfl

theorem currentIs_run (property : Char → Bool) (cursor : Cursor) :
    (currentIs property).run cursor = pure (cursor.rest.head?.any property, cursor) := rfl

theorem seek_run (target : Nat) (cursor : Cursor) :
    (Source.seek target : StateM Cursor Bool).run cursor =
      pure ((cursor.seek? target).isSome, (cursor.seek? target).getD cursor) := by
  simp only [Source.seek, StateT.run]
  cases cursor.seek? target <;> rfl

/-- Going back to a place in the same text gives the cursor that was there. -/
theorem returnTo_run (place cursor : Cursor) (text : place.text = cursor.text) :
    (returnTo place.offset).run cursor = pure ((), place) := by
  have found : cursor.seek? place.offset = some place := seek?_eq_some_iff.mpr ⟨text, rfl⟩
  simp [returnTo, seek_run, found]

theorem accept_run_self (character : Char) (passed rest : List Char) :
    (accept character).run (between passed (character :: rest)) =
      pure (true, between (character :: passed) rest) := by
  simp [accept, advance_between_cons]

theorem accept_run_of_ne (character : Char) (cursor : Cursor)
    (different : cursor.rest.head? ≠ some character) :
    (accept character).run cursor = pure (false, cursor) := by
  simp [accept, different]

theorem acceptAll_run_self (place : Nat) (literal passed rest : List Char) :
    (acceptAll place literal).run (between passed (literal ++ rest)) =
      pure (true, between (literal.reverse ++ passed) rest) := by
  induction literal generalizing passed with
  | nil => rfl
  | cons character literal induction =>
      simp [acceptAll, accept_run_self, induction]

theorem acceptAll_run_of_not_isPrefix (place : Cursor) (literal passed rest : List Char)
    (text : place.text = (between passed rest).text) (differs : ¬ literal <+: rest) :
    (acceptAll place.offset literal).run (between passed rest) = pure (false, place) := by
  induction literal generalizing passed rest with
  | nil => exact absurd List.nil_prefix differs
  | cons character literal induction =>
      have back := returnTo_run place _ text
      cases rest with
      | nil =>
          have declined := accept_run_of_ne character (between passed []) (by simp)
          simp [acceptAll, declined, back]
      | cons next rest =>
          by_cases same : next = character
          · subst same
            have later : ¬ literal <+: rest := fun begins =>
              differs (List.cons_prefix_cons.mpr ⟨rfl, begins⟩)
            have declined := induction (next :: passed) rest (by simpa using text) later
            simp [acceptAll, accept_run_self, declined]
          · have declined := accept_run_of_ne character (between passed (next :: rest))
              (by simpa using same)
            simp [acceptAll, declined, back]

theorem acceptText_run_self (literal : String) (passed rest : List Char) :
    (acceptText literal).run (between passed (literal.toList ++ rest)) =
      pure (true, between (literal.toList.reverse ++ passed) rest) := by
  simp [acceptText, acceptAll_run_self]

theorem acceptText_run_of_not_isPrefix (literal : String) (cursor : Cursor)
    (differs : ¬ literal.toList <+: cursor.rest) :
    (acceptText literal).run cursor = pure (false, cursor) := by
  have declined :=
    acceptAll_run_of_not_isPrefix cursor literal.toList cursor.passed cursor.rest rfl differs
  rw [← eq_between] at declined
  simp [acceptText, declined]

/-- A look answers whether the text that is left begins with a literal, and consumes nothing. -/
theorem looksAt_run (literal : String) (cursor : Cursor) :
    (looksAt literal).run cursor = pure (literal.toList.isPrefixOf cursor.rest, cursor) := by
  by_cases begins : literal.toList.isPrefixOf cursor.rest = true
  · obtain ⟨rest, split⟩ := List.isPrefixOf_iff_prefix.mp begins
    have accepted := acceptText_run_self literal cursor.passed rest
    rw [split, ← eq_between] at accepted
    have back := returnTo_run cursor (between (literal.toList.reverse ++ cursor.passed) rest)
      (by simp [text, ← split])
    simp [looksAt, accepted, back, begins]
  · have declined := acceptText_run_of_not_isPrefix literal cursor fun isPrefix =>
      begins (List.isPrefixOf_iff_prefix.mpr isPrefix)
    simp [looksAt, declined, returnTo_run cursor cursor rfl, begins]

theorem takeWhileFrom_run (property : Char → Bool) (fuel : Nat) (taken passed rest : List Char)
    (enough : rest.length < fuel) :
    (takeWhileFrom property fuel taken).run (between passed rest) =
      pure ((rest.takeWhile property).reverse ++ taken,
        between ((rest.takeWhile property).reverse ++ passed) (rest.dropWhile property)) := by
  induction rest generalizing fuel taken passed with
  | nil =>
      cases fuel with
      | zero => simp at enough
      | succ fuel => rfl
  | cons character rest induction =>
      obtain ⟨fuel, rfl⟩ : ∃ less, fuel = less + 1 := ⟨fuel - 1, by omega⟩
      simp only [List.length_cons] at enough
      cases has : property character with
      | false => simp [takeWhileFrom, has]
      | true =>
          have later := induction fuel (character :: taken) (character :: passed) (by omega)
          simp [takeWhileFrom, has, advance_between_cons, later]

theorem takeWhile_run (property : Char → Bool) (passed rest : List Char) :
    (takeWhile property).run (between passed rest) =
      pure (String.ofList (rest.takeWhile property),
        between ((rest.takeWhile property).reverse ++ passed) (rest.dropWhile property)) := by
  have enough : rest.length < (between passed rest).remaining + 1 :=
    Nat.lt_succ_of_le (length_le_byteLength rest)
  simp [takeWhile, takeWhileFrom_run _ _ _ _ _ enough]

theorem skipSpacesFrom_run (fuel : Nat) (skipped : Bool) (passed rest : List Char)
    (enough : rest.length < fuel) :
    (skipSpacesFrom fuel skipped).run (between passed rest) =
      pure (skipped || rest.head?.any isTokenSpace,
        between ((rest.takeWhile isTokenSpace).reverse ++ passed)
          (rest.dropWhile isTokenSpace)) := by
  induction rest generalizing fuel skipped passed with
  | nil =>
      cases fuel with
      | zero => simp at enough
      | succ fuel => simp [skipSpacesFrom, currentIs_run]
  | cons character rest induction =>
      obtain ⟨fuel, rfl⟩ : ∃ less, fuel = less + 1 := ⟨fuel - 1, by omega⟩
      simp only [List.length_cons] at enough
      cases has : isTokenSpace character with
      | false => simp [skipSpacesFrom, currentIs_run, has]
      | true =>
          have later := induction fuel true (character :: passed) (by omega)
          simp [skipSpacesFrom, currentIs_run, has, advance_between_cons, later]

theorem skipSpaces_run (passed rest : List Char) :
    (skipSpaces).run (between passed rest) =
      pure (rest.head?.any isTokenSpace,
        between ((rest.takeWhile isTokenSpace).reverse ++ passed)
          (rest.dropWhile isTokenSpace)) := by
  have enough : rest.length < (between passed rest).remaining + 1 :=
    Nat.lt_succ_of_le (length_le_byteLength rest)
  simp [skipSpaces, skipSpacesFrom_run _ _ _ _ enough]

/-- One break at most is consumed. -/
theorem acceptBreak_run (cursor : Cursor) :
    acceptBreak.run cursor =
      pure (cursor.rest.head?.any isBreak,
        if cursor.rest.head?.any isBreak then cursor.advance else cursor) := by
  cases next : cursor.rest with
  | nil => simp [acceptBreak, currentIs_run, next]
  | cons character rest =>
      cases breaks : isBreak character <;> simp [acceptBreak, currentIs_run, next, breaks]

end Stencil.Text.Scan
