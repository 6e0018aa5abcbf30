import Stencil.Proofs.Text.Keyword

/-!
# Searches for a literal

A search steps forward until a literal comes next, so it stops at the first place where the literal
stands in the text that is left.
-/

namespace Stencil.Text

open Cursor

/-- In a text a literal stands behind some characters, and nowhere before. -/
structure StandsFirst (literal before text : List Char) : Prop where
  stands : before ++ literal <+: text
  first : ∀ earlier, earlier ++ literal <+: text → before.length ≤ earlier.length

namespace StandsFirst

variable {literal before text : List Char} {character : Char}

theorem here (begins : literal <+: text) : StandsFirst literal [] text :=
  ⟨begins, fun _ _ => Nat.zero_le _⟩

theorem later (differs : ¬literal <+: character :: text)
    (stands : StandsFirst literal before text) :
    StandsFirst literal (character :: before) (character :: text) := by
  refine ⟨List.cons_prefix_cons.mpr ⟨rfl, stands.stands⟩, fun earlier begins => ?_⟩
  cases earlier with
  | nil => exact absurd begins differs
  | cons other earlier =>
      have tail := (List.cons_prefix_cons.mp begins).2
      exact Nat.succ_le_succ (stands.first earlier tail)

end StandsFirst

namespace Scan

/-- A test that looks for a literal: where the literal comes next it goes to some place, and
elsewhere it declines. -/
structure LooksFor (test : StateM Cursor Bool) (literal : List Char) (found : Cursor → Cursor) :
    Prop where
  accepts : ∀ cursor : Cursor, literal <+: cursor.rest →
    test.run cursor = pure (true, found cursor)
  declines : ∀ cursor : Cursor, ¬literal <+: cursor.rest → test.run cursor = pure (false, cursor)

theorem looksFor_acceptText (literal : String) :
    LooksFor (acceptText literal) literal.toList (Cursor.past literal) where
  accepts cursor begins := by
    rw [acceptText_run, List.isPrefixOf_iff_prefix.mpr begins]
  declines cursor differs := acceptText_run_of_not_isPrefix literal cursor differs

theorem looksFor_looksAt (literal : String) : LooksFor (looksAt literal) literal.toList id where
  accepts cursor begins := by
    rw [looksAt_run, List.isPrefixOf_iff_prefix.mpr begins]
    rfl
  declines cursor differs := by
    rw [looksAt_run, Bool.eq_false_iff.mpr fun begins =>
      differs (List.isPrefixOf_iff_prefix.mp begins)]

namespace LooksFor

variable {test : StateM Cursor Bool} {literal : List Char} {found : Cursor → Cursor}

/-- Over the text that is left a test stops at the first place of its literal, or nowhere. -/
theorem advanceUntil_run (looks : LooksFor test literal found) (nonempty : literal ≠ [])
    (rest passed : List Char) (fuel : Nat) (enough : rest.length < fuel) :
    (∃ before after, StandsFirst literal before rest ∧ rest = before ++ after ∧
      (advanceUntil test fuel).run (between passed rest) =
        pure (true, found (between (before.reverse ++ passed) after))) ∨
    (¬literal <:+: rest ∧ ∃ stopped : Cursor,
      (advanceUntil test fuel).run (between passed rest) = pure (false, stopped) ∧
        stopped.text = (between passed rest).text) := by
  induction rest generalizing passed fuel with
  | nil =>
      obtain ⟨fuel, rfl⟩ : ∃ less, fuel = less + 1 := ⟨fuel - 1, by omega⟩
      refine .inr ⟨fun inside => nonempty (List.infix_nil.mp inside), _, ?_, rfl⟩
      simp [advanceUntil]
  | cons character rest induction =>
      obtain ⟨fuel, rfl⟩ : ∃ less, fuel = less + 1 := ⟨fuel - 1, by omega⟩
      rw [List.length_cons] at enough
      by_cases begins : literal <+: character :: rest
      · have accepted := looks.accepts (between passed (character :: rest)) begins
        refine .inl ⟨[], character :: rest, .here begins, rfl, ?_⟩
        simp [advanceUntil, accepted]
      · have declined := looks.declines (between passed (character :: rest)) begins
        have onward : (advanceUntil test (fuel + 1)).run (between passed (character :: rest)) =
            (advanceUntil test fuel).run (between (character :: passed) rest) := by
          simp [advanceUntil, declined, advance_between_cons]
        rw [onward]
        rcases induction (character :: passed) fuel (by omega) with
          ⟨before, after, first, split, ran⟩ | ⟨absent, stopped, ran, text⟩
        · refine .inl ⟨character :: before, after, first.later begins, by rw [split]; rfl, ?_⟩
          simpa using ran
        · refine .inr ⟨fun inside => ?_, stopped, ran, by simpa using text⟩
          rcases List.infix_cons_iff.mp inside with isPrefix | isInfix
          · exact begins isPrefix
          · exact absent isInfix

/-- A search leads behind the characters in front of the first place of its literal, or stays where
it began. -/
theorem search_run (looks : LooksFor test literal found) (nonempty : literal ≠ [])
    (cursor : Cursor) :
    (∃ before after, StandsFirst literal before cursor.rest ∧ cursor.rest = before ++ after ∧
      (search test).run cursor =
        pure (true, found (between (before.reverse ++ cursor.passed) after))) ∨
    (¬literal <:+: cursor.rest ∧ (search test).run cursor = pure (false, cursor)) := by
  have enough : cursor.rest.length < cursor.remaining + 1 := by
    rw [cursor.remaining_eq]
    exact Nat.lt_succ_of_le (length_le_byteLength cursor.rest)
  have walk := looks.advanceUntil_run nonempty cursor.rest cursor.passed
    (cursor.remaining + 1) enough
  rw [← eq_between] at walk
  rcases walk with ⟨before, after, first, split, ran⟩ | ⟨absent, stopped, ran, text⟩
  · refine .inl ⟨before, after, first, split, ?_⟩
    simp [search, ran]
  · refine .inr ⟨absent, ?_⟩
    have back := returnTo_run cursor stopped text.symm
    simp [search, ran, back]

end LooksFor

end Scan

end Stencil.Text
