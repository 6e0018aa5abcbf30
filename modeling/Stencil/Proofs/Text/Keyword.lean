import Stencil.Proofs.Text.Tracked

/-!
# Keywords on a cursor

Looking for keywords consumes nothing, and the search for the keyword that closes a body stops in
front of it.
-/

namespace Stencil.Text

open Cursor

/-- Whether a keyword comes first in the text that is left and the word it may end in ends there. -/
def standsAt (keyword : String) (rest : List Char) : Bool :=
  keyword.toList.isPrefixOf rest &&
    !(endsInName keyword && (rest.drop keyword.toList.length).head?.any isNamePart)

theorem isPrefix_of_standsAt {keyword : String} {rest : List Char}
    (stands : standsAt keyword rest = true) : keyword.toList <+: rest := by
  simp only [standsAt, Bool.and_eq_true] at stands
  exact List.isPrefixOf_iff_prefix.mp stands.1

/-- The place after a literal that comes next, or the place itself. -/
def Cursor.past (literal : String) (cursor : Cursor) : Cursor :=
  if literal.toList.isPrefixOf cursor.rest then
    between (literal.toList.reverse ++ cursor.passed) (cursor.rest.drop literal.toList.length)
  else cursor

theorem Cursor.past_between (literal : String) (passed rest : List Char) :
    (between passed (literal.toList ++ rest)).past literal =
      between (literal.toList.reverse ++ passed) rest := by
  have begins : literal.toList.isPrefixOf (literal.toList ++ rest) = true :=
    List.isPrefixOf_iff_prefix.mpr (List.prefix_append _ _)
  simp [past, begins]

namespace Scan

theorem acceptText_run (literal : String) (cursor : Cursor) :
    (acceptText literal).run cursor =
      pure (literal.toList.isPrefixOf cursor.rest, cursor.past literal) := by
  by_cases begins : literal.toList.isPrefixOf cursor.rest = true
  · obtain ⟨rest, split⟩ := List.isPrefixOf_iff_prefix.mp begins
    have accepted := acceptText_run_self literal cursor.passed rest
    rw [← past_between, split, ← eq_between] at accepted
    rw [accepted, begins]
  · have declined := acceptText_run_of_not_isPrefix literal cursor fun isPrefix =>
      begins (List.isPrefixOf_iff_prefix.mpr isPrefix)
    rw [declined, past, if_neg begins, Bool.eq_false_iff.mpr begins]

theorem looksAtKeyword_run (keyword : String) (cursor : Cursor) :
    (looksAtKeyword keyword).run cursor = pure (standsAt keyword cursor.rest, cursor) := by
  have accepted := acceptText_run keyword cursor
  by_cases begins : keyword.toList.isPrefixOf cursor.rest = true
  · obtain ⟨rest, split⟩ := List.isPrefixOf_iff_prefix.mp begins
    have dropped : cursor.rest.drop keyword.toList.length = rest := by simp [← split]
    rw [past, if_pos begins, dropped] at accepted
    have back := returnTo_run cursor (between (keyword.toList.reverse ++ cursor.passed) rest)
      (by simp [text, ← split])
    by_cases word : endsInName keyword = true
    · cases part : rest.head?.any isNamePart <;>
        simp [looksAtKeyword, accepted, word, currentIs_run, part, back, standsAt, begins, dropped]
    · simp [looksAtKeyword, accepted, word, back, standsAt, begins]
  · rw [past, if_neg begins] at accepted
    simp [looksAtKeyword, accepted, returnTo_run cursor cursor rfl, standsAt, begins]

theorem keywordIndex?_run (keywords : List String) (index : Nat) (cursor : Cursor) :
    (keywordIndex? keywords index).run cursor =
      pure ((keywords.findIdx? (standsAt · cursor.rest)).map (· + index), cursor) := by
  induction keywords generalizing index with
  | nil => rfl
  | cons keyword keywords induction =>
      cases stands : standsAt keyword cursor.rest with
      | true => simp [keywordIndex?, looksAtKeyword_run, stands, List.findIdx?_cons]
      | false =>
          have later := induction (index + 1)
          simp [keywordIndex?, looksAtKeyword_run, stands, List.findIdx?_cons, later,
            Function.comp_def, Nat.add_assoc, Nat.add_comm 1 index]

variable (opening : String) (keywords : List String) (terminator : String) (fuel depth : Nat)

theorem closingKeywordFrom_run_of_ended {cursor : Cursor} (ended : cursor.rest = []) :
    (closingKeywordFrom opening keywords terminator fuel depth).run cursor =
      pure (none, cursor) := by
  cases fuel with
  | zero => rfl
  | succ fuel => simp [closingKeywordFrom, ended]

/-- A character that is no mark is passed. -/
theorem closingKeywordFrom_run_of_ne {cursor : Cursor} {character : Char} {rest : List Char}
    (next : cursor.rest = character :: rest) (unmarked : character ≠ '@') :
    (closingKeywordFrom opening keywords terminator (fuel + 1) depth).run cursor =
      (closingKeywordFrom opening keywords terminator fuel depth).run cursor.advance := by
  simp [closingKeywordFrom, next, unmarked]

/-- An opening begins a nested body. -/
theorem closingKeywordFrom_run_of_opening {cursor : Cursor} {rest : List Char}
    (next : cursor.rest = '@' :: rest) (opens : opening.toList.isPrefixOf cursor.rest = true) :
    (closingKeywordFrom opening keywords terminator (fuel + 1) depth).run cursor =
      (closingKeywordFrom opening keywords terminator fuel (depth + 1)).run
        (cursor.past opening) := by
  rw [next] at opens
  simp [closingKeywordFrom, next, acceptText_run, opens]

/-- At a mark that opens nothing the first keyword that stands there decides. -/
theorem closingKeywordFrom_run_of_mark {cursor : Cursor} {rest : List Char}
    (next : cursor.rest = '@' :: rest) (opens : opening.toList.isPrefixOf cursor.rest = false) :
    (closingKeywordFrom opening keywords terminator (fuel + 1) depth).run cursor =
      match keywords.findIdx? (standsAt · cursor.rest) with
      | some index =>
          if depth = 0 then pure (some index, cursor)
          else if index + 1 = keywords.length then
            (closingKeywordFrom opening keywords terminator fuel (depth - 1)).run
              (cursor.past terminator)
          else (closingKeywordFrom opening keywords terminator fuel depth).run cursor.advance
      | none => (closingKeywordFrom opening keywords terminator fuel depth).run cursor.advance := by
  have unopened : cursor.past opening = cursor := by simp [past, opens]
  have declined := acceptText_run opening cursor
  rw [opens, unopened] at declined
  have notEnded : cursor.rest.isEmpty = false := by simp [next]
  have atMark : cursor.rest.head? = some '@' := by simp [next]
  cases found : keywords.findIdx? (standsAt · cursor.rest) with
  | none =>
      simp [closingKeywordFrom, notEnded, atMark, declined, keywordIndex?_run, found]
  | some index =>
      by_cases outside : depth = 0
      · simp [closingKeywordFrom, notEnded, atMark, declined, keywordIndex?_run, found, outside]
      · by_cases last : index + 1 = keywords.length
        · simp [closingKeywordFrom, notEnded, atMark, declined, keywordIndex?_run, found, outside,
            last, acceptText_run]
        · simp [closingKeywordFrom, notEnded, atMark, declined, keywordIndex?_run, found, outside,
            last]

/-- A search that succeeds stops in front of the keyword that it names. -/
theorem standsAt_of_closingKeywordFrom {index : Nat} {cursor after : Cursor}
    (found : (closingKeywordFrom opening keywords terminator fuel depth).run cursor =
      pure (some index, after)) :
    ∃ keyword, keywords[index]? = some keyword ∧ standsAt keyword after.rest = true := by
  induction fuel generalizing depth cursor with
  | zero => cases found
  | succ fuel induction =>
      cases next : cursor.rest with
      | nil =>
          rw [closingKeywordFrom_run_of_ended _ _ _ _ _ next] at found
          cases found
      | cons character rest =>
          by_cases mark : character = '@'
          · subst mark
            cases opens : opening.toList.isPrefixOf cursor.rest with
            | true =>
                rw [closingKeywordFrom_run_of_opening _ _ _ _ _ next opens] at found
                exact induction _ found
            | false =>
                rw [closingKeywordFrom_run_of_mark _ _ _ _ _ next opens] at found
                cases first : keywords.findIdx? (standsAt · cursor.rest) with
                | none =>
                    rw [first] at found
                    exact induction _ found
                | some place =>
                    simp only [first] at found
                    split at found
                    · obtain ⟨rfl, rfl⟩ : place = index ∧ cursor = after := by
                        simpa using Prod.mk.inj found
                      obtain ⟨within, stands, -⟩ := List.findIdx?_eq_some_iff_getElem.mp first
                      exact ⟨keywords[place], List.getElem?_eq_getElem within, stands⟩
                    · split at found
                      · exact induction _ found
                      · exact induction _ found
          · rw [closingKeywordFrom_run_of_ne _ _ _ _ _ next mark] at found
            exact induction _ found

end Scan

end Stencil.Text
