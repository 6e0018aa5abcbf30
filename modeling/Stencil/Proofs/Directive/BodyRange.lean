import Mathlib.Control.Monad.Basic
import Stencil.Proofs.Parser.Run
import Stencil.Proofs.Text.Behind
import Stencil.Proofs.Text.Brackets
import Stencil.Proofs.Text.Mirror
import Stencil.Template

/-!
# Ranges of bodies

The range of a body that was found lies between the place where the search began and the keyword
that closes it.  At most one break stands between the range and the keyword.

A body is closed by the first keyword outside the bodies that were opened in it, if that stands in
front of a limit.  The error for a body that is not closed names the place where the search stopped:
its start if there is no such keyword, but the keyword itself if it stands beyond the limit.
-/

namespace Stencil

open Text Text.Cursor

namespace Directive

/-- Takes the break at the end off the content of a directive. -/
def cutBreak (content : List Char) : List Char × List Char :=
  match content.getLast? with
  | none => ([], [])
  | some last => if isBreak last then (content.dropLast, [last]) else (content, [])

theorem cutBreak_nil : cutBreak [] = ([], []) := rfl

theorem cutBreak_concat (content : List Char) (last : Char) :
    cutBreak (content ++ [last]) =
      if isBreak last then (content, [last]) else (content ++ [last], []) := by
  simp [cutBreak]

theorem cutBreak_append (content : List Char) :
    (cutBreak content).1 ++ (cutBreak content).2 = content := by
  rcases List.eq_nil_or_concat content with rfl | ⟨content, last, rfl⟩
  · rfl
  · rw [List.concat_eq_append, cutBreak_concat]
    split <;> simp

theorem isBreak_of_mem_cutBreak {content : List Char} {character : Char}
    (member : character ∈ (cutBreak content).2) : isBreak character = true := by
  rcases List.eq_nil_or_concat content with rfl | ⟨content, last, rfl⟩
  · cases member
  · rw [List.concat_eq_append, cutBreak_concat] at member
    split at member
    · rename_i isLast
      rw [List.mem_singleton.mp member]
      exact isLast
    · cases member

theorem utf8Size_of_isBreak {character : Char} (breaks : isBreak character = true) :
    character.utf8Size = 1 := by
  have cases : character = ' ' ∨ character = '\n' := by simpa [isBreak] using breaks
  rcases cases with rfl | rfl <;> decide

theorem afterBreak_run (cursor : Cursor) :
    (afterBreak).run cursor = pure (cursor.passed.head?.any isBreak, cursor) := by
  cases last : cursor.passed.head? with
  | none => simp [afterBreak, Scan.isAfter_run, last]
  | some character =>
      by_cases space : character = ' '
      · subst space
        simp [afterBreak, Scan.isAfter_run, last, isBreak]
      · simp [afterBreak, Scan.isAfter_run, last, isBreak, beq_false_of_ne space]

theorem bodyLength_run (content passed rest : List Char) :
    (bodyLength (byteLength passed)).run (between (content.reverse ++ passed) rest) =
      pure (byteLength (cutBreak content).1, between (content.reverse ++ passed) rest) := by
  rcases List.eq_nil_or_concat content with rfl | ⟨content, last, rfl⟩
  · simp [bodyLength, cutBreak_nil, byteLength]
  · rw [List.concat_eq_append, cutBreak_concat]
    have positive := last.utf8Size_pos
    have length : byteLength ((content ++ [last]).reverse ++ passed) - byteLength passed =
        byteLength content + last.utf8Size := by
      simp [byteLength_append, byteLength_reverse, byteLength]
      omega
    have nonempty : last.utf8Size ≠ 0 := by omega
    simp only [List.reverse_append, List.reverse_cons, List.reverse_nil, List.nil_append,
      List.cons_append] at length
    cases breaks : isBreak last with
    | true =>
        have one := utf8Size_of_isBreak breaks
        simp [bodyLength, length, afterBreak_run, breaks, one]
    | false =>
        have total : byteLength (content ++ [last]) = byteLength content + last.utf8Size := by
          simp [byteLength_append, byteLength]
        simp [bodyLength, length, nonempty, afterBreak_run, breaks, total]

/-- A text cut around a body and the keyword that closes it. -/
structure BodyCut where
  before : List Char
  body : List Char
  /-- The break between the body and the keyword, if there is one. -/
  gap : List Char
  keyword : String
  after : List Char

namespace BodyCut

/-- The whole text. -/
def text (cut : BodyCut) : List Char :=
  cut.before ++ cut.body ++ cut.gap ++ cut.keyword.toList ++ cut.after

/-- Offset of the body. -/
def start (cut : BodyCut) : Nat := byteLength cut.before

/-- Offset of the end of the body. -/
def limit (cut : BodyCut) : Nat := byteLength (cut.before ++ cut.body)

/-- Offset of the keyword. -/
def closing (cut : BodyCut) : Nat := byteLength (cut.before ++ cut.body ++ cut.gap)

/-- Offset of the end of the keyword. -/
def closed (cut : BodyCut) : Nat :=
  byteLength (cut.before ++ cut.body ++ cut.gap ++ cut.keyword.toList)

/-- The range of the body. -/
def range (cut : BodyCut) : BodyRange := ⟨cut.start, byteLength cut.body⟩

/-- The place after the keyword. -/
def cursor (cut : BodyCut) : Cursor :=
  between (cut.before ++ cut.body ++ cut.gap ++ cut.keyword.toList).reverse cut.after

@[simp]
theorem text_cursor (cut : BodyCut) : cut.cursor.text = cut.text := by
  simp [cursor, text]

@[simp]
theorem offset_cursor (cut : BodyCut) : cut.cursor.offset = cut.closed := by
  rw [cursor, offset_between, byteLength_reverse, closed]

theorem limit_eq (cut : BodyCut) : cut.limit = cut.start + byteLength cut.body :=
  byteLength_append _ _

theorem closing_eq (cut : BodyCut) : cut.closing = cut.limit + byteLength cut.gap :=
  byteLength_append _ _

theorem closed_eq (cut : BodyCut) :
    cut.closed = cut.closing + byteLength cut.keyword.toList :=
  byteLength_append _ _

/-- The break is the only thing between the body and the keyword. -/
def Splits (cut : BodyCut) : Prop :=
  (cut.body, cut.gap) = cutBreak (cut.body ++ cut.gap)

end BodyCut

theorem reaches_of_closingKeyword? {opening : String} {keywords : List String} {index : Nat}
    {cursor after : Cursor}
    (found : (Scan.closingKeyword? opening keywords).run cursor = pure (some index, after)) :
    cursor.Reaches after ∧
      ∃ keyword, keywords[index]? = some keyword ∧ standsAt keyword after.rest = true := by
  constructor
  · have later : cursor.Reaches ((Scan.closingKeyword? opening keywords).run cursor).2 :=
      Text.Mirrors.reaches (.closingKeyword? opening keywords)
    rw [found] at later
    exact later
  · unfold Scan.closingKeyword? at found
    cases last : keywords.getLast? with
    | none =>
        rw [last] at found
        cases found
    | some terminator =>
        simp only [last, StateT.run_bind, Scan.pointer_run, Scan.remaining_run, pure_bind] at found
        generalize searched : (Scan.closingKeywordFrom opening keywords terminator
          (2 * (cursor.remaining + 1)) 0).run cursor = result at found
        obtain ⟨found?, place⟩ := result
        cases found? with
        | none => cases found
        | some first =>
            obtain ⟨rfl, rfl⟩ : first = index ∧ place = after := by
              simpa using Prod.mk.inj found
            exact Scan.standsAt_of_closingKeywordFrom _ _ _ _ _ searched

/-- A range that was found is cut out of the text by the keyword that closes it. -/
theorem bodyRange_ok {limit : Nat} {opening : String} {keywords : List String} {index : Nat}
    {range : BodyRange} {cursor after : Cursor}
    (found : (bodyRange limit opening keywords).run.run cursor = pure (.ok (range, index), after)) :
    ∃ cut : BodyCut, cut.Splits ∧ cut.before = cursor.passed.reverse ∧
      cut.body ++ cut.gap ++ cut.keyword.toList ++ cut.after = cursor.rest ∧
      keywords[index]? = some cut.keyword ∧ cut.closing < limit ∧ range = cut.range ∧
      after = cut.cursor := by
  unfold bodyRange at found
  rw [Parser.run_scan_bind (Scan.pointer_run cursor)] at found
  obtain ⟨found?, place, searched, rest⟩ := Parser.exists_of_run_bind_ok found
  replace searched := Parser.exists_of_run_scan_ok searched
  cases found? with
  | none => cases rest
  | some first =>
      obtain ⟨reaches, keyword, isKeyword, stands⟩ := reaches_of_closingKeyword? searched
      obtain ⟨content, passed, cursorRest⟩ := exists_middle reaches.1.symm reaches.2
      obtain ⟨follows, placeRest⟩ := isPrefix_of_standsAt stands
      have placeEq : place = between (content.reverse.reverse ++ cursor.passed)
          (keyword.toList ++ follows) := by
        rw [eq_between place, passed, ← placeRest, List.reverse_reverse]
      simp only at rest
      rw [Parser.run_scan_bind (Scan.pointer_run place)] at rest
      by_cases inside : place.offset < limit
      · have length := bodyLength_run content.reverse cursor.passed (keyword.toList ++ follows)
        have accepted := Scan.acceptText_run_self keyword
          (content.reverse.reverse ++ cursor.passed) follows
        have named : keywords.getD first "" = keyword := by
          rw [List.getD_eq_getElem?_getD, isKeyword]
          rfl
        rw [← cursor.offset_eq] at length
        rw [if_pos inside, placeEq, Parser.run_scan_bind length, named,
          Parser.run_scan_bind accepted] at rest
        obtain ⟨⟨rfl, rfl⟩, rfl⟩ : (⟨cursor.offset, _⟩ = range ∧ first = index) ∧ _ = after := by
          simpa only [Except.ok.injEq, Prod.mk.injEq] using Prod.mk.inj rest
        let cut : BodyCut :=
          { before := cursor.passed.reverse
            body := (cutBreak content.reverse).1
            gap := (cutBreak content.reverse).2
            keyword
            after := follows }
        have whole : cut.body ++ cut.gap = content.reverse := cutBreak_append content.reverse
        refine ⟨cut, ?_, rfl, ?_, isKeyword, ?_, ?_, ?_⟩
        · rw [BodyCut.Splits, whole]
        · rw [whole, List.append_assoc, placeRest, cursorRest]
        · have offset : cut.closing = place.offset := by
            rw [BodyCut.closing, List.append_assoc, whole, ← List.reverse_append,
              byteLength_reverse, ← passed, place.offset_eq]
          rw [offset]
          exact inside
        · rw [BodyCut.range, BodyCut.start, byteLength_reverse, ← cursor.offset_eq]
        · rw [BodyCut.cursor, List.append_assoc cut.before, whole]
          simp [cut]
      · rw [if_neg inside] at rest
        cases rest

variable {limit index : Nat} {opening : String} {keywords : List String} {start place : Cursor}

theorem fail_run {α : Type} (problem : ParseProblem) (place : Cursor) :
    (Parser.fail problem : Parser Cursor α).run.run place =
      pure (.error (.parse problem place.position), place) := rfl

/-- The error for a body without a keyword that would close it. -/
theorem bodyRange_run_of_none
    (searched : (Scan.closingKeyword? opening keywords).run start = pure (none, place)) :
    (bodyRange limit opening keywords).run.run start =
      pure (.error (.parse (.missingTerminator (keywords.getLastD "")) place.position), place) := by
  unfold bodyRange
  rw [Parser.run_scan_bind (Scan.pointer_run start), Parser.run_scan_bind searched]
  exact fail_run _ place

/-- The error for a body whose keyword is too late. -/
theorem bodyRange_run_of_late
    (searched : (Scan.closingKeyword? opening keywords).run start = pure (some index, place))
    (late : limit ≤ place.offset) :
    (bodyRange limit opening keywords).run.run start =
      pure (.error (.parse (.missingTerminator (keywords.getLastD "")) place.position), place) := by
  unfold bodyRange
  rw [Parser.run_scan_bind (Scan.pointer_run start), Parser.run_scan_bind searched]
  dsimp only
  rw [Parser.run_scan_bind (Scan.pointer_run place), if_neg (Nat.not_lt.mpr late)]
  exact fail_run _ place

/-- A body whose keyword is in time has a range. -/
theorem exists_bodyRange_run
    (searched : (Scan.closingKeyword? opening keywords).run start = pure (some index, place))
    (inside : place.offset < limit) : ∃ range after,
      (bodyRange limit opening keywords).run.run start = pure (.ok (range, index), after) := by
  unfold bodyRange
  rw [Parser.run_scan_bind (Scan.pointer_run start), Parser.run_scan_bind searched]
  dsimp only
  rw [Parser.run_scan_bind (Scan.pointer_run place), if_pos inside]
  exact ⟨_, _, rfl⟩

/-- A body is not closed if no keyword outside the bodies in it follows its start, or the first one
stands at the limit or beyond.  The error names the start of the body in the first case and the
place of that keyword in the second. -/
theorem bodyRange_unclosed (brackets : Brackets) (limit : Nat) (start place : Cursor)
    (error : TemplateError) :
    (bodyRange limit brackets.opening brackets.keywords).run.run start =
        pure (.error error, place) ↔
      error = .parse (.missingTerminator brackets.terminator) place.position ∧
        (place = start ∧ (∀ other index, ¬brackets.Meets ⟨start, 0, 0⟩ other index) ∨
          ∃ index, brackets.MeetsFirst ⟨start, 0, 0⟩ place index ∧ limit ≤ place.offset) := by
  have last : brackets.keywords.getLastD "" = brackets.terminator := by
    rw [List.getLastD_eq_getLast?, List.getLast?_eq_some_getLast brackets.keywords_ne]
    rfl
  constructor
  · intro failed
    generalize searched :
      (Scan.closingKeyword? brackets.opening brackets.keywords).run start = outcome
    obtain ⟨found?, stop⟩ := outcome
    cases found? with
    | none =>
        rw [bodyRange_run_of_none searched, last] at failed
        cases failed
        exact ⟨rfl, .inl ((Scan.closingKeyword?_eq_none_iff brackets).mp searched)⟩
    | some index =>
        by_cases inside : stop.offset < limit
        · obtain ⟨range, after, ran⟩ := exists_bodyRange_run searched inside
          rw [ran] at failed
          cases failed
        · have late := Nat.le_of_not_lt inside
          rw [bodyRange_run_of_late searched late, last] at failed
          cases failed
          have first := (Scan.closingKeyword?_eq_some_iff brackets).mp searched
          exact ⟨rfl, .inr ⟨index, first, late⟩⟩
  · rintro ⟨rfl, ⟨rfl, unmet⟩ | ⟨index, first, late⟩⟩
    · have searched := (Scan.closingKeyword?_eq_none_iff brackets).mpr ⟨rfl, unmet⟩
      rw [bodyRange_run_of_none searched, last]
    · have searched := (Scan.closingKeyword?_eq_some_iff brackets).mpr first
      rw [bodyRange_run_of_late searched late, last]

end Directive

/-- The place that is named for the body of a loop depends on what follows the block around it. -/
theorem Template.renderText_unclosed_late :
    (renderText "@if(true)@for(true)x@endif" 4).outcome =
      .error (.failed (.parse (.missingTerminator "@endfor") ⟨1, 20, 19⟩)) ∧
    (renderText "@if(true)@for(true)x@endif@endfor" 4).outcome =
      .error (.failed (.parse (.missingTerminator "@endfor") ⟨1, 27, 26⟩)) := by
  decide +kernel

end Stencil
