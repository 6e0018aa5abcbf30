import Stencil.Expression.Grammar
import Stencil.Proofs.RoundTrip.Begins

/-!
# Spelled paths are read

Arguments, indexes and paths are read as what they spell, as long as the expressions inside their
brackets are.
-/

namespace Stencil

open Text

theorem Text.Reads.skipBlanks (blanks : Blanks) {rest : List Char}
    (ends : rest.head?.any isTokenSpace = false) :
    Text.Reads Scan.skipSpaces blanks.text (!blanks.text.isEmpty) rest :=
  .skipAllSpaces blanks.areSpaces ends

theorem Blanks.dropWhile_append (blanks : Blanks) (rest : List Char) :
    (blanks.text ++ rest).dropWhile isTokenSpace = rest.dropWhile isTokenSpace :=
  List.dropWhile_append_of_pos (List.all_eq_true.mp blanks.areSpaces)

theorem EndsOperand.blanks (blanks : Blanks) {rest : List Char} (ends : EndsOperand rest) :
    EndsOperand (blanks.text ++ rest) := by
  have all := blanks.areSpaces
  cases text : blanks.text with
  | nil => exact ends
  | cons space spaces =>
      rw [text, List.all_cons, Bool.and_eq_true] at all
      have cases : space = ' ' ∨ space = '\t' := by simpa [isTokenSpace] using all.1
      rcases cases with rfl | rfl <;> rfl

/-- An expression that stands in front of a text ends there. -/
structure EndsExpression (rest : List Char) : Prop where
  operand : EndsOperand rest
  operator : ∀ operator : Operator,
    (rest.dropWhile isTokenSpace).head? ≠ some operator.symbol

namespace EndsExpression

variable {rest : List Char}

theorem cons {character : Char} (apart : continuesOperand character = false)
    (noSpace : isTokenSpace character = false)
    (noOperator : Operator.ofSymbol? character = none) : EndsExpression (character :: rest) := by
  refine ⟨apart, fun operator same => ?_⟩
  rw [List.dropWhile_cons, noSpace] at same
  cases same
  rw [Operator.ofSymbol?_eq_some_iff.mpr rfl] at noOperator
  cases noOperator

theorem blanks (blanks : Blanks) (ends : EndsExpression rest) :
    EndsExpression (blanks.text ++ rest) := by
  refine ⟨ends.operand.blanks blanks, ?_⟩
  rw [blanks.dropWhile_append]
  exact ends.operator

end EndsExpression

/-- A parser reads all spelled expressions up to a length, with the spaces in front of them. -/
def ReadsWithin (nested : Parser Cursor (Option Expression)) (bound : Nat) : Prop :=
  ∀ {expression : Expression} {rank : Nat} {text : List Char} (before : Blanks) (rest : List Char),
    expression.Spelling rank text → (before.text ++ text).length ≤ bound → EndsExpression rest →
    Parser.Reads nested (before.text ++ text) (some expression) rest

/-- Arguments but for the spaces in front of the first one. -/
theorem ArgumentsSpelling.exists_trimmed {items : List Expression} {text : List Char}
    (spelled : ArgumentsSpelling items text) (nonempty : items ≠ []) :
    ∃ (before : Blanks) (trimmed : List Char), text = before.text ++ trimmed ∧
      ArgumentsSpelling items trimmed ∧ Begins beginsExpression trimmed := by
  cases spelled with
  | none blanks => exact absurd rfl nonempty
  | last before after spelled =>
      refine ⟨before, _, List.append_assoc _ _ _, .last .none after spelled, ?_⟩
      exact (spelled.begins.append _).append _
  | more before after spelled others spelledLater =>
      refine ⟨before, _, List.append_assoc _ _ _, .more .none after spelled others spelledLater, ?_⟩
      exact (spelled.begins.append _).append _

namespace Parser.Reads

variable {nested : Parser Cursor (Option Expression)} {bound : Nat} {rest : List Char}

theorem require {α : Type} (what : String) (found : α) (rest : List Char) :
    Reads (Parser.require what (some found)) [] found rest :=
  pure _ _

/-- A character after spaces. -/
theorem expectSymbol_blanks (before : Blanks) (character : Char)
    (noSpace : isTokenSpace character = false) :
    Reads (Parser.expectSymbol character) (before.text ++ [character]) () rest := by
  have stays : (character :: rest).head?.any isTokenSpace = false := noSpace
  unfold Parser.expectSymbol
  refine (scan (.skipBlanks before stays)).bind ?_
  exact (scan (.accept character rest)).bind_look (pure _ _)

theorem expectSymbol (character : Char) (noSpace : isTokenSpace character = false) :
    Reads (Parser.expectSymbol character) [character] () rest :=
  expectSymbol_blanks .none character noSpace

section

variable (reads : ReadsWithin nested bound)

include reads

theorem argumentsFrom {items : List Expression} {text : List Char} {fuel : Nat}
    (spelled : ArgumentsSpelling items text) (nonempty : items ≠ [])
    (short : text.length ≤ bound + 1) (enough : items.length ≤ fuel) :
    Reads (Grammar.argumentsFrom nested fuel) text items rest := by
  induction items generalizing text fuel with
  | nil => exact absurd rfl nonempty
  | cons item items induction =>
      rw [List.length_cons] at enough
      obtain ⟨fuel, rfl⟩ : ∃ less, fuel = less + 1 := ⟨fuel - 1, by omega⟩
      cases spelled with
      | @last _ rank text before after spelled =>
          have parts : before.around text after ++ [')'] =
              (before.text ++ text) ++ (after.text ++ [')']) := by
            simp [Blanks.around]
          rw [parts] at short ⊢
          simp only [List.length_append, List.length_singleton] at short
          have ends : EndsExpression ((after.text ++ [')']) ++ rest) := by
            rw [List.append_assoc]
            exact .blanks after (.cons rfl rfl rfl)
          unfold Grammar.argumentsFrom
          refine (reads before _ spelled (by rw [List.length_append]; omega) ends).bind ?_
          refine (require _ _ _).look_bind ?_
          refine (scan (.skipBlanks after rfl)).bind ?_
          refine (scan (.accept_of_ne (by simp))).look_bind ?_
          exact (scan (.accept ')' rest)).bind_look (pure _ _)
      | @more _ _ rank text later before after spelled others spelledLater =>
          have parts : before.around text after ++ ',' :: later =
              (before.text ++ text) ++ (after.text ++ ([','] ++ later)) := by
            simp [Blanks.around]
          rw [parts] at short ⊢
          simp only [List.length_append, List.length_singleton] at short
          have ends : EndsExpression ((after.text ++ ([','] ++ later)) ++ rest) := by
            rw [List.append_assoc]
            exact .blanks after (.cons rfl rfl rfl)
          unfold Grammar.argumentsFrom
          refine (reads before _ spelled (by rw [List.length_append]; omega) ends).bind ?_
          refine (require _ _ _).look_bind ?_
          refine (scan (.skipBlanks after rfl)).bind ?_
          refine (scan (.accept ',' _)).bind ?_
          exact (induction spelledLater others (by omega) (by omega)).bind_look (pure _ _)

theorem arguments {items : List Expression} {text : List Char}
    (spelled : ArgumentsSpelling items text) (short : text.length ≤ bound + 1) :
    Reads (Grammar.arguments nested) text items rest := by
  unfold Grammar.arguments
  by_cases nothing : items = []
  · subst nothing
    cases spelled with
    | none blanks =>
        refine (scan (.skipBlanks blanks rfl)).bind ?_
        exact (scan (.accept ')' rest)).bind_look (pure _ _)
  · obtain ⟨before, trimmed, rfl, spelled, begins⟩ := spelled.exists_trimmed nothing
    rw [List.length_append] at short
    refine (scan (.skipBlanks before ?_)).bind ?_
    · exact (begins.append rest).any_eq_false fun _ => isTokenSpace_of_begins
    refine (scan (.accept_of_ne ((begins.append rest).head?_ne (by decide)))).look_bind ?_
    refine remaining_bind fun steps enough => ?_
    have few := spelled.length_le
    exact argumentsFrom reads spelled nothing (by omega) (by omega)

theorem indexes {path : List Segment} {text : List Char} {fuel : Nat}
    (areIndexes : path.all Segment.isIndex = true) (spelled : Path.FurtherSpelling path text)
    (short : text.length ≤ bound + 1) (enough : path.length < fuel) (ends : rest.head? ≠ some '[') :
    Reads (Grammar.indexes nested fuel) text path rest := by
  induction path generalizing text fuel with
  | nil =>
      obtain ⟨fuel, rfl⟩ : ∃ less, fuel = less + 1 := ⟨fuel - 1, by omega⟩
      cases spelled
      unfold Grammar.indexes
      exact (scan (.accept_of_ne ends)).look_bind (pure _ _)
  | cons segment path induction =>
      obtain ⟨fuel, rfl⟩ : ∃ less, fuel = less + 1 := ⟨fuel - 1, by omega⟩
      rw [List.length_cons] at enough
      rw [List.all_cons, Bool.and_eq_true] at areIndexes
      obtain ⟨isIndex, areIndexes⟩ := areIndexes
      cases spelled with
      | @cons _ _ text later spelled spelledLater =>
          cases spelled with
          | property valid => cases isIndex
          | call silent valid spelled => cases isIndex
          | @index index rank text before after spelled =>
              have parts : (Segment.call "get" [index] false true).lead ++
                  ('[' :: (before.around text after ++ [']']) ++ later) =
                  ['['] ++ (before.text ++ (text ++ ((after.text ++ [']']) ++ later))) := by
                simp [Segment.lead, Segment.isIndex, Blanks.around]
              rw [parts] at short ⊢
              simp only [List.length_append, List.length_singleton] at short
              have begins := (spelled.begins.append ((after.text ++ [']']) ++ later)).append rest
              have ends : EndsExpression (((after.text ++ [']']) ++ later) ++ rest) := by
                rw [List.append_assoc, List.append_assoc]
                exact .blanks after (.cons rfl rfl rfl)
              unfold Grammar.indexes
              refine (scan (.accept '[' _)).bind ?_
              refine (scan (.skipBlanks before ?_)).bind ?_
              · exact begins.any_eq_false fun _ => isTokenSpace_of_begins
              have within : (Blanks.none.text ++ text).length ≤ bound := by
                rw [Blanks.none, List.nil_append]
                omega
              refine Parser.Reads.bind (reads .none _ spelled within ends) ?_
              refine (require _ _ _).look_bind ?_
              refine (expectSymbol_blanks after ']' rfl).bind ?_
              exact (induction areIndexes spelledLater (by omega) (by omega)).bind_look (pure _ _)

theorem namedSegment {segment : Segment} {text : List Char} (spelled : segment.Spelling text)
    (noIndex : segment.isIndex = false) (short : text.length ≤ bound + 1)
    (ends : rest.head?.any isNamePart = false) (noCall : rest.head? ≠ some '(') :
    Reads (Grammar.namedSegment nested segment.isSilent) text segment rest := by
  have letters {name : String} {later : List Char} (valid : isName name = true)
      (ends : later.head?.any isNamePart = false) :
      Reads (Parser.scan (Scan.takeWhile isNamePart)) name.toList name later := by
    have read := Text.Reads.takeWhile (all_of_isName valid) ends
    rw [String.ofList_toList] at read
    exact scan read
  unfold Grammar.namedSegment
  cases spelled with
  | property valid =>
      refine (letters valid ends).bind_look ?_
      exact (scan (.accept_of_ne noCall)).look_bind (pure _ _)
  | @call name items text silent valid spelled =>
      rw [List.length_append, List.length_cons] at short
      refine (letters valid rfl).bind ?_
      refine (scan (.accept '(' _)).bind ?_
      exact (arguments reads spelled (by omega)).bind_look (pure _ _)
  | index before after spelled => cases noIndex

end

theorem acceptPoint (begins : rest.head?.any
    (fun character => character == '@' || isNameInitial character) = true) :
    Text.Reads Grammar.acceptPoint ['.'] true rest := by
  unfold Grammar.acceptPoint
  refine Text.Reads.pointer_bind fun place => ?_
  refine Text.Reads.bind_look (.accept '.' rest) ?_
  refine Text.Reads.look_bind (.currentIs _ rest) ?_
  rw [begins]
  exact .pure _ _

theorem acceptPoint_none (noPoint : rest.head? ≠ some '.') :
    Text.Reads (Grammar.acceptPoint : StateM Cursor Bool) [] false rest := by
  unfold Grammar.acceptPoint
  refine Text.Reads.pointer_bind fun place => ?_
  exact Text.Reads.look_bind (.accept_of_ne noPoint) (.pure _ _)

/-- The mark of silent calls, if it is there. -/
theorem acceptMark (segment : Segment) (unmarked : rest.head? ≠ some '@') :
    Text.Reads (Scan.accept '@') segment.mark segment.isSilent rest := by
  unfold Segment.mark
  cases segment.isSilent with
  | true => exact .accept '@' rest
  | false => exact .accept_of_ne unmarked

/-- Nothing is called behind a segment. -/
theorem head?_further {path : List Segment} {text : List Char}
    (spelled : Path.FurtherSpelling path text) (ends : EndsOperand rest) :
    (text ++ rest).head? ≠ some '(' := by
  rcases spelled.begins with rfl | begins
  · exact ends.ne rfl
  · exact (begins.append rest).head?_ne (by decide)

/-- The indexes that come first behind a segment, and the rest of the path, which goes on with a
name if there is more of it. -/
theorem exists_indexes {path : List Segment} {text : List Char}
    (spelled : Path.FurtherSpelling path text) : ∃ indexes others front back,
    path = indexes ++ others ∧ text = front ++ back ∧ indexes.all Segment.isIndex = true ∧
      others.head?.any Segment.isIndex = false ∧ Path.FurtherSpelling indexes front ∧
      Path.FurtherSpelling others back := by
  induction path generalizing text with
  | nil =>
      cases spelled
      exact ⟨[], [], [], [], rfl, rfl, rfl, rfl, .nil, .nil⟩
  | cons segment path induction =>
      cases spelled with
      | @cons _ _ text later spelled spelledLater =>
          cases isIndex : segment.isIndex with
          | false =>
              exact ⟨[], segment :: path, [], _, rfl, rfl, rfl, isIndex, .nil,
                .cons spelled spelledLater⟩
          | true =>
              obtain ⟨indexes, others, front, back, rfl, rfl, areIndexes, noIndex, first, second⟩ :=
                induction spelledLater
              refine ⟨segment :: indexes, others, segment.lead ++ (text ++ front),
                back, rfl, ?_, ?_,
                noIndex, .cons spelled first, second⟩
              · simp only [List.append_assoc]
              · rw [List.all_cons, isIndex, areIndexes, Bool.and_true]

theorem segmentsFrom (reads : ReadsWithin nested bound) {first : Segment} {path : List Segment}
    {text later : List Char} {fuel : Nat} (noIndex : first.isIndex = false)
    (spelled : first.Spelling text) (spelledLater : Path.FurtherSpelling path later)
    (short : (text ++ later).length ≤ bound + 1) (enough : path.length < fuel)
    (ends : EndsOperand rest) :
    Reads (Grammar.segmentsFrom nested first.isSilent fuel) (text ++ later)
        (first :: path) rest := by
  induction fuel generalizing first path text later with
  | zero => exact absurd enough (Nat.not_lt_zero _)
  | succ fuel induction =>
      have noName := spelledLater.goesOn.head?_append ends
      have noCall := head?_further spelledLater ends
      obtain ⟨indexes, others, front, back, rfl, rfl, areIndexes, stops, spelledFront,
          spelledBack⟩ :=
        exists_indexes spelledLater
      simp only [List.length_append] at short enough
      unfold Grammar.segmentsFrom
      refine (namedSegment reads spelled noIndex (by omega) noName noCall).bind ?_
      refine remaining_bind fun steps within => ?_
      have few := spelledFront.length_le
      rw [List.length_append] at within
      cases spelledBack with
      | nil =>
          rw [List.append_nil]
          refine (Parser.Reads.indexes reads areIndexes spelledFront (by omega) (by omega)
            (ends.ne rfl)).bind_look ?_
          refine (scan (acceptPoint_none (ends.ne rfl))).look_bind ?_
          rw [List.append_nil]
          exact pure _ _
      | @cons next others text later spelledNext spelledOthers =>
          have noIndexNext : next.isIndex = false := stops
          have lead : next.lead = '.' :: next.mark := by rw [Segment.lead, noIndexNext]; rfl
          rw [lead] at short within ⊢
          simp only [List.length_append, List.length_cons] at short within enough
          have begins := ((spelledNext.begins noIndexNext).append later).append rest
          have following := induction noIndexNext spelledNext spelledOthers
            (by rw [List.length_append]; omega) (by omega)
          refine (Parser.Reads.indexes reads areIndexes spelledFront (by omega) (by omega)
            (by simp)).bind ?_
          refine (scan (acceptPoint ?_)).bind ?_
          · unfold Segment.mark
            cases next.isSilent with
            | true => rfl
            | false => exact (begins.mono fun character has => by simp [has]).any_eq_true
          rw [if_pos rfl]
          refine (scan (acceptMark next (begins.head?_ne (by decide)))).bind ?_
          refine (scan (.currentIs _ _)).look_bind ?_
          rw [begins.any_eq_true, if_pos rfl]
          refine following.bind_look ?_
          exact pure _ _

theorem path? (reads : ReadsWithin nested bound) {path : Path} {text : List Char}
    (spelled : path.Spelling text) (short : text.length ≤ bound + 1) (ends : EndsOperand rest) :
    Reads (Grammar.path? nested) text (some path) rest := by
  cases spelled with
  | @intro first path text later noIndex spelled spelledLater =>
      rw [List.length_append] at short
      have begins := ((spelled.begins noIndex).append later).append rest
      unfold Grammar.path?
      refine pointer_bind fun place => ?_
      refine (scan (acceptMark first (begins.head?_ne (by decide)))).bind ?_
      refine (scan (.currentIs _ _)).look_bind ?_
      rw [begins.any_eq_true, if_pos rfl]
      refine remaining_bind fun steps within => ?_
      have few := spelledLater.length_le
      rw [List.length_append] at within
      exact (segmentsFrom reads noIndex spelled spelledLater (by omega) (by omega) ends).bind_look
        (pure _ _)

/-- A path in `@var(...)`. -/
theorem reference? (reads : ReadsWithin nested bound) {path : Path} {text : List Char}
    (before after : Blanks) (spelled : path.Spelling text) (short : text.length ≤ bound + 1) :
    Reads (Grammar.reference? nested) ("@var(".toList ++ (before.around text after ++ [')']))
      (some path) rest := by
  have parts : before.around text after ++ [')'] =
      before.text ++ (text ++ (after.text ++ [')'])) := by
    simp [Blanks.around]
  have begins := (spelled.begins.append (after.text ++ [')'])).append rest
  have closes : EndsOperand ([')'] ++ rest) := rfl
  have ends : EndsOperand ((after.text ++ [')']) ++ rest) := by
    rw [List.append_assoc]
    exact closes.blanks after
  rw [parts]
  unfold Grammar.reference?
  refine (scan (.acceptText "@var(" _)).bind ?_
  refine (pure true _).look_bind ?_
  refine (scan (.skipBlanks before (begins.any_eq_false fun _ => isTokenSpace_of_begins))).bind ?_
  refine (path? reads spelled short ends).bind ?_
  refine (require _ _ _).look_bind ?_
  exact (expectSymbol_blanks after ')' rfl).bind_look (pure _ _)

/-- What begins with no `@var(` and no `@const(` is no such path. -/
theorem reference?_none (noVar : ¬"@var(".toList <+: rest) (noConst : ¬"@const(".toList <+: rest) :
    Reads (Grammar.reference? nested) [] none rest := by
  unfold Grammar.reference?
  refine (scan (.acceptText_of_not "@var(" noVar)).look_bind ?_
  refine (scan (.acceptText_of_not "@const(" noConst)).look_bind ?_
  exact pure _ _

end Parser.Reads

end Stencil
