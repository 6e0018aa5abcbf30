import Stencil.Proofs.RoundTrip.Path

/-!
# Spelled operands are read

Literals, references and lists are told apart by how they begin.
-/

namespace Stencil

open Text

/-- A path that needs no mark begins with a name that is no boolean. -/
theorem Path.Spelling.exists_name {path : Path} {text : List Char} (spelled : path.Spelling text)
    (bare : path.isBare = true) :
    ∃ name more, text = name ++ more ∧ name.all isNamePart = true ∧
      Begins isNameInitial name ∧ name ≠ "true".toList ∧ name ≠ "false".toList ∧ GoesOn more := by
  have apart {name : String} (other : (!(["true", "false"].contains name)) = true) :
      name.toList ≠ "true".toList ∧ name.toList ≠ "false".toList := by
    have words : name ≠ "true" ∧ name ≠ "false" := by simpa using other
    exact ⟨mt String.toList_inj.mp words.1, mt String.toList_inj.mp words.2⟩
  cases spelled with
  | @intro first path text later noIndex spelled spelledLater =>
      cases spelled with
      | @property name valid =>
          refine ⟨name.toList, later, rfl, all_of_isName valid, begins_name valid, ?_⟩
          exact ⟨(apart bare).1, (apart bare).2, spelledLater.goesOn⟩
      | @call name items text silent valid spelled =>
          simp only [Path.isBare, Bool.and_eq_true, Bool.not_eq_true'] at bare
          obtain ⟨rfl, other⟩ := bare
          have words : (!(["true", "false"].contains name)) = true := by rw [other]; rfl
          refine ⟨name.toList, '(' :: (text ++ later), ?_, all_of_isName valid,
            begins_name valid, ?_⟩
          · simp [Segment.mark, Segment.isSilent]
          · exact ⟨(apart words).1, (apart words).2, .inr ⟨'(', _, rfl, by decide⟩⟩
      | index before after spelled => cases noIndex

theorem Path.Spelling.begins_bare {path : Path} {text : List Char} (spelled : path.Spelling text)
    (bare : path.isBare = true) : Begins isNameInitial text := by
  obtain ⟨name, more, rfl, -, initial, -⟩ := spelled.exists_name bare
  exact initial.append more

namespace Parser.Reads

variable {nested : Parser Cursor (Option Expression)} {bound : Nat} {text rest : List Char}

/-- What begins with no quote is neither a string nor a char. -/
theorem plainOperand?_unquoted {found : Option Expression}
    (noString : (text ++ rest).head? ≠ some '\x22') (noChar : (text ++ rest).head? ≠ some '\x27')
    (later : Reads (do
      if let some number ← Parser.scan Literal.number? then return some (.literal number)
      if let some truth ← Parser.scan Literal.boolean? then return some (.literal (.boolean truth))
      return (← Grammar.path? nested).map .reference) text found rest) :
    Reads (Grammar.plainOperand? nested) text found rest := by
  unfold Grammar.plainOperand?
  refine (string?_none noString).look_bind ?_
  exact (char?_none noChar).look_bind later

theorem plainOperand?_number {number : Primitive} (begins : Begins beginsNumber text)
    (read : Text.Reads Literal.number? text (some number) rest) :
    Reads (Grammar.plainOperand? nested) text (some (.literal number)) rest := by
  have first := begins.append rest
  apply plainOperand?_unquoted (first.head?_ne (by decide)) (first.head?_ne (by decide))
  exact (scan read).bind_look (pure _ _)

theorem plainOperand?_literal {value : Primitive} (spelled : value.Spelling text)
    (ends : EndsOperand rest) :
    Reads (Grammar.plainOperand? nested) text (some (.literal value)) rest := by
  cases spelled with
  | int number same =>
      exact plainOperand?_number number.begins_text
        (.number?_integer (number.integer?_text_int same) ends)
  | long number same =>
      exact plainOperand?_number (number.begins_text.append ['L']) (.number?_long number same)
  | wide number same noInt =>
      exact plainOperand?_number number.begins_text
        (.number?_integer (number.integer?_text_wide same noInt) ends)
  | boolean value =>
      have begins : Begins isNameInitial ((if value then "true" else "false").toList ++ rest) := by
        cases value <;> exact ⟨_, _, rfl, by decide⟩
      apply plainOperand?_unquoted (begins.head?_ne (by decide)) (begins.head?_ne (by decide))
      refine (scan (.number?_none (begins.head?_ne (by decide)) ?_)).look_bind ?_
      · exact begins.any_eq_false fun _ => isDigit_of_isNameInitial
      exact (scan (.boolean?_word value ends)).bind_look (pure _ _)
  | char letter =>
      unfold Grammar.plainOperand?
      refine (string?_none (by simp)).look_bind ?_
      exact (char? letter).bind_look (pure _ _)
  | string letters =>
      unfold Grammar.plainOperand?
      exact (string? letters).bind_look (pure _ _)

theorem plainOperand?_path (reads : ReadsWithin nested bound) {path : Path}
    (spelled : path.Spelling text) (bare : path.isBare = true) (short : text.length ≤ bound + 1)
    (ends : EndsOperand rest) :
    Reads (Grammar.plainOperand? nested) text (some (.reference path)) rest := by
  have begins := (spelled.begins_bare bare).append rest
  have noBoolean : Text.Reads (Literal.boolean? : StateM Cursor (Option Bool)) [] none
      (text ++ rest) := by
    obtain ⟨name, more, rfl, all, -, noTrue, noFalse, goesOn⟩ := spelled.exists_name bare
    rw [List.append_assoc]
    exact .boolean?_name all noTrue noFalse (goesOn.head?_append ends)
  apply plainOperand?_unquoted (begins.head?_ne (by decide)) (begins.head?_ne (by decide))
  refine (scan (.number?_none (begins.head?_ne (by decide)) ?_)).look_bind ?_
  · exact begins.any_eq_false fun _ => isDigit_of_isNameInitial
  refine (scan noBoolean).look_bind ?_
  exact (path? reads spelled short ends).bind_look (pure _ _)

theorem list? (reads : ReadsWithin nested bound) (isMutable : Bool) {items : List Expression}
    (spelled : ArgumentsSpelling items text) (short : text.length ≤ bound + 1) :
    Reads (Grammar.list? nested) ((if isMutable then "@mutable_list(" else "@list(").toList ++ text)
      (some (.list isMutable items)) rest := by
  unfold Grammar.list?
  cases isMutable with
  | false =>
      refine (scan (.acceptText "@list(" _)).bind ?_
      exact (arguments reads spelled short).bind_look (pure _ _)
  | true =>
      refine (scan (.acceptText_of_not "@list(" (by simp))).look_bind ?_
      refine (scan (.acceptText "@mutable_list(" _)).bind ?_
      exact (arguments reads spelled short).bind_look (pure _ _)

theorem operand?_marked {found : Option Expression} (marked : (text ++ rest).head? = some '@')
    (later : Reads (Grammar.markedOperand? nested) text found rest) :
    Reads (Grammar.operand? nested) text found rest := by
  unfold Grammar.operand?
  refine (scan (.current _)).look_bind ?_
  rw [marked]
  exact later

theorem operand?_plain {found : Option Expression} (begins : Begins beginsPlain text)
    (later : Reads (Grammar.plainOperand? nested) text found rest) :
    Reads (Grammar.operand? nested) text found rest := by
  have unmarked : ((text ++ rest).head? == some '@') = false :=
    beq_false_of_ne ((begins.append rest).head?_ne (by decide))
  unfold Grammar.operand?
  refine (scan (.current _)).look_bind ?_
  rw [unmarked]
  exact later

theorem operand?_literal {value : Primitive} (spelled : value.Spelling text)
    (ends : EndsOperand rest) :
    Reads (Grammar.operand? nested) text (some (.literal value)) rest :=
  operand?_plain spelled.begins (plainOperand?_literal spelled ends)

theorem operand?_bare (reads : ReadsWithin nested bound) {path : Path}
    (spelled : path.Spelling text) (bare : path.isBare = true) (short : text.length ≤ bound + 1)
    (ends : EndsOperand rest) :
    Reads (Grammar.operand? nested) text (some (.reference path)) rest := by
  refine operand?_plain ?_ (plainOperand?_path reads spelled bare short ends)
  exact (spelled.begins_bare bare).mono fun _ => beginsPlain_of_isNameInitial

theorem operand?_reference (reads : ReadsWithin nested bound) {path : Path} (before after : Blanks)
    (spelled : path.Spelling text) (short : text.length ≤ bound + 1) :
    Reads (Grammar.operand? nested) ("@var(".toList ++ (before.around text after ++ [')']))
      (some (.reference path)) rest := by
  refine operand?_marked rfl ?_
  exact (reference? reads before after spelled short).bind_look (pure _ _)

theorem operand?_list (reads : ReadsWithin nested bound) (isMutable : Bool)
    {items : List Expression} (spelled : ArgumentsSpelling items text)
    (short : text.length ≤ bound + 1) :
    Reads (Grammar.operand? nested)
      ((if isMutable then "@mutable_list(" else "@list(").toList ++ text)
      (some (.list isMutable items)) rest := by
  refine operand?_marked ?_ ?_
  · cases isMutable <;> rfl
  · refine (reference?_none ?_ ?_).look_bind ?_
    · cases isMutable <;> simp
    · cases isMutable <;> simp
    · exact list? reads isMutable spelled short

end Parser.Reads

end Stencil
