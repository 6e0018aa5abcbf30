import Stencil.Proofs.RoundTrip.Header

/-!
# Prints that hold no word of a body

A text is quiet if no mark in it stands in front of a word that opens, divides or closes a body.
The prints of expressions and headers are quiet, and so are those of trees without bodies.
-/

namespace Stencil

open Text

/-- Every mark of a text stands in front of a word that ends in the text and belongs to no body. -/
inductive Quiet : List Char → Prop where
  | nil : Quiet []
  | plain {character : Char} {text : List Char} (unmarked : character ≠ '@') (later : Quiet text) :
      Quiet (character :: text)
  | mark {word text : List Char} {next : Char} (isWord : word.all isNamePart = true)
      (other : bodyWords.contains (String.ofList word) = false)
      (ends : isNamePart next = false) (later : Quiet (next :: text)) :
      Quiet ('@' :: (word ++ next :: text))

namespace Quiet

variable {text later : List Char}

theorem append (quiet : Quiet text) (quietLater : Quiet later) : Quiet (text ++ later) := by
  induction quiet with
  | nil => exact quietLater
  | plain unmarked _ induction => exact .plain unmarked induction
  | mark isWord other ends _ induction =>
      rw [List.cons_append, List.append_assoc]
      exact .mark isWord other ends induction

theorem of_unmarked (unmarked : isUnmarked text = true) : Quiet text := by
  induction text with
  | nil => exact .nil
  | cons character text induction =>
      simp only [isUnmarked, List.all_cons, Bool.and_eq_true, bne_iff_ne] at unmarked
      exact .plain unmarked.1 (induction unmarked.2)

theorem ne_of_isNamePart {character : Char} (part : isNamePart character = true) :
    character ≠ '@' := by
  rintro rfl
  exact absurd part (by decide)

theorem isUnmarked_of_all (word : text.all isNamePart = true) : isUnmarked text = true := by
  refine List.all_eq_true.mpr fun character member => ?_
  exact bne_iff_ne.mpr (ne_of_isNamePart (List.all_eq_true.mp word character member))

theorem name {name : String} (valid : isName name = true) : Quiet name.toList :=
  .of_unmarked (isUnmarked_of_all (all_of_isName valid))

theorem cons_of_ne {character : Char} (unmarked : (character != '@') = true)
    (quiet : Quiet text) : Quiet (character :: text) :=
  .plain (bne_iff_ne.mp unmarked) quiet

end Quiet

theorem isUnmarked_number (number : Int) : isUnmarked (toString number).toList = true := by
  have unmarked : isUnmarked (Digits.ofInt number).digits = true := by
    refine List.all_eq_true.mpr fun digit member => bne_iff_ne.mpr ?_
    rintro rfl
    have digits := List.all_eq_true.mp (Digits.ofInt number).areDigits '@' member
    exact absurd digits (by decide)
  rw [← Digits.text_ofInt, Digits.text]
  cases (Digits.ofInt number).isNegative with
  | true => exact unmarked
  | false => exact unmarked

theorem isUnmarked_escaped (quote : Char) {content : List Char}
    (unmarked : isUnmarked content = true) :
    isUnmarked (content.flatMap (escaped quote)) = true := by
  refine List.all_eq_true.mpr fun character member => ?_
  obtain ⟨original, isThere, written⟩ := List.mem_flatMap.mp member
  have plain := List.all_eq_true.mp unmarked original isThere
  unfold escaped at written
  split at written
  · rcases List.mem_cons.mp written with rfl | same
    · rfl
    · rwa [List.mem_singleton.mp same]
  · rwa [List.mem_singleton.mp written]

theorem quiet_quoted {quote : Char} (isPlain : (quote != '@') = true) {content : List Char}
    (unmarked : isUnmarked content = true) : Quiet (quoted quote content) := by
  apply Quiet.append
  · exact .cons_of_ne isPlain (.of_unmarked (isUnmarked_escaped quote unmarked))
  · exact .cons_of_ne isPlain .nil

theorem Primitive.quiet_print {value : Primitive} (valid : value.isWellFormed = true) :
    Quiet value.print := by
  cases value with
  | int value => exact .of_unmarked (isUnmarked_number value.toInt)
  | long value =>
      exact (Quiet.of_unmarked (isUnmarked_number value.toInt)).append (.cons_of_ne rfl .nil)
  | double value => cases valid
  | char value => exact quiet_quoted rfl valid
  | boolean value => cases value <;> exact .of_unmarked (by decide)
  | string value => exact quiet_quoted rfl valid

theorem Quiet.grouped {text : List Char} (quiet : Quiet text) (isGroup : Bool) :
    Quiet (grouped isGroup text) := by
  cases isGroup with
  | true => exact (Quiet.cons_of_ne rfl quiet).append (.cons_of_ne rfl .nil)
  | false => exact quiet

/-- How directives without bodies and lists begin. -/
def plainOpenings : List String :=
  ["@var(", "@list(", "@mutable_list(", "@placeholder(", "@use_placeholder(", "@var ", "@const ",
    "@set_var ", "@breakfor\n"]

theorem Quiet.word {word : List Char} {next : Char} (isWord : word.all isNamePart = true)
    (other : bodyWords.contains (String.ofList word) = false) (ends : isNamePart next = false)
    (unmarked : (next != '@') = true) : Quiet ('@' :: (word ++ [next])) :=
  .mark isWord other ends (.cons_of_ne unmarked .nil)

theorem quiet_plainOpening {opening : String} (plain : opening ∈ plainOpenings) :
    Quiet opening.toList := by
  have split : ∃ word next, opening.toList = '@' :: (word ++ [next]) ∧
      word.all isNamePart = true ∧ bodyWords.contains (String.ofList word) = false ∧
      isNamePart next = false ∧ (next != '@') = true := by
    refine ⟨opening.toList.tail.dropLast, opening.toList.getLastD ' ', ?_⟩
    revert opening
    decide
  obtain ⟨word, next, text, isWord, other, ends, unmarked⟩ := split
  rw [text]
  exact .word isWord other ends unmarked

mutual

theorem Expression.quiet_print : (expression : Expression) → expression.isWellFormed = true →
    Quiet expression.print
  | .literal value, valid => Primitive.quiet_print valid
  | .reference path, valid => by
      simp only [Expression.isWellFormed, Bool.and_eq_true] at valid
      have quiet := quiet_printPath true path valid.2
      rw [Expression.print]
      split
      · exact quiet
      · rw [List.append_assoc]
        exact (quiet_plainOpening (by decide)).append (quiet.append (.cons_of_ne rfl .nil))
  | .list isMutable items, valid => by
      have quiet := quiet_printItems items valid
      have closed := quiet.append (.cons_of_ne rfl .nil : Quiet [')'])
      rw [Expression.print, List.append_assoc]
      refine (quiet_plainOpening ?_).append closed
      cases isMutable <;> decide
  | .binary left operator right, valid => by
      simp only [Expression.isWellFormed, Bool.and_eq_true] at valid
      have quietLeft := (Expression.quiet_print left valid.1).grouped
        (operator.precedence < left.rank)
      have quietRight := (Expression.quiet_print right valid.2).grouped
        (operator.precedence ≤ right.rank)
      rw [Expression.print]
      refine quietLeft.append (.cons_of_ne rfl (.cons_of_ne ?_ (.cons_of_ne rfl quietRight)))
      cases operator <;> rfl

theorem quiet_printItems : (items : List Expression) → areWellFormedItems items = true →
    Quiet (printItems items)
  | [], _ => .nil
  | item :: items, valid => by
      simp only [areWellFormedItems, Bool.and_eq_true] at valid
      exact (Expression.quiet_print item valid.1).append (quiet_printFurther items valid.2)

theorem quiet_printFurther : (items : List Expression) → areWellFormedItems items = true →
    Quiet (printFurther items)
  | [], _ => .nil
  | item :: items, valid => by
      simp only [areWellFormedItems, Bool.and_eq_true] at valid
      exact .cons_of_ne rfl
        ((Expression.quiet_print item valid.1).append (quiet_printFurther items valid.2))

theorem quiet_printPath (isFirst : Bool) : (path : List Segment) →
    areWellFormedSegments path = true → Quiet (printPath isFirst path)
  | [], _ => .nil
  | segment :: path, valid => by
      simp only [areWellFormedSegments, Bool.and_eq_true] at valid
      have quiet := (Segment.quiet_print segment valid.1).append
        (quiet_printPath false path valid.2)
      rw [printPath, List.append_assoc]
      split
      · exact quiet
      · exact .cons_of_ne rfl quiet

theorem Segment.quiet_print : (segment : Segment) → segment.isWellFormed = true →
    Quiet segment.print
  | .property name, valid => .name valid
  | .call name items silent indexed, valid => by
      simp only [Segment.isWellFormed, Bool.and_eq_true] at valid
      have closed := (quiet_printItems items valid.1).append (.cons_of_ne rfl .nil : Quiet [')'])
      have bracketed := (quiet_printItems items valid.1).append (.cons_of_ne rfl .nil : Quiet [']'])
      rw [Segment.print]
      cases indexed with
      | true => exact .cons_of_ne rfl bracketed
      | false =>
          have names := valid.2
          simp only [Bool.false_eq_true, if_false, Bool.and_eq_true, Bool.not_eq_true'] at names
          simp only [Bool.false_eq_true, if_false, List.append_assoc, List.cons_append]
          cases silent with
          | false => exact (Quiet.name names.1).append (.cons_of_ne rfl closed)
          | true =>
              have other := names.2
              rw [Bool.true_and, ← String.ofList_toList (s := name)] at other
              exact .mark (all_of_isName names.1) other rfl (.cons_of_ne rfl closed)

end

theorem Path.quiet_print {path : Path} (valid : path.isWellFormed = true) :
    Quiet (printPath true path) := by
  simp only [Path.isWellFormed, Bool.and_eq_true] at valid
  exact quiet_printPath true path valid.2

theorem Comparison.quiet_symbol (comparison : Comparison) : Quiet comparison.symbol.toList := by
  cases comparison <;> exact .of_unmarked (by decide)

theorem Operator.unmarked_symbol (operator : Operator) : (operator.symbol != '@') = true := by
  cases operator <;> rfl

theorem Condition.quiet_print {condition : Condition} (valid : condition.isWellFormed = true) :
    Quiet condition.print := by
  cases condition with
  | compare left comparison right =>
      simp only [Condition.isWellFormed, Bool.and_eq_true] at valid
      have quietRight := right.quiet_print valid.2
      rw [Condition.print, List.append_assoc]
      refine (left.quiet_print valid.1).append (.cons_of_ne rfl ?_)
      exact comparison.quiet_symbol.append (.cons_of_ne rfl quietRight)
  | value expression => exact expression.quiet_print valid

theorem quiet_printName {name : Option String} (valid : name.all isName = true) :
    Quiet (printName name) := by
  cases name with
  | none => exact .nil
  | some name => exact .cons_of_ne rfl (.name valid)

theorem LoopHeader.quiet_print {header : LoopHeader} (valid : header.isWellFormed = true) :
    Quiet header.print := by
  cases header with
  | conditional condition => exact Condition.quiet_print valid
  | numbered name start comparison bound operator step =>
      simp only [LoopHeader.isWellFormed, Bool.and_eq_true] at valid
      obtain ⟨⟨⟨validName, validStart⟩, validBound⟩, validStep⟩ := valid
      have quietName := Quiet.name validName
      have spaced : Quiet " = ".toList := .of_unmarked (by decide)
      have quietStep : Quiet (' ' :: operator.symbol :: ' ' :: step.print) :=
        .cons_of_ne rfl
          (.cons_of_ne operator.unmarked_symbol (.cons_of_ne rfl (step.quiet_print validStep)))
      have quietBound := bound.quiet_print validBound
      have quietStart := start.quiet_print validStart
      simp only [LoopHeader.print, List.append_assoc, List.cons_append]
      exact quietName.append (spaced.append (quietStart.append (.cons_of_ne rfl
        (quietName.append (.cons_of_ne rfl (comparison.quiet_symbol.append (.cons_of_ne rfl
          (quietBound.append (.cons_of_ne rfl (quietName.append quietStep))))))))))
  | iterable element index list =>
      simp only [LoopHeader.isWellFormed, Bool.and_eq_true] at valid
      have quietNames := (Quiet.name valid.1.1).append (quiet_printName valid.1.2)
      exact quietNames.append (.cons_of_ne rfl (list.quiet_print valid.2))

theorem quiet_printBinding {opening name : String} {value : Expression}
    (plain : opening ∈ plainOpenings) (validName : isName name = true)
    (valid : value.isWellFormed = true) : Quiet (printBinding opening name value) := by
  have spaced : Quiet " = ".toList := .of_unmarked (by decide)
  have ended := (value.quiet_print valid).append (.cons_of_ne rfl .nil : Quiet ['\n'])
  simp only [printBinding, List.append_assoc]
  exact (quiet_plainOpening plain).append ((Quiet.name validName).append (spaced.append ended))

theorem quiet_printUse {key : Placeholder.Key} {argument : Option Expression}
    (validName : isName key.name = true) (validDefinition : isName key.definition = true)
    (valid : argument.all Expression.isWellFormed = true) : Quiet (printUse key argument) := by
  have named := Quiet.name validName
  cases argument with
  | none =>
      have opening : Quiet "@use_placeholder(".toList := quiet_plainOpening (by decide)
      have both := (opening.append named).append
        (.cons_of_ne rfl (.name validDefinition) : Quiet (',' :: _))
      exact both.append (.cons_of_ne rfl .nil)
  | some argument =>
      have opening : Quiet "@placeholder(".toList := quiet_plainOpening (by decide)
      have both := (opening.append named).append
        (.cons_of_ne rfl (argument.quiet_print valid) : Quiet (',' :: _))
      exact both.append (.cons_of_ne rfl .nil)

theorem quiet_printNames {key : Placeholder.Key} {parameter : Option String}
    (validName : isName key.name = true) (validDefinition : isName key.definition = true)
    (valid : parameter.all isName = true) : Quiet (printNames key parameter) := by
  have definition : Quiet (',' :: key.definition.toList) := .cons_of_ne rfl (.name validDefinition)
  exact ((Quiet.name validName).append definition).append (quiet_printName valid)

/-- Whether a tree has bodies. -/
def Tree.hasBody : Tree → Bool
  | .loop .. | .branches .. | .definePlaceholder .. => true
  | _ => false

theorem Tree.quiet_print {tree : Tree} {inLoop : Bool} (valid : tree.isWellFormed inLoop = true)
    (plain : tree.hasBody = false) : Quiet tree.print := by
  cases tree with
  | text content =>
      simp only [Tree.isWellFormed, Bool.and_eq_true] at valid
      exact .of_unmarked valid.2
  | read path =>
      have opening : Quiet "@var(".toList := quiet_plainOpening (by decide)
      exact (opening.append (Path.quiet_print valid)).append (.cons_of_ne rfl .nil)
  | declare name value constant =>
      simp only [Tree.isWellFormed, Bool.and_eq_true] at valid
      apply quiet_printBinding _ valid.1 valid.2
      cases constant <;> decide
  | assign name value =>
      simp only [Tree.isWellFormed, Bool.and_eq_true] at valid
      exact quiet_printBinding (by decide) valid.1 valid.2
  | leave => exact quiet_plainOpening (by decide)
  | usePlaceholder key argument =>
      simp only [Tree.isWellFormed, Bool.and_eq_true] at valid
      exact quiet_printUse valid.1.1.1 valid.1.1.2 valid.1.2
  | loop header body => cases plain
  | branches conditions otherwise => cases plain
  | definePlaceholder key parameter body => cases plain

end Stencil
