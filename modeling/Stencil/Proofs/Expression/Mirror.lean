import Stencil.Condition.Grammar
import Stencil.Proofs.Parser.Mirror

/-!
# Expressions in placed sources

The grammar of literals, paths, expressions and conditions reads a source that is placed in a text
as it reads the cursor over that text.
-/

namespace Stencil.Parser.Mirrors

open Text

variable {σ : Type} [Source σ] {anchor : Cursor} {placement : Placement σ anchor.text}

theorem number? :
    Text.Mirrors anchor placement
        (Literal.number? : StateM σ (Option Primitive)) Literal.number? :=
  (congruence anchor placement).number?

theorem stringFrom (start : Position) (fuel : Nat) (taken : List Char) :
    Mirrors anchor placement (Literal.stringFrom start fuel taken : Parser σ String)
      (Literal.stringFrom (placement.position start) fuel taken) := by
  induction fuel generalizing taken with
  | zero => exact throw _ nofun
  | succ fuel induction =>
      refine (scan .current).bind fun found => ?_
      cases found with
      | none => exact throw _ nofun
      | some character =>
          refine (scan .step).bind fun _ => ite (pure _) (ite ?_ (induction _))
          refine (scan .current).bind fun found => ?_
          cases found with
          | none => exact throw _ nofun
          | some escaped => exact (scan .step).bind fun _ => induction _

theorem string? : Mirrors anchor placement
    (Literal.string? : Parser σ (Option String)) Literal.string? :=
  (scan .current).bind fun _ =>
    ite
      (position_bind fun start => (scan .remaining).bind fun fuel =>
        (scan .step).bind fun _ => (stringFrom start fuel []).bind fun _ => pure _)
      (pure none)

theorem char? : Mirrors anchor placement
    (Literal.char? : Parser σ (Option Char)) Literal.char? :=
  (congruence anchor placement).char?

theorem boolean? :
    Text.Mirrors anchor placement (Literal.boolean? : StateM σ (Option Bool)) Literal.boolean? :=
  (congruence anchor placement).boolean?

variable {nested : Parser σ (Option Expression)} {nestedCursor : Parser Cursor (Option Expression)}

theorem argumentsFrom (inner : Mirrors anchor placement nested nestedCursor) (fuel : Nat) :
    Mirrors anchor placement (Grammar.argumentsFrom nested fuel)
      (Grammar.argumentsFrom nestedCursor fuel) := by
  induction fuel with
  | zero => exact pure []
  | succ fuel induction =>
      exact inner.bind fun found => (require "an argument" found).bind fun _ =>
        (scan .skipSpaces).bind fun _ => (scan (.accept ',')).bind fun _ =>
          ite (induction.bind fun _ => pure _)
            ((scan (.accept ')')).bind fun _ => ite (pure _) (fail _ nofun))

theorem arguments (inner : Mirrors anchor placement nested nestedCursor) :
    Mirrors anchor placement (Grammar.arguments nested) (Grammar.arguments nestedCursor) :=
  (scan .skipSpaces).bind fun _ => (scan (.accept ')')).bind fun _ =>
    ite (pure []) ((scan .remaining).bind fun _ => argumentsFrom inner _)

theorem indexes (inner : Mirrors anchor placement nested nestedCursor) (fuel : Nat) :
    Mirrors anchor placement (Grammar.indexes nested fuel) (Grammar.indexes nestedCursor fuel) := by
  induction fuel with
  | zero => exact pure []
  | succ fuel induction =>
      refine (scan (.accept '[')).bind fun _ => ite ?_ (pure [])
      exact (scan .skipSpaces).bind fun _ => inner.bind fun found =>
        (require "an index expression" found).bind fun _ => (expectSymbol ']').bind fun _ =>
          induction.bind fun _ => pure _

theorem namedSegment (inner : Mirrors anchor placement nested nestedCursor) (silent : Bool) :
    Mirrors anchor placement (Grammar.namedSegment nested silent)
      (Grammar.namedSegment nestedCursor silent) :=
  (scan (.takeWhile isNamePart)).bind fun _ => (scan (.accept '(')).bind fun _ =>
    ite ((arguments inner).bind fun _ => pure _) (pure _)

theorem acceptPoint :
    Text.Mirrors anchor placement (Grammar.acceptPoint : StateM σ Bool) Grammar.acceptPoint :=
  .pointer_bind fun _ within => (Text.Mirrors.accept '.').bind fun _ =>
    .ite ((Text.Mirrors.currentIs _).bind fun _ => .ite (.pure true) (.rewind within false))
      (.pure false)

theorem segmentsFrom (inner : Mirrors anchor placement nested nestedCursor) (silent : Bool)
    (fuel : Nat) :
    Mirrors anchor placement (Grammar.segmentsFrom nested silent fuel)
      (Grammar.segmentsFrom nestedCursor silent fuel) := by
  induction fuel generalizing silent with
  | zero => exact pure []
  | succ fuel induction =>
      refine (namedSegment inner silent).bind fun _ => (scan .remaining).bind fun _ =>
        (indexes inner _).bind fun _ => (scan acceptPoint).bind fun _ => ite ?_ (pure _)
      exact (scan (.accept '@')).bind fun silent => (scan (.currentIs isNameInitial)).bind fun _ =>
        ite ((induction silent).bind fun _ => pure _) (fail _ nofun)

theorem path? (inner : Mirrors anchor placement nested nestedCursor) :
    Mirrors anchor placement (Grammar.path? nested) (Grammar.path? nestedCursor) :=
  pointer_bind fun _ within => (scan (.accept '@')).bind fun silent =>
    (scan (.currentIs isNameInitial)).bind fun _ =>
      ite ((scan .remaining).bind fun _ => (segmentsFrom inner silent _).bind fun _ => pure _)
        (ite (fail _ nofun) (rewind within none))

theorem reference? (inner : Mirrors anchor placement nested nestedCursor) :
    Mirrors anchor placement (Grammar.reference? nested) (Grammar.reference? nestedCursor) := by
  have inside (opened : Bool) : Mirrors anchor placement
      (do
        if opened then
          let _ ← Parser.scan Scan.skipSpaces
          let path ← Parser.require "a reference" (← Grammar.path? nested)
          Parser.expectSymbol ')'
          return some path
        else return none)
      (do
        if opened then
          let _ ← Parser.scan Scan.skipSpaces
          let path ← Parser.require "a reference" (← Grammar.path? nestedCursor)
          Parser.expectSymbol ')'
          return some path
        else return none) :=
    ite
      ((scan .skipSpaces).bind fun _ => (path? inner).bind fun found =>
        (require "a reference" found).bind fun _ => (expectSymbol ')').bind fun _ => pure _)
      (pure none)
  exact (scan (.acceptText "@var(")).bind fun _ =>
    ite ((pure true).bind inside) ((scan (.acceptText "@const(")).bind inside)

theorem list? (inner : Mirrors anchor placement nested nestedCursor) :
    Mirrors anchor placement (Grammar.list? nested) (Grammar.list? nestedCursor) :=
  (scan (.acceptText "@list(")).bind fun _ =>
    ite ((arguments inner).bind fun _ => pure _)
      ((scan (.acceptText "@mutable_list(")).bind fun _ =>
        ite ((arguments inner).bind fun _ => pure _) (pure none))

theorem operand? (inner : Mirrors anchor placement nested nestedCursor) :
    Mirrors anchor placement (Grammar.operand? nested) (Grammar.operand? nestedCursor) :=
  (congruence anchor placement).operand? string? (path? inner) (reference? inner) (list? inner)

theorem wellFormed {α : Type} (found : Option α) :
    Mirrors anchor placement (Grammar.wellFormed found : Parser σ α)
        (Grammar.wellFormed found) :=
  (congruence anchor placement).wellFormed found

theorem closeGroups (opened : Nat) (stack : OperatorStack) :
    Mirrors anchor placement (Grammar.closeGroups opened stack : Parser σ (OperatorStack × Nat))
      (Grammar.closeGroups opened stack) :=
  (congruence anchor placement).closeGroups opened stack

theorem operator? :
    Text.Mirrors anchor placement
        (Grammar.operator? : StateM σ (Option Operator)) Grammar.operator? := by
  refine .pointer_bind fun _ within => Text.Mirrors.skipSpaces.bind fun _ =>
    Text.Mirrors.current.bind fun character? => ?_
  cases character?.bind Operator.ofSymbol? with
  | none => exact .rewind within none
  | some operator => exact Text.Mirrors.step.bind fun _ => .pure _

theorem expressionFrom (inner : Mirrors anchor placement nested nestedCursor) {start : σ}
    (within : anchor.Reaches (placement.cursor start)) (fuel : Nat) (stack : OperatorStack)
    (opened : Nat) :
    Mirrors anchor placement
      (Grammar.expressionFrom nested (Source.pointer start) fuel stack opened)
      (Grammar.expressionFrom nestedCursor (Source.pointer start + placement.shift) fuel stack
        opened) := by
  induction fuel generalizing stack opened with
  | zero => exact pure none
  | succ fuel induction =>
      refine (scan .skipSpaces).bind fun _ => (scan (.accept '(')).bind fun _ =>
        ite (induction _ _) ((operand? inner).bind fun found => ?_)
      cases found with
      | none => exact ite (rewind within none) (fail _ nofun)
      | some operand =>
          refine (closeGroups opened _).bind fun closed => (scan operator?).bind fun found => ?_
          cases found with
          | none => exact ite ((wellFormed _).bind fun _ => pure _) (fail _ nofun)
          | some operator => exact (wellFormed _).bind fun pushed => induction pushed _

theorem expressionWithin (depth : Nat) :
    Mirrors anchor placement (Grammar.expressionWithin depth : Parser σ (Option Expression))
      (Grammar.expressionWithin depth) := by
  induction depth with
  | zero => exact pure none
  | succ depth induction =>
      exact pointer_bind fun _ within => (scan .remaining).bind fun _ =>
        expressionFrom induction within _ _ _

theorem expression? :
    Mirrors anchor placement
        (Grammar.expression? : Parser σ (Option Expression)) Grammar.expression? :=
  (scan .remaining).bind fun _ => expressionWithin _

theorem expression (what : String) :
    Mirrors anchor placement (Grammar.expression what : Parser σ Expression)
        (Grammar.expression what) :=
  (congruence anchor placement).expression expression? what

theorem condition? :
    Mirrors anchor placement
        (Grammar.condition? : Parser σ (Option Condition)) Grammar.condition? :=
  (congruence anchor placement).condition? expression?

theorem reference :
    Mirrors anchor placement (Grammar.reference : Parser σ (Option Path)) Grammar.reference :=
  reference? expression?

end Stencil.Parser.Mirrors
