import Stencil.Proofs.Expression.Mirror
import Stencil.Proofs.Order.Placed
import Stencil.Proofs.Parser.Leads

/-!
# Reading expressions with their places

The grammar of expressions with places reads the same texts as the grammar of bare expressions,
fails with the same errors and comes to the same places of the text.  What it answers is the bare
answer when its places are forgotten.
-/

namespace Stencil.Parser

open Text

variable {α β γ δ : Type} {anchor : Cursor}

/-- A parser answers, fails and moves as another one does when its answers are changed. -/
abbrev Erases (anchor : Cursor) (change : α → β) (placed : Parser Cursor α)
    (bare : Parser Cursor β) : Prop :=
  MirrorsAs change anchor (.itself anchor.text) placed bare

namespace Erases

variable {change : α → β} {changeNext : γ → δ}

/-- A parser of a bare grammar is used as it is. -/
theorem same {parser : Parser Cursor α}
    (mirrors : Mirrors anchor (.itself anchor.text) parser parser) :
    Erases anchor id parser parser := mirrors

theorem bind {first : Parser Cursor α} {firstBare : Parser Cursor β} {next : α → Parser Cursor γ}
    {nextBare : β → Parser Cursor δ} (here : Erases anchor change first firstBare)
    (later : ∀ answer, Erases anchor changeNext (next answer) (nextBare (change answer))) :
    Erases anchor changeNext (first >>= next) (firstBare >>= nextBare) :=
  FollowsOrFails.bind here later

theorem scan {run : StateM Cursor α} (mirrors : Text.Mirrors anchor (.itself anchor.text) run run) :
    Erases anchor id (Parser.scan run) (Parser.scan run) :=
  Mirrors.scan mirrors

/-- A place that is only noted. -/
theorem pointer {next : Nat → Parser Cursor γ} {bare : Parser Cursor δ}
    (later : ∀ place, Erases anchor changeNext (next place) bare) :
    Erases anchor changeNext (Parser.scan Scan.pointer >>= next) bare :=
  FollowsOrFails.of_state fun cursor _ _ => ⟨_, _, later cursor.offset, rfl, rfl⟩

/-- The answer is changed at the end. -/
theorem answering {placed : Parser Cursor α} {bare : Parser Cursor β} {next : α → γ}
    {changeNext : γ → β} (here : Erases anchor change placed bare)
    (changes : ∀ answer, changeNext (next answer) = change answer) :
    Erases anchor changeNext (do return next (← placed)) bare := by
  have bound : Erases anchor changeNext (do return next (← placed)) (bare >>= pure) :=
    here.bind fun answer => changes answer ▸ MirrorsAs.pure changeNext (next answer)
  rw [bind_pure] at bound
  exact bound

/-- A parser that answers as another one does has not gone back. -/
theorem moves {placed : Parser Cursor α} {bare : Parser Cursor β}
    (erases : ∀ anchor, Erases anchor change placed bare) : Moves placed := by
  intro start answer finish ran
  obtain ⟨-, stands, reaches⟩ := (erases start).1 start start ⟨rfl, .refl start⟩
  have isFinish : (placed.run.run start).2 = finish := congrArg Prod.snd ran
  rw [isFinish] at stands
  rw [← stands] at reaches
  exact reaches

/-- Where the bare parser finds something, so does the other one. -/
theorem exists_found {placed : Parser Cursor (Option α)} {bare : Parser Cursor (Option β)}
    (erases : ∀ anchor, Erases anchor (Option.map change) placed bare) {start finish : Cursor}
    {answer : β} (ran : bare.run.run start = Pure.pure (.ok (some answer), finish)) :
    ∃ found, placed.run.run start = Pure.pure (.ok (some found), finish) ∧
        change found = answer := by
  obtain ⟨answers, stands, -⟩ := (erases start).1 start start ⟨rfl, .refl start⟩
  rw [ran] at answers stands
  generalize placed.run.run start = outcome at answers stands ⊢
  obtain ⟨outcome, place⟩ := outcome
  obtain rfl : place = finish := stands
  cases outcome with
  | error error => cases answers
  | ok found? =>
      cases found? with
      | none => cases answers
      | some found => exact ⟨found, rfl, Option.some.inj (Except.ok.inj answers)⟩

theorem require (what : String) (change : α → β) (found : Option α) :
    Erases anchor change (Parser.require what found) (Parser.require what (found.map change)) := by
  cases found with
  | none => exact MirrorsAs.fail (.expected what) nofun
  | some answer => exact MirrorsAs.pure change answer

theorem wellFormed (change : α → β) (found : Option α) :
    Erases anchor change (Grammar.wellFormed found) (Grammar.wellFormed (found.map change)) := by
  cases found with
  | none => exact MirrorsAs.fail _ nofun
  | some answer => exact MirrorsAs.pure change answer

variable {nested : Parser Cursor (Option PlacedExpression)}
  {nestedBare : Parser Cursor (Option Expression)}

/-- The bare segments of a path. -/
def erasePath (path : PlacedSegment × List PlacedSegment) : Path :=
  path.1.erase :: PlacedSegment.eraseAll path.2

section

variable (inner : Erases anchor (Option.map PlacedExpression.erase) nested nestedBare)

include inner

theorem argumentsFrom (fuel : Nat) :
    Erases anchor PlacedExpression.eraseAll (PlacedGrammar.argumentsFrom nested fuel)
      (Grammar.argumentsFrom nestedBare fuel) := by
  induction fuel with
  | zero => exact MirrorsAs.pure _ []
  | succ fuel induction =>
      exact inner.bind fun found =>
        (require "an argument" PlacedExpression.erase found).bind fun argument =>
          (scan .skipSpaces).bind fun _ => (scan (.accept ',')).bind fun _ =>
            .ite (induction.bind fun others => MirrorsAs.pure _ (argument :: others))
              ((scan (.accept ')')).bind fun _ =>
                .ite (MirrorsAs.pure _ [argument]) (MirrorsAs.fail _ nofun))

theorem arguments :
    Erases anchor PlacedExpression.eraseAll (PlacedGrammar.arguments nested)
      (Grammar.arguments nestedBare) :=
  (scan .skipSpaces).bind fun _ => (scan (.accept ')')).bind fun _ =>
    .ite (MirrorsAs.pure _ []) ((scan .remaining).bind fun _ => argumentsFrom inner _)

theorem indexes (fuel : Nat) :
    Erases anchor PlacedSegment.eraseAll (PlacedGrammar.indexes nested fuel)
      (Grammar.indexes nestedBare fuel) := by
  induction fuel with
  | zero => exact MirrorsAs.pure _ []
  | succ fuel induction =>
      refine .pointer fun place => (scan (.accept '[')).bind fun _ => .ite ?_ (MirrorsAs.pure _ [])
      refine (scan .skipSpaces).bind fun _ => inner.bind fun found =>
        (require "an index expression" PlacedExpression.erase found).bind fun index => ?_
      refine (same (Mirrors.expectSymbol ']')).bind fun _ => .pointer fun closed => ?_
      exact induction.bind fun others =>
        MirrorsAs.pure PlacedSegment.eraseAll
          (PlacedSegment.call place "get" [index] false true closed :: others)

theorem namedSegment (silent : Bool) :
    Erases anchor PlacedSegment.erase (PlacedGrammar.namedSegment nested silent)
      (Grammar.namedSegment nestedBare silent) := by
  refine .pointer fun place => (scan (.takeWhile isNamePart)).bind fun name =>
    (scan (.accept '(')).bind fun _ => .ite ?_ ?_
  · exact (arguments inner).bind fun arguments => .pointer fun closed =>
      MirrorsAs.pure PlacedSegment.erase (.call place name arguments silent false closed)
  · exact MirrorsAs.pure PlacedSegment.erase (.property place name)

theorem segmentsWith {later : Bool → Parser Cursor (List PlacedSegment)} {fuel : Nat}
    (others : ∀ silent, Erases anchor PlacedSegment.eraseAll (later silent)
      (Grammar.segmentsFrom nestedBare silent fuel)) (silent : Bool) :
    Erases anchor erasePath (PlacedGrammar.segmentsWith nested later silent)
      (Grammar.segmentsFrom nestedBare silent (fuel + 1)) := by
  refine (namedSegment inner silent).bind fun segment => (scan .remaining).bind fun _ =>
    (indexes inner _).bind fun followers => (scan Mirrors.acceptPoint).bind fun _ =>
      .ite ?_ (MirrorsAs.pure erasePath (segment, followers))
  refine (scan (.accept '@')).bind fun silent => (scan (.currentIs isNameInitial)).bind fun _ =>
    .ite ((others silent).bind fun rest => ?_) (MirrorsAs.fail _ nofun)
  have erased : erasePath (segment, followers ++ rest) =
      segment.erase :: PlacedSegment.eraseAll followers ++ PlacedSegment.eraseAll rest :=
    congrArg (segment.erase :: ·) (PlacedSegment.eraseAll_append followers rest)
  have answers : Erases anchor erasePath (pure (segment, followers ++ rest))
      (pure (erasePath (segment, followers ++ rest))) := MirrorsAs.pure _ _
  rw [erased] at answers
  exact answers

theorem segmentsFrom (fuel : Nat) (silent : Bool) :
    Erases anchor PlacedSegment.eraseAll (PlacedGrammar.segmentsFrom nested fuel silent)
      (Grammar.segmentsFrom nestedBare silent fuel) := by
  induction fuel generalizing silent with
  | zero => exact MirrorsAs.pure _ []
  | succ fuel induction => exact (segmentsWith inner induction silent).answering fun _ => rfl

theorem path? :
    Erases anchor (Option.map erasePath) (PlacedGrammar.path? nested)
        (Grammar.path? nestedBare) := by
  refine Mirrors.pointer_bindAs fun _ within => (scan (.accept '@')).bind fun silent =>
    (scan (.currentIs isNameInitial)).bind fun _ => .ite ?_ (.ite (MirrorsAs.fail _ nofun) ?_)
  · exact (scan .remaining).bind fun _ =>
      (segmentsWith inner (segmentsFrom inner _) silent).bind fun path =>
        MirrorsAs.pure _ (some path)
  · exact (scan (.returnTo within)).bind fun _ => MirrorsAs.pure _ none

theorem reference? :
    Erases anchor (Option.map erasePath) (PlacedGrammar.reference? nested)
      (Grammar.reference? nestedBare) := by
  have inside (opened : Bool) : Erases anchor (Option.map erasePath)
      (do
        if opened then
          let _ ← Parser.scan Scan.skipSpaces
          let path ← Parser.require "a reference" (← PlacedGrammar.path? nested)
          Parser.expectSymbol ')'
          return some path
        else return none)
      (do
        if opened then
          let _ ← Parser.scan Scan.skipSpaces
          let path ← Parser.require "a reference" (← Grammar.path? nestedBare)
          Parser.expectSymbol ')'
          return some path
        else return none) :=
    .ite
      ((scan .skipSpaces).bind fun _ => (path? inner).bind fun found =>
        (require "a reference" erasePath found).bind fun path =>
          (same (Mirrors.expectSymbol ')')).bind fun _ => MirrorsAs.pure _ (some path))
      (MirrorsAs.pure _ none)
  exact (scan (.acceptText "@var(")).bind fun _ =>
    .ite ((same (.pure true)).bind inside) ((scan (.acceptText "@const(")).bind inside)

theorem list? :
    Erases anchor (Option.map PlacedExpression.erase) (PlacedGrammar.list? nested)
      (Grammar.list? nestedBare) := by
  have listed (isMutable : Bool) : Erases anchor (Option.map PlacedExpression.erase)
      (do return some (.list isMutable (← PlacedGrammar.arguments nested)))
      (do return some (.list isMutable (← Grammar.arguments nestedBare))) :=
    (arguments inner).bind fun items =>
      MirrorsAs.pure _ (some (PlacedExpression.list isMutable items))
  exact (scan (.acceptText "@list(")).bind fun _ => .ite (listed false)
    ((scan (.acceptText "@mutable_list(")).bind fun _ => .ite (listed true) (MirrorsAs.pure _ none))

theorem markedOperand? :
    Erases anchor (Option.map PlacedExpression.erase) (PlacedGrammar.markedOperand? nested)
      (Grammar.markedOperand? nestedBare) := by
  refine (reference? inner).bind fun found => ?_
  cases found with
  | none => exact list? inner
  | some path => exact MirrorsAs.pure _ (some (PlacedExpression.reference path.1 path.2))

theorem plainOperand? :
    Erases anchor (Option.map PlacedExpression.erase) (PlacedGrammar.plainOperand? nested)
      (Grammar.plainOperand? nestedBare) := by
  have literal (value : Primitive) : Erases anchor (Option.map PlacedExpression.erase)
      (pure (some (.literal value))) (pure (some (.literal value))) :=
    MirrorsAs.pure _ (some (PlacedExpression.literal value))
  refine (same Mirrors.string?).bind fun text? => ?_
  cases text? with
  | some text => exact literal _
  | none =>
      refine (same Mirrors.char?).bind fun character? => ?_
      cases character? with
      | some character => exact literal _
      | none =>
          refine (scan Mirrors.number?).bind fun number? => ?_
          cases number? with
          | some number => exact literal _
          | none =>
              refine (scan Mirrors.boolean?).bind fun truth? => ?_
              cases truth? with
              | some truth => exact literal _
              | none =>
                  refine (path? inner).bind fun found => ?_
                  cases found with
                  | none => exact MirrorsAs.pure _ none
                  | some path =>
                      exact MirrorsAs.pure _ (some (PlacedExpression.reference path.1 path.2))

theorem operand? :
    Erases anchor (Option.map PlacedExpression.erase) (PlacedGrammar.operand? nested)
      (Grammar.operand? nestedBare) :=
  (scan .current).bind fun _ => .ite (markedOperand? inner) (plainOperand? inner)

end

/-- The bare stack with the number of open groups. -/
def eraseClosed (closed : PlacedStack × Nat) : OperatorStack × Nat :=
  (closed.1.erase, closed.2)

theorem closeGroups (opened : Nat) (stack : PlacedStack) :
    Erases anchor eraseClosed (PlacedGrammar.closeGroups opened stack)
      (Grammar.closeGroups opened stack.erase) := by
  induction opened generalizing stack with
  | zero => exact MirrorsAs.pure eraseClosed (stack, 0)
  | succ opened induction =>
      refine Mirrors.pointer_bindAs fun _ within => (scan .skipSpaces).bind fun _ =>
        (scan (.accept ')')).bind fun _ => .ite ?_ ?_
      · rw [PlacedStack.erase_closeGroup?]
        exact (wellFormed PlacedStack.erase _).bind fun closed => induction closed
      · exact (scan (.returnTo within)).bind fun _ =>
          MirrorsAs.pure eraseClosed (stack, opened + 1)

theorem expressionFrom
    (inner : Erases anchor (Option.map PlacedExpression.erase) nested nestedBare) {start : Cursor}
    (within : anchor.Reaches start) (fuel : Nat) (stack : PlacedStack) (opened : Nat) :
    Erases anchor (Option.map PlacedExpression.erase)
      (PlacedGrammar.expressionFrom nested start.offset fuel stack opened)
      (Grammar.expressionFrom nestedBare start.offset fuel stack.erase opened) := by
  induction fuel generalizing stack opened with
  | zero => exact MirrorsAs.pure _ none
  | succ fuel induction =>
      refine (scan .skipSpaces).bind fun _ => (scan (.accept '(')).bind fun _ =>
        .ite (induction stack.openGroup _) ((operand? inner).bind fun found => ?_)
      cases found with
      | none =>
          have back : Text.Mirrors anchor (.itself anchor.text)
              (Scan.returnTo (Source.pointer start)) (Scan.returnTo (Source.pointer start)) :=
            Text.Mirrors.returnTo within
          have same : stack.erase.operands.isEmpty = stack.operands.isEmpty := List.isEmpty_map
          dsimp only [Option.map_none]
          rw [same]
          exact .ite ((scan back).bind fun _ => MirrorsAs.pure _ none) (MirrorsAs.fail _ nofun)
      | some operand =>
          refine .pointer fun finish =>
            (closeGroups opened (stack.pushOperand operand finish)).bind fun closed =>
              (scan Mirrors.operator?).bind fun found => ?_
          cases found with
          | none =>
              refine .ite ?_ (MirrorsAs.fail _ nofun)
              change Erases anchor _ _
                (do return some (← Grammar.wellFormed closed.1.erase.finish?))
              rw [PlacedStack.erase_finish?]
              exact (wellFormed PlacedExpression.erase _).bind fun expression =>
                MirrorsAs.pure _ (some expression)
          | some operator =>
              change Erases anchor _ _ (do
                Grammar.expressionFrom nestedBare start.offset fuel
                  (← Grammar.wellFormed (closed.1.erase.pushOperator? operator)) closed.2)
              rw [PlacedStack.erase_pushOperator?]
              exact (wellFormed PlacedStack.erase _).bind fun pushed => induction pushed closed.2

theorem expressionWithin (depth : Nat) :
    Erases anchor (Option.map PlacedExpression.erase) (PlacedGrammar.expressionWithin depth)
      (Grammar.expressionWithin depth) := by
  induction depth with
  | zero => exact MirrorsAs.pure _ none
  | succ depth induction =>
      exact Mirrors.pointer_bindAs fun _ within => (scan .remaining).bind fun _ =>
        expressionFrom induction within _ {} 0

theorem expression? :
    Erases anchor (Option.map PlacedExpression.erase) PlacedGrammar.expression?
      Grammar.expression? :=
  (scan .remaining).bind fun _ => expressionWithin _

end Erases

end Stencil.Parser
