import Stencil.Condition.Grammar
import Stencil.Proofs.Parser.Allowance
import Stencil.Proofs.Expression.Mirror

/-!
# Loops of expressions end by themselves

Arguments, indexes, segments and operands are read in loops, and nested expressions by the grammar
itself.  A round of each loop passes a symbol, and a nested expression stands behind a bracket, so
more rounds and more levels make no difference.
-/

namespace Stencil.Parser

open Text Text.Brackets

variable {σ : Type} [Source σ] [Tracked σ] {room : σ → Nat} {anchor start here : Cursor}

namespace ConcurFrom

theorem number? :
    Text.ConcurFrom anchor (@Literal.number? σ (.allowing room))
        (Literal.number? : StateM σ _) :=
  (congruence anchor).number?

theorem stringFrom (start : Position) {more fuel : Nat} (enoughMore : anchor.remaining < more)
    (enough : anchor.remaining < fuel) (taken : List Char) :
    ConcurFrom anchor (@Literal.stringFrom σ (.allowing room) start more taken)
      (Literal.stringFrom start fuel taken) := by
  induction fuel generalizing anchor more taken with
  | zero => exact absurd enough (Nat.not_lt_zero _)
  | succ fuel induction =>
      obtain ⟨more, rfl⟩ : ∃ less, more = less + 1 := ⟨more - 1, by omega⟩
      refine current_bind (throw nofun) fun here character within goesOn => ?_
      have left := within.remaining_le
      refine step_bind within goesOn fun after less => ite (pure _) (ite ?_ ?_)
      · refine current_bind (throw nofun) fun here escaped within goesOn => ?_
        have left := within.remaining_le
        exact step_bind within goesOn fun last lesser => induction (by omega) (by omega) _
      · exact induction (by omega) (by omega) _

theorem string? :
    ConcurFrom anchor (@Literal.string? σ (.allowing room)) (Literal.string? : Parser σ _) := by
  refine current_bind (pure none) fun here character within goesOn => ?_
  refine .ite ((Concur.lift .position).bind fun start => ?_) ((pure none).behind within)
  refine .scan_bind (.remaining_bind ?_)
  rintro _ rfl extra
  exact step_bind within goesOn fun after less =>
    (stringFrom start (by omega) (by omega) []).bind fun _ => pure _

theorem boolean? :
    Text.ConcurFrom anchor (@Literal.boolean? σ (.allowing room))
        (Literal.boolean? : StateM σ _) :=
  (congruence anchor).boolean?

variable {nested nested' : Parser σ (Option Expression)}

theorem argumentsFrom {more fuel : Nat} (enoughMore : anchor.remaining < more)
    (enough : anchor.remaining < fuel)
    (inner : ∀ here, anchor.Reaches here → ConcurFrom here nested nested') :
    ConcurFrom anchor (@Grammar.argumentsFrom σ (.allowing room) nested more)
      (Grammar.argumentsFrom nested' fuel) := by
  induction fuel generalizing anchor more with
  | zero => exact absurd enough (Nat.not_lt_zero _)
  | succ fuel induction =>
      obtain ⟨more, rfl⟩ : ∃ less, more = less + 1 := ⟨more - 1, by omega⟩
      refine (inner anchor (.refl anchor)).bind fun found => (require _ found).bind fun argument =>
        (scan .skipSpaces).bind fun _ => accept_bind (fun later passes => ?_) ?_
      · have less := passes.remaining_lt
        exact (induction (by omega) (by omega) fun here within =>
          inner here (passes.reaches.trans within)).bind fun _ => pure _
      · exact (scan (.accept ')')).bind fun _ => ite (pure [argument]) (fail nofun)

theorem arguments (inner : ∀ here, anchor.Reaches here → ConcurFrom here nested nested') :
    ConcurFrom anchor (@Grammar.arguments σ (.allowing room) nested)
        (Grammar.arguments nested') := by
  refine (scan .skipSpaces).bind fun _ => (scan (.accept ')')).bind fun _ => ite (pure []) ?_
  refine remaining_bind fun here within extra => ?_
  exact (argumentsFrom (by omega) (by omega) fun later passes =>
    inner later (within.trans passes)).behind within

/-- Nested expressions behind a bracket are read alike. -/
theorem indexes {more fuel : Nat} (enoughMore : anchor.remaining < more)
    (enough : anchor.remaining < fuel)
    (inner : ∀ here, Precedes anchor here → ConcurFrom here nested nested') :
    ConcurFrom anchor (@Grammar.indexes σ (.allowing room) nested more)
      (Grammar.indexes nested' fuel) := by
  induction fuel generalizing anchor more with
  | zero => exact absurd enough (Nat.not_lt_zero _)
  | succ fuel induction =>
      obtain ⟨more, rfl⟩ : ∃ less, more = less + 1 := ⟨more - 1, by omega⟩
      refine accept_bind (fun later passes => ?_) (pure [])
      have less := passes.remaining_lt
      refine (scan .skipSpaces).bind fun _ => (inner later passes).bind fun found =>
        (require _ found).bind fun _ => (expectSymbol ']').bind fun _ => ?_
      exact (induction (by omega) (by omega) fun here passed =>
        inner here (passes.reaches.trans_precedes passed)).bind fun _ => pure _

theorem namedSegment (inner : ∀ here, Precedes anchor here → ConcurFrom here nested nested')
    (silent : Bool) :
    ConcurFrom anchor (@Grammar.namedSegment σ (.allowing room) nested silent)
      (Grammar.namedSegment nested' silent) := by
  refine (scan (.takeWhile isNamePart)).bind fun name =>
    accept_bind (fun later passes => ?_) (pure _)
  exact (arguments fun here within => inner here (passes.trans_reaches within)).bind fun _ => pure _

end ConcurFrom

theorem Concur.wellFormed {α : Type} {pre : Cursor → Prop} (found : Option α) :
    Concur Tracked.cursor pre (@Grammar.wellFormed σ (.allowing room) α found)
      (Grammar.wellFormed found) fun _ => pre := by
  cases found with
  | none => exact fail nofun
  | some answer => exact .pure fun _ within => within

/-- A point in front of a name is passed. -/
theorem Concur.acceptPoint {pre : Cursor → Prop} :
    Text.Concur Tracked.cursor pre (@Grammar.acceptPoint σ (.allowing room)) Grammar.acceptPoint
      fun accepted => cond accepted (Passed pre) pre := by
  refine .pointer_bind fun here within => .test (.accept '.') ?_ ?_
  · refine (Text.Concur.currentIs _).bind fun _ => .ite (.pure ?_) ?_
    · rintro later ⟨_, rfl, passes⟩
      exact ⟨_, within, passes⟩
    · refine (Text.Concur.returnTo ?_).bind fun _ => .pure fun _ same => same ▸ within
      rintro later ⟨_, rfl, passes⟩
      exact passes.text_eq
  · exact .pure fun _ same => same ▸ within

namespace ConcurFrom

variable {nested nested' : Parser σ (Option Expression)}

theorem segmentsFrom {more fuel : Nat} (enoughMore : anchor.remaining < more)
    (enough : anchor.remaining < fuel)
    (inner : ∀ here, Precedes anchor here → ConcurFrom here nested nested') (silent : Bool) :
    ConcurFrom anchor (@Grammar.segmentsFrom σ (.allowing room) nested silent more)
      (Grammar.segmentsFrom nested' silent fuel) := by
  induction fuel generalizing anchor more silent with
  | zero => exact absurd enough (Nat.not_lt_zero _)
  | succ fuel induction =>
      obtain ⟨more, rfl⟩ : ∃ less, more = less + 1 := ⟨more - 1, by omega⟩
      refine (namedSegment inner silent).bind fun segment => ?_
      refine remaining_bind fun here within extra => ?_
      have followers : ConcurFrom here
          (@Grammar.indexes σ (.allowing room) nested (here.remaining + extra + 1))
          (Grammar.indexes nested' (here.remaining + 1)) :=
        indexes (by omega) (by omega) fun later passes => inner later (within.trans_precedes passes)
      refine (followers.behind within).bind fun followers => ?_
      refine (Concur.lift Concur.acceptPoint).test (.each fun later passed => ?_) (pure _)
      have passes := passed_reaches passed
      have less := passes.remaining_lt
      refine ConcurFrom.behind ?_ passes.reaches
      refine (scan (.accept '@')).bind fun silent => (scan (.currentIs isNameInitial)).bind fun _ =>
        ite ?_ (fail nofun)
      exact (induction (by omega) (by omega) (fun here passed =>
        inner here (passes.reaches.trans_precedes passed)) silent).bind fun _ => pure _

theorem path? (inner : ∀ here, Precedes anchor here → ConcurFrom here nested nested') :
    ConcurFrom anchor (@Grammar.path? σ (.allowing room) nested) (Grammar.path? nested') := by
  refine pointer_bind fun place reached => (scan (.accept '@')).bind fun silent =>
    (scan (.currentIs isNameInitial)).bind fun _ => ite ?_ (ite (fail nofun) (rewind reached none))
  refine remaining_bind fun here within extra => ?_
  exact ((segmentsFrom (by omega) (by omega) (fun later passes =>
    inner later (within.trans_precedes passes)) silent).bind fun _ => pure _).behind within

end ConcurFrom

/-- A reference is passed; where none begins the place is kept. -/
theorem Concur.reference? {nested nested' : Parser σ (Option Expression)}
    (inner : ∀ here, Precedes start here → ConcurFrom here nested nested') :
    Concur Tracked.cursor (· = start) (@Grammar.reference? σ (.allowing room) nested)
      (Grammar.reference? nested') fun found later =>
        cond found.isSome (Precedes start later) (later = start) := by
  have inside : Concur Tracked.cursor (Passed (· = start))
      (do
        let _ ← Parser.scan (@Scan.skipSpaces σ (.allowing room))
        let path ← @Parser.require σ (.allowing room) _ "a reference"
          (← @Grammar.path? σ (.allowing room) nested)
        @Parser.expectSymbol σ (.allowing room) ')'
        return some path)
      (do
        let _ ← Parser.scan Scan.skipSpaces
        let path ← Parser.require "a reference" (← Grammar.path? nested')
        Parser.expectSymbol ')'
        return some path) fun found later =>
          cond found.isSome (Precedes start later) (later = start) := by
    refine .each ?_
    rintro later ⟨_, rfl, passes⟩
    refine .outset ?_
    exact (ConcurFrom.scan .skipSpaces).andThen fun _ =>
      (ConcurFrom.path? fun here within =>
        inner here (passes.reaches.trans_precedes within)).andThen
        fun found => (ConcurFrom.require "a reference" found).andThen fun _ =>
          (ConcurFrom.expectSymbol ')').andThen fun _ => .pure fun _ => passes.trans_reaches
  refine .test (.lift (.acceptText (by decide))) inside ?_
  exact .test (.lift (.acceptText (by decide))) inside (.pure fun _ same => same)

namespace ConcurFrom

variable {nested nested' : Parser σ (Option Expression)}

theorem reference? (inner : ∀ here, Precedes anchor here → ConcurFrom here nested nested') :
    ConcurFrom anchor (@Grammar.reference? σ (.allowing room) nested)
      (Grammar.reference? nested') := by
  refine Concur.each fun here within => ?_
  refine (Concur.reference? fun later passes => inner later (within.trans_precedes passes)).weaken
    (fun _ same => same) fun found later came => ?_
  cases found with
  | none => exact came ▸ within
  | some path => exact within.trans came.reaches

theorem list? (inner : ∀ here, Precedes anchor here → ConcurFrom here nested nested') :
    ConcurFrom anchor (@Grammar.list? σ (.allowing room) nested) (Grammar.list? nested') := by
  have listed {later : Cursor} (passes : Precedes anchor later) (mutable : Bool) : ConcurFrom later
      (do return some (Expression.list mutable (← @Grammar.arguments σ (.allowing room) nested)))
      (do return some (Expression.list mutable (← Grammar.arguments nested'))) :=
    (arguments fun here within => inner here (passes.trans_reaches within)).bind fun _ => pure _
  refine acceptText_bind (by decide) (fun later passes => listed passes false) ?_
  exact acceptText_bind (by decide) (fun later passes => listed passes true) (pure none)

theorem operand? (inner : ∀ here, Precedes anchor here → ConcurFrom here nested nested') :
    ConcurFrom anchor (@Grammar.operand? σ (.allowing room) nested) (Grammar.operand? nested') :=
  (congruence anchor).operand? string? (path? inner) (reference? inner) (list? inner)

end ConcurFrom

/-- An operator that follows is passed. -/
theorem Concur.operator? {pre : Cursor → Prop} :
    Text.Concur Tracked.cursor pre (@Grammar.operator? σ (.allowing room)) Grammar.operator?
      fun found => cond found.isSome (Passed pre) pre := by
  refine .pointer_bind fun place within => (Text.ConcurFrom.skipSpaces.there (.refl place)).bind
    fun _ => ?_
  have rewinds : Text.Concur Tracked.cursor place.Reaches
      (do @Scan.returnTo σ (.allowing room) place.offset; return none)
      (do Scan.returnTo place.offset; return none)
      fun (found : Option Operator) => cond found.isSome (Passed pre) pre :=
    (Text.Concur.returnTo fun _ reaches => reaches.1).bind fun _ =>
      .pure fun _ same => same ▸ within
  refine .current_bind rewinds fun here character reaches stands => ?_
  have passes := reaches.trans_precedes (.advance (Cursor.rest_ne_nil_of_head? stands))
  rw [Option.bind_some]
  cases Operator.ofSymbol? character with
  | none => exact rewinds.there reaches
  | some operator => exact .step_bind (.pure fun _ same => same ▸ ⟨place, within, passes⟩)

namespace ConcurFrom

theorem expressionFrom {nested nested' : Parser σ (Option Expression)} {more fuel : Nat}
    (within : start.Reaches anchor) (enoughMore : anchor.remaining < more)
    (enough : anchor.remaining < fuel)
    (inner : ∀ here, Precedes anchor here → ConcurFrom here nested nested')
    (stack : OperatorStack) (opened : Nat) :
    Concur Tracked.cursor anchor.Reaches
      (@Grammar.expressionFrom σ (.allowing room) nested start.offset more stack opened)
      (Grammar.expressionFrom nested' start.offset fuel stack opened) fun _ => start.Reaches := by
  induction fuel generalizing anchor more stack opened with
  | zero => exact absurd enough (Nat.not_lt_zero _)
  | succ fuel induction =>
      obtain ⟨more, rfl⟩ : ∃ less, more = less + 1 := ⟨more - 1, by omega⟩
      -- what is read behind a bracket or an operator
      have onward (stack : OperatorStack) (opened : Nat) :
          Concur Tracked.cursor (Passed anchor.Reaches)
            (@Grammar.expressionFrom σ (.allowing room) nested start.offset more stack opened)
            (Grammar.expressionFrom nested' start.offset fuel stack opened)
            fun _ => start.Reaches := by
        refine .each fun later passed => ?_
        have passes := passed_reaches passed
        have less := passes.remaining_lt
        exact (induction (within.trans passes.reaches) (by omega) (by omega) (fun here passed =>
          inner here (passes.reaches.trans_precedes passed)) stack opened).there (.refl later)
      refine Concur.bind (scan .skipSpaces) fun _ => .test (.lift (.accept '(')) (onward _ _) ?_
      refine Concur.bind (operand? inner) fun found => ?_
      cases found with
      | none =>
          refine .ite ?_ (fail nofun)
          exact (Concur.lift (.returnTo fun _ reaches => (within.trans reaches).1)).bind fun _ =>
            .pure fun _ same => same ▸ .refl start
      | some operand =>
          refine Concur.bind ((congruence anchor).closeGroups opened _) fun ⟨stack, opened⟩ => ?_
          refine (Concur.lift Concur.operator?).bind fun found => ?_
          cases found with
          | some operator => exact (Concur.wellFormed _).bind fun pushed => onward pushed opened
          | none =>
              refine .ite ?_ (fail nofun)
              exact (Concur.wellFormed _).bind fun _ => .pure fun _ => within.trans

theorem expressionWithin {more depth : Nat} (enoughMore : anchor.remaining < more)
    (enough : anchor.remaining < depth) :
    ConcurFrom anchor (@Grammar.expressionWithin σ (.allowing room) more)
      (Grammar.expressionWithin depth) := by
  induction depth generalizing anchor more with
  | zero => exact absurd enough (Nat.not_lt_zero _)
  | succ depth induction =>
      obtain ⟨more, rfl⟩ : ∃ less, more = less + 1 := ⟨more - 1, by omega⟩
      refine Concur.scan_bind (.pointer_bind fun here within => ?_)
      refine Concur.scan_bind (.remaining_bind ?_)
      rintro here rfl extra
      have left := within.remaining_le
      refine ConcurFrom.behind ?_ within
      exact expressionFrom (.refl here) (by omega) (by omega) (fun later passes =>
        have less := passes.remaining_lt
        induction (by omega) (by omega)) {} 0

theorem expression? : ConcurFrom anchor (@Grammar.expression? σ (.allowing room))
    (Grammar.expression? : Parser σ (Option Expression)) :=
  remaining_bind fun _ within _ => (expressionWithin (by omega) (by omega)).behind within

theorem expression (what : String) :
    ConcurFrom anchor (@Grammar.expression σ (.allowing room) what) (Grammar.expression what) :=
  (congruence anchor).expression expression? what

theorem comparison? : Text.ConcurFrom anchor (@Grammar.comparison? σ (.allowing room))
    (Grammar.comparison? : StateM σ (Option Comparison)) :=
  (congruence anchor).comparisonOf? Comparison.longestFirst

theorem condition? : ConcurFrom anchor (@Grammar.condition? σ (.allowing room))
    (Grammar.condition? : Parser σ (Option Condition)) :=
  (congruence anchor).condition? expression?

end ConcurFrom

end Stencil.Parser
