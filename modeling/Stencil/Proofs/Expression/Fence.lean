import Stencil.Proofs.Expression.Allowance
import Stencil.Proofs.Parser.Fence

/-!
# Expressions in front of a fence

Literals, paths, expressions and conditions that end in front of a fence are read without a look at
what stands behind it.
-/

namespace Stencil

theorem Parser.ConcurFrom.operator? {σ : Type} [Text.Source σ] [Text.Tracked σ] {room : σ → Nat}
    {anchor : Text.Cursor} : Text.ConcurFrom anchor (@Grammar.operator? σ (.allowing room))
      (Grammar.operator? : StateM σ (Option Operator)) :=
  (Concur.operator? : Text.Concur _ anchor.Reaches _ _ _).weaken
  (fun _ => id) fun found _ came => by
    cases found with
    | none => exact came
    | some operator => exact (Text.passed_reaches came).reaches

namespace Text.Fence

open Text Boundary

variable {fence : Fence}

namespace Follows

theorem decimals? : fence.Follows Literal.decimals? :=
  .orRewind <| (accept (by decide)).bind fun _ =>
    .ite ((takeWhile (by decide)).bind fun _ => .ite (.pure none) (.pure _)) (.pure none)

theorem number? : fence.Follows Literal.number? := by
  refine .orRewind <| (accept (by decide)).bind fun _ => (takeWhile (by decide)).bind fun _ =>
    .ite (.pure none) ?_
  refine decimals?.bind fun found => ?_
  cases found with
  | none => exact (accept (by decide)).bind fun _ => .ite (.pure _) (.pure _)
  | some decimals => exact .pure _

theorem truth? : fence.Follows Literal.truth? :=
  (acceptText (by decide)).bind fun _ =>
    .ite (.pure _) ((acceptText (by decide)).bind fun _ => .ite (.pure _) (.pure none))

theorem boolean? : fence.Follows Literal.boolean? := by
  refine .orRewind <| truth?.bind fun found => ?_
  cases found with
  | none => exact .pure none
  | some value => exact (currentIs (by decide)).bind fun _ => .ite (.pure none) (.pure _)

theorem comparisonOf? {comparisons : List Comparison}
    (unmarked : ∀ comparison ∈ comparisons, '@' ∉ comparison.symbol.toList) :
    fence.Follows (Grammar.comparisonOf? comparisons) := by
  induction comparisons with
  | nil => exact .pure none
  | cons comparison comparisons induction =>
      obtain ⟨first, others⟩ := List.forall_mem_cons.mp unmarked
      exact (acceptText first).bind fun _ => .ite (.pure _) (induction others)

theorem comparison? : fence.Follows Grammar.comparison? :=
  comparisonOf? (by decide)

end Follows

namespace Reads

theorem stringFrom (start : Position) (fuel : Nat) (taken : List Char) :
    fence.Reads (Literal.stringFrom start fuel taken) := by
  induction fuel generalizing taken with
  | zero => exact throw _
  | succ fuel induction =>
      refine read_bind (fun _ => rfl) (.throw _) fun character =>
        ite (pure _) (ite ?_ (induction _))
      exact read_bind (fun _ => rfl) (.throw _) fun escaped => induction (_ :: taken)

theorem string? : fence.Reads Literal.string? := by
  refine look_bind rfl (pure none) fun character => .ite ?_ ((pure none).weaken fun _ _ => And.left)
  refine position_bind (fun _ _ => And.left) fun start =>
    remaining_bind (fun _ _ => And.left) fun fuel =>
    step_bind ((stringFrom start fuel []).bind fun _ => pure _)

/-- The character after an opening quote, and what passes it. -/
theorem quoted_bind {α : Type} {next : Option Char → Parser (Roomy fence.rounds) α}
    {body : Char → Parser (Roomy fence.rounds) α}
    (passes : ∀ character, next (some character) =
      (do let _ ← Parser.scan Scan.step; body character)) (nothing : Never Anything (next none))
    (later : ∀ character, fence.Reads (body character)) :
    fence.Reads (Parser.scan Literal.quoted? >>= next) := by
  unfold Literal.quoted?
  rw [Parser.scan_bind_bind]
  let escaped : Parser (Roomy fence.rounds) α := do
    next ((← Parser.scan Scan.current).map Literal.unescape)
  have readsEscaped : fence.Reads escaped :=
    read_bind (fun character => passes (Literal.unescape character)) nothing fun character =>
      later (Literal.unescape character)
  let unquoted (character : Char) := if character = '\x5c' then escaped else body character
  refine read_bind (fun character =>
    (?_ : _ = (do let _ ← Parser.scan Scan.step; unquoted character)))
    nothing fun character => ite readsEscaped (later character)
  by_cases isQuote : character = '\x5c'
  · subst isQuote
    rfl
  · have plain : unquoted character = body character := if_neg isQuote
    rw [plain, ← passes]
    split
    · rename_i same
      exact absurd (Option.some.inj same) isQuote
    · rfl

theorem char? : fence.Reads Literal.char? := by
  refine look_bind rfl (pure none) fun character => .ite ?_ ((pure none).weaken fun _ _ => And.left)
  refine position_bind (fun _ _ => And.left) fun start => step_bind ?_
  exact quoted_bind (fun _ => rfl) (.throw _) fun character =>
    (accept (by decide)).bind fun _ => ite (pure _) (throw _)

variable {nested : Parser (Roomy fence.rounds) (Option Expression)}

theorem argumentsFrom (inner : fence.Finds nested) (fuel : Nat) :
    fence.Reads (Grammar.argumentsFrom nested fuel) := by
  induction fuel with
  | zero => exact pure []
  | succ fuel induction =>
      refine required _ inner fun argument => skipSpaces.bind fun _ =>
        (accept (by decide)).bind fun _ => ite (induction.bind fun _ => pure _) ?_
      exact (accept (by decide)).bind fun _ => ite (pure _) (fail _)

theorem arguments (inner : fence.Finds nested) : fence.Reads (Grammar.arguments nested) :=
  skipSpaces.bind fun _ => (accept (by decide)).bind fun _ =>
    ite (pure []) (remaining_bind (fun _ _ => id) fun _ => argumentsFrom inner _)

theorem indexes (inner : fence.Finds nested) (fuel : Nat) :
    fence.Reads (Grammar.indexes nested fuel) := by
  induction fuel with
  | zero => exact pure []
  | succ fuel induction =>
      refine (accept (by decide)).bind fun _ => ite ?_ (pure [])
      exact skipSpaces.bind fun _ => required _ inner fun _ =>
        (expectSymbol (by decide)).bind fun _ => induction.bind fun _ => pure _

theorem namedSegment (inner : fence.Finds nested) (silent : Bool) :
    fence.Reads (Grammar.namedSegment nested silent) :=
  (takeWhile _).bind fun _ => (accept (by decide)).bind fun _ =>
    ite ((arguments inner).bind fun _ => pure _) (pure _)

/-- A point right in front of the fence is accepted together with the mark there. -/
theorem point_bind {α : Type} {next body : Bool → Parser (Roomy fence.rounds) α}
    (goesOn : next true = (do body (← Parser.scan (Scan.accept '@'))))
    (later : ∀ silent, fence.Reads (body silent)) (otherwise : fence.Reads (next false)) :
    fence.Reads (Parser.scan Grammar.acceptPoint >>= next) := by
  have named : fence.Reads (next true) := goesOn ▸ acceptMark.bind later
  unfold Grammar.acceptPoint
  rw [Parser.scan_bind_bind]
  refine place_bind (fun place placeThere agreed => ?_) fun offset late => ?_
  · rw [Parser.scan_bind_bind]
    refine .follows_bind (Follows.accept (by decide)) fun pointed => ?_
    cases pointed with
    | false => exact otherwise.keeps
    | true =>
        change fence.boundary.Keeps _ Anything (Parser.scan (Scan.currentIs _ >>= _) >>= next)
          (Parser.scan (Scan.currentIs _ >>= _) >>= next)
        rw [Parser.scan_bind_bind]
        intro here there answer after agree
        let begins (character : Char) : Bool := character == '@' || isNameInitial character
        have looked (place : Roomy fence.rounds) : (Scan.currentIs begins).run place =
          Pure.pure (place.cursor.rest.head?.any begins, place) := rfl
        rw [Parser.run_scan_bind (looked here), Parser.run_scan_bind (looked there)]
        rcases Agree.cases agree with ⟨character, isHere, isThere, -⟩ | ⟨isHere, -, -, beyond⟩
        · rw [isHere, isThere]
          cases isNamed : (some character).any begins with
          | true => exact named.keeps here there answer after agree
          | false =>
              obtain ⟨back, backThere⟩ := agreed.returnTo agree
              change (Parser.scan (Scan.returnTo (Source.pointer place)) >>= fun _ =>
                next false).run.run
                here = _ → _ → _ ∨ ∃ otherAfter,
                  (Parser.scan (Scan.returnTo (Source.pointer place)) >>=
                  fun _ => next false).run.run there = _ ∧ _
              rw [Parser.run_scan_bind back, Parser.run_scan_bind backThere]
              exact otherwise.keeps place placeThere answer after agreed
        · rw [isHere]
          intro ran isAccepted
          replace ran : (next true).run.run here = (Except.ok answer, after) := ran
          have passed := Roomy.accept_run here '@'
          rw [if_pos isHere] at passed
          rw [goesOn, Parser.run_scan_bind passed] at ran
          exact .inl ((later true).stays here.cursor.advance answer after beyond ran isAccepted)
  · rw [Parser.scan_bind_bind]
    refine .bind (stays_scan fun _ => .accept '.') fun pointed => ?_
    cases pointed with
    | false => exact otherwise.stays
    | true =>
        change fence.boundary.Stays Anything (Parser.scan (Scan.currentIs _ >>= _) >>= next)
        rw [Parser.scan_bind_bind]
        refine .bind (stays_scan fun _ => .currentIs _) fun isNamed => ?_
        cases isNamed with
        | true => exact named.stays
        | false =>
            change fence.boundary.Stays Anything
              (Parser.scan (Scan.returnTo offset) >>= fun _ => next false)
            exact .bind (stays_returnTo late) fun _ => otherwise.stays

theorem segmentsFrom (inner : fence.Finds nested) (silent : Bool) (fuel : Nat) :
    fence.Reads (Grammar.segmentsFrom nested silent fuel) := by
  induction fuel generalizing silent with
  | zero => exact pure []
  | succ fuel induction =>
      refine (namedSegment inner silent).bind fun segment => remaining_bind (fun _ _ => id) fun _ =>
        (indexes inner _).bind fun followers => ?_
      refine point_bind rfl (fun silent => ?_) (pure _)
      exact (currentIs (by decide)).bind fun _ =>
        ite ((induction silent).bind fun _ => pure _) (fail _)

theorem path? (inner : fence.Finds nested) : fence.Finds (Grammar.path? nested) := by
  refine pointer_bind (fun _ _ => id) fun offset => Confines.bind acceptMark fun silent =>
    Confines.bind (currentIs (by decide)) fun _ => .ite ?_ (.ite ?_ ?_)
  · refine remaining_bind (fun _ _ => id) fun _ => ?_
    exact Confines.bind (segmentsFrom inner silent _) fun _ => .pure _
  · exact .of_never (.bind fun _ => .throw _)
  · exact .of_never (.bind fun _ => .pure nofun)

/-- A reference behind its opening. -/
theorem opened (inner : fence.Finds nested) :
    fence.Reads (do
      let _ ← Parser.scan Scan.skipSpaces
      let path ← Parser.require "a reference" (← Grammar.path? nested)
      Parser.expectSymbol ')'
      return some path) :=
  skipSpaces.bind fun _ => required _ (path? inner) fun _ =>
    (expectSymbol (by decide)).bind fun _ => pure _

theorem reference? (inner : fence.Finds nested) :
    fence.boundary.Confines fence.Inside Anything (Grammar.reference? nested)
      (Grammar.reference? nested) := by
  refine acceptText_bind (by decide) (opened inner) ?_
  exact acceptText_bind (by decide) (opened inner) ((pure none).weaken fun _ _ => And.left)

theorem leaves_reference? (inner : fence.Finds nested) :
    fence.Leaves (Grammar.reference? nested) := by
  have sure : Sure (do
      let _ ← Parser.scan Scan.skipSpaces
      let path ← Parser.require "a reference" (← Grammar.path? nested)
      Parser.expectSymbol ')'
      return some path : Parser (Roomy fence.rounds) (Option Path)) :=
    .bind fun _ => .bind fun _ => .bind fun _ => .bind fun _ => .pure nofun
  refine .acceptText_bind (by decide) (opened inner).stays sure ?_
  exact .acceptText_bind (by decide) (opened inner).stays sure .pure

theorem leaves_list? (inner : fence.Finds nested) : fence.Leaves (Grammar.list? nested) := by
  have items (mutable : Bool) : fence.Reads (do
      return some (Expression.list mutable (← Grammar.arguments nested))) :=
    (arguments inner).bind fun _ => pure _
  refine .acceptText_bind (by decide) (items false).stays (.bind fun _ => .pure nofun) ?_
  exact .acceptText_bind (by decide) (items true).stays (.bind fun _ => .pure nofun) .pure

theorem list? (inner : fence.Finds nested) : fence.Finds (Grammar.list? nested) := by
  have items (mutable : Bool) : fence.boundary.Confines fence.boundary.agree Found
      (do return some (Expression.list mutable (← Grammar.arguments nested)))
      (do return some (Expression.list mutable (← Grammar.arguments nested))) :=
    Confines.bind (arguments inner) fun _ => .pure _
  refine (leaves_list? inner).finds (acceptText_bind (by decide) (items false) ?_)
  exact acceptText_bind (by decide) (items true) (.of_never (.pure nofun))

theorem markedOperand? (inner : fence.Finds nested) :
    fence.boundary.Confines fence.Inside Found (Grammar.markedOperand? nested)
      (Grammar.markedOperand? nested) := by
  refine Confines.bind (reference? inner) fun found => ?_
  cases found with
  | none => exact list? inner
  | some path => exact .pure _

theorem leaves_markedOperand? (inner : fence.Finds nested) :
    fence.Leaves (Grammar.markedOperand? nested) :=
  (leaves_reference? inner).bind (fun _ => .pure _) (fun _ => .pure nofun) (leaves_list? inner)

theorem plainOperand? (inner : fence.Finds nested) :
    fence.Finds (Grammar.plainOperand? nested) := by
  refine Confines.bind string? fun text? => ?_
  cases text? with
  | some text => exact .pure _
  | none =>
      refine Confines.bind char? fun character? => ?_
      cases character? with
      | some character => exact .pure _
      | none =>
          refine Confines.bind (scan .number? fun _ => Parser.ConcurFrom.number?) fun number? => ?_
          cases number? with
          | some number => exact .pure _
          | none =>
              refine Confines.bind (scan .boolean? fun _ => Parser.ConcurFrom.boolean?)
                fun truth? => ?_
              cases truth? with
              | some truth => exact .pure _
              | none => exact Confines.find (path? inner) (fun _ => .pure _) (.pure nofun)

theorem leaves_operand? (inner : fence.Finds nested) : fence.Leaves (Grammar.operand? nested) := by
  intro here found after atFence ran
  unfold Grammar.operand? at ran
  rw [Parser.run_scan_bind (Roomy.current_run here), atFence.2] at ran
  exact leaves_markedOperand? inner here found after atFence ran

theorem operand? (inner : fence.Finds nested) : fence.Finds (Grammar.operand? nested) :=
  (leaves_operand? inner).finds <| inside_current_bind fun _ =>
    .ite (markedOperand? inner) ((plainOperand? inner).weaken fun _ _ => And.left)

theorem wellFormed {α : Type} (found : Option α) : fence.Reads (Grammar.wellFormed found) := by
  cases found with
  | none => exact fail _
  | some answer => exact pure answer

theorem closeGroups (opened : Nat) (stack : OperatorStack) :
    fence.Reads (Grammar.closeGroups opened stack) := by
  induction opened generalizing stack with
  | zero => exact pure _
  | succ opened induction =>
      have closes : fence.Reads (do
          Grammar.closeGroups opened (← Grammar.wellFormed stack.closeGroup?)) :=
        (wellFormed _).bind fun closed => induction closed
      refine place_bind (fun place placeThere agreed => ?_) fun offset late => ?_
      · exact .follows_bind Follows.skipSpaces fun _ =>
          .follows_bind (Follows.accept (by decide)) fun _ =>
            .ite closes.keeps (.follows_bind (Follows.returnTo agreed) fun _ => .pure _)
      · exact .bind skipSpaces.stays fun _ => .bind (accept (by decide)).stays fun _ =>
          .ite closes.stays (.bind (stays_returnTo late) fun _ => .pure _)

theorem comparison? : fence.Reads (Parser.scan Grammar.comparison?) :=
  scan .comparison? fun _ => Parser.ConcurFrom.comparison?

theorem operator? : fence.Reads (Parser.scan Grammar.operator?) := by
  refine scan (.pointer_bind fun place placeThere agreed => Follows.skipSpaces.bind fun _ => ?_)
    fun _ => Parser.ConcurFrom.operator?
  refine Follows.current_bind rfl (.rewind agreed none) fun character here there agree passes => ?_
  rw [Option.bind_some]
  cases Operator.ofSymbol? character with
  | none => exact Follows.rewind agreed none here there agree
  | some operator => exact Follows.step_bind passes (.pure _)

theorem expressionFrom (inner : fence.Finds nested) (start fuel : Nat) (stack : OperatorStack)
    (opened : Nat) : fence.Finds (Grammar.expressionFrom nested start fuel stack opened) := by
  induction fuel generalizing stack opened with
  | zero => exact .of_never (.pure nofun)
  | succ fuel induction =>
      refine Confines.bind skipSpaces fun _ => Confines.bind (accept (by decide)) fun _ =>
        .ite (induction _ _) (Confines.find (operand? inner) (fun operand => ?_) ?_)
      · refine Confines.bind (closeGroups opened _) fun closed =>
          Confines.bind operator? fun found => ?_
        cases found with
        | none =>
            exact .ite (Confines.bind (wellFormed _) fun _ => .pure _)
              (.of_never (.bind fun _ => .throw _))
        | some operator => exact Confines.bind (wellFormed _) fun pushed => induction pushed _
      · exact .ite (.bind fun _ => .pure nofun) (.bind fun _ => .throw _)

theorem expressionWithin (depth : Nat) : fence.Finds (Grammar.expressionWithin depth) := by
  induction depth with
  | zero => exact .of_never (.pure nofun)
  | succ depth induction =>
      exact pointer_bind (fun _ _ => id) fun start => remaining_bind (fun _ _ => id) fun _ =>
        expressionFrom induction start _ _ _

theorem expression? : fence.Finds Grammar.expression? :=
  remaining_bind (fun _ _ => id) fun _ => expressionWithin _

theorem expression (what : String) : fence.Reads (Grammar.expression what) :=
  Confines.find expression? (fun _ => require what _) (.bind fun _ => .throw _)

theorem reference : fence.boundary.Confines fence.Inside Anything Grammar.reference
    Grammar.reference :=
  reference? expression?

theorem condition? : fence.Finds Grammar.condition? := by
  refine Confines.find expression? (fun left => ?_) (.pure nofun)
  have compared (comparison : Comparison) : fence.Finds (do
      let _ ← Parser.scan Scan.skipSpaces
      return some (Condition.compare left comparison
        (← Grammar.expression "a value after the comparison"))) :=
    Confines.bind skipSpaces fun _ => Confines.bind (expression _) fun _ => .pure _
  refine place_bind (fun place placeThere agreed => ?_) fun offset late => ?_
  · refine .follows_bind Follows.skipSpaces fun _ =>
      .follows_bind Follows.comparison? fun found => ?_
    cases found with
    | none => exact .follows_bind (Follows.returnTo agreed) fun _ => .pure _
    | some comparison => exact (compared comparison).keeps
  · refine .bind skipSpaces.stays fun _ => .bind comparison?.stays fun found => ?_
    cases found with
    | none => exact .bind (stays_returnTo late) fun _ => .pure _
    | some comparison => exact (compared comparison).stays

end Reads

end Text.Fence

end Stencil
