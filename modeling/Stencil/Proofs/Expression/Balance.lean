import Stencil.Expression.Grammar
import Stencil.Proofs.Parser.Run

/-!
# Stacks hold what their operators need

Where an operand is due, as many operands wait as operators do; behind an operand there is one more.
So closing a group, adding an operator and finishing always find the operands they put together, and
no expression is ever malformed: what is wrong with a text is reported before it would be.
-/

namespace Stencil

open Text

namespace OperatorStack

/-- How many operators wait. -/
def operatorCount : List Waiting → Nat
  | [] => 0
  | .operator _ :: waiting => operatorCount waiting + 1
  | .group :: waiting => operatorCount waiting

/-- An operand is due: every operator waits for one more. -/
def IsDue (stack : OperatorStack) : Prop :=
  stack.operands.length = operatorCount stack.waiting

/-- Every operator has both of its operands. -/
def IsFilled (stack : OperatorStack) : Prop :=
  stack.operands.length = operatorCount stack.waiting + 1

variable {stack : OperatorStack} {waiting : List Waiting} {operands : List Expression}

theorem exists_combine {count : Nat} (operator : Operator)
    (enough : operands.length = count + 1 + 1) :
    ∃ combined, combine operator operands = some combined ∧ combined.length = count + 1 := by
  match operands, enough with
  | right :: left :: operands, enough =>
      exact ⟨.binary left operator right :: operands, rfl, by simpa using enough⟩

theorem exists_closeFrom (filled : operands.length = operatorCount waiting + 1) :
    ∃ closed, closeFrom waiting operands = some closed ∧ closed.IsFilled := by
  induction waiting generalizing operands with
  | nil => exact ⟨⟨operands, []⟩, rfl, filled⟩
  | cons top waiting induction =>
      cases top with
      | group => exact ⟨⟨operands, waiting⟩, rfl, filled⟩
      | operator operator =>
          obtain ⟨combined, found, filled⟩ := exists_combine operator filled
          obtain ⟨closed, closes, isFilled⟩ := induction filled
          exact ⟨closed, by rw [closeFrom, found, Option.bind_eq_bind, Option.bind_some, closes],
            isFilled⟩

theorem exists_pushFrom (operator : Operator)
    (filled : operands.length = operatorCount waiting + 1) :
    ∃ pushed, pushFrom operator waiting operands = some pushed ∧ pushed.IsDue := by
  induction waiting generalizing operands with
  | nil => exact ⟨⟨operands, [.operator operator]⟩, rfl, filled⟩
  | cons top waiting induction =>
      cases top with
      | group => exact ⟨⟨operands, .operator operator :: .group :: waiting⟩, rfl, filled⟩
      | operator top =>
          rw [pushFrom]
          split
          · exact ⟨_, rfl, filled⟩
          · obtain ⟨combined, found, filled⟩ := exists_combine top filled
            rw [found, Option.bind_eq_bind, Option.bind_some]
            exact induction filled

theorem exists_finishFrom (filled : operands.length = operatorCount waiting + 1) :
    ∃ expression, finishFrom waiting operands = some expression := by
  induction waiting generalizing operands with
  | nil =>
      obtain ⟨expression, rfl⟩ := List.length_eq_one_iff.mp filled
      exact ⟨expression, rfl⟩
  | cons top waiting induction =>
      cases top with
      | group => exact induction filled
      | operator operator =>
          obtain ⟨combined, found, filled⟩ := exists_combine operator filled
          rw [finishFrom, found, Option.bind_eq_bind, Option.bind_some]
          exact induction filled

theorem IsDue.empty : IsDue {} := rfl

theorem IsDue.openGroup (due : stack.IsDue) : stack.openGroup.IsDue := due

theorem IsDue.pushOperand (due : stack.IsDue) (operand : Expression) :
    (stack.pushOperand operand).IsFilled :=
  congrArg (· + 1) due

theorem IsFilled.closeGroup? (filled : stack.IsFilled) :
    ∃ closed, stack.closeGroup? = some closed ∧ closed.IsFilled :=
  exists_closeFrom filled

theorem IsFilled.pushOperator? (filled : stack.IsFilled) (operator : Operator) :
    ∃ pushed, stack.pushOperator? operator = some pushed ∧ pushed.IsDue :=
  exists_pushFrom operator filled

theorem IsFilled.finish? (filled : stack.IsFilled) :
    ∃ expression, stack.finish? = some expression :=
  exists_finishFrom filled

end OperatorStack

namespace Parser

variable {σ α β : Type}

/-- A parser reports no malformed expression. -/
def NeverMalformed (parser : Parser σ α) : Prop :=
  ∀ source position, (parser.run.run source).1 ≠ .error (.parse .malformedExpression position)

namespace NeverMalformed

theorem pure (answer : α) : NeverMalformed (Pure.pure answer : Parser σ α) :=
  nofun

theorem throw (error : TemplateError)
    (other : ∀ position, error ≠ .parse .malformedExpression position) :
    NeverMalformed (MonadExcept.throw error : Parser σ α) := by
  rintro source position ⟨⟩
  exact other position rfl

theorem scan (run : StateM σ α) : NeverMalformed (Parser.scan run) :=
  nofun

/-- The second part may rely on what the first one answers. -/
theorem bind_of_answers {first : Parser σ α} {next : α → Parser σ β} {property : α → Prop}
    (here : NeverMalformed first) (answers : first.Answers property)
    (later : ∀ answer, property answer → NeverMalformed (next answer)) :
    NeverMalformed (first >>= next) := by
  intro source position
  generalize ran : first.run.run source = outcome
  obtain ⟨outcome, after⟩ := outcome
  cases outcome with
  | error error =>
      rw [run_bind_of_error ran]
      rintro ⟨⟩
      exact here source position (by rw [ran])
  | ok answer =>
      rw [run_bind_of_ok ran]
      exact later answer (answers source answer after ran) after position

theorem bind {first : Parser σ α} {next : α → Parser σ β} (here : NeverMalformed first)
    (later : ∀ answer, NeverMalformed (next answer)) : NeverMalformed (first >>= next) := by
  have answers : first.Answers fun _ => True := fun _ _ _ _ => trivial
  exact here.bind_of_answers answers fun answer _ => later answer

/-- A scan never fails, so what comes after it decides. -/
theorem scan_bind {run : StateM σ α} {next : α → Parser σ β}
    (later : ∀ answer, NeverMalformed (next answer)) :
    NeverMalformed (Parser.scan run >>= next) :=
  (scan run).bind later

theorem ite {condition : Prop} [Decidable condition] {yes no : Parser σ α}
    (holds : NeverMalformed yes) (fails : NeverMalformed no) :
    NeverMalformed (if condition then yes else no) := by
  split
  · exact holds
  · exact fails

variable [Source σ]

theorem fail {problem : ParseProblem} (other : problem ≠ .malformedExpression) :
    NeverMalformed (Parser.fail problem : Parser σ α) :=
  scan_bind fun _ => throw _ fun _ same => other (TemplateError.parse.inj same).1

theorem require (what : String) (found : Option α) :
    NeverMalformed (Parser.require what found : Parser σ α) := by
  cases found with
  | none => exact fail nofun
  | some answer => exact pure answer

theorem expectSymbol (character : Char) :
    NeverMalformed (Parser.expectSymbol character : Parser σ Unit) :=
  scan_bind fun _ => scan_bind fun _ => ite (pure ()) (fail nofun)

theorem stringFrom (start : Position) (fuel : Nat) (taken : List Char) :
    NeverMalformed (Literal.stringFrom start fuel taken : Parser σ String) := by
  induction fuel generalizing taken with
  | zero => exact throw _ nofun
  | succ fuel induction =>
      refine scan_bind fun found => ?_
      cases found with
      | none => exact throw _ nofun
      | some character =>
          refine scan_bind fun _ => ite (pure _) (ite ?_ (induction _))
          refine scan_bind fun found => ?_
          cases found with
          | none => exact throw _ nofun
          | some escaped => exact scan_bind fun _ => induction _

theorem string? : NeverMalformed (Literal.string? : Parser σ (Option String)) :=
  scan_bind fun _ =>
    ite
      (scan_bind fun start => scan_bind fun fuel => scan_bind fun _ =>
        (stringFrom start fuel []).bind fun _ => pure _)
      (pure none)

theorem char? : NeverMalformed (Literal.char? : Parser σ (Option Char)) := by
  refine scan_bind fun _ => ite ?_ (pure none)
  refine scan_bind fun _ => scan_bind fun _ => scan_bind fun found => ?_
  cases found with
  | none => exact throw _ nofun
  | some character => exact scan_bind fun _ => scan_bind fun _ => ite (pure _) (throw _ nofun)

variable {nested : Parser σ (Option Expression)}

section

variable (inner : NeverMalformed nested)

include inner

theorem argumentsFrom (fuel : Nat) : NeverMalformed (Grammar.argumentsFrom nested fuel) := by
  induction fuel with
  | zero => exact pure []
  | succ fuel induction =>
      exact inner.bind fun found => (require "an argument" found).bind fun _ =>
        scan_bind fun _ => scan_bind fun _ => ite (induction.bind fun _ => pure _)
          (scan_bind fun _ => ite (pure _) (fail nofun))

theorem arguments : NeverMalformed (Grammar.arguments nested) :=
  scan_bind fun _ => scan_bind fun _ =>
    ite (pure []) (scan_bind fun _ => argumentsFrom inner _)

theorem indexes (fuel : Nat) : NeverMalformed (Grammar.indexes nested fuel) := by
  induction fuel with
  | zero => exact pure []
  | succ fuel induction =>
      refine scan_bind fun _ => ite ?_ (pure [])
      exact scan_bind fun _ => inner.bind fun found =>
        (require "an index expression" found).bind fun _ => (expectSymbol ']').bind fun _ =>
          induction.bind fun _ => pure _

theorem namedSegment (silent : Bool) : NeverMalformed (Grammar.namedSegment nested silent) :=
  scan_bind fun _ => scan_bind fun _ => ite ((arguments inner).bind fun _ => pure _) (pure _)

theorem segmentsFrom (silent : Bool) (fuel : Nat) :
    NeverMalformed (Grammar.segmentsFrom nested silent fuel) := by
  induction fuel generalizing silent with
  | zero => exact pure []
  | succ fuel induction =>
      refine (namedSegment inner silent).bind fun _ => scan_bind fun _ =>
        (indexes inner _).bind fun _ => scan_bind fun _ => ite ?_ (pure _)
      exact scan_bind fun silent => scan_bind fun _ =>
        ite ((induction silent).bind fun _ => pure _) (fail nofun)

theorem path? : NeverMalformed (Grammar.path? nested) :=
  scan_bind fun _ => scan_bind fun silent => scan_bind fun _ =>
    ite (scan_bind fun _ => (segmentsFrom inner silent _).bind fun _ => pure _)
      (ite (fail nofun) (scan_bind fun _ => pure none))

theorem reference? : NeverMalformed (Grammar.reference? nested) := by
  have inside (opened : Bool) : NeverMalformed (do
      if opened then
        let _ ← Parser.scan Scan.skipSpaces
        let path ← Parser.require "a reference" (← Grammar.path? nested)
        Parser.expectSymbol ')'
        return some path
      else return none) :=
    ite
      (scan_bind fun _ => (path? inner).bind fun found =>
        (require "a reference" found).bind fun _ =>
        (expectSymbol ')').bind fun _ => pure _)
      (pure none)
  exact scan_bind fun _ => ite ((pure true).bind inside) (scan_bind inside)

theorem list? : NeverMalformed (Grammar.list? nested) :=
  scan_bind fun _ => ite ((arguments inner).bind fun _ => pure _)
    (scan_bind fun _ => ite ((arguments inner).bind fun _ => pure _) (pure none))

theorem markedOperand? : NeverMalformed (Grammar.markedOperand? nested) := by
  refine (reference? inner).bind fun found => ?_
  cases found with
  | none => exact list? inner
  | some path => exact pure _

theorem plainOperand? : NeverMalformed (Grammar.plainOperand? nested) := by
  refine string?.bind fun text? => ?_
  cases text? with
  | some text => exact pure _
  | none =>
      refine char?.bind fun character? => ?_
      cases character? with
      | some character => exact pure _
      | none =>
          refine scan_bind fun number? => ?_
          cases number? with
          | some number => exact pure _
          | none =>
              refine scan_bind fun truth? => ?_
              cases truth? with
              | some truth => exact pure _
              | none => exact (path? inner).bind fun _ => pure _

theorem operand? : NeverMalformed (Grammar.operand? nested) :=
  scan_bind fun _ => ite (markedOperand? inner) (plainOperand? inner)

end

theorem closeGroups {stack : OperatorStack} (filled : stack.IsFilled) (opened : Nat) :
    NeverMalformed (Grammar.closeGroups opened stack : Parser σ (OperatorStack × Nat)) := by
  induction opened generalizing stack with
  | zero => exact pure _
  | succ opened induction =>
      obtain ⟨closed, closes, isFilled⟩ := filled.closeGroup?
      rw [Grammar.closeGroups, closes]
      exact scan_bind fun _ => scan_bind fun _ => scan_bind fun _ =>
        ite ((pure closed).bind_of_answers (.pure isFilled) fun _ => induction)
          (scan_bind fun _ => pure _)

theorem answers_closeGroups {stack : OperatorStack} (filled : stack.IsFilled) (opened : Nat) :
    (Grammar.closeGroups opened stack : Parser σ (OperatorStack × Nat)).Answers
      fun found => found.1.IsFilled := by
  induction opened generalizing stack with
  | zero => exact .pure filled
  | succ opened induction =>
      obtain ⟨closed, closes, isFilled⟩ := filled.closeGroup?
      rw [Grammar.closeGroups, closes]
      exact .bind fun _ => .bind fun _ => .bind fun _ =>
        .ite (induction isFilled) (.bind fun _ => .pure filled)

/-- Whatever stack an expression is read on with, it fits the operand that is due. -/
theorem expressionFrom (inner : NeverMalformed nested) (start fuel : Nat) {stack : OperatorStack}
    (due : stack.IsDue) (opened : Nat) :
    NeverMalformed (Grammar.expressionFrom nested start fuel stack opened) := by
  induction fuel generalizing stack opened with
  | zero => exact pure none
  | succ fuel induction =>
      refine scan_bind fun _ => scan_bind fun _ => ite (induction due.openGroup _) ?_
      refine (operand? inner).bind fun found => ?_
      cases found with
      | none => exact ite (scan_bind fun _ => pure none) (fail nofun)
      | some operand =>
          have filled := due.pushOperand operand
          refine (closeGroups filled opened).bind_of_answers (answers_closeGroups filled opened) ?_
          rintro ⟨closed, still⟩ isFilled
          refine scan_bind fun found => ?_
          cases found with
          | none =>
              obtain ⟨expression, finishes⟩ := isFilled.finish?
              refine ite ?_ (fail nofun)
              rw [finishes]
              exact pure _
          | some operator =>
              obtain ⟨pushed, pushes, isDue⟩ := isFilled.pushOperator? operator
              dsimp only
              rw [pushes]
              exact induction isDue still

theorem expressionWithin (depth : Nat) :
    NeverMalformed (Grammar.expressionWithin depth : Parser σ (Option Expression)) := by
  induction depth with
  | zero => exact pure none
  | succ depth induction =>
      exact scan_bind fun start => scan_bind fun _ => expressionFrom induction start _ .empty 0

theorem expression? : NeverMalformed (Grammar.expression? : Parser σ (Option Expression)) :=
  scan_bind fun _ => expressionWithin _

end NeverMalformed

end Parser

end Stencil
