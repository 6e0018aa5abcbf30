import Stencil.Condition.Grammar
import Stencil.Directive.Grammar

/-!
# Relations between parsers of two sources

The rules of the grammar are put together from scans, looks, tests and sequences.  A relation
between the parsers of two sources that goes along with these therefore holds of every rule without
a loop, and of the other rules as soon as it holds of their loops.
-/

namespace Stencil

open Text

/-- A problem that rules find themselves in a text that goes on. -/
def ParseProblem.Ordinary (problem : ParseProblem) : Prop :=
  problem ≠ .unexpectedEnd ∧ ∀ offset, problem ≠ .cannotSeek offset

namespace Parser

/-- A relation between the scans of two sources, and one between their parsers, that go along with
what rules are put together from.  Behind a look at a place, one may rely on it that errors at that
place are related, and that so are returns to it. -/
structure Congruence (σ τ : Type) [Source σ] [Source τ] where
  scans {α : Type} : StateM σ α → StateM τ α → Prop
  parses {α : Type} : Parser σ α → Parser τ α → Prop
  answer {α : Type} (answer : α) : scans (Pure.pure answer) (Pure.pure answer)
  andThen {α β : Type} {first : StateM σ α} {firstThere : StateM τ α} {next : α → StateM σ β}
    {nextThere : α → StateM τ β} : scans first firstThere →
    (∀ answer, scans (next answer) (nextThere answer)) →
      scans (first >>= next) (firstThere >>= nextThere)
  test {α : Type} {condition : Prop} [Decidable condition] {yes no : StateM σ α}
    {yesThere noThere : StateM τ α} : scans yes yesThere → scans no noThere →
      scans (if condition then yes else no) (if condition then yesThere else noThere)
  current : scans Scan.current Scan.current
  step : scans Scan.step Scan.step
  skipSpaces : scans Scan.skipSpaces Scan.skipSpaces
  acceptBreak : scans Scan.acceptBreak Scan.acceptBreak
  accept (expected : Char) : scans (Scan.accept expected) (Scan.accept expected)
  acceptText (literal : String) : scans (Scan.acceptText literal) (Scan.acceptText literal)
  currentIs (property : Char → Bool) : scans (Scan.currentIs property) (Scan.currentIs property)
  takeWhile (property : Char → Bool) : scans (Scan.takeWhile property) (Scan.takeWhile property)
  orRewind {α : Type} {scan : StateM σ (Option α)} {scanThere : StateM τ (Option α)} :
    scans scan scanThere → scans (Scan.orRewind scan) (Scan.orRewind scanThere)
  pure {α : Type} (answer : α) : parses (Pure.pure answer) (Pure.pure answer)
  bind {α β : Type} {first : Parser σ α} {firstThere : Parser τ α} {next : α → Parser σ β}
    {nextThere : α → Parser τ β} : parses first firstThere →
    (∀ answer, parses (next answer) (nextThere answer)) →
      parses (first >>= next) (firstThere >>= nextThere)
  ite {α : Type} {condition : Prop} [Decidable condition] {yes no : Parser σ α}
    {yesThere noThere : Parser τ α} : parses yes yesThere → parses no noThere →
      parses (if condition then yes else no) (if condition then yesThere else noThere)
  scan {α : Type} {run : StateM σ α} {runThere : StateM τ α} : scans run runThere →
    parses (Parser.scan run) (Parser.scan runThere)
  position_bind {α : Type} {next : Position → Parser σ α} {nextThere : Position → Parser τ α} :
    (∀ place placeThere,
      (∀ {γ : Type} (problem : ParseProblem), problem.Ordinary →
        parses (throw (.parse problem place) : Parser σ γ) (throw (.parse problem placeThere))) →
      parses (next place) (nextThere placeThere)) →
    parses (Parser.scan Scan.position >>= next) (Parser.scan Scan.position >>= nextThere)
  pointer_bind {α : Type} {next : Nat → Parser σ α} {nextThere : Nat → Parser τ α} :
    (∀ place placeThere,
      (∀ {γ : Type} (answer : γ),
        parses (do Parser.scan (Scan.returnTo place); return answer)
          (do Parser.scan (Scan.returnTo placeThere); return answer)) →
      parses (next place) (nextThere placeThere)) →
    parses (Parser.scan Scan.pointer >>= next) (Parser.scan Scan.pointer >>= nextThere)

namespace Congruence

variable {σ τ : Type} {here : Source σ} {there : Source τ} (both : Congruence σ τ) {α : Type}

theorem fail {problem : ParseProblem} (ordinary : problem.Ordinary) :
    both.parses (Parser.fail problem : Parser σ α) (Parser.fail problem) :=
  both.position_bind fun _ _ throws => throws problem ordinary

theorem require (what : String) (found : Option α) :
    both.parses (Parser.require what found) (Parser.require what found) := by
  cases found with
  | none => exact both.fail ⟨nofun, nofun⟩
  | some answer => exact both.pure answer

theorem expectSymbol (character : Char) :
    both.parses (Parser.expectSymbol character) (Parser.expectSymbol character) :=
  both.bind (both.scan both.skipSpaces) fun _ =>
    both.bind (both.scan (both.accept character)) fun _ =>
      both.ite (both.pure ()) (both.fail ⟨nofun, nofun⟩)

theorem name? : both.scans Parser.name? Parser.name? :=
  both.andThen (both.currentIs isNameInitial) fun _ =>
    both.test (both.andThen (both.takeWhile isNamePart) fun _ => both.answer _) (both.answer none)

theorem expectName (what : String) :
    both.parses (Parser.expectName what) (Parser.expectName what) :=
  both.bind (both.scan both.skipSpaces) fun _ =>
    both.bind (both.scan both.name?) fun found => both.require what found

theorem attempt {parser : Parser σ (Option α)} {parserThere : Parser τ (Option α)}
    (inner : both.parses parser parserThere) :
    both.parses (Scan.attempt parser) (Scan.attempt parserThere) := by
  refine both.pointer_bind fun _ _ rewinds => both.bind inner fun found => ?_
  cases found with
  | none => exact rewinds none
  | some answer => exact both.pure (some answer)

theorem decimals? : both.scans Literal.decimals? Literal.decimals? :=
  both.orRewind <| both.andThen (both.accept '.') fun _ =>
    both.test
      (both.andThen (both.takeWhile Char.isDigit) fun _ =>
        both.test (both.answer none) (both.answer _))
      (both.answer none)

theorem number? : both.scans Literal.number? Literal.number? := by
  refine both.orRewind <| both.andThen (both.accept '-') fun _ =>
    both.andThen (both.takeWhile Char.isDigit) fun _ => both.test (both.answer none) ?_
  refine both.andThen both.decimals? fun found => ?_
  cases found with
  | none => exact both.andThen (both.accept 'L') fun _ => both.test (both.answer _) (both.answer _)
  | some decimals => exact both.answer _

theorem quoted? : both.scans Literal.quoted? Literal.quoted? := by
  refine both.andThen both.current fun found => ?_
  split
  · exact both.andThen both.step fun _ => both.andThen both.current fun _ => both.answer _
  · exact both.answer _

theorem char? : both.parses Literal.char? Literal.char? := by
  refine both.bind (both.scan both.current) fun _ => both.ite ?_ (both.pure none)
  refine both.position_bind fun _ _ throws => both.bind (both.scan both.step) fun _ =>
    both.bind (both.scan both.quoted?) fun found => ?_
  cases found with
  | none => exact throws _ ⟨nofun, nofun⟩
  | some character =>
      exact both.bind (both.scan both.step) fun _ => both.bind (both.scan (both.accept _)) fun _ =>
        both.ite (both.pure _) (throws _ ⟨nofun, nofun⟩)

theorem truth? : both.scans Literal.truth? Literal.truth? :=
  both.andThen (both.acceptText "true") fun _ => both.test (both.answer _) <|
    both.andThen (both.acceptText "false") fun _ => both.test (both.answer _) (both.answer none)

theorem boolean? : both.scans Literal.boolean? Literal.boolean? := by
  refine both.orRewind <| both.andThen both.truth? fun found => ?_
  cases found with
  | none => exact both.answer none
  | some value =>
      exact both.andThen (both.currentIs isNamePart) fun _ =>
        both.test (both.answer none) (both.answer _)

section

variable {nested : Parser σ (Option Expression)} {nestedThere : Parser τ (Option Expression)}

theorem plainOperand? (strings : both.parses Literal.string? Literal.string?)
    (paths : both.parses (Grammar.path? nested) (Grammar.path? nestedThere)) :
    both.parses (Grammar.plainOperand? nested) (Grammar.plainOperand? nestedThere) := by
  refine both.bind strings fun text? => ?_
  cases text? with
  | some text => exact both.pure _
  | none =>
      refine both.bind both.char? fun character? => ?_
      cases character? with
      | some character => exact both.pure _
      | none =>
          refine both.bind (both.scan both.number?) fun number? => ?_
          cases number? with
          | some number => exact both.pure _
          | none =>
              refine both.bind (both.scan both.boolean?) fun truth? => ?_
              cases truth? with
              | some truth => exact both.pure _
              | none => exact both.bind paths fun _ => both.pure _

theorem operand? (strings : both.parses Literal.string? Literal.string?)
    (paths : both.parses (Grammar.path? nested) (Grammar.path? nestedThere))
    (references : both.parses (Grammar.reference? nested) (Grammar.reference? nestedThere))
    (lists : both.parses (Grammar.list? nested) (Grammar.list? nestedThere)) :
    both.parses (Grammar.operand? nested) (Grammar.operand? nestedThere) := by
  refine both.bind (both.scan both.current) fun _ =>
    both.ite (both.bind references fun found => ?_) (both.plainOperand? strings paths)
  cases found with
  | none => exact lists
  | some path => exact both.pure _

end

theorem wellFormed (found : Option α) :
    both.parses (Grammar.wellFormed found) (Grammar.wellFormed found) := by
  cases found with
  | none => exact both.fail ⟨nofun, nofun⟩
  | some answer => exact both.pure answer

theorem closeGroups (opened : Nat) (stack : OperatorStack) :
    both.parses (Grammar.closeGroups opened stack) (Grammar.closeGroups opened stack) := by
  induction opened generalizing stack with
  | zero => exact both.pure _
  | succ opened induction =>
      exact both.pointer_bind fun _ _ rewinds => both.bind (both.scan both.skipSpaces) fun _ =>
        both.bind (both.scan (both.accept ')')) fun _ =>
          both.ite (both.bind (both.wellFormed _) fun closed => induction closed) (rewinds _)

theorem comparisonOf? (comparisons : List Comparison) :
    both.scans (Grammar.comparisonOf? comparisons) (Grammar.comparisonOf? comparisons) := by
  induction comparisons with
  | nil => exact both.answer none
  | cons comparison comparisons induction =>
      exact both.andThen (both.acceptText comparison.symbol) fun _ =>
        both.test (both.answer _) induction

theorem indexName? : both.scans Directive.indexName? Directive.indexName? := by
  refine both.andThen (both.accept ',') fun _ => both.test ?_ (both.answer _)
  refine both.andThen both.skipSpaces fun _ => both.andThen both.name? fun found => ?_
  cases found with
  | none => exact both.answer none
  | some index => exact both.andThen both.skipSpaces fun _ => both.answer _

theorem elementNames? : both.scans Directive.elementNames? Directive.elementNames? := by
  refine both.andThen both.name? fun element? => ?_
  cases element? with
  | none => exact both.answer none
  | some element =>
      refine both.andThen both.skipSpaces fun _ => both.andThen both.indexName? fun index? => ?_
      cases index? with
      | none => exact both.answer none
      | some index =>
          exact both.andThen (both.accept ':') fun _ => both.test (both.answer _) (both.answer none)

theorem counterName? : both.scans Directive.counterName? Directive.counterName? := by
  refine both.andThen both.name? fun name? => ?_
  cases name? with
  | none => exact both.answer none
  | some name =>
      refine both.andThen both.skipSpaces fun _ => both.andThen (both.accept '=') fun _ =>
        both.test ?_ (both.answer none)
      exact both.andThen both.current fun _ => both.test (both.answer none) (both.answer _)

theorem expectCounter (name : String) :
    both.parses (Directive.expectCounter name) (Directive.expectCounter name) :=
  both.bind (both.scan both.skipSpaces) fun _ => both.bind (both.scan both.name?) fun _ =>
    both.ite (both.pure ()) (both.fail ⟨nofun, nofun⟩)

theorem furtherNames (allowed : Nat) :
    both.parses (Directive.furtherNames allowed) (Directive.furtherNames allowed) := by
  induction allowed with
  | zero =>
      exact both.bind (both.scan both.skipSpaces) fun _ =>
        both.bind (both.scan (both.accept ',')) fun _ =>
          both.ite (both.fail ⟨nofun, nofun⟩) (both.pure [])
  | succ allowed induction =>
      exact both.bind (both.scan both.skipSpaces) fun _ =>
        both.bind (both.scan (both.accept ',')) fun _ =>
          both.ite
            (both.bind (both.expectName _) fun _ => both.bind induction fun _ => both.pure _)
            (both.pure [])

theorem embeddedPath : both.parses Directive.embeddedPath Directive.embeddedPath :=
  both.bind (both.scan both.skipSpaces) fun _ => both.bind (both.scan (both.takeWhile _)) fun _ =>
    both.ite (both.fail ⟨nofun, nofun⟩)
      (both.bind (both.scan both.acceptBreak) fun _ => both.pure _)

theorem declarationStart? :
    both.scans Directive.declarationStart? Directive.declarationStart? :=
  both.andThen (both.acceptText "@var ") fun _ => both.test (both.answer _) <|
    both.andThen (both.acceptText "@const ") fun _ => both.test (both.answer _) <|
      both.andThen (both.acceptText "@set_var ") fun _ =>
        both.test (both.answer _) (both.answer none)

section

variable (expressions : both.parses Grammar.expression? Grammar.expression?)

include expressions

theorem expression (what : String) :
    both.parses (Grammar.expression what) (Grammar.expression what) :=
  both.bind expressions fun found => both.require what found

theorem condition? : both.parses Grammar.condition? Grammar.condition? := by
  refine both.bind expressions fun left? => ?_
  cases left? with
  | none => exact both.pure none
  | some left =>
      refine both.pointer_bind fun _ _ rewinds => both.bind (both.scan both.skipSpaces) fun _ =>
        both.bind (both.scan (both.comparisonOf? _)) fun found => ?_
      cases found with
      | none => exact rewinds _
      | some comparison =>
          exact both.bind (both.scan both.skipSpaces) fun _ =>
            both.bind (both.expression expressions _) fun _ => both.pure _

theorem iterableHeader? : both.parses Directive.iterableHeader? Directive.iterableHeader? := by
  refine both.bind (both.scan both.elementNames?) fun names? => ?_
  cases names? with
  | none => exact both.pure none
  | some names =>
      exact both.bind (both.scan both.skipSpaces) fun _ =>
        both.bind (both.expression expressions _) fun _ => both.pure _

theorem counterStep : both.parses Directive.counterStep Directive.counterStep := by
  refine both.bind (both.scan (both.acceptText "++")) fun _ => both.ite (both.pure _) ?_
  refine both.bind (both.scan (both.acceptText "--")) fun _ => both.ite (both.pure _) ?_
  exact both.bind (both.scan both.current) fun _ => both.bind (both.require _ _) fun _ =>
    both.bind (both.scan both.step) fun _ => both.bind (both.scan both.skipSpaces) fun _ =>
    both.bind (both.expression expressions _) fun _ => both.pure _

theorem numberedHeader? : both.parses Directive.numberedHeader? Directive.numberedHeader? := by
  refine both.bind (both.scan both.counterName?) fun name? => ?_
  cases name? with
  | none => exact both.pure none
  | some name =>
      -- the start, the bound and the step, each behind spaces and up to the next semicolon
      refine both.bind (both.scan both.skipSpaces) fun _ =>
        both.bind (both.expression expressions "a start value") fun _ =>
        both.bind (both.expectSymbol ';') fun _ => both.bind (both.expectCounter name) fun _ => ?_
      refine both.bind (both.scan both.skipSpaces) fun _ =>
        both.bind (both.scan (both.comparisonOf? _)) fun _ =>
        both.bind (both.require _ _) fun _ => both.bind (both.scan both.skipSpaces) fun _ =>
        both.bind (both.expression expressions "a loop bound") fun _ => ?_
      refine both.bind (both.expectSymbol ';') fun _ => both.bind (both.expectCounter name) fun _ =>
        both.bind (both.scan both.skipSpaces) fun _ => ?_
      exact both.bind (both.counterStep expressions) fun _ => both.pure _

theorem loopHeader : both.parses Directive.loopHeader Directive.loopHeader := by
  refine both.bind (both.scan both.skipSpaces) fun _ =>
    both.bind (both.attempt (both.iterableHeader? expressions)) fun iterable? => ?_
  cases iterable? with
  | some header => exact both.pure header
  | none =>
      refine both.bind (both.attempt (both.numberedHeader? expressions)) fun numbered? => ?_
      cases numbered? with
      | some header => exact both.pure header
      | none =>
          exact both.bind (both.condition? expressions) fun _ =>
            both.bind (both.require _ _) fun _ => both.pure _

end

end Congruence

end Parser

end Stencil
