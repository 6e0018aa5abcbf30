import Stencil.Expression.OperatorStack
import Stencil.Proofs.Expression.Balance
import Stencil.Proofs.RoundTrip.Operand

/-!
# Spelled expressions are read

While a printed expression is read, operators that bind tight enough may still wait.  A stack
settles to another one if letting them take their operands leads there; what looser operators,
closed groups and the end of the expression do with both is the same.

The stack of a spelled expression settles to that expression itself, and prints are spellings, so
printed expressions are read back.
-/

namespace Stencil.OperatorStack

/-- Waiting operators up to a rank take their operands. -/
inductive Settles (limit : Nat) : OperatorStack → OperatorStack → Prop where
  | refl (stack : OperatorStack) : Settles limit stack stack
  | combine {operator : Operator} {left right : Expression} {operands : List Expression}
      {waiting : List Waiting} {settled : OperatorStack} (tight : operator.precedence ≤ limit)
      (later : Settles limit ⟨.binary left operator right :: operands, waiting⟩ settled) :
      Settles limit ⟨right :: left :: operands, .operator operator :: waiting⟩ settled

/-- No operator waits on top that binds as tight as a rank. -/
def Admits (limit : Nat) (stack : OperatorStack) : Prop :=
  ∀ operator waiting, stack.waiting = .operator operator :: waiting → limit < operator.precedence

variable {limit limit' : Nat} {stack settled last : OperatorStack} {operator : Operator}

namespace Settles

theorem trans (first : Settles limit stack settled) (second : Settles limit settled last) :
    Settles limit stack last := by
  induction first with
  | refl => exact second
  | combine tight later induction => exact .combine tight (induction second)

theorem mono (settles : Settles limit stack settled) (wider : limit ≤ limit') :
    Settles limit' stack settled := by
  induction settles with
  | refl stack => exact .refl stack
  | combine tight later induction => exact .combine (Nat.le_trans tight wider) induction

theorem closeGroup? (settles : Settles limit stack settled) :
    stack.closeGroup? = settled.closeGroup? := by
  induction settles with
  | refl => rfl
  | combine tight later induction => exact induction

theorem finish? (settles : Settles limit stack settled) : stack.finish? = settled.finish? := by
  induction settles with
  | refl => rfl
  | combine tight later induction => exact induction

theorem pushOperator? (settles : Settles limit stack settled)
    (loose : limit ≤ operator.precedence) :
    stack.pushOperator? operator = settled.pushOperator? operator := by
  induction settles with
  | refl => rfl
  | @combine top left right operands waiting settled tight later induction =>
      have binds : ¬operator.precedence < top.precedence :=
        Nat.not_lt.mpr (Nat.le_trans tight loose)
      rw [← induction, OperatorStack.pushOperator?, pushFrom, if_neg binds]
      rfl

end Settles

namespace Admits

theorem mono (admits : Admits limit stack) (tighter : limit' ≤ limit) : Admits limit' stack :=
  fun operator waiting top => Nat.lt_of_le_of_lt tighter (admits operator waiting top)

theorem openGroup (limit : Nat) (stack : OperatorStack) : Admits limit stack.openGroup :=
  fun _ _ top => nomatch top

theorem pushOperator? (admits : Admits operator.precedence stack) :
    stack.pushOperator? operator =
      some ⟨stack.operands, .operator operator :: stack.waiting⟩ := by
  obtain ⟨operands, waiting⟩ := stack
  cases waiting with
  | nil => rfl
  | cons top waiting =>
      cases top with
      | group => rfl
      | operator top =>
          have loose := admits top waiting rfl
          rw [OperatorStack.pushOperator?, pushFrom, if_pos loose]

end Admits

end Stencil.OperatorStack

namespace Stencil

open Text Text.Cursor OperatorStack Stencil.Parser

variable {nested : Parser Cursor (Option Expression)} {bound start fuel opened limit : Nat}
  {text rest : List Char} {stack settled goal : OperatorStack} {operator : Operator}

namespace Grammar

/-- Reads an expression on from behind an operand. -/
def afterOperand (nested : Parser Cursor (Option Expression)) (start fuel : Nat)
    (stack : OperatorStack) (opened : Nat) : Parser Cursor (Option Expression) := do
  let (stack, opened) ← closeGroups opened stack
  match ← Parser.scan operator? with
  | some operator =>
      expressionFrom nested start fuel (← wellFormed (stack.pushOperator? operator)) opened
  | none =>
      if opened = 0 then return some (← wellFormed stack.finish?)
      else Parser.fail (.expected "`)` to close the expression")

theorem expressionFrom_openGroup :
    LeadsTo (expressionFrom nested start (fuel + 1) stack opened) ['('] rest
      (expressionFrom nested start fuel stack.openGroup (opened + 1)) := by
  rw [expressionFrom]
  refine (LeadsTo.of_reads (.scan (.skipSpaces rfl))).trans ?_
  exact .of_reads (.scan (.accept '(' rest))

theorem expressionFrom_operand {operand : Expression}
    (begins : Begins beginsExpression text) (noGroup : text.head? ≠ some '(')
    (reads : Reads (operand? nested) text (some operand) rest) :
    LeadsTo (expressionFrom nested start (fuel + 1) stack opened) text rest
      (afterOperand nested start fuel (stack.pushOperand operand) opened) := by
  rw [expressionFrom]
  have unopened : (text ++ rest).head? ≠ some '(' := by
    obtain ⟨first, more, rfl, -⟩ := begins
    exact noGroup
  have noSpace := (begins.append rest).any_eq_false fun _ => isTokenSpace_of_begins
  refine (LeadsTo.of_reads (.scan (.skipSpaces noSpace))).trans ?_
  refine (LeadsTo.of_reads (.scan (.accept_of_ne unopened))).trans ?_
  exact .of_reads reads

/-- The spaces in front of an operand may be skipped first. -/
theorem expressionFrom_blanks (before : Blanks) (later : rest.head?.any isTokenSpace = false) :
    LeadsTo (expressionFrom nested start (fuel + 1) stack opened) before.text rest
      (expressionFrom nested start (fuel + 1) stack opened) := by
  rw [expressionFrom]
  exact .skipSpaces before.areSpaces later

theorem closeGroups_none (noGroup : (rest.dropWhile isTokenSpace).head? ≠ some ')') :
    Reads (closeGroups opened stack) [] (stack, opened) rest := by
  cases opened with
  | zero => exact .pure _ _
  | succ opened =>
      obtain ⟨spaces, later, rfl, dropped, areSpaces, ends⟩ := Text.Reads.exists_spaces rest
      rw [dropped] at noGroup
      intro passed
      have skipped := Text.Reads.skipAllSpaces areSpaces ends passed
      have declined := Text.Reads.accept_of_ne noGroup (spaces.reverse ++ passed)
      rw [closeGroups, List.nil_append, run_scan_bind (Scan.pointer_run _), run_scan_bind skipped]
      refine (run_scan_bind declined).trans ?_
      exact run_scan_bind (Text.Reads.returnTo_run passed spaces later)

theorem closeGroups_close {closed : OperatorStack} (before : Blanks)
    (closes : stack.closeGroup? = some closed) :
    LeadsTo (closeGroups (opened + 1) stack) (before.text ++ [')']) rest
      (closeGroups opened closed) := by
  rw [closeGroups]
  refine .pointer_bind fun place => ?_
  refine (LeadsTo.of_reads (.scan (.skipBlanks before rfl))).trans ?_
  rw [closes]
  exact .of_reads (.scan (.accept ')' rest))

/-- An operator after spaces. -/
theorem operator?_some (before : Blanks) (operator : Operator) :
    Text.Reads operator? (before.text ++ [operator.symbol]) (some operator) rest := by
  have ends : (operator.symbol :: rest).head?.any isTokenSpace = false := by cases operator <;> rfl
  unfold operator?
  refine Text.Reads.pointer_bind fun place => ?_
  refine Text.Reads.bind (.skipBlanks before ends) (Text.Reads.look_bind (.current _) ?_)
  rw [List.singleton_append, List.head?_cons, Option.bind_some,
    Operator.ofSymbol?_eq_some_iff.mpr rfl]
  exact Text.Reads.bind_look (.step _ _) (.pure _ _)

theorem operator?_none (ends : EndsExpression rest) : Text.Reads operator? [] none rest := by
  obtain ⟨spaces, later, rfl, dropped, areSpaces, stops⟩ := Text.Reads.exists_spaces rest
  have declined : later.head?.bind Operator.ofSymbol? = none := by
    have apart := ends.operator
    rw [dropped] at apart
    cases next : later.head? with
    | none => rfl
    | some character =>
        cases found : Operator.ofSymbol? character with
        | none => exact found
        | some operator =>
            rw [Operator.ofSymbol?_eq_some_iff.mp found] at next
            exact absurd next (apart operator)
  intro passed
  have skipped := Text.Reads.skipAllSpaces areSpaces stops passed
  simp [operator?, skipped, declined, Text.Reads.returnTo_run]

/-- An operator after spaces. -/
theorem afterOperand_operator {pushed : OperatorStack} (before : Blanks)
    (pushes : stack.pushOperator? operator = some pushed) :
    LeadsTo (afterOperand nested start fuel stack opened) (before.text ++ [operator.symbol]) rest
      (expressionFrom nested start fuel pushed opened) := by
  have noGroup : ((((before.text ++ [operator.symbol]) ++ []) ++ rest).dropWhile
      isTokenSpace).head? ≠ some ')' := by
    rw [List.append_nil, List.append_assoc, before.dropWhile_append]
    cases operator <;> simp [isTokenSpace, Operator.symbol]
  have parts : before.text ++ [operator.symbol] =
      [] ++ ((before.text ++ [operator.symbol]) ++ []) := (List.append_nil _).symm
  unfold afterOperand
  rw [parts]
  refine (LeadsTo.of_reads (closeGroups_none noGroup)).trans ?_
  refine (LeadsTo.of_reads (.scan (operator?_some before operator))).trans ?_
  dsimp only
  rw [pushes]
  exact .refl _ _

theorem afterOperand_closeGroup {closed : OperatorStack} (before : Blanks)
    (closes : stack.closeGroup? = some closed) :
    LeadsTo (afterOperand nested start fuel stack (opened + 1)) (before.text ++ [')']) rest
      (afterOperand nested start fuel closed opened) :=
  (closeGroups_close before closes).bind

theorem afterOperand_finish {expression : Expression} (finishes : stack.finish? = some expression)
    (ends : EndsExpression rest) :
    Reads (afterOperand nested start fuel stack 0) [] (some expression) rest := by
  unfold afterOperand
  refine Parser.Reads.look_bind (.pure _ _) ?_
  refine Parser.Reads.look_bind (.scan (operator?_none ends)) ?_
  dsimp only
  rw [finishes]
  exact .pure _ _

/-- Reading a text where an operand is due leads behind it, with a stack that settles to the
goal. -/
def Gathers (nested : Parser Cursor (Option Expression)) (start opened limit : Nat)
    (text rest : List Char) (stack goal : OperatorStack) : Prop :=
  ∀ fuel, ∃ more settled, fuel ≤ more ∧ Settles limit settled goal ∧
    LeadsTo (expressionFrom nested start (fuel + text.length) stack opened) text rest
      (afterOperand nested start more settled opened)

namespace Gathers

theorem operand {operand : Expression} (begins : Begins beginsExpression text)
    (noGroup : text.head? ≠ some '(') (reads : Reads (operand? nested) text (some operand) rest) :
    Gathers nested start opened limit text rest stack (stack.pushOperand operand) := by
  intro fuel
  obtain ⟨first, more, rfl, has⟩ := begins
  refine ⟨fuel + more.length, stack.pushOperand operand, Nat.le_add_right _ _, .refl _, ?_⟩
  exact expressionFrom_operand ⟨first, more, rfl, has⟩ noGroup reads

/-- The spaces in front of what is gathered are skipped with it. -/
theorem blanks (before : Blanks) (begins : Begins beginsExpression text)
    (gathers : Gathers nested start opened limit text rest stack goal) :
    Gathers nested start opened limit (before.text ++ text) rest stack goal := by
  intro fuel
  obtain ⟨more, settled, less, settles, leads⟩ := gathers (fuel + before.text.length)
  refine ⟨more, settled, by omega, settles, ?_⟩
  obtain ⟨steps, enough⟩ : ∃ steps, fuel + before.text.length + text.length = steps + 1 :=
    ⟨fuel + before.text.length + text.length - 1, by have := begins.length_pos; omega⟩
  have noSpace := (begins.append rest).any_eq_false fun _ => isTokenSpace_of_begins
  rw [List.length_append, ← Nat.add_assoc, enough]
  rw [enough] at leads
  exact (expressionFrom_blanks before noSpace).trans leads

theorem group {limit' : Nat} {expression : Expression} (before after : Blanks)
    (begins : Begins beginsExpression text)
    (inside : Gathers nested start (opened + 1) limit text ((after.text ++ [')']) ++ rest)
      stack.openGroup (stack.openGroup.pushOperand expression)) :
    Gathers nested start opened limit' ('(' :: (before.around text after ++ [')'])) rest stack
      (stack.pushOperand expression) := by
  intro fuel
  obtain ⟨more, settled, less, settles, leads⟩ :=
    inside.blanks before begins (fuel + after.text.length + 1)
  have closes : settled.closeGroup? = some (stack.pushOperand expression) := settles.closeGroup?
  have parts : '(' :: (before.around text after ++ [')']) =
      ['('] ++ ((before.text ++ text) ++ (after.text ++ [')'])) := by
    simp [Blanks.around]
  have steps : fuel + ('(' :: (before.around text after ++ [')'])).length =
      (fuel + after.text.length + 1 + (before.text ++ text).length) + 1 := by
    simp only [parts, List.length_append, List.length_singleton]
    omega
  refine ⟨more, stack.pushOperand expression, by omega, .refl _, ?_⟩
  rw [steps, parts]
  refine expressionFrom_openGroup.trans (leads.trans ?_)
  exact afterOperand_closeGroup after closes

theorem mono {limit' : Nat} (gathers : Gathers nested start opened limit text rest stack goal)
    (wider : limit ≤ limit') : Gathers nested start opened limit' text rest stack goal := by
  intro fuel
  obtain ⟨more, settled, less, settles, leads⟩ := gathers fuel
  exact ⟨more, settled, less, settles.mono wider, leads⟩

/-- Both sides of an operator. -/
theorem binary {left right : Expression} {leftText rightText : List Char} (before after : Blanks)
    (admits : stack.Admits operator.precedence) (begins : Begins beginsExpression rightText)
    (readsLeft : Gathers nested start opened operator.precedence leftText
      ((before.around [operator.symbol] after ++ rightText) ++ rest) stack (stack.pushOperand left))
    (readsRight : Gathers nested start opened operator.precedence rightText rest
      ⟨left :: stack.operands, .operator operator :: stack.waiting⟩
      ⟨right :: left :: stack.operands, .operator operator :: stack.waiting⟩) :
    Gathers nested start opened operator.precedence
      (leftText ++ (before.around [operator.symbol] after ++ rightText)) rest stack
      (stack.pushOperand (.binary left operator right)) := by
  intro fuel
  have parts : before.around [operator.symbol] after ++ rightText =
      (before.text ++ [operator.symbol]) ++ (after.text ++ rightText) := by
    simp [Blanks.around]
  rw [parts] at readsLeft ⊢
  obtain ⟨middle, settled, less, settles, leads⟩ :=
    readsLeft (fuel + before.text.length + 1 + (after.text ++ rightText).length)
  obtain ⟨spare, rfl⟩ : ∃ spare, middle = spare + (after.text ++ rightText).length :=
    ⟨middle - (after.text ++ rightText).length, by omega⟩
  obtain ⟨more, last, lessRight, settlesRight, leadsRight⟩ := readsRight.blanks after begins spare
  have pushes : settled.pushOperator? operator =
      some ⟨left :: stack.operands, .operator operator :: stack.waiting⟩ := by
    rw [settles.pushOperator? (Nat.le_refl _)]
    have admitsLeft : (stack.pushOperand left).Admits operator.precedence := admits
    exact admitsLeft.pushOperator?
  have steps : fuel +
      (leftText ++ ((before.text ++ [operator.symbol]) ++ (after.text ++ rightText))).length =
      fuel + before.text.length + 1 + (after.text ++ rightText).length + leftText.length := by
    simp only [List.length_append, List.length_singleton]
    omega
  refine ⟨more, last, by omega, settlesRight.trans (.combine (Nat.le_refl _) (.refl _)), ?_⟩
  rw [steps]
  exact leads.trans ((afterOperand_operator before pushes).trans leadsRight)

end Gathers

/-- The text of an operand is gathered at once, a group or an operator with what it holds. -/
theorem gathers_spelling (reads : ReadsWithin nested bound) {expression : Expression} {rank : Nat}
    (spelled : expression.Spelling rank text) (short : text.length ≤ bound + 1)
    (admits : stack.Admits rank) (ends : EndsOperand rest) :
    Gathers nested start opened rank text rest stack (stack.pushOperand expression) := by
  -- Groups keep the expression and shorten its text, so the induction is on the length.
  induction size : text.length using Nat.strongRecOn
    generalizing expression rank text stack opened rest with
  | ind size induction =>
      subst size
      cases spelled with
      | literal spelled =>
          exact .operand (spelled.begins.mono fun _ => beginsExpression_of_beginsPlain)
            (spelled.begins.head?_ne (by decide)) (.operand?_literal spelled ends)
      | bare isBare spelled =>
          exact .operand spelled.begins ((spelled.begins_bare isBare).head?_ne (by decide))
            (.operand?_bare reads spelled isBare short ends)
      | marked before after spelled =>
          simp only [Blanks.around, List.length_append] at short
          exact .operand ⟨'@', _, rfl, by decide⟩ (by simp)
            (.operand?_reference reads before after spelled (by omega))
      | list isMutable spelled =>
          rw [List.length_append] at short
          refine .operand ?_ ?_ (.operand?_list reads isMutable spelled (by omega))
          · cases isMutable <;> exact ⟨'@', _, rfl, by decide⟩
          · cases isMutable <;> simp
      | @group _ inner text before after spelled =>
          have less : text.length < ('(' :: (before.around text after ++ [')'])).length := by
            simp only [Blanks.around, List.length_append, List.length_cons]
            omega
          have closes : EndsOperand ((after.text ++ [')']) ++ rest) := by
            rw [List.append_assoc]
            exact EndsOperand.blanks after rfl
          exact .group before after spelled.begins
            (induction _ less spelled (by omega) (.openGroup _ _) closes rfl)
      | @binary left right operator leftRank rightRank leftText rightText before after leftSpelled
          leftTight rightSpelled rightTight =>
          have whole : (leftText ++ (before.around [operator.symbol] after ++ rightText)).length =
              leftText.length + before.text.length + 1 + after.text.length + rightText.length := by
            simp only [Blanks.around, List.length_append, List.length_singleton]
            omega
          have positive := rightSpelled.begins.length_pos
          have behind : EndsOperand
              ((before.around [operator.symbol] after ++ rightText) ++ rest) := by
            unfold Blanks.around
            rw [List.append_assoc, List.append_assoc, List.append_assoc]
            refine EndsOperand.blanks before ?_
            cases operator <;> rfl
          refine .binary before after admits rightSpelled.begins ?_ ?_
          · exact (induction _ (by omega) leftSpelled (by omega) (admits.mono leftTight) behind
              rfl).mono leftTight
          · have admitsRight : Admits rightRank
                ⟨left :: stack.operands, .operator operator :: stack.waiting⟩ := by
              rintro top waiting ⟨⟩
              exact rightTight
            exact (induction _ (by omega) rightSpelled (by omega) admitsRight ends rfl).mono
              (Nat.le_of_lt rightTight)

/-- Every level of brackets allows for spellings that are one character longer. -/
theorem readsWithin_expressionWithin (depth : Nat) :
    ReadsWithin (expressionWithin depth) depth := by
  induction depth with
  | zero =>
      intro expression rank text before rest spelled short
      have positive := spelled.begins.length_pos
      rw [List.length_append] at short
      omega
  | succ depth induction =>
      intro expression rank text before rest spelled short ends
      unfold expressionWithin
      refine .pointer_bind fun start => .remaining_bind fun steps enough => ?_
      have admits : OperatorStack.Admits rank {} := nofun
      have within : text.length ≤ depth + 1 := by
        rw [List.length_append] at short
        omega
      have gathers : Gathers (expressionWithin depth) start 0 rank
          (before.text ++ text) rest {} _ :=
        .blanks before spelled.begins
          (gathers_spelling induction spelled within admits ends.operand)
      obtain ⟨more, settled, -, settles, leads⟩ :=
        gathers (steps + 1 - (before.text ++ text).length)
      have fuel : steps + 1 - (before.text ++ text).length + (before.text ++ text).length =
          steps + 1 := by
        omega
      have finishes : settled.finish? = some expression := settles.finish?
      rw [fuel] at leads
      have whole := leads.reads (afterOperand_finish finishes ends)
      rwa [List.append_nil] at whole

theorem expression?_spelling {expression : Expression} {rank : Nat} (before : Blanks)
    (spelled : expression.Spelling rank text) (ends : EndsExpression rest) :
    Reads expression? (before.text ++ text) (some expression) rest := by
  unfold expression?
  refine .remaining_bind fun steps enough => ?_
  exact readsWithin_expressionWithin _ before rest spelled (Nat.le_succ_of_le enough) ends

theorem expression?_print {expression : Expression} (valid : expression.isWellFormed = true)
    (ends : EndsExpression rest) :
    Reads expression? expression.print (some expression) rest :=
  expression?_spelling .none (expression.spelling_print valid) ends

/-- An expression that must begin here. -/
theorem expression_print {expression : Expression} (what : String)
    (valid : expression.isWellFormed = true) (ends : EndsExpression rest) :
    Reads (Grammar.expression what) expression.print expression rest := by
  unfold Grammar.expression
  exact (expression?_print valid ends).bind_look (.require _ _ _)

/-- A path in `@var(...)` where a directive may begin. -/
theorem reference_print {path : Path} (valid : path.isWellFormed = true) :
    Reads reference ("@var(".toList ++ (printPath true path ++ [')'])) (some path) rest := by
  have reads : ReadsWithin expression? (printPath true path).length :=
    fun before _ spelled _ ends => expression?_spelling before spelled ends
  have around : printPath true path ++ [')'] =
      Blanks.none.around (printPath true path) .none ++ [')'] := by
    simp [Blanks.around, Blanks.none]
  rw [around]
  exact .reference? reads .none .none (path.spelling_print valid) (Nat.le_succ _)

/-- Whether a character ends what a directive, a call or an index holds. -/
def closesExpression (character : Char) : Bool :=
  [',', ')', ']', ';', '\n'].contains character

theorem endsExpression_of_closes (closes : rest.head?.all closesExpression = true) :
    EndsExpression rest := by
  cases rest with
  | nil => exact ⟨rfl, nofun⟩
  | cons character rest =>
      have cases : character = ',' ∨ character = ')' ∨ character = ']' ∨ character = ';' ∨
          character = '\n' := by
        simpa [closesExpression] using closes
      rcases cases with rfl | rfl | rfl | rfl | rfl <;> exact .cons rfl rfl rfl

/-- Reading inverts spelling: of all the ways to write an expression, each is read as that
expression, up to its last character and no further.  Other texts may be refused, but never for an
operator that misses an operand on the stacks. -/
theorem expression?_inverts_spelling :
    (∀ (expression : Expression) (rank : Nat) (text : List Char) (before after : Blanks)
      (rest : List Char), expression.Spelling rank text → rest.head?.all closesExpression = true →
      Reads expression? (before.text ++ text) (some expression) (after.text ++ rest)) ∧
    ∀ (σ : Type) [Source σ] (source : σ) (position : Position),
      ((expression? : Parser σ (Option Expression)).run.run source).1 ≠
        .error (.parse .malformedExpression position) := by
  constructor
  · intro expression rank text before after rest spelled closes
    exact expression?_spelling before spelled ((endsExpression_of_closes closes).blanks after)
  · intro σ _ source position
    exact NeverMalformed.expression? source position

/-- A product whose left factor is in parentheses and whose right factor is a path with an index. -/
theorem expression?_inverts_spelling_product :
    Reads expression? "( 1 -2 ) *@var( a.b(3)[ 0 ] )".toList
      (some (.binary (.binary (.literal (.int 1)) .minus (.literal (.int 2))) .times
        (.reference [.property "a", .call "b" [.literal (.int 3)] false false,
          .call "get" [.literal (.int 0)] false true])))
      " ;".toList := by
  have digit (value : Int32) (digit : Char) (isDigit : digit.isDigit = true)
      (same : value.toInt = Numeral.value [digit]) :
      (Expression.literal (.int value)).Spelling 0 [digit] :=
    .literal (.int ⟨false, [digit], List.cons_ne_nil _ _, by simp [isDigit]⟩ same)
  have difference :
      (Expression.binary (.literal (.int 1)) .minus (.literal (.int 2))).Spelling _ _ :=
    .binary .one .none (digit 1 '1' rfl rfl) (by decide) (digit 2 '2' rfl rfl) (by decide)
  have path : Path.Spelling [.property "a", .call "b" [.literal (.int 3)] false false,
      .call "get" [.literal (.int 0)] false true] _ :=
    .intro rfl (.property rfl) <|
      .cons (.call false rfl (.last .none .none (digit 3 '3' rfl rfl))) <|
        .cons (.index .one .one (digit 0 '0' rfl rfl)) .nil
  have product : (Expression.binary _ .times _).Spelling _ _ :=
    .binary .one .none (.group .one .one difference) (by decide) (.marked .one .one path)
      (by decide)
  exact expression?_inverts_spelling.1 _ _ _ .none .one [';'] product rfl

end Grammar

end Stencil
