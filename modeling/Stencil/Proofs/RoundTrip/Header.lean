import Stencil.Directive.Loop
import Stencil.Proofs.RoundTrip.Expression

/-!
# Printed conditions and loop headers are read back

A condition in front of a closing parenthesis is read as it was printed.  The three forms of a loop
are told apart by what follows the name at their beginning, if there is one.  A form that is tried
in vain leaves the header alone.
-/

namespace Stencil

open Text Text.Cursor Stencil.Parser

variable {rest : List Char}

namespace EndsExpression

/-- What follows a space and is no operator ends an expression. -/
theorem space {character : Char} (noSpace : isTokenSpace character = false)
    (noOperator : Operator.ofSymbol? character = none) :
    EndsExpression (' ' :: character :: rest) := by
  constructor
  · exact rfl
  · intro operator same
    have isSpace : isTokenSpace ' ' = true := rfl
    rw [List.dropWhile_cons, if_pos isSpace, List.dropWhile_cons, noSpace] at same
    cases same
    rw [Operator.ofSymbol?_eq_some_iff.mpr rfl] at noOperator
    cases noOperator

theorem comparison (comparison : Comparison) :
    EndsExpression (' ' :: (comparison.symbol.toList ++ rest)) := by
  cases comparison <;> exact space rfl rfl

end EndsExpression

namespace Grammar

/-- The first comparison of a list whose symbol follows is found. -/
theorem comparisonOf?_append {comparison : Comparison} (before after : List Comparison)
    (differ : ∀ other ∈ before, ¬other.symbol.toList <+: comparison.symbol.toList ++ rest) :
    Text.Reads (comparisonOf? (before ++ comparison :: after)) comparison.symbol.toList
      (some comparison) rest := by
  induction before with
  | nil =>
      rw [List.nil_append, comparisonOf?]
      exact Text.Reads.bind_look (.acceptText _ _) (.pure _ _)
  | cons other before induction =>
      rw [List.cons_append, comparisonOf?]
      have declined := Text.Reads.acceptText_of_not other.symbol (differ other List.mem_cons_self)
      refine declined.look_bind ?_
      exact induction fun another member => differ another (List.mem_cons_of_mem other member)

theorem comparison?_print (comparison : Comparison) :
    Text.Reads comparison? comparison.symbol.toList (some comparison) (' ' :: rest) := by
  cases comparison with
  | equal => exact comparisonOf?_append [] _ (by simp)
  | notEqual => exact comparisonOf?_append [.equal] _ (by simp [Comparison.symbol])
  | greaterOrEqual => exact comparisonOf?_append [.equal, .notEqual] _ (by simp [Comparison.symbol])
  | lessOrEqual =>
      exact comparisonOf?_append [.equal, .notEqual, .greaterOrEqual] _
        (by simp [Comparison.symbol])
  | greater =>
      exact comparisonOf?_append [.equal, .notEqual, .greaterOrEqual, .lessOrEqual] _
        (by simp [Comparison.symbol])
  | less =>
      exact comparisonOf?_append [.equal, .notEqual, .greaterOrEqual, .lessOrEqual, .greater] _
        (by simp [Comparison.symbol])

theorem comparisonOf?_none (comparisons : List Comparison)
    (differ : ∀ comparison ∈ comparisons, ¬comparison.symbol.toList <+: rest) :
    Text.Reads (comparisonOf? comparisons) [] none rest := by
  induction comparisons with
  | nil => exact .pure _ _
  | cons comparison comparisons induction =>
      rw [comparisonOf?]
      have declined := Text.Reads.acceptText_of_not comparison.symbol
        (differ comparison List.mem_cons_self)
      refine declined.look_bind ?_
      exact induction fun other member => differ other (List.mem_cons_of_mem comparison member)

theorem condition?_print {condition : Condition} (valid : condition.isWellFormed = true) :
    Reads condition? condition.print (some condition) (')' :: rest) := by
  unfold condition?
  cases condition with
  | compare left comparison right =>
      simp only [Condition.isWellFormed, Bool.and_eq_true] at valid
      have noSpace : ((comparison.symbol.toList ++ ' ' :: (right.print ++ ')' :: rest)).head?.any
          isTokenSpace) = false := by
        cases comparison <;> rfl
      have begins := (right.begins_print valid.2).append (')' :: rest)
      have text : (Condition.compare left comparison right).print =
          left.print ++ ([' '] ++ (comparison.symbol.toList ++ ([' '] ++ right.print))) := by
        simp [Condition.print]
      rw [text]
      refine Parser.Reads.bind (expression?_print valid.1 ?_) (.pointer_bind fun place => ?_)
      · simpa using EndsExpression.comparison comparison
      refine Parser.Reads.bind (.scan (.skipSpace ?_)) ?_
      · simpa using noSpace
      refine Parser.Reads.bind (.scan (comparison?_print comparison)) ?_
      refine Parser.Reads.bind (.scan (.skipSpace ?_)) ?_
      · exact begins.any_eq_false fun _ => isTokenSpace_of_begins
      exact (expression_print _ valid.2 (.cons rfl rfl rfl)).bind_look (.pure _ _)
  | value expression =>
      refine Parser.Reads.bind_look (expression?_print valid (.cons rfl rfl rfl)) ?_
      intro passed
      have declined : Text.Reads (comparison? : StateM Cursor _) [] none (')' :: rest) :=
        comparisonOf?_none _ (by simp [Comparison.longestFirst, Comparison.symbol])
      have skipped : Text.Reads Scan.skipSpaces [] false (')' :: rest) := .skipSpaces rfl
      rw [run_scan_bind (Scan.pointer_run _), run_scan_bind (skipped passed)]
      refine (run_scan_bind (declined passed)).trans ?_
      exact run_scan_bind (Text.Reads.returnTo_run passed [] (')' :: rest))

end Grammar

namespace Text.Reads

theorem name? {name : List Char} (begins : Begins isNameInitial name)
    (all : name.all isNamePart = true) (ends : rest.head?.any isNamePart = false) :
    Reads Parser.name? name (some (String.ofList name)) rest := by
  unfold Parser.name?
  refine (currentIs isNameInitial (name ++ rest)).look_bind ?_
  rw [(begins.append rest).any_eq_true, if_pos rfl]
  exact (takeWhile all ends).bind_look (pure _ _)

theorem name?_none (other : rest.head?.any isNameInitial = false) :
    Reads (Parser.name? : StateM Cursor (Option String)) [] none rest := by
  unfold Parser.name?
  refine (currentIs isNameInitial rest).look_bind ?_
  rw [other]
  exact pure _ _

/-- A name is read as it was printed. -/
theorem name?_print {name : String} (valid : isName name = true)
    (ends : rest.head?.any isNamePart = false) :
    Reads Parser.name? name.toList (some name) rest := by
  have read := Text.Reads.name? (begins_name valid) (all_of_isName valid) ends
  rwa [String.ofList_toList] at read

end Text.Reads

theorem head?_name {name : String} (valid : isName name = true) (rest : List Char) :
    (name.toList ++ rest).head?.any isTokenSpace = false := by
  apply ((begins_name valid).append rest).any_eq_false
  intro character initial
  exact isTokenSpace_of_begins
    (beginsExpression_of_beginsPlain (beginsPlain_of_isNameInitial initial))

theorem head?_expression {expression : Expression} (valid : expression.isWellFormed = true)
    (rest : List Char) : (expression.print ++ rest).head?.any isTokenSpace = false :=
  ((expression.begins_print valid).append rest).any_eq_false fun _ => isTokenSpace_of_begins

namespace Parser.Reads

theorem expectName {name : String} (what : String) (valid : isName name = true)
    (ends : rest.head?.any isNamePart = false) :
    Reads (Parser.expectName what) name.toList name rest := by
  unfold Parser.expectName
  refine (scan (.skipSpaces (head?_name valid rest))).look_bind ?_
  exact (scan (.name?_print valid ends)).bind_look (require _ _ _)

/-- A character after a space. -/
theorem expectSpacedSymbol (character : Char) (noSpace : isTokenSpace character = false) :
    Reads (Parser.expectSymbol character) [' ', character] () rest :=
  expectSymbol_blanks .one character noSpace

variable {α : Type} {parser : Parser Cursor (Option α)} {text later : List Char}

theorem attempt {found : α} (reads : Reads parser text (some found) rest) :
    Reads (Scan.attempt parser) text (some found) rest :=
  pointer_bind fun _ => reads.bind_look (pure _ _)

/-- A parser that finds nothing leaves the text alone, wherever it stopped. -/
theorem attempt_none (read : List Char) (nothing : Reads parser read none later) :
    Reads (Scan.attempt parser) [] none (read ++ later) := by
  intro passed
  have tried : (Scan.attempt parser).run.run (between passed (read ++ later)) =
      (do
        Parser.scan (Scan.returnTo (byteLength passed))
        Pure.pure none : Parser Cursor (Option α)).run.run (between
            (read.reverse ++ passed) later) :=
    run_bind_of_ok (nothing passed)
  exact tried.trans (run_scan_bind (Text.Reads.returnTo_run passed read later))

end Parser.Reads

/-- A name in front of a text ends there, and the text goes on with nothing that would make the name
one of those at the beginning of a loop over a list or of a numbered loop. -/
structure EndsName (rest : List Char) : Prop where
  name : rest.head?.any isNamePart = false
  comma : (rest.dropWhile isTokenSpace).head? ≠ some ','
  colon : (rest.dropWhile isTokenSpace).head? ≠ some ':'
  equals : ∀ more, rest.dropWhile isTokenSpace = '=' :: more → more.head? = some '='

namespace EndsName

theorem cons {character : Char} (noName : isNamePart character = false)
    (noSpace : isTokenSpace character = false)
    (other : [',', ':', '='].contains character = false) : EndsName (character :: rest) := by
  have apart : character ≠ ',' ∧ character ≠ ':' ∧ character ≠ '=' := by simpa using other
  have stays : (character :: rest).dropWhile isTokenSpace = character :: rest := by
    rw [List.dropWhile_cons, noSpace]
    rfl
  refine ⟨noName, ?_, ?_, ?_⟩
  · rw [stays]
    simpa using apart.1
  · rw [stays]
    simpa using apart.2.1
  · rw [stays]
    rintro more ⟨⟩
    exact absurd rfl apart.2.2

theorem operator (operator : Operator) : EndsName (' ' :: operator.symbol :: rest) := by
  cases operator <;> constructor <;> simp [isTokenSpace, Operator.symbol] <;> rfl

theorem comparison (comparison : Comparison) :
    EndsName (' ' :: (comparison.symbol.toList ++ rest)) := by
  cases comparison <;> constructor <;>
    simp [isTokenSpace, Comparison.symbol] <;> rfl

theorem goesOn {text : List Char} (goesOn : GoesOn text) (ends : EndsName rest) :
    EndsName (text ++ rest) := by
  rcases goesOn with rfl | ⟨character, more, rfl, mark⟩
  · exact ends
  · have cases : character = '.' ∨ character = '[' ∨ character = '(' := by simpa using mark
    rcases cases with rfl | rfl | rfl <;> exact cons rfl rfl rfl

end EndsName

/-- A text begins with a name, which ends there in front of whatever a name may end in front of. -/
def BeginsWithName (text : List Char) : Prop :=
  ∃ name more, text = name ++ more ∧ Begins isNameInitial name ∧ name.all isNamePart = true ∧
    ∀ rest, EndsName rest → EndsName (more ++ rest)

theorem BeginsWithName.append {text more : List Char} (begins : BeginsWithName text)
    (ends : ∀ rest, EndsName rest → EndsName (more ++ rest)) : BeginsWithName (text ++ more) := by
  obtain ⟨name, between, rfl, initial, all, behind⟩ := begins
  refine ⟨name, between ++ more, List.append_assoc _ _ _, initial, all, fun rest endsRest => ?_⟩
  rw [List.append_assoc]
  exact behind _ (ends rest endsRest)

theorem not_begins_number (number : Int) (more : List Char) :
    ¬Begins isNameInitial ((toString number).toList ++ more) := by
  rintro ⟨first, rest, text, initial⟩
  obtain ⟨other, digits, same, isNumber⟩ := (begins_number number).append more
  rw [text] at same
  cases same
  rw [beginsNumber, isDigit_of_isNameInitial initial, Bool.or_false, beq_iff_eq] at isNumber
  rw [isNumber] at initial
  exact absurd initial (by decide)

/-- Of the literals only the booleans begin as names do. -/
theorem Primitive.exists_boolean_of_begins {value : Primitive} (valid : value.isWellFormed = true)
    (begins : Begins isNameInitial value.print) : ∃ truth, value = .boolean truth := by
  cases value with
  | int value => exact absurd (begins.append []) (not_begins_number value.toInt [])
  | long value => exact absurd begins (not_begins_number value.toInt ['L'])
  | double value => cases valid
  | char value =>
      obtain ⟨first, more, ⟨⟩, has⟩ := begins
      cases has
  | string value =>
      obtain ⟨first, more, ⟨⟩, has⟩ := begins
      cases has
  | boolean truth => exact ⟨truth, rfl⟩

theorem Expression.beginsWithName {expression : Expression}
    (valid : expression.isWellFormed = true) (begins : Begins isNameInitial expression.print) :
    BeginsWithName expression.print := by
  induction expression using operand_induction with
  | literal value =>
      obtain ⟨truth, rfl⟩ := Primitive.exists_boolean_of_begins valid begins
      refine ⟨_, [], (List.append_nil _).symm, begins, ?_, fun rest ends => ends⟩
      cases truth <;> decide
  | reference path =>
      rw [Expression.print] at begins ⊢
      cases bare : Path.isBare path with
      | true =>
          obtain ⟨name, more, text, all, initial, -, -, goesOn⟩ :=
            (Path.spelling_print path valid).exists_name bare
          rw [if_pos rfl]
          exact ⟨name, more, text, initial, all, fun rest ends => .goesOn goesOn ends⟩
      | false =>
          rw [bare] at begins
          obtain ⟨first, more, ⟨⟩, has⟩ := begins
          cases has
  | list isMutable items =>
      obtain ⟨first, more, text, has⟩ := begins
      cases isMutable <;> cases text <;> cases has
  | binary left operator right inductionLeft inductionRight =>
      simp only [Expression.isWellFormed, Bool.and_eq_true] at valid
      rw [Expression.print] at begins ⊢
      cases tight : decide (operator.precedence < left.rank) with
      | true =>
          rw [tight] at begins
          obtain ⟨first, more, ⟨⟩, has⟩ := begins
          cases has
      | false =>
          rw [tight] at begins
          apply BeginsWithName.append
          · apply inductionLeft valid.1
            obtain ⟨first, more, text, -⟩ := left.begins_print valid.1
            obtain ⟨_, _, same, initial⟩ := begins
            rw [grouped, if_neg Bool.false_ne_true, text] at same
            cases same
            exact ⟨first, more, text, initial⟩
          · intro rest ends
            exact .operator operator

theorem Condition.begins_print {condition : Condition} (valid : condition.isWellFormed = true) :
    Begins beginsExpression condition.print := by
  cases condition with
  | compare left comparison right =>
      simp only [Condition.isWellFormed, Bool.and_eq_true] at valid
      rw [Condition.print, List.append_assoc]
      exact (left.begins_print valid.1).append _
  | value expression => exact expression.begins_print valid

theorem Condition.beginsWithName {condition : Condition} (valid : condition.isWellFormed = true)
    (begins : Begins isNameInitial condition.print) : BeginsWithName condition.print := by
  cases condition with
  | compare left comparison right =>
      simp only [Condition.isWellFormed, Bool.and_eq_true] at valid
      have initial : Begins isNameInitial left.print := by
        obtain ⟨first, more, text, -⟩ := left.begins_print valid.1
        obtain ⟨_, _, same, initial⟩ := begins
        rw [Condition.print, text] at same
        cases same
        exact ⟨first, more, text, initial⟩
      rw [Condition.print, List.append_assoc]
      apply (Expression.beginsWithName valid.1 initial).append
      intro rest ends
      have behind : EndsName (' ' :: (comparison.symbol.toList ++ (' ' :: right.print ++ rest))) :=
        EndsName.comparison comparison
      simpa using behind
  | value expression => exact Expression.beginsWithName valid begins

namespace Directive

theorem indexName?_print {index : Option String} (valid : index.all isName = true) :
    Text.Reads indexName? (printName index) (some index) (':' :: rest) := by
  unfold indexName?
  cases index with
  | none => exact Text.Reads.look_bind (.accept_of_ne (by simp [printName])) (.pure _ _)
  | some index =>
      have text : printName (some index) = [','] ++ index.toList := rfl
      rw [text]
      refine Text.Reads.bind (.accept ',' _) ?_
      refine Text.Reads.look_bind (.skipSpaces (head?_name valid _)) ?_
      refine Text.Reads.bind_look (.name?_print valid rfl) ?_
      exact Text.Reads.look_bind (.skipSpaces rfl) (.pure _ _)

/-- After the name of the element comes a comma or a colon. -/
theorem head?_printName (index : Option String) (rest : List Char) :
    (printName index ++ ':' :: rest).head?.any isNamePart = false ∧
      (printName index ++ ':' :: rest).head?.any isTokenSpace = false := by
  cases index <;> exact ⟨rfl, rfl⟩

theorem elementNames?_print {element : String} {index : Option String}
    (validElement : isName element = true) (validIndex : index.all isName = true) :
    Text.Reads elementNames? (element.toList ++ (printName index ++ [':']))
      (some (element, index)) rest := by
  obtain ⟨noName, noSpace⟩ := head?_printName index rest
  unfold elementNames?
  refine Text.Reads.bind (.name?_print validElement (by simpa using noName)) ?_
  refine Text.Reads.look_bind (.skipSpaces (by simpa using noSpace)) ?_
  refine Text.Reads.bind (indexName?_print validIndex) ?_
  exact Text.Reads.bind_look (.accept ':' rest) (.pure _ _)

/-- A name without a comma or a colon behind it begins no loop over a list. -/
theorem elementNames?_none {name more : List Char} (begins : Begins isNameInitial name)
    (all : name.all isNamePart = true) (noName : more.head?.any isNamePart = false)
    (noComma : (more.dropWhile isTokenSpace).head? ≠ some ',')
    (noColon : (more.dropWhile isTokenSpace).head? ≠ some ':') : ∃ spaces later,
    more = spaces ++ later ∧ Text.Reads elementNames? (name ++ spaces) none later := by
  obtain ⟨spaces, later, rfl, dropped, areSpaces, stops⟩ := Text.Reads.exists_spaces more
  rw [dropped] at noComma noColon
  refine ⟨spaces, later, rfl, ?_⟩
  unfold elementNames? indexName?
  refine Text.Reads.bind (.name? begins all noName) ?_
  refine Text.Reads.bind_look (.skipAllSpaces areSpaces stops) ?_
  refine Text.Reads.look_bind (Text.Reads.look_bind (.accept_of_ne noComma) (.pure _ _)) ?_
  exact Text.Reads.look_bind (.accept_of_ne noColon) (.pure _ _)

/-- A name that ends in front of a text begins no numbered loop. -/
theorem counterName?_none {name more : List Char} (begins : Begins isNameInitial name)
    (all : name.all isNamePart = true) (ends : EndsName more) : ∃ read later,
    more = read ++ later ∧ Text.Reads counterName? (name ++ read) none later := by
  obtain ⟨spaces, later, rfl, dropped, areSpaces, stops⟩ := Text.Reads.exists_spaces more
  have compares := ends.equals
  rw [dropped] at compares
  by_cases equals : later.head? = some '='
  · obtain ⟨more, rfl⟩ : ∃ more, later = '=' :: more := by
      cases later with
      | nil => cases equals
      | cons first more =>
          cases equals
          exact ⟨more, rfl⟩
    refine ⟨spaces ++ ['='], more, by simp, ?_⟩
    unfold counterName?
    refine Text.Reads.bind (.name? begins all (by simpa using ends.name)) ?_
    refine Text.Reads.bind (.skipAllSpaces areSpaces stops) ?_
    refine Text.Reads.bind_look (.accept '=' more) ?_
    refine Text.Reads.look_bind (.current more) ?_
    rw [compares more rfl]
    exact .pure _ _
  · refine ⟨spaces, later, rfl, ?_⟩
    unfold counterName?
    refine Text.Reads.bind (.name? begins all ends.name) ?_
    refine Text.Reads.bind_look (.skipAllSpaces areSpaces stops) ?_
    exact Text.Reads.look_bind (.accept_of_ne equals) (.pure _ _)

theorem iterableHeader?_print {element : String} {index : Option String} {list : Expression}
    (valid : (LoopHeader.iterable element index list).isWellFormed = true) :
    Reads iterableHeader? (LoopHeader.iterable element index list).print
      (some (.iterable element index list)) (')' :: rest) := by
  simp only [LoopHeader.isWellFormed, Bool.and_eq_true] at valid
  have text : (LoopHeader.iterable element index list).print =
      (element.toList ++ (printName index ++ [':'])) ++ list.print := by
    simp [LoopHeader.print]
  rw [text]
  unfold iterableHeader?
  refine Parser.Reads.bind (.scan (elementNames?_print valid.1.1 valid.1.2)) ?_
  refine Parser.Reads.look_bind (.scan (.skipSpaces (head?_expression valid.2 _))) ?_
  exact (Grammar.expression_print _ valid.2 (.cons rfl rfl rfl)).bind_look (.pure _ _)

theorem counterName?_print {name : String} (valid : isName name = true)
    (single : rest.head? ≠ some '=') :
    Text.Reads counterName? (name.toList ++ [' ', '=']) (some name) rest := by
  have symbol : [' ', '='] = [' '] ++ ['='] := rfl
  have notEqual : (rest.head? == some '=') = false := beq_false_of_ne single
  unfold counterName?
  rw [symbol]
  refine Text.Reads.bind (.name?_print valid rfl) ?_
  refine Text.Reads.bind (.skipSpace rfl) ?_
  refine Text.Reads.bind_look (.accept '=' rest) ?_
  refine Text.Reads.look_bind (.current rest) ?_
  rw [notEqual]
  exact .pure _ _

theorem expectCounter_print {name : String} (valid : isName name = true)
    (ends : rest.head?.any isNamePart = false) :
    Reads (expectCounter name) name.toList () rest := by
  unfold expectCounter
  refine Parser.Reads.look_bind (.scan (.skipSpaces (head?_name valid rest))) ?_
  refine Parser.Reads.bind_look (.scan (.name?_print valid ends)) ?_
  rw [if_pos (beq_self_eq_true _)]
  exact .pure _ _

theorem counterStep_print (operator : Operator) {step : Expression}
    (valid : step.isWellFormed = true) :
    Reads counterStep (operator.symbol :: ' ' :: step.print) (operator, step) (')' :: rest) := by
  have text : operator.symbol :: ' ' :: step.print =
      [operator.symbol] ++ ([' '] ++ step.print) := rfl
  have found : Operator.ofSymbol? operator.symbol = some operator :=
    Operator.ofSymbol?_eq_some_iff.mpr rfl
  unfold counterStep
  refine Parser.Reads.look_bind (.scan (.acceptText_of_not "++" (by simp))) ?_
  refine Parser.Reads.look_bind (.scan (.acceptText_of_not "--" (by simp))) ?_
  refine Parser.Reads.look_bind (.scan (.current _)) ?_
  rw [List.cons_append, List.head?_cons, Option.bind_some, found, text]
  refine Parser.Reads.look_bind (.require _ _ _) ?_
  refine Parser.Reads.bind (.scan (.step _ _)) ?_
  refine Parser.Reads.bind (.scan (.skipSpace (head?_expression valid _))) ?_
  exact (Grammar.expression_print _ valid (.cons rfl rfl rfl)).bind_look (.pure _ _)

theorem numberedHeader?_print {name : String} {start bound step : Expression}
    {comparison : Comparison} {operator : Operator}
    (valid : (LoopHeader.numbered name start comparison bound operator step).isWellFormed = true) :
    Reads numberedHeader? (LoopHeader.numbered name start comparison bound operator step).print
      (some (.numbered name start comparison bound operator step)) (')' :: rest) := by
  simp only [LoopHeader.isWellFormed, Bool.and_eq_true] at valid
  obtain ⟨⟨⟨validName, validStart⟩, validBound⟩, validStep⟩ := valid
  have text : (LoopHeader.numbered name start comparison bound operator step).print =
      (name.toList ++ [' ', '=']) ++ ([' '] ++ (start.print ++ ([';'] ++ (name.toList ++ ([' '] ++
        (comparison.symbol.toList ++ ([' '] ++ (bound.print ++ ([';'] ++ (name.toList ++ ([' '] ++
          (operator.symbol :: ' ' :: step.print)))))))))))) := by
    simp [LoopHeader.print]
  have noSpace (more : List Char) :
      (comparison.symbol.toList ++ more).head?.any isTokenSpace = false := by
    cases comparison <;> rfl
  have noSpaceOperator (more : List Char) :
      (operator.symbol :: more).head?.any isTokenSpace = false := by
    cases operator <;> rfl
  rw [text]
  unfold numberedHeader?
  refine Parser.Reads.bind (.scan (counterName?_print validName (by simp))) ?_
  refine Parser.Reads.bind (.scan (.skipSpace ?_)) ?_
  · rw [List.append_assoc]
    exact head?_expression validStart _
  refine Parser.Reads.bind (Grammar.expression_print _ validStart (.cons rfl rfl rfl)) ?_
  refine Parser.Reads.bind (.expectSymbol ';' rfl) ?_
  refine Parser.Reads.bind (expectCounter_print validName rfl) ?_
  refine Parser.Reads.bind (.scan (.skipSpace ?_)) ?_
  · rw [List.append_assoc]
    exact noSpace _
  refine Parser.Reads.bind (.scan (Grammar.comparison?_print comparison)) ?_
  refine Parser.Reads.look_bind (.require _ _ _) ?_
  refine Parser.Reads.bind (.scan (.skipSpace ?_)) ?_
  · rw [List.append_assoc]
    exact head?_expression validBound _
  refine Parser.Reads.bind (Grammar.expression_print _ validBound (.cons rfl rfl rfl)) ?_
  refine Parser.Reads.bind (.expectSymbol ';' rfl) ?_
  refine Parser.Reads.bind (expectCounter_print validName rfl) ?_
  refine Parser.Reads.bind (.scan (.skipSpace ?_)) ?_
  · exact noSpaceOperator _
  exact (counterStep_print operator validStep).bind_look (.pure _ _)

theorem iterableHeader?_none {read later : List Char}
    (noNames : Text.Reads elementNames? read none later) :
    Reads (Scan.attempt iterableHeader?) [] none (read ++ later) := by
  apply Parser.Reads.attempt_none
  unfold iterableHeader?
  exact Parser.Reads.bind_look (.scan noNames) (.pure _ _)

theorem numberedHeader?_none {read later : List Char}
    (noCounter : Text.Reads counterName? read none later) :
    Reads (Scan.attempt numberedHeader?) [] none (read ++ later) := by
  apply Parser.Reads.attempt_none
  unfold numberedHeader?
  exact Parser.Reads.bind_look (.scan noCounter) (.pure _ _)

/-- A condition is no header of the other forms. -/
theorem headers_none {condition : Condition} (valid : condition.isWellFormed = true) :
    Reads (Scan.attempt iterableHeader?) [] none (condition.print ++ ')' :: rest) ∧
      Reads (Scan.attempt numberedHeader?) [] none (condition.print ++ ')' :: rest) := by
  by_cases begins : Begins isNameInitial condition.print
  · obtain ⟨name, more, text, initial, all, behind⟩ := Condition.beginsWithName valid begins
    have closes : EndsName (')' :: rest) := .cons rfl rfl rfl
    have ends := behind _ closes
    rw [text, List.append_assoc]
    constructor
    · obtain ⟨spaces, later, split, reads⟩ :=
        elementNames?_none initial all ends.name ends.comma ends.colon
      rw [split, ← List.append_assoc]
      exact iterableHeader?_none reads
    · obtain ⟨read, later, split, reads⟩ := counterName?_none initial all ends
      rw [split, ← List.append_assoc]
      exact numberedHeader?_none reads
  · have noName : (condition.print ++ ')' :: rest).head?.any isNameInitial = false := by
      obtain ⟨first, more, text, -⟩ := Condition.begins_print valid
      rw [text, List.cons_append, List.head?_cons, Option.any_some]
      exact Bool.eq_false_iff.mpr fun initial => begins ⟨first, more, text, initial⟩
    constructor
    · have noNames : Text.Reads elementNames? [] none (condition.print ++ ')' :: rest) := by
        unfold elementNames?
        exact Text.Reads.look_bind (.name?_none noName) (.pure _ _)
      have noList : Reads (Scan.attempt iterableHeader?) [] none
          ([] ++ (condition.print ++ ')' :: rest)) :=
        iterableHeader?_none noNames
      exact noList
    · have noCounter : Text.Reads counterName? [] none (condition.print ++ ')' :: rest) := by
        unfold counterName?
        exact Text.Reads.look_bind (.name?_none noName) (.pure _ _)
      have noNumbers : Reads (Scan.attempt numberedHeader?) [] none
          ([] ++ (condition.print ++ ')' :: rest)) :=
        numberedHeader?_none noCounter
      exact noNumbers

theorem loopHeader_print {header : LoopHeader} (valid : header.isWellFormed = true) :
    Reads loopHeader header.print header (')' :: rest) := by
  unfold loopHeader
  cases header with
  | conditional condition =>
      obtain ⟨noList, noCounter⟩ :
          Reads (Scan.attempt iterableHeader?) [] none (condition.print ++ ')' :: rest) ∧
            Reads (Scan.attempt numberedHeader?) [] none (condition.print ++ ')' :: rest) :=
        headers_none valid
      refine Parser.Reads.look_bind (.scan (.skipSpaces ?_)) ?_
      · exact ((Condition.begins_print valid).append _).any_eq_false fun _ => isTokenSpace_of_begins
      refine Parser.Reads.look_bind noList (Parser.Reads.look_bind noCounter ?_)
      refine Parser.Reads.bind_look (Grammar.condition?_print valid) ?_
      exact (Parser.Reads.require _ _ _).bind_look (.pure _ _)
  | numbered name start comparison bound operator step =>
      have validName : isName name = true := by
        simp only [LoopHeader.isWellFormed, Bool.and_eq_true] at valid
        exact valid.1.1.1
      obtain ⟨more, text⟩ : ∃ more,
          (LoopHeader.numbered name start comparison bound operator step).print ++ ')' :: rest =
            name.toList ++ ' ' :: '=' :: more :=
        ⟨_, by simp [LoopHeader.print]; rfl⟩
      obtain ⟨spaces, later, split, noNames⟩ : ∃ spaces later,
          ' ' :: '=' :: more = spaces ++ later ∧
            Text.Reads elementNames? (name.toList ++ spaces) none later :=
        elementNames?_none (begins_name validName) (all_of_isName validName) rfl
          (by simp [isTokenSpace])
          (by simp [isTokenSpace])
      have noList : Reads (Scan.attempt iterableHeader?) [] none
          ((LoopHeader.numbered name start comparison bound operator step).print ++
              ')' :: rest) := by
        rw [text, split, ← List.append_assoc]
        exact iterableHeader?_none noNames
      refine Parser.Reads.look_bind (.scan (.skipSpaces ?_)) ?_
      · rw [text]
        exact head?_name validName _
      refine Parser.Reads.look_bind noList ?_
      refine Parser.Reads.bind_look (Parser.Reads.attempt (numberedHeader?_print valid)) ?_
      exact .pure _ _
  | iterable element index list =>
      have validName : isName element = true := by
        simp only [LoopHeader.isWellFormed, Bool.and_eq_true] at valid
        exact valid.1.1
      refine Parser.Reads.look_bind (.scan (.skipSpaces ?_)) ?_
      · rw [LoopHeader.print, List.append_assoc, List.append_assoc]
        exact head?_name validName _
      exact (Parser.Reads.attempt (iterableHeader?_print valid)).bind_look (.pure _ _)

end Directive

end Stencil
