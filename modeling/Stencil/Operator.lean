/-!
# Operators

The arithmetic operators with their precedence, and the comparisons with the orderings that satisfy
them.
-/

namespace Stencil

/-- A binary arithmetic operator. -/
inductive Operator where
  | plus
  | minus
  | times
  | divide
  | modulo
deriving DecidableEq, Repr

namespace Operator

/-- How an operator is written. -/
def symbol : Operator → Char
  | plus => '+'
  | minus => '-'
  | times => '*'
  | divide => '/'
  | modulo => '%'

/-- The operator that a character writes. -/
def ofSymbol? : Char → Option Operator
  | '+' => some plus
  | '-' => some minus
  | '*' => some times
  | '/' => some divide
  | '%' => some modulo
  | _ => none

/-- The rank of an operator; a lower rank binds tighter. -/
def precedence : Operator → Nat
  | plus | minus => 6
  | times | divide | modulo => 4

theorem ofSymbol?_eq_some_iff {character : Char} {operator : Operator} :
    ofSymbol? character = some operator ↔ character = operator.symbol := by
  constructor
  · intro found
    unfold ofSymbol? at found
    split at found <;> cases found <;> rfl
  · rintro rfl
    cases operator <;> rfl

end Operator

/-- A comparison of two values. -/
inductive Comparison where
  | equal
  | notEqual
  | greater
  | less
  | greaterOrEqual
  | lessOrEqual
deriving DecidableEq, Repr

namespace Comparison

/-- How a comparison is written. -/
def symbol : Comparison → String
  | equal => "=="
  | notEqual => "!="
  | greater => ">"
  | less => "<"
  | greaterOrEqual => ">="
  | lessOrEqual => "<="

/-- All comparisons, those with longer symbols before those whose symbols begin them. -/
def longestFirst : List Comparison :=
  [equal, notEqual, greaterOrEqual, lessOrEqual, greater, less]

/-- Whether a comparison asks for equality or inequality, which all kinds of values support. -/
def testsEquality : Comparison → Bool
  | equal | notEqual => true
  | _ => false

/-- Whether an ordering of the operands satisfies a comparison. -/
def holds : Comparison → Ordering → Bool
  | equal, ordering => ordering == .eq
  | notEqual, ordering => ordering != .eq
  | greater, ordering => ordering == .gt
  | less, ordering => ordering == .lt
  | greaterOrEqual, ordering => ordering != .lt
  | lessOrEqual, ordering => ordering != .gt

/-- The comparison that holds of the operands in the other order. -/
def converse : Comparison → Comparison
  | greater => less
  | less => greater
  | greaterOrEqual => lessOrEqual
  | lessOrEqual => greaterOrEqual
  | comparison => comparison

theorem holds_converse (comparison : Comparison) (ordering : Ordering) :
    comparison.converse.holds ordering.swap = comparison.holds ordering := by
  cases comparison <;> cases ordering <;> rfl

end Comparison

end Stencil
