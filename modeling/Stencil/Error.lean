import Stencil.Kind
import Stencil.Operator
import Stencil.Placeholder.Key
import Stencil.Text.Position

/-!
# Errors of a render

Every way in which a template can fail, by cause.  `TemplateError.message` is the text that a host
sees.
-/

namespace Stencil

open Text (Position)

/-- Malformed directives. -/
inductive ParseProblem where
  /-- Something that must come next does not. -/
  | expected (what : String)
  | missingTerminator (keyword : String)
  | strayTerminator (keyword : String)
  | breakOutsideLoop
  | branchAfterElse
  | tooManyPlaceholderNames
  | unterminatedString
  | unterminatedChar
  | charNotSingle
  | malformedExpression
  | unexpectedEnd
  | cannotSeek (offset : Nat)
  /-- A problem that a host function reports. -/
  | reported (text : String)
deriving DecidableEq, Repr

/-- Operations on values of the wrong kind. -/
inductive TypeProblem where
  | divisionByZero
  | invalidCharCode (code : Int)
  | operatorUndefined (operator : Operator) (left right : Kind)
  | operandNotPrimitive (operator : Operator) (found : Kind)
  | cannotConcatenate (left right : Kind)
  | cannotCompare (left right : Kind) (comparison : Comparison)
  | onlyEquality (kind : Kind) (comparison : Comparison)
  | conditionNotBoolean (found : Kind)
  | notFunction (name : String) (found : Kind)
  /-- An index on a value without elements, or on no value at all. -/
  | cannotIndex (kind : Option Kind)
  | memberUndefined (member : String) (kind : Kind)
  | notInt (text : String)
  | notDouble (text : String)
  | stringCannotContain (found : Kind)
  | indexNotInt (found : Kind)
  | separatorNotString
  | listNotMutable (operation : String)
  /-- A start, bound or step of a numbered loop that is no int. -/
  | loopNumberNotInt (what : String) (found : Kind)
  | counterNotInt (name : String) (found : Kind)
  | cannotIterate (found : Kind)
  /-- A problem that a host function reports. -/
  | reported (text : String)
deriving DecidableEq, Repr

/-- A body or a text that runs inside another one. -/
inductive Nested where
  | placeholder (key : Placeholder.Key)
  | embedded (block : Nat)
deriving DecidableEq, Repr

/-- Names and elements that stand for nothing. -/
inductive ReferenceProblem where
  | undefinedName (name : String)
  | notMember (name : String) (kind : Kind)
  | emptyPath
  | alreadyDeclared (name scope : String)
  | notDeclared (name : String)
  | indexOutOfBounds (index : Int)
  | elementMissing (index : Nat)
  | placeholderUndefined (key : Placeholder.Key)
  | cannotEmbed (path : String)
  | nestingTooDeep (nested : Nested) (limit : Nat)
  /-- A problem that a host function reports. -/
  | reported (text : String)
deriving DecidableEq, Repr

/-- How many arguments a function takes. -/
inductive ArgumentCount where
  | exactly (count : Nat)
  | atLeast (count : Nat)
  /-- No argument or one. -/
  | optional
deriving DecidableEq, Repr

/-- Every way in which a render can end without an output.  All but the last are errors that a host
can handle. -/
inductive TemplateError where
  | parse (problem : ParseProblem) (position : Position)
  | type (problem : TypeProblem)
  | reference (problem : ReferenceProblem)
  | arity (function : String) (expected : ArgumentCount) (found : Nat)
  /-- The program breaks off, for it would look at a list in the middle of changing it. -/
  | listInUse
deriving DecidableEq, Repr

def ParseProblem.message : ParseProblem → String
  | expected what => s!"expected {what}"
  | missingTerminator keyword => s!"missing `{keyword}` for the block starting here"
  | strayTerminator keyword => s!"`{keyword}` without a matching opening directive"
  | breakOutsideLoop => "`@breakfor` outside of a loop"
  | branchAfterElse => "`@elseif` and `@else` cannot follow `@else`"
  | tooManyPlaceholderNames => "a placeholder takes a name, a definition and a parameter at most"
  | unterminatedString => "unterminated string literal"
  | unterminatedChar => "unterminated char literal"
  | charNotSingle => "char literal must hold exactly one character"
  | malformedExpression => "malformed expression"
  | unexpectedEnd => "unexpected end of input"
  | cannotSeek offset => s!"cannot seek to offset {offset}"
  | reported text => text

def TypeProblem.message : TypeProblem → String
  | divisionByZero => "division by zero"
  | invalidCharCode code => s!"{code} is not a valid character code"
  | operatorUndefined operator left right =>
      s!"operator `{operator.symbol}` is not defined for {left.name} and {right.name}"
  | operandNotPrimitive operator found =>
      s!"operator `{operator.symbol}` expects a primitive value, found {found.name}"
  | cannotConcatenate left right => s!"cannot concatenate {left.name} and {right.name}"
  | cannotCompare left right comparison =>
      s!"cannot compare {left.name} with {right.name} using `{comparison.symbol}`"
  | onlyEquality kind comparison =>
      s!"{kind.name} values only support `==` and `!=`, not `{comparison.symbol}`"
  | conditionNotBoolean found => s!"condition must be a boolean, found {found.name}"
  | notFunction name found => s!"`{name}` is a {found.name}, not a function"
  | cannotIndex (some kind) => s!"cannot index a value of kind {kind.name}"
  | cannotIndex none => "cannot index a value of kind scope"
  | memberUndefined member kind => s!"`{member}` is not defined for {kind.name}"
  | notInt text => s!"`{text}` is not an int"
  | notDouble text => s!"`{text}` is not a double"
  | stringCannotContain found => s!"a string cannot contain a {found.name}"
  | indexNotInt found => s!"index must be an int, found {found.name}"
  | separatorNotString => "joinToString expects a string separator"
  | listNotMutable operation => s!"`{operation}` requires a mutable_list"
  | loopNumberNotInt what found => s!"{what} must be an int, found {found.name}"
  | counterNotInt name found => s!"loop counter `{name}` became a {found.name}"
  | cannotIterate found => s!"cannot iterate over a {found.name}"
  | reported text => text

def Nested.render : Nested → String
  | placeholder key => s!"placeholder `{key.render}`"
  | embedded block => s!"embedded block #{block}"

def ReferenceProblem.message : ReferenceProblem → String
  | undefinedName name => s!"`{name}` is not defined"
  | notMember name kind => s!"`{name}` is not a member of {kind.name}"
  | emptyPath => "empty reference path"
  | alreadyDeclared name scope => s!"`{name}` is already declared in {scope}"
  | notDeclared name => s!"cannot assign to `{name}`: it is not declared"
  | indexOutOfBounds index => s!"index {index} is out of bounds"
  | elementMissing index => s!"list element {index} is missing during iteration"
  | placeholderUndefined key => s!"placeholder `{key.render}` is not defined"
  | cannotEmbed path => s!"cannot embed `{path}`"
  | nestingTooDeep nested limit => s!"{nested.render} nests deeper than {limit} levels"
  | reported text => text

def ArgumentCount.render : ArgumentCount → String
  | exactly count => toString count
  | atLeast count => s!"at least {count}"
  | optional => "0 or 1"

/-- The text of an error. -/
def TemplateError.message : TemplateError → String
  | parse problem position => s!"parse error at {position.render}: {problem.message}"
  | type problem => s!"type error: {problem.message}"
  | reference problem => s!"reference error: {problem.message}"
  | arity function expected found =>
      s!"arity error: `{function}` expects {expected.render} argument(s), got {found}"
  | listInUse => "already mutably borrowed: BorrowError"

end Stencil
