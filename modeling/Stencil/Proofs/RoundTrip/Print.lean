import Stencil.Run

/-!
# Template trees and their prints

A template tree is what a template says, with bodies in place of the blocks that they become.
Reading a tree back prepares a block and, recursively, every block that its nodes refer to.

Trees are printed in the syntax of directives, with a newline after every header and before every
keyword that ends a body.  A tree is well-formed if its print can only be read in one way.
-/

namespace Stencil

open Text

/-- A piece of a template. -/
inductive Tree where
  | text (content : String)
  | read (path : Path)
  | declare (name : String) (value : Expression) (constant : Bool)
  | assign (name : String) (value : Expression)
  | loop (header : LoopHeader) (body : List Tree)
  | leave
  | branches (conditions : List (Condition × List Tree)) (otherwise : Option (List Tree))
  | definePlaceholder (key : Placeholder.Key) (parameter : Option String) (body : List Tree)
  | usePlaceholder (key : Placeholder.Key) (argument : Option Expression)

namespace Run

variable {η : Type}

/-- The tree of a node in the body of a loop, given how to read blocks.  Embedded texts and breaks
that leave another loop have none. -/
def treeOf (readBlock : Option BlockRef → BlockRef → Run η (List Tree))
    (around : Option BlockRef) : Node → Run η Tree
  | .text content => return .text content
  | .read path => return .read path
  | .declare name value constant => return .declare name value constant
  | .assign name value => return .assign name value
  | .loop header body => return .loop header (← readBlock (some body) body)
  | .leave target => if around = some target then return .leave else throw .outOfFuel
  | .branches conditions otherwise => do
      let conditions ← conditions.mapM fun branch =>
        return (branch.1, ← readBlock around branch.2)
      return .branches conditions (← otherwise.mapM (readBlock around))
  | .definePlaceholder key parameter body =>
      return .definePlaceholder key parameter (← readBlock none body)
  | .usePlaceholder key argument => return .usePlaceholder key argument
  | .embed _ => throw .outOfFuel
  | .malformed error => fail error

/-- The trees of a block in the body of a loop, over at most `fuel` levels of bodies. -/
def readBack (environment : Environment η) :
    Nat → Option BlockRef → BlockRef → Run η (List Tree)
  | 0, _, _ => throw .outOfFuel
  | fuel + 1, around, id => do
      (← nodesOf environment id).mapM (treeOf (readBack environment fuel) around)

end Run

/-- A character inside quotes; a quote and the mark of escapes have that mark in front of them. -/
def escaped (quote character : Char) : List Char :=
  if character = quote ∨ character = '\x5c' then ['\x5c', character] else [character]

/-- A text between quotes. -/
def quoted (quote : Char) (content : List Char) : List Char :=
  quote :: content.flatMap (escaped quote) ++ [quote]

/-- A text, in parentheses if need be. -/
def grouped (isGroup : Bool) (content : List Char) : List Char :=
  if isGroup then '(' :: content ++ [')'] else content

/-- How a primitive is written; the digits of a long end with a letter. -/
def Primitive.print : Primitive → List Char
  | int value => (toString value.toInt).toList
  | long value => (toString value.toInt).toList ++ ['L']
  | double value => (Primitive.double value).render.toList
  | char value => quoted '\x27' [value]
  | boolean value => (Primitive.boolean value).render.toList
  | string value => quoted '\x22' value.toList

/-- Whether a segment is an index. -/
def Segment.isIndex : Segment → Bool
  | .call _ _ _ indexed => indexed
  | .property _ => false

/-- Whether a path needs no mark around it where an operand is due. -/
def Path.isBare : Path → Bool
  | .property name :: _ => !(["true", "false"].contains name)
  | .call name _ silent _ :: _ => !silent && !(["true", "false"].contains name)
  | [] => false

/-- The rank of the last operator that an expression computes; operands come first. -/
def Expression.rank : Expression → Nat
  | .binary _ operator _ => operator.precedence
  | _ => 0

mutual

def Expression.print : Expression → List Char
  | .literal value => value.print
  | .reference path =>
      if Path.isBare path then printPath true path
      else "@var(".toList ++ printPath true path ++ [')']
  | .list isMutable items =>
      (if isMutable then "@mutable_list(" else "@list(").toList ++ printItems items ++ [')']
  | .binary left operator right =>
      grouped (operator.precedence < left.rank) left.print ++ ' ' :: operator.symbol :: ' ' ::
        grouped (operator.precedence ≤ right.rank) right.print

/-- Expressions with commas between them. -/
def printItems : List Expression → List Char
  | [] => []
  | item :: items => item.print ++ printFurther items

/-- Expressions with a comma in front of each. -/
def printFurther : List Expression → List Char
  | [] => []
  | item :: items => ',' :: item.print ++ printFurther items

/-- The segments of a path, with points in front of names but for the first segment. -/
def printPath (isFirst : Bool) : List Segment → List Char
  | [] => []
  | segment :: path =>
      (if isFirst || segment.isIndex then [] else ['.']) ++ segment.print ++ printPath false path

def Segment.print : Segment → List Char
  | .property name => name.toList
  | .call name arguments silent indexed =>
      if indexed then '[' :: printItems arguments ++ [']']
      else (if silent then ['@'] else []) ++ name.toList ++ '(' :: printItems arguments ++ [')']

end

def Condition.print : Condition → List Char
  | compare left comparison right =>
      left.print ++ ' ' :: comparison.symbol.toList ++ ' ' :: right.print
  | value expression => expression.print

/-- A second name in a directive, after a comma. -/
def printName : Option String → List Char
  | none => []
  | some name => ',' :: name.toList

def LoopHeader.print : LoopHeader → List Char
  | conditional condition => condition.print
  | numbered name start comparison bound operator step =>
      name.toList ++ " = ".toList ++ start.print ++ ';' :: name.toList ++
        ' ' :: comparison.symbol.toList ++ ' ' :: bound.print ++ ';' :: name.toList ++
        ' ' :: operator.symbol :: ' ' :: step.print
  | iterable element index list =>
      element.toList ++ printName index ++ ':' :: list.print

/-- A directive that binds a name to a value. -/
def printBinding (opening : String) (name : String) (value : Expression) : List Char :=
  opening.toList ++ name.toList ++ " = ".toList ++ value.print ++ ['\n']

/-- A directive on the placeholder of a name. -/
def printCall (opening : String) (name : String) (argument : List Char) : List Char :=
  opening.toList ++ name.toList ++ ',' :: argument ++ [')']

/-- The use of a placeholder. -/
def printUse (key : Placeholder.Key) : Option Expression → List Char
  | some argument => printCall "@placeholder(" key.name argument.print
  | none => printCall "@use_placeholder(" key.name key.definition.toList

/-- A path in `@var(...)`. -/
def printRead (path : Path) : List Char :=
  "@var(".toList ++ printPath true path ++ [')']

def printLeave : List Char := "@breakfor\n".toList

/-- The names of a placeholder definition. -/
def printNames (key : Placeholder.Key) (parameter : Option String) : List Char :=
  key.name.toList ++ ',' :: key.definition.toList ++ printName parameter

/-- The directives with bodies. -/
inductive BodyForm where
  | loop
  | branch
  | placeholder
deriving DecidableEq

namespace BodyForm

def opening : BodyForm → String
  | loop => "@for("
  | branch => "@if("
  | placeholder => "@define_placeholder("

/-- The keywords between the bodies of one directive. -/
def separators : BodyForm → List String
  | loop => []
  | branch => ["@elseif(", "@else"]
  | placeholder => []

def terminator : BodyForm → String
  | loop => "@endfor"
  | branch => "@endif"
  | placeholder => "@end_define_placeholder"

/-- A directive, given what stands between its opening and the newline before its terminator. -/
def enclose (form : BodyForm) (content : List Char) : List Char :=
  form.opening.toList ++ content ++ '\n' :: form.terminator.toList

end BodyForm

/-- A body after the header of its directive. -/
def headed (header body : List Char) : List Char :=
  header ++ [')', '\n'] ++ body

/-- What comes between the bodies of branches if another condition follows. -/
def nextBranch : List Char := '\n' :: "@elseif(".toList

/-- What comes in front of the body of no condition. -/
def lastBranch : List Char := '\n' :: "@else".toList ++ ['\n']

mutual

def Tree.print : Tree → List Char
  | .text content => content.toList
  | .read path => printRead path
  | .declare name value constant =>
      printBinding (if constant then "@const " else "@var ") name value
  | .assign name value => printBinding "@set_var " name value
  | .loop header body => BodyForm.loop.enclose (headed header.print (printAll body))
  | .leave => printLeave
  | .branches conditions otherwise =>
      BodyForm.branch.enclose (printBranches [] conditions ++ printLast otherwise)
  | .definePlaceholder key parameter body =>
      BodyForm.placeholder.enclose (headed (printNames key parameter) (printAll body)) ++ ['\n']
  | .usePlaceholder key argument => printUse key argument

def printAll : List Tree → List Char
  | [] => []
  | tree :: trees => tree.print ++ printAll trees

/-- Conditions and their bodies, given what comes in front of the first of them. -/
def printBranches (before : List Char) : List (Condition × List Tree) → List Char
  | [] => []
  | (condition, body) :: conditions =>
      before ++ headed condition.print (printAll body) ++ printBranches nextBranch conditions

def printLast : Option (List Tree) → List Char
  | none => []
  | some body => lastBranch ++ printAll body

end

/-- Whether a text is a name. -/
def isName (name : String) : Bool :=
  name.toList.head?.any isNameInitial && name.toList.all isNamePart

/-- Whether a text holds no mark of a directive. -/
def isUnmarked (content : List Char) : Bool :=
  content.all (· != '@')

/-- The words of the directives that open, divide and close bodies. -/
def bodyWords : List String :=
  ["for", "endfor", "if", "elseif", "else", "endif", "define_placeholder",
    "end_define_placeholder"]

def Primitive.isWellFormed : Primitive → Bool
  | double _ => false
  | char value => isUnmarked [value]
  | string value => isUnmarked value.toList
  | _ => true

mutual

def Expression.isWellFormed : Expression → Bool
  | .literal value => value.isWellFormed
  | .reference path => !(path.head?.all Segment.isIndex) && areWellFormedSegments path
  | .list _ items => areWellFormedItems items
  | .binary left _ right => left.isWellFormed && right.isWellFormed

def areWellFormedItems : List Expression → Bool
  | [] => true
  | item :: items => item.isWellFormed && areWellFormedItems items

def areWellFormedSegments : List Segment → Bool
  | [] => true
  | segment :: path => segment.isWellFormed && areWellFormedSegments path

/-- An index is a call of `get` with one argument, and the directives of bodies are no silent
calls. -/
def Segment.isWellFormed : Segment → Bool
  | .property name => isName name
  | .call name arguments silent indexed =>
      areWellFormedItems arguments &&
        if indexed then name == "get" && arguments.length == 1 && !silent
        else isName name && !(silent && bodyWords.contains name)

end

/-- A path that can be written: one that begins with a name. -/
def Path.isWellFormed (path : Path) : Bool :=
  !(path.head?.all Segment.isIndex) && areWellFormedSegments path

def Condition.isWellFormed : Condition → Bool
  | compare left _ right => left.isWellFormed && right.isWellFormed
  | value expression => expression.isWellFormed

def LoopHeader.isWellFormed : LoopHeader → Bool
  | conditional condition => condition.isWellFormed
  | numbered name start _ bound _ step =>
      isName name && start.isWellFormed && bound.isWellFormed && step.isWellFormed
  | iterable element index list =>
      isName element && index.all isName && list.isWellFormed

/-- Whether a tree may stand in front of others: texts are apart from each other, and no text goes
on with the word that ends a loop or branches. -/
def Tree.goesBefore : Tree → List Tree → Bool
  | .text _, .text _ :: _ => false
  | .loop .., .text content :: _ | .branches .., .text content :: _ =>
      !content.toList.head?.any isNamePart
  | _, _ => true

mutual

/-- Whether a tree can be written, inside the body of a loop or outside. -/
def Tree.isWellFormed (inLoop : Bool) : Tree → Bool
  | .text content => !content.toList.isEmpty && isUnmarked content.toList
  | .read path => path.isWellFormed
  | .declare name value _ => isName name && value.isWellFormed
  | .assign name value => isName name && value.isWellFormed
  | .loop header body => header.isWellFormed && areWellFormed true body
  | .leave => inLoop
  | .branches conditions otherwise =>
      !conditions.isEmpty && areWellFormedBranches inLoop conditions &&
        isWellFormedLast inLoop otherwise
  | .definePlaceholder key parameter body =>
      isName key.name && isName key.definition && parameter.all isName && areWellFormed false body
  | .usePlaceholder key argument =>
      isName key.name && isName key.definition && argument.all Expression.isWellFormed &&
        (argument.isNone || key.definition == key.name)

def areWellFormed (inLoop : Bool) : List Tree → Bool
  | [] => true
  | tree :: trees =>
      tree.isWellFormed inLoop && tree.goesBefore trees && areWellFormed inLoop trees

def areWellFormedBranches (inLoop : Bool) : List (Condition × List Tree) → Bool
  | [] => true
  | (condition, body) :: conditions =>
      condition.isWellFormed && areWellFormed inLoop body &&
        areWellFormedBranches inLoop conditions

def isWellFormedLast (inLoop : Bool) : Option (List Tree) → Bool
  | none => true
  | some body => areWellFormed inLoop body

end

end Stencil
