import Stencil.Directive.Branch
import Stencil.Directive.Loop
import Stencil.Directive.Placeholder
import Stencil.Text.Blank

/-!
# The grammar of blocks

At each place the recognisers are tried in order, and the first that accepts its directive wins.  A
mark that none accepts is text.  An error ends the list of nodes; those before it stay usable.
-/

namespace Stencil.Directive

open Text Stencil.Parser

variable {σ : Type} [Source σ]

/-- Characters up to the next mark or the end of the block, after those already read, which come
last first. -/
def textFrom (limit : Nat) : Nat → List Char → StateM σ (List Char)
  | 0, taken => return taken
  | fuel + 1, taken => do
      if (← Scan.pointer) < limit then
        match ← Scan.current with
        | none => return taken
        | some character =>
            if character = '@' then return taken
            else
              let _ ← Scan.step
              textFrom limit fuel (character :: taken)
      else return taken

/-- Text before the next mark. -/
def text? (limit : Nat) : StateM σ (Option Node) := do
  let taken ← textFrom limit ((← Scan.remaining) + 1) []
  if taken.isEmpty then return none else return some (.text (String.ofList taken.reverse))

/-- How a declaration begins. -/
inductive BindingForm where
  | variable
  | constant
  | assignment
deriving DecidableEq, Repr

/-- The beginning of a declaration. -/
def declarationStart? : StateM σ (Option BindingForm) := do
  if ← Scan.acceptText "@var " then return some .variable
  else if ← Scan.acceptText "@const " then return some .constant
  else if ← Scan.acceptText "@set_var " then return some .assignment
  else return none

/-- The node of a declaration. -/
def BindingForm.node (declaration : BindingForm) (name : String) (value : Expression) : Node :=
  match declaration with
  | .variable => .declare name value false
  | .constant => .declare name value true
  | .assignment => .assign name value

/-- `@var name = value`, `@const name = value` or `@set_var name = value`. -/
def declaration? : Parser σ (Option Node) := do
  match ← scan declarationStart? with
  | none => return none
  | some declaration =>
      let name ← expectName "a variable name"
      expectSymbol '='
      let _ ← scan Scan.skipSpaces
      let value ← Grammar.expression "a value"
      let _ ← scan Scan.acceptBreak
      return some (declaration.node name value)

/-- `@var(path)` or `@const(path)`. -/
def read? : Parser σ (Option Node) := do
  return (← Grammar.reference).map .read

/-- A break, after its keyword. -/
def leave (context : BlockContext) : Parser σ Node := do
  match context.enclosingLoop with
  | none => fail .breakOutsideLoop
  | some target =>
      let _ ← scan Scan.acceptBreak
      return .leave target

/-- The path of an embedded text. -/
def embeddedPath : Parser σ String := do
  let _ ← scan Scan.skipSpaces
  let path ← scan (Scan.takeWhile fun character => !isBlank character)
  if path.isEmpty then fail (.expected "a path after `@embed`")
  else
    let _ ← scan Scan.acceptBreak
    return path

/-- An embedded text, after the keyword.  It shares the scope and the enclosing loop of the
block. -/
def embed (context : BlockContext) : DirectiveParser σ Node := do
  let path ← DirectiveParser.parse embeddedPath
  match context.embeddings path with
  | none => throw (.reference (.cannotEmbed path))
  | some text =>
      let source : AnySource := .plain (.ofString text)
      let id ← DirectiveParser.newSource source
      let block ← DirectiveParser.newBlock fun _ =>
        { Block.ofSource source id context.scope .embedded with
          enclosingLoop := context.enclosingLoop }
      return .embed block

/-- Keywords that can only stand where a body ends. -/
def closingKeywords : List String :=
  ["@endfor", "@elseif(", "@else", "@endif", "@end_define_placeholder"]

/-- A keyword that ends a body where none is open. -/
def stray? : List String → StateM σ (Option String)
  | [] => return none
  | keyword :: keywords => do
      if ← Scan.looksAtKeyword keyword then return some keyword else stray? keywords

/-- A break, branches or an embedded text; a stray keyword is an error. -/
def nested? (context : BlockContext) : DirectiveParser σ (Option Node) := do
  if ← DirectiveParser.scan (Scan.acceptText "@breakfor") then
    return some (← DirectiveParser.parse (leave context))
  else if ← DirectiveParser.scan (Scan.acceptText "@if(") then
    return some (← branches context)
  else if ← DirectiveParser.scan (Scan.acceptText "@embed ") then
    return some (← embed context)
  else
    match ← DirectiveParser.scan (stray? closingKeywords) with
    | some keyword => DirectiveParser.parse (fail (.strayTerminator keyword))
    | none => return none

/-- The recognisers in the order in which they are tried. -/
def recognisers (context : BlockContext) : List (DirectiveParser σ (Option Node)) :=
  [DirectiveParser.scan (text? context.limit), DirectiveParser.parse declaration?, loop? context,
    placeholder? context, DirectiveParser.parse read?, nested? context]

/-- The node of the first recogniser that accepts; those that decline leave the source alone. -/
def firstOf? : List (DirectiveParser σ (Option Node)) → DirectiveParser σ (Option Node)
  | [] => return none
  | recogniser :: recognisers => do
      let place ← DirectiveParser.scan Scan.pointer
      match ← recogniser with
      | some node => return some node
      | none =>
          DirectiveParser.scan (Scan.returnTo place)
          firstOf? recognisers

/-- A mark that begins no directive. -/
def markText : Parser σ Node := do
  match ← scan Scan.current with
  | none => fail .unexpectedEnd
  | some character =>
      let _ ← scan Scan.step
      return .text (String.singleton character)

/-- The next node of a block. -/
def node (context : BlockContext) : DirectiveParser σ Node := do
  match ← firstOf? (recognisers context) with
  | some node => return node
  | none => DirectiveParser.parse markText

/-- Whether the block ends here. -/
def atLimit (limit : Nat) : StateM σ Bool := do
  if limit ≤ (← Scan.pointer) then return true else Scan.hasEnded

/-- The nodes of a block from the place on, after those already parsed, which come last first. -/
def nodesFrom (context : BlockContext) : Nat → List Node → StateM (Draft σ) (List Node)
  | 0, parsed => return parsed.reverse
  | fuel + 1, parsed => do
      match ← (DirectiveParser.scan (atLimit context.limit)).run with
      | .ok false =>
          match ← (node context).run with
          | .ok node => nodesFrom context fuel (Node.append parsed node)
          | .error error => return (.malformed error :: parsed).reverse
      | _ => return parsed.reverse

/-- The nodes of a block whose source stands at its start. -/
def nodes (context : BlockContext) : StateM (Draft σ) (List Node) := do
  nodesFrom context (Source.remaining (← get).source + 1) []

end Stencil.Directive
