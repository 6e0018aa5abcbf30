import Stencil.Condition.Basic

/-!
# Parsed directives

A block is parsed into a list of nodes.  Bodies of loops, branches and placeholders, and embedded
texts, are blocks of their own that nodes refer to by number.
-/

namespace Stencil

/-- A block of a render. -/
structure BlockRef where
  index : Nat
deriving DecidableEq, Repr, Inhabited

/-- The three forms of a loop. -/
inductive LoopHeader where
  /-- `@for(condition)` -/
  | conditional (condition : Condition)
  /-- `@for(name = start; name comparison bound; name operator step)` -/
  | numbered (name : String) (start : Expression) (comparison : Comparison) (bound : Expression)
      (operator : Operator) (step : Expression)
  /-- `@for(element, index: iterable)`, where the index may be left out -/
  | iterable (element : String) (index : Option String) (iterable : Expression)

/-- A parsed piece of a block. -/
inductive Node where
  | text (content : String)
  | read (path : Path)
  | declare (name : String) (value : Expression) (constant : Bool)
  | assign (name : String) (value : Expression)
  | loop (header : LoopHeader) (body : BlockRef)
  | leave (target : BlockRef)
  /-- The body of the first condition that holds, or else the last body. -/
  | branches (conditions : List (Condition × BlockRef)) (otherwise : Option BlockRef)
  | definePlaceholder (key : Placeholder.Key) (parameter : Option String) (body : BlockRef)
  | usePlaceholder (key : Placeholder.Key) (argument : Option Expression)
  | embed (block : BlockRef)
  /-- The error that ended the parsing of the block. -/
  | malformed (error : TemplateError)

namespace Node

/-- Adds a node to nodes listed last first; a text goes on the text before it. -/
def append (nodes : List Node) (node : Node) : List Node :=
  match nodes, node with
  | text before :: nodes, text after => text (before ++ after) :: nodes
  | nodes, node => node :: nodes

end Node

end Stencil
