import Stencil.Directive.Node
import Stencil.Text.Scan

/-!
# Blocks

A block is a range of a source that is parsed when it first runs and replayed from its nodes after
that.  Running it leaves the source at its finish, which lies after the closing directive.
-/

namespace Stencil

open Text

/-- A source of a render. -/
structure SourceRef where
  index : Nat
deriving DecidableEq, Repr, Inhabited

/-- What a block was made for. -/
inductive BlockRole where
  | root
  | loopBody
  | branch
  | placeholder
  | embedded
deriving DecidableEq, Repr

/-- A range of a source with the nodes it was parsed into. -/
structure Block where
  source : SourceRef
  /-- Offset of the range. -/
  start : Nat
  /-- Bytes of the range. -/
  length : Nat
  /-- Where running the block leaves its source. -/
  finish : Nat
  scope : ScopeRef
  role : BlockRole
  /-- The loop body that `@breakfor` in this block leaves. -/
  enclosingLoop : Option BlockRef := none
  /-- Whether `@breakfor` ran since the loop of this body began. -/
  wasLeft : Bool := false
  /-- The nodes, once the block was parsed. -/
  nodes? : Option (List Node) := none
  /-- How often the range was parsed. -/
  timesParsed : Nat := 0

namespace Block

instance : Inhabited Block := ⟨{
  source := default, start := 0, length := 0, finish := 0, scope := .global, role := .root }⟩

/-- Offset of the end of the range. -/
def limit (block : Block) : Nat := block.start + block.length

/-- Records the nodes that the range was parsed into. -/
def withNodes (block : Block) (nodes : List Node) : Block :=
  { block with nodes? := some nodes, timesParsed := block.timesParsed + 1 }

/-- The block from the place of a source to its end. -/
def ofSource {σ : Type} [Source σ] (source : σ) (id : SourceRef) (scope : ScopeRef)
    (role : BlockRole) : Block :=
  let start := Source.pointer source
  let finish := (Scan.toEnd source).1
  { source := id, start, length := finish - start, finish, scope, role }

end Block

end Stencil
