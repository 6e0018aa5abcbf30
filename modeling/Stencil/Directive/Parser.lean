import Stencil.Directive.Block
import Stencil.Parser

/-!
# Parsing a block

While a block is parsed its source is read and new blocks, scopes and sources come into being.
Those that were made before an error stay.
-/

namespace Stencil

open Text

/-- The texts that `@embed` can ask for, by path. -/
abbrev Embeddings := String → Option String

/-- What is known of a block while it is parsed. -/
structure BlockContext where
  source : SourceRef
  scope : ScopeRef
  /-- Offset of the end of the block. -/
  limit : Nat
  enclosingLoop : Option BlockRef
  embeddings : Embeddings

/-- What parsing a block works on: its source, and what is made on the way. -/
structure Draft (σ : Type) where
  source : σ
  blocks : Array Block
  sources : Array AnySource
  heap : Heap

/-- A parser of directives. -/
abbrev DirectiveParser (σ : Type) := ExceptT TemplateError (StateM (Draft σ))

namespace DirectiveParser

variable {σ : Type}

/-- Runs a scan on the source of the block. -/
def scan {α : Type} (run : StateM σ α) : DirectiveParser σ α :=
  ExceptT.lift fun draft =>
    let (answer, source) := run draft.source
    (answer, { draft with source })

/-- Runs a parser on the source of the block. -/
def parse {α : Type} (parser : Parser σ α) : DirectiveParser σ α :=
  ExceptT.mk fun draft =>
    let (answer, source) := parser.run draft.source
    (answer, { draft with source })

/-- Makes a block. -/
def newBlock (block : BlockRef → Block) : DirectiveParser σ BlockRef :=
  modifyGet fun draft =>
    let id : BlockRef := ⟨draft.blocks.size⟩
    (id, { draft with blocks := draft.blocks.push (block id) })

/-- Makes a scope inside the scope of the block. -/
def newScope (context : BlockContext) (name : String) : DirectiveParser σ ScopeRef :=
  modifyGet fun draft =>
    let (id, heap) := draft.heap.newScope name (some context.scope)
    (id, { draft with heap })

/-- Adds the source of an embedded text. -/
def newSource (source : AnySource) : DirectiveParser σ SourceRef :=
  modifyGet fun draft =>
    (⟨draft.sources.size⟩, { draft with sources := draft.sources.push source })

end DirectiveParser

end Stencil
