import Stencil.Directive.Grammar
import Stencil.Placeholder.Registry

/-!
# Sessions

A session is everything that one template owns while it is rendered, again and again: its sources,
its blocks with their nodes, the store, the placeholders, and the texts written so far.
-/

namespace Stencil

open Text

/-- The state of a render. -/
structure Session (η : Type) where
  sources : Array AnySource
  blocks : Array Block
  store : Store η
  placeholders : Placeholder.Registry
  /-- Placeholder bodies and embedded texts that are running. -/
  depth : Nat
  /-- The texts written since the render began. -/
  writes : Array String

namespace Session

variable {η : Type}

/-- A session with the global scope only. -/
def ofGlobal (name : String) (state : η) : Session η where
  sources := #[]
  blocks := #[]
  store := { heap := .ofGlobal name, state }
  placeholders := .empty
  depth := 0
  writes := #[]

/-- The source of an id. -/
def source (session : Session η) (id : SourceRef) : AnySource :=
  session.sources.getD id.index default

/-- The block of an id. -/
def block (session : Session η) (id : BlockRef) : Block :=
  session.blocks.getD id.index default

/-- Changes a block. -/
def modifyBlock (session : Session η) (id : BlockRef) (change : Block → Block) : Session η :=
  { session with blocks := session.blocks.modify id.index change }

/-- Replaces a source. -/
def setSource (session : Session η) (id : SourceRef) (source : AnySource) : Session η :=
  { session with sources := session.sources.setIfInBounds id.index source }

/-- Changes the heap. -/
def modifyHeap (session : Session η) (change : Heap → Heap) : Session η :=
  { session with store := { session.store with heap := change session.store.heap } }

/-- The number of blocks that were parsed so far. -/
def parsedBlocks (session : Session η) : Nat :=
  session.blocks.foldl (fun count block => count + block.timesParsed) 0

/-- Adds a source and the block from its place to its end. -/
def addText (session : Session η) (source : AnySource) (scope : ScopeRef) (role : BlockRole) :
    BlockRef × Session η :=
  let id : SourceRef := ⟨session.sources.size⟩
  (⟨session.blocks.size⟩,
    { session with
      sources := session.sources.push source
      blocks := session.blocks.push (.ofSource source id scope role) })

/-- Adds the placeholder that a kind begins with, in a source and a scope of its own. -/
def addDefaultPlaceholder (session : Session η) (kind : Kind) : Session η :=
  let (scope, heap) := session.store.heap.newScope s!"placeholder {kind.name}" (some .global)
  let (body, session) := (session.modifyHeap fun _ => heap).addText
    (.plain (.ofString (defaultBody kind))) scope .placeholder
  { session with
    placeholders := session.placeholders.put (.default kind.name) ⟨body, none⟩ }

/-- Adds the placeholders that values are written through from the beginning. -/
def addDefaultPlaceholders (session : Session η) : Session η :=
  placeholderKinds.foldl addDefaultPlaceholder session

/-- What parsing a block needs to know of it. -/
def blockContext (session : Session η) (embeddings : Embeddings) (id : BlockRef) : BlockContext :=
  let block := session.block id
  { source := block.source, scope := block.scope, limit := block.limit,
    enclosingLoop := block.enclosingLoop, embeddings }

/-- Parses the range of a block whose source stands at its start. -/
def parseBlock (session : Session η) (embeddings : Embeddings) (id : BlockRef) :
    List Node × Session η :=
  let source := (session.block id).source
  let draft : Draft AnySource :=
    { source := session.source source, blocks := session.blocks, sources := session.sources,
      heap := session.store.heap }
  let (nodes, draft) := Directive.nodes (session.blockContext embeddings id) draft
  let session :=
    { session with
      blocks := draft.blocks
      sources := draft.sources
      store := { session.store with heap := draft.heap } }
  (nodes, (session.setSource source draft.source).modifyBlock id (·.withNodes nodes))

theorem block_modifyBlock_self {session : Session η} {id : BlockRef} (change : Block → Block)
    (present : id.index < session.blocks.size) :
    (session.modifyBlock id change).block id = change (session.block id) := by
  simp [modifyBlock, block, present, Array.getElem_modify]

theorem block_modifyBlock_of_ne {session : Session η} {id other : BlockRef}
    (change : Block → Block) (different : other ≠ id) :
    (session.modifyBlock id change).block other = session.block other := by
  have indexes : id.index ≠ other.index := fun same =>
    different (congrArg BlockRef.mk same.symm)
  simp [modifyBlock, block, Array.getElem?_modify, indexes]

theorem source_setSource_self {session : Session η} {id : SourceRef} (source : AnySource)
    (present : id.index < session.sources.size) :
    (session.setSource id source).source id = source := by
  simp [setSource, Session.source, present]

theorem source_setSource_of_ne {session : Session η} {id other : SourceRef} (source : AnySource)
    (different : other ≠ id) :
    (session.setSource id source).source other = session.source other := by
  have indexes : id.index ≠ other.index := fun same =>
    different (congrArg SourceRef.mk same.symm)
  simp [setSource, Session.source, indexes]

end Session

end Stencil
