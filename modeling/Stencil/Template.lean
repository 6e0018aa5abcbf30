import Stencil.Run

/-!
# Templates

A template is a text bound to its session.  The host fills the global scope and renders.  Blocks are
parsed when they first run and replayed by later renders, and what the template declares stays
declared.
-/

namespace Stencil

open Text

/-- How a template is set up. -/
structure Template.Options where
  /-- Whether values of all kinds but strings begin with a placeholder. -/
  defaultPlaceholders : Bool := true
  globalName : String := "Global"
  embeddings : Embeddings := fun _ => none

instance : Inhabited Template.Options := ⟨{}⟩

/-- A text bound to its session. -/
structure Template (η : Type) where
  environment : Environment η
  session : Session η
  root : BlockRef

/-- How a render ended and what it wrote. -/
structure Rendering where
  outcome : Except Stop Unit
  writes : Array String

/-- The whole text of a render. -/
def Rendering.output (rendering : Rendering) : String :=
  String.join rendering.writes.toList

namespace Template

variable {η : Type}

/-- The template of a source from its place on. -/
def ofSource (source : AnySource) (options : Template.Options) (host : Host η) (state : η) :
    Template η :=
  let empty := Session.ofGlobal options.globalName state
  let seeded := if options.defaultPlaceholders then empty.addDefaultPlaceholders else empty
  let (root, session) := seeded.addText source .global .root
  { environment := { host, embeddings := options.embeddings }, session, root }

/-- The template of a text. -/
def ofString (text : String) (options : Template.Options) (host : Host η) (state : η) :
    Template η :=
  ofSource (.plain (.ofString text)) options host state

/-- The source that the template was made of. -/
def source (template : Template η) : AnySource :=
  template.session.source (template.session.block template.root).source

/-- Offset where the source of the template stands. -/
def pointer (template : Template η) : Nat :=
  Source.pointer template.source

/-- The number of blocks that were parsed so far. -/
def parsedBlocks (template : Template η) : Nat :=
  template.session.parsedBlocks

/-- Renders the template.  What was written before an error stays written. -/
def render (template : Template η) (fuel : Nat) : Rendering × Template η :=
  let session := { template.session with writes := #[] }
  let (outcome, session) := (Run.block template.environment fuel template.root).run session
  ({ outcome, writes := session.writes }, { template with session })

end Template

/-- Renders a text with nothing in the global scope. -/
def renderText (text : String) (fuel : Nat) : Rendering :=
  ((Template.ofString text {} Host.none ()).render fuel).1

end Stencil
