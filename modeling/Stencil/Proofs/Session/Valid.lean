import Stencil.Proofs.Directive.Growth
import Stencil.Session

/-!
# Sessions that came about by parsing

Every block of such a session covers a whole text or was made while an earlier block was parsed, and
the nodes of a parsed block refer to blocks that were made for it.  Later sessions keep the outlines
and nodes of blocks and the texts of sources, so these facts stay true.
-/

namespace Stencil

open Text Directive

/-- The parts of a block that never change. -/
def Block.outline (block : Block) : Block :=
  { block with wasLeft := false, nodes? := none, timesParsed := 0 }

/-- A block without the mark that its loop was left. -/
def Block.unmarked (block : Block) : Block :=
  { block with wasLeft := false }

theorem Block.outline_unmarked (block : Block) : block.unmarked.outline = block.outline := rfl

/-- Blocks of one outline agree in everything that is part of it. -/
theorem Block.eq_of_outline {α : Type} {left right : Block} (part : Block → α)
    (isPart : ∀ block : Block, part block.outline = part block)
    (same : left.outline = right.outline) : part left = part right :=
  (isPart left).symm.trans ((congrArg part same).trans (isPart right))

theorem Block.eq_of_unmarked {α : Type} {left right : Block} (part : Block → α)
    (isPart : ∀ block : Block, part block.unmarked = part block)
    (same : left.unmarked = right.unmarked) : part left = part right :=
  (isPart left).symm.trans ((congrArg part same).trans (isPart right))

/-- The blocks that a node refers to. -/
def Node.blocks : Node → List BlockRef
  | .loop _ body => [body]
  | .leave target => [target]
  | .branches conditions otherwise => conditions.map Prod.snd ++ otherwise.toList
  | .definePlaceholder _ _ body => [body]
  | .embed block => [block]
  | .text _ | .read _ | .declare _ _ _ | .assign _ _ | .usePlaceholder _ _ | .malformed _ => []

namespace Session

variable {η : Type}

/-- The text of a source. -/
def text (session : Session η) (id : SourceRef) : List Char :=
  (session.source id).cursor.text

/-- A block is there and has a role. -/
def HasRole (session : Session η) (role : BlockRole) (id : BlockRef) : Prop :=
  ∃ block, session.blocks[id.index]? = some block ∧ block.role = role

/-- A block that was made while an earlier one was parsed. -/
inductive Child (session : Session η) (embeddings : Embeddings) (parent : BlockRef) :
    BlockRole → BlockRef → Prop where
  | body (role : BlockRole) (id : BlockRef) (block : Block) (cut : BodyCut) (finish : Nat)
      (scope : ScopeRef) (anchor : Cursor) (later : parent.index < id.index)
      (present : session.blocks[id.index]? = some block)
      (sourcePresent : (session.block parent).source.index < session.sources.size)
      (anchorText : anchor.text = session.text (session.block parent).source)
      (anchorPlace : anchor.offset = (session.block parent).start)
      (closes : cut.Closes (session.blockContext embeddings parent) anchor role finish)
      (outline : block.outline =
        cut.block (session.blockContext embeddings parent) id role finish scope) :
      Child session embeddings parent role id
  | embedded (id : BlockRef) (block : Block) (path text : String) (source : SourceRef)
      (later : parent.index < id.index) (present : session.blocks[id.index]? = some block)
      (found : embeddings path = some text) (sourcePresent : source.index < session.sources.size)
      (sourceText : session.text source = text.toList)
      (outerPresent : (session.block parent).source.index < session.sources.size)
      (opening : "@embed ".toList <:+: session.text (session.block parent).source)
      (outline : block.outline =
        embeddedBlock (session.blockContext embeddings parent) text source) :
      Child session embeddings parent .embedded id

/-- A block that covers its text from a place to the end: the root of a template, or the body of a
placeholder that a kind begins with. -/
structure Whole (session : Session η) (block : Block) : Prop where
  sourcePresent : block.source.index < session.sources.size
  enclosing : block.enclosingLoop = none
  role : block.role = .root ∨ block.role = .placeholder ∧
    ∃ kind, session.text block.source = (defaultBody kind).toList
  place : ∃ cursor : Cursor, cursor.text = session.text block.source ∧
    cursor.offset = block.start ∧ block.limit = cursor.size ∧ block.finish = cursor.size

/-- Everything that is known of the blocks and placeholders of a session without running it. -/
structure Valid (session : Session η) (embeddings : Embeddings) : Prop where
  origin : ∀ (id : BlockRef) (block : Block), session.blocks[id.index]? = some block →
    session.Whole block ∨ ∃ parent, (session.block parent).nodes?.isSome = true ∧
      session.Child embeddings parent block.role id
  unparsed : ∀ (id : BlockRef) (block : Block), session.blocks[id.index]? = some block →
    block.nodes? = none → block.timesParsed = 0
  parsed : ∀ (id : BlockRef) (block : Block) (nodes : List Node),
    session.blocks[id.index]? = some block → block.nodes? = some nodes → block.timesParsed = 1 ∧
      ∀ node ∈ nodes, node.Origin (session.text block.source) block.enclosingLoop
        (session.Child embeddings id)
  placeholders : ∀ key placeholder, session.placeholders.get? key = some placeholder →
    session.HasRole .placeholder placeholder.body

/-- A later session keeps outlines, nodes and texts. -/
structure Extends (before after : Session η) : Prop where
  block : ∀ (index : Nat) (block : Block), before.blocks[index]? = some block →
    ∃ later, after.blocks[index]? = some later ∧ later.outline = block.outline ∧
      ∀ nodes, block.nodes? = some nodes → later.nodes? = some nodes
  source : ∀ id : SourceRef, id.index < before.sources.size →
    id.index < after.sources.size ∧ after.text id = before.text id

variable {before middle after session : Session η} {embeddings : Embeddings}

theorem block_eq_of_getElem? {id : BlockRef} {block : Block}
    (present : session.blocks[id.index]? = some block) : session.block id = block := by
  simp [Session.block, present]

theorem block_of_le {id : BlockRef} (absent : session.blocks.size ≤ id.index) :
    session.block id = default := by
  simp [Session.block, absent]

theorem getElem?_of_lt {id : BlockRef} (present : id.index < session.blocks.size) :
    session.blocks[id.index]? = some (session.block id) := by
  simp [Session.block, present]

theorem lt_of_getElem? {index : Nat} {block : Block}
    (present : session.blocks[index]? = some block) : index < session.blocks.size :=
  (Array.getElem?_eq_some_iff.mp present).1

theorem Child.lt {parent id : BlockRef} {role : BlockRole}
    (child : session.Child embeddings parent role id) : parent.index < id.index := by
  cases child with
  | body _ _ block cut finish scope anchor later => exact later
  | embedded _ block path text source later => exact later

theorem Child.exists_block {parent id : BlockRef} {role : BlockRole}
    (child : session.Child embeddings parent role id) :
    ∃ block, session.blocks[id.index]? = some block ∧ block.role = role ∧
      block.source.index < session.sources.size := by
  cases child with
  | body _ _ block cut finish scope anchor later present sourcePresent _ _ closes outline =>
      have isRole := congrArg Block.role outline
      have isSource := congrArg Block.source outline
      refine ⟨block, present, isRole, ?_⟩
      exact isSource ▸ sourcePresent
  | embedded _ block path text source later present found sourcePresent _ _ _ outline =>
      have isRole := congrArg Block.role outline
      have isSource := congrArg Block.source outline
      refine ⟨block, present, isRole, ?_⟩
      exact isSource ▸ sourcePresent

theorem Child.lt_size {parent id : BlockRef} {role : BlockRole}
    (child : session.Child embeddings parent role id) : id.index < session.blocks.size := by
  obtain ⟨block, present, -⟩ := child.exists_block
  exact lt_of_getElem? present

/-- A child leaves the loop that its role says, given the loop that its parent leaves. -/
theorem Child.enclosingLoop {parent id : BlockRef} {role : BlockRole}
    (child : session.Child embeddings parent role id) :
    (session.block id).enclosingLoop = role.leaves (session.block parent).enclosingLoop id := by
  cases child with
  | body _ _ block cut finish scope anchor later present _ _ _ closes outline =>
      have loop : block.outline.enclosingLoop = _ := congrArg Block.enclosingLoop outline
      rw [block_eq_of_getElem? present]
      exact loop
  | embedded _ block path text source later present _ _ _ _ _ outline =>
      have loop : block.outline.enclosingLoop = _ := congrArg Block.enclosingLoop outline
      rw [block_eq_of_getElem? present]
      exact loop

/-- A child reads the source of its parent or an embedded text. -/
theorem Child.source {parent id : BlockRef} {role : BlockRole}
    (child : session.Child embeddings parent role id) :
    (session.block id).source = (session.block parent).source ∨
      "@embed ".toList <:+: session.text (session.block parent).source ∧ ∃ path text,
        embeddings path = some text ∧ session.text (session.block id).source = text.toList := by
  cases child with
  | body _ _ block cut finish scope anchor later present _ _ _ closes outline =>
      have source : block.outline.source = _ := congrArg Block.source outline
      rw [block_eq_of_getElem? present]
      exact .inl source
  | embedded _ block path content source later present found _ sourceText _ opening outline =>
      have isSource : block.outline.source = source := congrArg Block.source outline
      refine .inr ⟨opening, path, content, found, ?_⟩
      rw [block_eq_of_getElem? present, ← sourceText, ← isSource]
      rfl

theorem Valid.source_lt (valid : session.Valid embeddings) {id : BlockRef} {block : Block}
    (present : session.blocks[id.index]? = some block) :
    block.source.index < session.sources.size := by
  rcases valid.origin id block present with whole | ⟨parent, -, child⟩
  · exact whole.sourcePresent
  · obtain ⟨block', presentAgain, -, source⟩ := child.exists_block
    rw [present] at presentAgain
    cases presentAgain
    exact source

/-- The loop that a block would leave was made before the block or is the block itself. -/
theorem Valid.enclosingLoop_le (valid : session.Valid embeddings) {id : BlockRef} {block : Block}
    (present : session.blocks[id.index]? = some block) {target : BlockRef}
    (encloses : block.enclosingLoop = some target) : target.index ≤ id.index := by
  induction index : id.index using Nat.strongRecOn generalizing id block with
  | ind index induction =>
      subst index
      rcases valid.origin id block present with whole | ⟨parent, -, child⟩
      · rw [whole.enclosing] at encloses
        cases encloses
      · have parentPresent := getElem?_of_lt (Nat.lt_trans child.lt child.lt_size)
        have fromParent (inherits : (session.block parent).enclosingLoop = some target) :
            target.index ≤ id.index :=
          Nat.le_of_lt (Nat.lt_of_le_of_lt
            (induction parent.index child.lt parentPresent inherits rfl) child.lt)
        have loop := child.enclosingLoop
        rw [block_eq_of_getElem? present, encloses] at loop
        cases role : block.role with
        | loopBody =>
            rw [role] at loop
            cases loop
            exact Nat.le_refl _
        | placeholder =>
            rw [role] at loop
            cases loop
        | branch => exact fromParent (role ▸ loop).symm
        | root => exact fromParent (role ▸ loop).symm
        | embedded => exact fromParent (role ▸ loop).symm

/-- The blocks that the nodes of a block refer to are there. -/
theorem Valid.node_blocks (valid : session.Valid embeddings) {id : BlockRef} {block : Block}
    {nodes : List Node} (present : session.blocks[id.index]? = some block)
    (parsed : block.nodes? = some nodes)
    {node : Node} (member : node ∈ nodes) :
    ∀ target ∈ node.blocks, target.index < session.blocks.size := by
  obtain ⟨-, origins⟩ := valid.parsed id block nodes present parsed
  intro target isTarget
  cases origins node member with
  | text content => cases isTarget
  | read path => cases isTarget
  | declare name value constant => cases isTarget
  | assign name value => cases isTarget
  | usePlaceholder key argument => cases isTarget
  | malformed error expected => cases isTarget
  | loop header body opening isMade =>
      rw [List.mem_singleton.mp isTarget]
      exact isMade.lt_size
  | leave body opening encloses =>
      rw [List.mem_singleton.mp isTarget]
      exact Nat.lt_of_le_of_lt (valid.enclosingLoop_le present encloses) (lt_of_getElem? present)
  | branches conditions otherwise opening areMade lastMade =>
      rcases List.mem_append.mp isTarget with isBranch | isLast
      · obtain ⟨branch, isListed, rfl⟩ := List.mem_map.mp isBranch
        exact (areMade branch isListed).lt_size
      · exact (lastMade target (Option.mem_toList.mp isLast)).lt_size
  | definePlaceholder key parameter body opening isMade =>
      rw [List.mem_singleton.mp isTarget]
      exact isMade.lt_size
  | embed body opening isMade =>
      rw [List.mem_singleton.mp isTarget]
      exact isMade.lt_size

namespace Extends

theorem refl (session : Session η) : session.Extends session :=
  ⟨fun _ block present => ⟨block, present, rfl, fun _ parsed => parsed⟩,
    fun _ present => ⟨present, rfl⟩⟩

theorem trans (first : before.Extends middle) (second : middle.Extends after) :
    before.Extends after := by
  constructor
  · intro index block present
    obtain ⟨between, presentBetween, outlineBetween, nodesBetween⟩ :=
      first.block index block present
    obtain ⟨later, presentLater, outline, nodes⟩ := second.block index between presentBetween
    exact ⟨later, presentLater, outline.trans outlineBetween,
      fun listed parsed => nodes listed (nodesBetween listed parsed)⟩
  · intro id present
    obtain ⟨presentBetween, textBetween⟩ := first.source id present
    obtain ⟨presentLater, text⟩ := second.source id presentBetween
    exact ⟨presentLater, text.trans textBetween⟩

theorem outline_block (ext : before.Extends after) {id : BlockRef}
    (present : id.index < before.blocks.size) :
    (after.block id).outline = (before.block id).outline := by
  obtain ⟨later, presentLater, outline, -⟩ := ext.block id.index _ (getElem?_of_lt present)
  rw [block_eq_of_getElem? presentLater, outline]

theorem lt (ext : before.Extends after) {index : Nat} (present : index < before.blocks.size) :
    index < after.blocks.size := by
  obtain ⟨_, presentLater, -, -⟩ := ext.block index _ (Array.getElem?_eq_getElem present)
  exact lt_of_getElem? presentLater

theorem blockContext (ext : before.Extends after) (embeddings : Embeddings) {id : BlockRef}
    (present : id.index < before.blocks.size) :
    after.blockContext embeddings id = before.blockContext embeddings id := by
  have outline := ext.outline_block present
  have limit : (after.block id).limit = (before.block id).limit :=
    Block.eq_of_outline Block.limit (fun _ => rfl) outline
  have source : (after.block id).source = (before.block id).source :=
    Block.eq_of_outline Block.source (fun _ => rfl) outline
  have scope : (after.block id).scope = (before.block id).scope :=
    Block.eq_of_outline Block.scope (fun _ => rfl) outline
  have loop : (after.block id).enclosingLoop = (before.block id).enclosingLoop :=
    Block.eq_of_outline Block.enclosingLoop (fun _ => rfl) outline
  simp only [Session.blockContext, limit, source, scope, loop]

theorem hasRole (ext : before.Extends after) {role : BlockRole} {id : BlockRef}
    (has : before.HasRole role id) : after.HasRole role id := by
  obtain ⟨block, present, isRole⟩ := has
  obtain ⟨later, presentLater, outline, -⟩ := ext.block id.index block present
  have same : later.role = block.role :=
    Block.eq_of_outline Block.role (fun _ => rfl) outline
  exact ⟨later, presentLater, same.trans isRole⟩

theorem isSome_nodes (ext : before.Extends after) {id : BlockRef}
    (present : id.index < before.blocks.size)
    (parsed : (before.block id).nodes?.isSome = true) : (after.block id).nodes?.isSome = true := by
  obtain ⟨later, presentLater, -, nodes⟩ := ext.block id.index _ (getElem?_of_lt present)
  obtain ⟨listed, isListed⟩ := Option.isSome_iff_exists.mp parsed
  rw [block_eq_of_getElem? presentLater, nodes listed isListed]
  rfl

theorem child (ext : before.Extends after) {parent id : BlockRef} {role : BlockRole}
    (child : before.Child embeddings parent role id) :
    after.Child embeddings parent role id := by
  cases child with
  | body _ _ block cut finish scope anchor later present sourcePresent anchorText anchorPlace closes
      outline =>
      have parentPresent := Nat.lt_trans later (lt_of_getElem? present)
      obtain ⟨block', presentLater, sameOutline, -⟩ := ext.block id.index block present
      have parentOutline := ext.outline_block parentPresent
      have source : (after.block parent).source = (before.block parent).source :=
        Block.eq_of_outline Block.source (fun _ => rfl) parentOutline
      have start : (after.block parent).start = (before.block parent).start :=
        Block.eq_of_outline Block.start (fun _ => rfl) parentOutline
      obtain ⟨sourcePresentLater, text⟩ := ext.source _ sourcePresent
      refine .body role id block' cut finish scope anchor later presentLater ?_ ?_ ?_ ?_ ?_
      · rw [source]
        exact sourcePresentLater
      · rw [source, text, anchorText]
      · rw [start, anchorPlace]
      · rw [ext.blockContext embeddings parentPresent]
        exact closes
      · rw [sameOutline, ext.blockContext embeddings parentPresent, outline]
  | embedded _ block path content source later present found sourcePresent sourceText outerPresent
      opening outline =>
      have parentPresent := Nat.lt_trans later (lt_of_getElem? present)
      obtain ⟨block', presentLater, sameOutline, -⟩ := ext.block id.index block present
      obtain ⟨sourcePresentLater, text⟩ := ext.source _ sourcePresent
      obtain ⟨outerPresentLater, outerText⟩ := ext.source _ outerPresent
      have outer : (after.block parent).source = (before.block parent).source :=
        Block.eq_of_outline Block.source (fun _ => rfl) (ext.outline_block parentPresent)
      rw [← outer] at outerPresentLater outerText
      rw [← outer, ← outerText] at opening
      refine .embedded id block' path content source later presentLater found sourcePresentLater
        (text.trans sourceText) outerPresentLater opening ?_
      rw [sameOutline, ext.blockContext embeddings parentPresent, outline]

theorem whole (ext : before.Extends after) {block later : Block}
    (whole : before.Whole block) (outline : later.outline = block.outline) :
    after.Whole later := by
  have source : later.source = block.source :=
    Block.eq_of_outline Block.source (fun _ => rfl) outline
  have role : later.role = block.role :=
    Block.eq_of_outline Block.role (fun _ => rfl) outline
  have start : later.start = block.start :=
    Block.eq_of_outline Block.start (fun _ => rfl) outline
  have limit : later.limit = block.limit :=
    Block.eq_of_outline Block.limit (fun _ => rfl) outline
  have finish : later.finish = block.finish :=
    Block.eq_of_outline Block.finish (fun _ => rfl) outline
  have enclosing : later.enclosingLoop = block.enclosingLoop :=
    Block.eq_of_outline Block.enclosingLoop (fun _ => rfl) outline
  obtain ⟨present, text⟩ := ext.source _ whole.sourcePresent
  refine ⟨?_, enclosing.trans whole.enclosing, ?_, ?_⟩
  · rw [source]
    exact present
  · rw [role, source, text]
    exact whole.role
  · rw [source, text, start, limit, finish]
    exact whole.place

end Extends

/-- No block comes or changes but for the marks of left loops, and no source is read or replaced by
another text. -/
structure Quiet (before after : Session η) : Prop where
  blocks : after.blocks.map Block.unmarked = before.blocks.map Block.unmarked
  sources : after.sources.size = before.sources.size
  text : ∀ id, after.text id = before.text id
  reads : ∀ id, (after.source id).reads? = (before.source id).reads?

namespace Quiet

theorem refl (session : Session η) : session.Quiet session :=
  ⟨rfl, rfl, fun _ => rfl, fun _ => rfl⟩

theorem trans (first : before.Quiet middle) (second : middle.Quiet after) : before.Quiet after :=
  ⟨second.blocks.trans first.blocks, second.sources.trans first.sources,
    fun id => (second.text id).trans (first.text id),
    fun id => (second.reads id).trans (first.reads id)⟩

theorem symm (quiet : before.Quiet after) : after.Quiet before :=
  ⟨quiet.blocks.symm, quiet.sources.symm, fun id => (quiet.text id).symm,
    fun id => (quiet.reads id).symm⟩

theorem exists_block (quiet : before.Quiet after) {index : Nat} {block : Block}
    (present : before.blocks[index]? = some block) :
    ∃ later, after.blocks[index]? = some later ∧ later.unmarked = block.unmarked := by
  have same := congrArg (·[index]?) quiet.blocks
  simp only [Array.getElem?_map, present, Option.map_some] at same
  obtain ⟨later, presentLater, unmarked⟩ := Option.map_eq_some_iff.mp same
  exact ⟨later, presentLater, unmarked⟩

theorem toExtends (quiet : before.Quiet after) : before.Extends after := by
  constructor
  · intro index block present
    obtain ⟨later, presentLater, unmarked⟩ := quiet.exists_block present
    have nodes : later.nodes? = block.nodes? :=
      Block.eq_of_unmarked Block.nodes? (fun _ => rfl) unmarked
    have outline : later.outline = block.outline :=
      Block.eq_of_unmarked Block.outline (fun _ => rfl) unmarked
    exact ⟨later, presentLater, outline, fun _ parsed => nodes.trans parsed⟩
  · intro id present
    exact ⟨quiet.sources ▸ present, quiet.text id⟩

theorem size_blocks (quiet : before.Quiet after) : after.blocks.size = before.blocks.size := by
  simpa using congrArg Array.size quiet.blocks

theorem block (quiet : before.Quiet after) (id : BlockRef) :
    (after.block id).unmarked = (before.block id).unmarked := by
  cases present : before.blocks[id.index]? with
  | some block =>
      obtain ⟨later, presentLater, unmarked⟩ := quiet.exists_block present
      rw [block_eq_of_getElem? present, block_eq_of_getElem? presentLater, unmarked]
  | none =>
      have absent : after.blocks[id.index]? = none := by
        rw [Array.getElem?_eq_none_iff] at present ⊢
        rw [quiet.size_blocks]
        exact present
      simp [Session.block, present, absent]

/-- Such a change keeps a session valid as long as new placeholders have bodies. -/
theorem valid (quiet : before.Quiet after) (valid : before.Valid embeddings)
    (placeholders : ∀ key placeholder, after.placeholders.get? key = some placeholder →
      before.HasRole .placeholder placeholder.body) : after.Valid embeddings := by
  have back := quiet.symm
  constructor
  · intro id block present
    obtain ⟨earlier, presentEarlier, unmarked⟩ := back.exists_block present
    have outline : block.outline = earlier.outline :=
      (Block.eq_of_unmarked Block.outline (fun _ => rfl) unmarked).symm
    have role : block.role = earlier.role := Block.eq_of_outline Block.role (fun _ => rfl) outline
    rcases valid.origin id earlier presentEarlier with whole | ⟨parent, parsed, child⟩
    · exact .inl (quiet.toExtends.whole whole outline)
    · have nodes : (after.block parent).nodes? = (before.block parent).nodes? :=
        Block.eq_of_unmarked Block.nodes? (fun _ => rfl) (quiet.block parent)
      refine .inr ⟨parent, ?_, ?_⟩
      · rw [nodes]
        exact parsed
      · rw [role]
        exact quiet.toExtends.child child
  · intro id block present isUnparsed
    obtain ⟨earlier, presentEarlier, unmarked⟩ := back.exists_block present
    have nodes : earlier.nodes? = block.nodes? :=
      Block.eq_of_unmarked Block.nodes? (fun _ => rfl) unmarked
    have times : earlier.timesParsed = block.timesParsed :=
      Block.eq_of_unmarked Block.timesParsed (fun _ => rfl) unmarked
    rw [← times]
    exact valid.unparsed id earlier presentEarlier (nodes.trans isUnparsed)
  · intro id block nodes present isParsed
    obtain ⟨earlier, presentEarlier, unmarked⟩ := back.exists_block present
    have sameNodes : earlier.nodes? = block.nodes? :=
      Block.eq_of_unmarked Block.nodes? (fun _ => rfl) unmarked
    have times : earlier.timesParsed = block.timesParsed :=
      Block.eq_of_unmarked Block.timesParsed (fun _ => rfl) unmarked
    have source : earlier.source = block.source :=
      Block.eq_of_unmarked Block.source (fun _ => rfl) unmarked
    have loop : earlier.enclosingLoop = block.enclosingLoop :=
      Block.eq_of_unmarked Block.enclosingLoop (fun _ => rfl) unmarked
    obtain ⟨once, origins⟩ := valid.parsed id earlier nodes presentEarlier
      (sameNodes.trans isParsed)
    rw [← times, ← source, ← loop, quiet.text]
    exact ⟨once, fun node member =>
      (origins node member).mono fun _ _ child => quiet.toExtends.child child⟩
  · intro key placeholder found
    exact quiet.toExtends.hasRole (placeholders key placeholder found)

end Quiet

end Session

end Stencil
