import Stencil.Proofs.Session.Valid

/-!
# Parsing a block of a session

Parsing a block gives it its nodes and adds the blocks that they refer to.  Everything that was
there before stays as it is, and the session stays valid.
-/

namespace Stencil

open Text Directive

namespace Session

variable {η : Type} {session : Session η} {embeddings : Embeddings} {id : BlockRef}

/-- What parsing a block works on, with the cursor of its source. -/
def draft (session : Session η) (id : BlockRef) : Draft Cursor where
  source := (session.source (session.block id).source).cursor
  blocks := session.blocks
  sources := session.sources
  heap := session.store.heap

/-- Takes over what parsing a block made. -/
def adopt (session : Session η) (id : BlockRef) (draft : Draft Cursor) (source : AnySource)
    (nodes : List Node) : Session η :=
  let made :=
    { session with
      blocks := draft.blocks
      sources := draft.sources
      store := { session.store with heap := draft.heap } }
  (made.setSource (session.block id).source source).modifyBlock id (·.withNodes nodes)

theorem parseBlock_eq (session : Session η) (embeddings : Embeddings) (id : BlockRef) :
    ∃ nodes after source,
      (Directive.nodes (session.blockContext embeddings id)).run (session.draft id) =
        pure (nodes, after) ∧
      source.cursor = after.source ∧
      session.parseBlock embeddings id = (nodes, session.adopt id after source nodes) := by
  let start : Draft AnySource :=
    { source := session.source (session.block id).source
      blocks := session.blocks
      sources := session.sources
      heap := session.store.heap }
  obtain ⟨answers, drafts⟩ := Directive.nodes_tracked (session.blockContext embeddings id) start
  generalize ran : (Directive.nodes (session.blockContext embeddings id)).run start = result
    at answers drafts
  obtain ⟨nodes, after⟩ := result
  refine ⟨nodes, after.tracked, after.source, Prod.ext answers.symm drafts.symm, rfl, ?_⟩
  have unfolded : session.parseBlock embeddings id =
      (((Directive.nodes (session.blockContext embeddings id)).run start).1,
        session.adopt id ((Directive.nodes (session.blockContext embeddings id)).run
          start).2.tracked
          ((Directive.nodes (session.blockContext embeddings id)).run start).2.source
          ((Directive.nodes (session.blockContext embeddings id)).run start).1) := rfl
  rw [unfolded, ran]

variable {after : Draft Cursor} {source : AnySource} {nodes : List Node}

theorem blocks_adopt (index : Nat) :
    (session.adopt id after source nodes).blocks[index]? =
      if id.index = index then after.blocks[index]?.map (·.withNodes nodes)
      else after.blocks[index]? := by
  simp only [adopt, modifyBlock, setSource, Array.getElem?_modify]

theorem source_adopt (other : SourceRef) (present : other.index < after.sources.size) :
    (session.adopt id after source nodes).source other =
      if (session.block id).source = other then source
      else after.sources.getD other.index default := by
  split
  · rename_i same
    subst same
    simp [adopt, modifyBlock, setSource, Session.source, present]
  · rename_i different
    have indexes : (session.block id).source.index ≠ other.index := fun same =>
      different (congrArg SourceRef.mk same)
    simp [adopt, modifyBlock, setSource, Session.source, indexes, present]

theorem size_sources_adopt :
    (session.adopt id after source nodes).sources.size = after.sources.size := by
  simp [adopt, modifyBlock, setSource]

theorem size_blocks_adopt :
    (session.adopt id after source nodes).blocks.size = after.blocks.size := by
  simp [adopt, modifyBlock, setSource]

/-- What parsing a block does to a session. -/
structure Parsing (embeddings : Embeddings) (before : Session η) (id : BlockRef)
    (nodes : List Node) (after : Session η) : Prop where
  toExtends : before.Extends after
  self : after.blocks[id.index]? = some ((before.block id).withNodes nodes)
  others : ∀ index, index ≠ id.index → index < before.blocks.size →
    after.blocks[index]? = before.blocks[index]?
  added : ∀ (child : BlockRef) (block : Block), before.blocks.size ≤ child.index →
    after.blocks[child.index]? = some block → block.outline = block ∧
      after.Child embeddings id block.role child
  origins : ∀ node ∈ nodes, node.Origin (before.text (before.block id).source)
    (before.block id).enclosingLoop (after.Child embeddings id)
  reads : ∀ other : SourceRef, other ≠ (before.block id).source →
    other.index < before.sources.size → after.source other = before.source other
  placeholders : after.placeholders = before.placeholders

section

variable (present : id.index < session.blocks.size)
  (sourcePresent : (session.block id).source.index < session.sources.size)
  (grows : (session.draft id).Grows (session.blockContext embeddings id) (session.draft id).source
    after)
  (cursor : source.cursor = after.source)

include grows cursor sourcePresent

/-- The text of every source that is there before or was added is the one it was added with. -/
theorem text_adopt {other : SourceRef} {added : AnySource}
    (isThere : after.sources[other.index]? = some added) :
    (session.adopt id after source nodes).text other = added.cursor.text := by
  have lt := (Array.getElem?_eq_some_iff.mp isThere).1
  have added' : after.sources.getD other.index default = added := by
    simp [Array.getD_eq_getD_getElem?, isThere]
  rw [Session.text, source_adopt other lt, added']
  split
  · rename_i same
    have earlier : session.sources[other.index]? = some (session.source other) := by
      simp [Session.source, same ▸ sourcePresent]
    have kept := grows.source_kept earlier
    rw [isThere] at kept
    rw [cursor, (grows.reaches (.refl _)).1, Option.some.inj kept, ← same]
    rfl
  · rfl

theorem toExtends_adopt (unparsed : (session.block id).nodes? = none) :
    session.Extends (session.adopt id after source nodes) := by
  constructor
  · intro index block isThere
    have kept := grows.block_kept isThere
    rw [blocks_adopt, kept]
    split
    · rename_i same
      subst same
      rw [block_eq_of_getElem? isThere] at unparsed
      refine ⟨block.withNodes nodes, rfl, rfl, fun listed parsed => ?_⟩
      rw [unparsed] at parsed
      cases parsed
    · exact ⟨block, rfl, rfl, fun _ parsed => parsed⟩
  · intro other isThere
    have earlier : session.sources[other.index]? = some (session.source other) := by
      simp [Session.source, isThere]
    have kept := grows.source_kept earlier
    refine ⟨?_, text_adopt sourcePresent grows cursor kept⟩
    rw [size_sources_adopt]
    exact (Array.getElem?_eq_some_iff.mp kept).1

include present

/-- The blocks that were added are children of the block. -/
theorem child_adopt (unparsed : (session.block id).nodes? = none)
    (atStart : (session.draft id).source.offset = (session.block id).start) {child : BlockRef}
    {block : Block} (isNew : session.blocks.size ≤ child.index)
    (isThere : after.blocks[child.index]? = some block) :
    block.outline = block ∧
      (session.adopt id after source nodes).Child embeddings id block.role child := by
  have ext : session.Extends (session.adopt id after source nodes) :=
    toExtends_adopt sourcePresent grows cursor unparsed
  have outline := ext.outline_block present
  have sameSource := Block.eq_of_outline Block.source (fun _ => rfl) outline
  have sameStart := Block.eq_of_outline Block.start (fun _ => rfl) outline
  have context := ext.blockContext embeddings present
  have later : id.index < child.index := by omega
  have presentLater : (session.adopt id after source nodes).blocks[child.index]? = some block := by
    rw [blocks_adopt, if_neg (by omega), isThere]
  obtain ⟨sourceLater, text⟩ := ext.source _ sourcePresent
  cases grows.offspring isNew isThere with
  | body role cut finish scope closes =>
      refine ⟨rfl, .body role child _ cut finish scope (session.draft id).source later presentLater
        ?_ ?_ ?_ ?_ ?_⟩
      · rw [sameSource]
        exact sourceLater
      · rw [sameSource, text]
        rfl
      · rw [sameStart, atStart]
      · rw [context]
        exact closes
      · rw [context]
        rfl
  | embedded path content added found opening isAdded =>
      refine ⟨rfl, .embedded child _ path content added later presentLater found ?_ ?_ ?_ ?_ ?_⟩
      · rw [size_sources_adopt]
        exact (Array.getElem?_eq_some_iff.mp isAdded).1
      · exact text_adopt sourcePresent grows cursor isAdded
      · rw [sameSource]
        exact sourceLater
      · rw [sameSource, text]
        exact opening
      · rw [context]
        rfl

end

theorem parsing_parseBlock (present : id.index < session.blocks.size)
    (sourcePresent : (session.block id).source.index < session.sources.size)
    (unparsed : (session.block id).nodes? = none)
    (atStart : Source.pointer (session.source (session.block id).source) =
      (session.block id).start) :
    Parsing embeddings session id (session.parseBlock embeddings id).1
      (session.parseBlock embeddings id).2 := by
  obtain ⟨nodes, after, source, ran, cursor, eq⟩ := session.parseBlock_eq embeddings id
  obtain ⟨grows, origins⟩ := Directive.nodes_make ran
  rw [eq]
  have ext : session.Extends (session.adopt id after source nodes) :=
    toExtends_adopt sourcePresent grows cursor unparsed
  have children {child : BlockRef} {block : Block} (isNew : session.blocks.size ≤ child.index)
      (isThere : after.blocks[child.index]? = some block) :
      block.outline = block ∧
        (session.adopt id after source nodes).Child embeddings id block.role child :=
    child_adopt present sourcePresent grows cursor unparsed atStart isNew isThere
  have kept := grows.block_kept (getElem?_of_lt present)
  refine ⟨ext, ?_, ?_, ?_, ?_, ?_, rfl⟩
  · rw [blocks_adopt, if_pos rfl, kept]
    rfl
  · intro index different isThere
    have keptOther := grows.block_kept (Array.getElem?_eq_getElem isThere)
    rw [blocks_adopt, if_neg different.symm, keptOther]
    exact (Array.getElem?_eq_getElem isThere).symm
  · intro child block isNew isThere
    have different : id.index ≠ child.index := by omega
    rw [blocks_adopt, if_neg different] at isThere
    exact children isNew isThere
  · intro node member
    refine (origins node member).mono fun role child made => ?_
    obtain ⟨isNew, block, isThere, rfl⟩ := made
    exact (children isNew isThere).2
  · intro other different isThere
    have earlier : session.sources[other.index]? = some (session.source other) := by
      simp [Session.source, isThere]
    have keptSource := grows.source_kept earlier
    rw [source_adopt other (Array.getElem?_eq_some_iff.mp keptSource).1, if_neg different.symm]
    simp [keptSource]

theorem Parsing.block_self {before after : Session η}
    (parsing : Parsing embeddings before id nodes after) :
    after.block id = (before.block id).withNodes nodes :=
  block_eq_of_getElem? parsing.self

theorem Parsing.block_of_ne {before after : Session η}
    (parsing : Parsing embeddings before id nodes after) {other : BlockRef} (different : other ≠ id)
    (present : other.index < before.blocks.size) : after.block other = before.block other := by
  have indexes : other.index ≠ id.index := fun same => different (congrArg BlockRef.mk same)
  have same := parsing.others other.index indexes present
  rw [Session.block, Session.block, Array.getD_eq_getD_getElem?, Array.getD_eq_getD_getElem?, same]

/-- A block that is added is not parsed yet, and its loop was not left. -/
theorem Parsing.outline_of_le {before after : Session η}
    (parsing : Parsing embeddings before id nodes after) {other : BlockRef}
    (isNew : before.blocks.size ≤ other.index) :
    (after.block other).outline = after.block other := by
  cases isThere : after.blocks[other.index]? with
  | none =>
      rw [block_of_le (Array.getElem?_eq_none_iff.mp isThere)]
      rfl
  | some block =>
      rw [block_eq_of_getElem? isThere]
      exact (parsing.added other block isNew isThere).1

theorem Parsing.wasLeft {before after : Session η}
    (parsing : Parsing embeddings before id nodes after) (other : BlockRef) :
    (after.block other).wasLeft = (before.block other).wasLeft := by
  by_cases same : other = id
  · subst same
    rw [parsing.block_self]
    rfl
  · by_cases isThere : other.index < before.blocks.size
    · rw [parsing.block_of_ne same isThere]
    · have isNew := Nat.le_of_not_lt isThere
      rw [block_of_le isNew, ← parsing.outline_of_le isNew]
      rfl

/-- A block after parsing another one is that one, an earlier block or a child. -/
theorem Parsing.cases {before after : Session η}
    (parsing : Parsing embeddings before id nodes after)
    {other : BlockRef} {block : Block} (isThere : after.blocks[other.index]? = some block) :
    (other = id ∧ block = (before.block id).withNodes nodes) ∨
      before.blocks[other.index]? = some block ∨
      (block.outline = block ∧ after.Child embeddings id block.role other) := by
  by_cases same : other.index = id.index
  · have self := parsing.self
    rw [← same, isThere] at self
    exact .inl ⟨congrArg BlockRef.mk same, Option.some.inj self⟩
  · by_cases isNew : before.blocks.size ≤ other.index
    · exact .inr (.inr (parsing.added other block isNew isThere))
    · rw [parsing.others other.index same (by omega)] at isThere
      exact .inr (.inl isThere)

theorem Parsing.valid {before after : Session η}
    (parsing : Parsing embeddings before id nodes after) (present : id.index < before.blocks.size)
    (unparsed : (before.block id).nodes? = none) (valid : before.Valid embeddings) :
    after.Valid embeddings := by
  have ext := parsing.toExtends
  have self : after.block id = (before.block id).withNodes nodes :=
    block_eq_of_getElem? parsing.self
  have isParsed : (after.block id).nodes?.isSome = true := by
    rw [self]
    rfl
  have originLater {other : BlockRef} {block later : Block}
      (isThere : before.blocks[other.index]? = some block)
      (outline : later.outline = block.outline) :
      after.Whole later ∨ ∃ parent, (after.block parent).nodes?.isSome = true ∧
        after.Child embeddings parent later.role other := by
    have role : later.role = block.role := Block.eq_of_outline Block.role (fun _ => rfl) outline
    rcases valid.origin other block isThere with whole | ⟨parent, parsed, child⟩
    · exact .inl (ext.whole whole outline)
    · refine .inr ⟨parent, ext.isSome_nodes ?_ parsed, ?_⟩
      · exact Nat.lt_trans child.lt (lt_of_getElem? isThere)
      · rw [role]
        exact ext.child child
  constructor
  · intro other block isThere
    rcases parsing.cases isThere with ⟨rfl, rfl⟩ | earlier | ⟨-, child⟩
    · exact originLater (getElem?_of_lt present) rfl
    · exact originLater earlier rfl
    · exact .inr ⟨id, isParsed, child⟩
  · intro other block isThere isUnparsed
    rcases parsing.cases isThere with ⟨rfl, rfl⟩ | earlier | ⟨outline, -⟩
    · cases isUnparsed
    · exact valid.unparsed other block earlier isUnparsed
    · rw [← outline]
      rfl
  · intro other block listed isThere isListed
    rcases parsing.cases isThere with ⟨rfl, rfl⟩ | earlier | ⟨outline, -⟩
    · obtain rfl : nodes = listed := Option.some.inj isListed
      have never := valid.unparsed other _ (getElem?_of_lt present) unparsed
      have text := (ext.source _ (valid.source_lt (getElem?_of_lt present))).2
      refine ⟨by simp [Block.withNodes, never], fun node member => ?_⟩
      have origin := parsing.origins node member
      rw [← text] at origin
      exact origin
    · obtain ⟨once, origins⟩ := valid.parsed other block listed earlier isListed
      have text := (ext.source _ (valid.source_lt earlier)).2
      refine ⟨once, fun node member => ?_⟩
      rw [text]
      exact (origins node member).mono fun _ _ child => ext.child child
    · rw [← outline] at isListed
      cases isListed
  · intro key placeholder found
    rw [parsing.placeholders] at found
    exact ext.hasRole (valid.placeholders key placeholder found)

end Session

end Stencil
