import Stencil.Proofs.Directive.Fence
import Stencil.Proofs.Session.Displaced

/-!
# Sessions that are apart in one block

Two sessions may differ in one block and in the text of one source, besides where their sources
stand.  Parsing another block of any other source does the same in both.
-/

namespace Stencil

open Text

variable {η : Type}

/-- Where two sessions may differ: in one block, and perhaps in the text of one source. -/
structure Divergence where
  block : BlockRef
  source : Option SourceRef
  text : List Char
  otherText : List Char

/-- Drafts of two texts that are read alike are parsed alike. -/
def Draft.Likeness.pairing (likeness : Draft.Likeness) (text : List Char) (source : SourceRef) :
    Draft.Pairing Cursor text source where
  placement := .itself text
  blocks := likeness.blocks
  sources := likeness.sources
  known := 0
  size_blocks := likeness.size_blocks
  push_body made alike _ _ := likeness.push_blocks made alike
  push_embedded made alike _ _ := likeness.push_blocks made alike
  size_sources := likeness.size_sources
  push_sources := likeness.push_sources

namespace Session

/-- Sessions that differ at most in one block, in the text of one source, and in where their sources
stand.  The block has one scope in both, and was left in both or in neither. -/
structure Apart (divergence : Divergence) (session other : Session η) : Prop where
  depth : other.depth = session.depth
  store : other.store = session.store
  placeholders : other.placeholders = session.placeholders
  writes : other.writes = session.writes
  present : divergence.block.index < session.blocks.size
  size_blocks : other.blocks.size = session.blocks.size
  blocks : ∀ index, index ≠ divergence.block.index → other.blocks[index]? = session.blocks[index]?
  scope : (other.block divergence.block).scope = (session.block divergence.block).scope
  wasLeft : (other.block divergence.block).wasLeft = (session.block divergence.block).wasLeft
  size_sources : other.sources.size = session.sources.size
  text : ∀ id, divergence.source ≠ some id → other.text id = session.text id
  own : ∀ id, divergence.source = some id → id.index < session.sources.size ∧
    session.text id = divergence.text ∧ other.text id = divergence.otherText

variable {divergence : Divergence} {session other before after : Session η} {id : BlockRef}

namespace Apart

theorem block (apart : session.Apart divergence other) (different : id ≠ divergence.block) :
    other.block id = session.block id := by
  have same := apart.blocks id.index fun same => different (congrArg BlockRef.mk same)
  rw [Session.block, Session.block, Array.getD_eq_getD_getElem?, Array.getD_eq_getD_getElem?, same]

theorem scope_eq (apart : session.Apart divergence other) (id : BlockRef) :
    (other.block id).scope = (session.block id).scope := by
  by_cases same : id = divergence.block
  · rw [same]
    exact apart.scope
  · rw [apart.block same]

theorem wasLeft_eq (apart : session.Apart divergence other) (id : BlockRef) :
    (other.block id).wasLeft = (session.block id).wasLeft := by
  by_cases same : id = divergence.block
  · rw [same]
    exact apart.wasLeft
  · rw [apart.block same]

/-- Where their sources stand does not matter. -/
theorem displaced (apart : session.Apart divergence other) (here : session.Displaced 0 before)
    (there : other.Displaced 0 after) : before.Apart divergence after := by
  have blocks := here.blocks
  have blocksThere := there.blocks
  refine ⟨?_, ?_, ?_, ?_, ?_, ?_, fun index different => ?_, ?_, ?_, ?_, fun id different => ?_,
    fun id isOwn => ?_⟩
  · exact there.depth.symm.trans (apart.depth.trans here.depth)
  · rw [there.store, here.store, apart.store]
  · rw [there.placeholders, here.placeholders, apart.placeholders]
  · rw [there.writes, here.writes, apart.writes]
  · rw [blocks]
    exact apart.present
  · rw [blocks, blocksThere, apart.size_blocks]
  · rw [blocks, blocksThere, apart.blocks index different]
  · rw [there.block, here.block, apart.scope]
  · rw [there.block, here.block, apart.wasLeft]
  · rw [there.size_sources, here.size_sources, apart.size_sources]
  · rw [there.text, here.text, apart.text id different]
  · rw [there.text, here.text, here.size_sources]
    exact apart.own id isOwn

theorem seek (apart : session.Apart divergence other) (source : SourceRef) (offset : Nat) :
    (session.setSource source (Source.seek offset (session.source source)).2).Apart divergence
      (other.setSource source (Source.seek offset (other.source source)).2) :=
  apart.displaced (session.displaced_seek source offset).symm
    (other.displaced_seek source offset).symm

theorem mark (apart : session.Apart divergence other) (target : BlockRef) (left : Bool) :
    (session.modifyBlock target ({ · with wasLeft := left })).Apart divergence
      (other.modifyBlock target ({ · with wasLeft := left })) := by
  have size (session : Session η) :
      (session.modifyBlock target ({ · with wasLeft := left })).blocks.size = session.blocks.size :=
    Array.size_modify
  have presentThere : divergence.block.index < other.blocks.size :=
    apart.size_blocks ▸ apart.present
  refine { apart with present := ?_, size_blocks := ?_, blocks := ?_, scope := ?_, wasLeft := ?_ }
  · rw [size]
    exact apart.present
  · rw [size, size]
    exact apart.size_blocks
  · intro index different
    simp only [modifyBlock, Array.getElem?_modify, apart.blocks index different]
  · by_cases same : divergence.block = target
    · rw [← same, block_modifyBlock_self _ presentThere, block_modifyBlock_self _ apart.present]
      exact apart.scope
    · rw [block_modifyBlock_of_ne _ same, block_modifyBlock_of_ne _ same]
      exact apart.scope
  · by_cases same : divergence.block = target
    · rw [← same, block_modifyBlock_self _ presentThere, block_modifyBlock_self _ apart.present]
    · rw [block_modifyBlock_of_ne _ same, block_modifyBlock_of_ne _ same]
      exact apart.wasLeft

/-- What is made while two such sessions parse a block. -/
def likeness (apart : session.Apart divergence other) : Draft.Likeness where
  blocks left right := right.size = left.size ∧
    left[divergence.block.index]? = session.blocks[divergence.block.index]? ∧
    right[divergence.block.index]? = other.blocks[divergence.block.index]? ∧
    ∀ index, index ≠ divergence.block.index → right[index]? = left[index]?
  sources left right := ∃ added, left = session.sources ++ added ∧ right = other.sources ++ added
  size_blocks := And.left
  push_blocks := by
    rintro left right made ⟨size, kept, keptThere, others⟩
    have isThere := getElem?_of_lt apart.present
    have isThereToo := getElem?_of_lt (apart.size_blocks ▸ apart.present)
    refine ⟨by rw [Array.size_push, Array.size_push, size], ?_, ?_, fun index different => ?_⟩
    · rw [isThere] at kept ⊢
      exact getElem?_push_of_some made kept
    · rw [isThereToo] at keptThere ⊢
      exact getElem?_push_of_some made keptThere
    · rw [Array.getElem?_push, Array.getElem?_push, size, others index different]
  size_sources := by
    rintro _ _ ⟨added, rfl, rfl⟩
    rw [Array.size_append, Array.size_append, apart.size_sources]
  push_sources := by
    rintro _ _ made ⟨added, rfl, rfl⟩
    exact ⟨added.push made, Array.append_push.symm, Array.append_push.symm⟩

theorem likeness_blocks (apart : session.Apart divergence other) :
    apart.likeness.blocks session.blocks other.blocks :=
  ⟨apart.size_blocks, rfl, rfl, apart.blocks⟩

theorem likeness_sources (apart : session.Apart divergence other) :
    apart.likeness.sources session.sources other.sources :=
  ⟨#[], Array.append_empty.symm, Array.append_empty.symm⟩

variable {drafted draftedThere : Draft Cursor} {source sourceThere : AnySource}

/-- Taking over what was made alike, whatever nodes a block gets that they may differ in. -/
theorem adopt (apart : session.Apart divergence other) {nodes nodesThere : List Node}
    (isSource : (other.block id).source = (session.block id).source)
    (sameNodes : id ≠ divergence.block → nodesThere = nodes)
    (blocks : apart.likeness.blocks drafted.blocks draftedThere.blocks)
    (sources : apart.likeness.sources drafted.sources draftedThere.sources)
    (heap : draftedThere.heap = drafted.heap)
    (text : source.cursor.text = session.text (session.block id).source)
    (textThere : sourceThere.cursor.text = other.text (session.block id).source) :
    (session.adopt id drafted source nodes).Apart divergence
      (other.adopt id draftedThere sourceThere nodesThere) := by
  obtain ⟨size, kept, keptThere, others⟩ := blocks
  obtain ⟨added, isDrafted, isDraftedThere⟩ := sources
  have sizeSources : draftedThere.sources.size = drafted.sources.size := by
    rw [isDrafted, isDraftedThere, Array.size_append, Array.size_append, apart.size_sources]
  have part {β : Type} (read : Block → β)
    (keeps : ∀ block nodes, read (block.withNodes nodes) = read block)
      {session : Session η} {drafted : Draft Cursor} (source : AnySource) (nodes : List Node)
      (present : divergence.block.index < session.blocks.size)
      (kept : drafted.blocks[divergence.block.index]? = session.blocks[divergence.block.index]?) :
      read ((session.adopt id drafted source nodes).block divergence.block) =
        read (session.block divergence.block) := by
    have isThere := kept.trans (getElem?_of_lt present)
    have adopted := @blocks_adopt _ session id drafted source nodes divergence.block.index
    rw [isThere] at adopted
    split at adopted
    · rw [block_eq_of_getElem? adopted, keeps]
    · rw [block_eq_of_getElem? adopted]
  have presentThere : divergence.block.index < other.blocks.size :=
    apart.size_blocks ▸ apart.present
  have known {place : SourceRef} (isKnown : place.index < session.sources.size) :
      (drafted.sources[place.index]?.getD default).cursor.text = session.text place ∧
        (draftedThere.sources[place.index]?.getD default).cursor.text = other.text place := by
    rw [isDrafted, isDraftedThere, Array.getElem?_append_left isKnown,
      Array.getElem?_append_left (apart.size_sources ▸ isKnown), Session.text, Session.text,
      Session.source, Session.source, Array.getD_eq_getD_getElem?, Array.getD_eq_getD_getElem?]
    exact ⟨rfl, rfl⟩
  refine ⟨apart.depth, ?_, apart.placeholders, apart.writes, ?_, ?_,
    fun index different => ?_, ?_, ?_,
    ?_, fun place different => ?_, fun place isOwn => ?_⟩
  · change { other.store with heap := draftedThere.heap } =
      { session.store with heap := drafted.heap }
    rw [apart.store, heap]
  · rw [size_blocks_adopt]
    exact (Array.getElem?_eq_some_iff.mp (kept.trans (getElem?_of_lt apart.present))).1
  · rw [size_blocks_adopt, size_blocks_adopt, size]
  · rw [blocks_adopt, blocks_adopt, others index different]
    split
    · rename_i same
      rw [sameNodes fun isTarget => different (same.symm.trans (congrArg BlockRef.index isTarget))]
    · rfl
  · rw [part Block.scope (fun _ _ => rfl) _ _ apart.present kept,
      part Block.scope (fun _ _ => rfl) _ _ presentThere keptThere, apart.scope]
  · rw [part Block.wasLeft (fun _ _ => rfl) _ _ apart.present kept,
      part Block.wasLeft (fun _ _ => rfl) _ _ presentThere keptThere, apart.wasLeft]
  · rw [size_sources_adopt, size_sources_adopt, sizeSources]
  · rw [text_adopt_eq, text_adopt_eq, sizeSources, isSource]
    split
    · split
      · rename_i same
        rw [text, textThere, same, apart.text place different]
      · by_cases isKnown : place.index < session.sources.size
        · rw [(known isKnown).1, (known isKnown).2, apart.text place different]
        · rw [isDrafted, isDraftedThere, Array.getElem?_append_right (Nat.le_of_not_lt isKnown),
            Array.getElem?_append_right (apart.size_sources ▸ Nat.le_of_not_lt isKnown),
            apart.size_sources]
    · rfl
  · obtain ⟨isKnown, isText, isOther⟩ := apart.own place isOwn
    have isThere : place.index < drafted.sources.size := by
      rw [isDrafted, Array.size_append]
      exact Nat.lt_add_right _ isKnown
    rw [text_adopt_eq, text_adopt_eq, size_sources_adopt, sizeSources, isSource, if_pos isThere,
      if_pos isThere]
    refine ⟨isThere, ?_⟩
    split
    · rename_i same
      rw [text, textThere, same]
      exact ⟨isText, isOther⟩
    · rw [(known isKnown).1, (known isKnown).2]
      exact ⟨isText, isOther⟩

/-- Parsing another block does the same where its source stands at the same place of the same
text. -/
theorem parseBlock (apart : session.Apart divergence other) (embeddings : Embeddings)
    (different : id ≠ divergence.block)
    (stands : (other.source (session.block id).source).cursor =
      (session.source (session.block id).source).cursor) :
    (other.parseBlock embeddings id).1 = (session.parseBlock embeddings id).1 ∧
      (session.parseBlock embeddings id).2.Apart divergence (other.parseBlock embeddings id).2 := by
  obtain ⟨nodes, drafted, source, ran, cursor, eq⟩ := session.parseBlock_eq embeddings id
  obtain ⟨nodesThere, draftedThere, sourceThere, ranThere, cursorThere, eqThere⟩ :=
    other.parseBlock_eq embeddings id
  have sameBlock := apart.block different
  have sameContext : other.blockContext embeddings id = session.blockContext embeddings id := by
    rw [blockContext, blockContext, sameBlock]
  have here : (other.draft id).source = (session.draft id).source := by
    rw [draft, draft, sameBlock]
    exact stands
  have paired : (session.draft id).Paired
      (apart.likeness.pairing (other.draft id).source.text
        (session.blockContext embeddings id).source)
      (other.draft id) :=
    ⟨⟨here.symm, .refl _⟩, apart.likeness_blocks, apart.likeness_sources, Nat.zero_le _,
      congrArg Store.heap apart.store⟩
  obtain ⟨relocated, pairedAfter⟩ :=
    Directive.nodes_mirrors (session.blockContext embeddings id) rfl paired
  have ranOther : (Directive.nodes ((session.blockContext embeddings id).shifted 0)).run
      (other.draft id) = pure (nodesThere, draftedThere) := by
    rw [← ranThere, sameContext]
    rfl
  change Node.Relocated _ _ ((Directive.nodes ((session.blockContext embeddings id).shifted 0)).run
    (other.draft id)).1 at relocated
  change Draft.Paired _ _ ((Directive.nodes ((session.blockContext embeddings id).shifted 0)).run
    (other.draft id)).2 at pairedAfter
  rw [ran, ranOther] at relocated pairedAfter
  obtain rfl : nodesThere = nodes := relocated.eq_of_id
  obtain ⟨⟨sameSource, reaches⟩, blocks, sources, -, heap⟩ := pairedAfter
  have sameSource : drafted.source = draftedThere.source := sameSource
  have text : draftedThere.source.text = (other.draft id).source.text := reaches.1
  rw [eq, eqThere]
  refine ⟨rfl, apart.adopt (congrArg Block.source sameBlock)
    (fun _ => rfl) blocks sources heap ?_ ?_⟩
  · rw [cursor, sameSource, text, here]
    rfl
  · rw [cursorThere, text, draft, sameBlock]
    rfl

end Apart

end Session

end Stencil
