import Stencil.Proofs.Run.Policy
import Stencil.Proofs.Session.Place

/-!
# Sessions that differ in places

Where a source stands does not matter to anything but the next read of it, and a block sends its
source to a place before it reads.  So sessions that differ only there, and in how deep they are,
can stand for each other.
-/

namespace Stencil

open Text

variable {η : Type}

namespace Session

/-- Sessions that differ at most in where their sources stand, of which the first is so many levels
deeper. -/
structure Displaced (extra : Nat) (session other : Session η) : Prop where
  depth : session.depth = other.depth + extra
  blocks : other.blocks = session.blocks
  store : other.store = session.store
  placeholders : other.placeholders = session.placeholders
  writes : other.writes = session.writes
  size_sources : other.sources.size = session.sources.size
  text : ∀ id, other.text id = session.text id

variable {extra : Nat} {session other : Session η} {id : BlockRef}
  {source : SourceRef} {offset : Nat}

theorem Displaced.refl (session : Session η) : session.Displaced 0 session :=
  ⟨rfl, rfl, rfl, rfl, rfl, rfl, fun _ => rfl⟩

theorem Displaced.block (displaced : session.Displaced extra other) (id : BlockRef) :
    other.block id = session.block id := by
  rw [Session.block, Session.block, displaced.blocks]

theorem displaced_seek (session : Session η) (source : SourceRef) (offset : Nat) :
    (session.setSource source (Source.seek offset (session.source source)).2).Displaced 0
      session := by
  have quiet := session.quiet_seek source offset
  exact ⟨rfl, rfl, rfl, rfl, rfl, quiet.sources.symm, fun id => (quiet.text id).symm⟩

theorem Displaced.symm (displaced : session.Displaced 0 other) : other.Displaced 0 session :=
  ⟨displaced.depth.symm, displaced.blocks.symm, displaced.store.symm, displaced.placeholders.symm,
    displaced.writes.symm, displaced.size_sources.symm, fun id => (displaced.text id).symm⟩

theorem Displaced.trans {more : Nat} {last : Session η} (first : session.Displaced extra other)
    (second : other.Displaced more last) : session.Displaced (more + extra) last :=
  ⟨by rw [first.depth, second.depth, Nat.add_assoc], second.blocks.trans first.blocks,
    second.store.trans first.store, second.placeholders.trans first.placeholders,
    second.writes.trans first.writes, second.size_sources.trans first.size_sources,
    fun id => (second.text id).trans (first.text id)⟩

/-- Whether a source reaches a place, and the place itself, depend on its text only. -/
theorem seek_of_text {source other : AnySource} (text : other.cursor.text = source.cursor.text)
    (offset : Nat) : (Source.seek offset other).1 = (Source.seek offset source).1 ∧
      ((Source.seek offset source).1 = true →
        (Source.seek offset other).2.cursor = (Source.seek offset source).2.cursor) := by
  have sought : other.cursor.seek? offset = source.cursor.seek? offset := by
    apply Option.ext
    intro found
    rw [Cursor.seek?_eq_some_iff, Cursor.seek?_eq_some_iff, text]
  have found (place : AnySource) :
      (Source.seek offset place).1 = (place.cursor.seek? offset).isSome :=
    Tracked.seek_eq offset place
  have moved (place : AnySource) : (Source.seek offset place).2.cursor =
      (place.cursor.seek? offset).getD place.cursor := Tracked.cursor_seek offset place
  rw [found, found, moved, moved, sought]
  refine ⟨rfl, fun isThere => ?_⟩
  obtain ⟨place, isPlace⟩ := Option.isSome_iff_exists.mp isThere
  rw [isPlace]
  rfl

/-- Sending the same source of both to the same place. -/
theorem Displaced.seek (displaced : session.Displaced extra other) (source : SourceRef)
    (offset : Nat) :
    (session.setSource source (Source.seek offset (session.source source)).2).Displaced extra
      (other.setSource source (Source.seek offset (other.source source)).2) := by
  have moved := (session.displaced_seek source offset).trans
    (displaced.trans (other.displaced_seek source offset).symm)
  rwa [Nat.zero_add, Nat.add_zero] at moved

/-- A source that both send to the same place stands there in both. -/
theorem Displaced.source_seek (displaced : session.Displaced extra other)
    (found : (Source.seek offset (session.source source)).1 = true) :
    ((other.setSource source (Source.seek offset (other.source source)).2).source source).cursor =
      ((session.setSource source (Source.seek offset (session.source source)).2).source
        source).cursor := by
  by_cases present : source.index < session.sources.size
  · have presentOther : source.index < other.sources.size := displaced.size_sources ▸ present
    rw [source_setSource_self _ present, source_setSource_self _ presentOther]
    exact (seek_of_text (displaced.text source) offset).2 found
  · have absent (place : Session η) (size : place.sources.size = session.sources.size)
        (sought : AnySource) : (place.setSource source sought).source source = default := by
      rw [Session.source, setSource, Array.getD_eq_getD_getElem?,
        Array.getElem?_eq_none (by rw [Array.size_setIfInBounds]; omega)]
      rfl
    rw [absent _ rfl, absent _ displaced.size_sources]

/-- Two drafts whose earlier sources need not be the same. -/
def draftPairing (text : List Char) (source : SourceRef) (earlier earlier' : Array AnySource)
    (size : earlier'.size = earlier.size) : Draft.Pairing Cursor text source :=
  { Draft.Pairing.itself text source with
    sources := fun left right => ∃ added, left = earlier ++ added ∧ right = earlier' ++ added
    size_sources := by
      rintro _ _ ⟨added, rfl, rfl⟩
      rw [Array.size_append, Array.size_append, size]
    push_sources := by
      rintro _ _ made ⟨added, rfl, rfl⟩
      exact ⟨added.push made, Array.append_push.symm, Array.append_push.symm⟩ }

/-- The source of a session after a block was parsed. -/
theorem text_adopt_eq (session : Session η) (id : BlockRef) (after : Draft Cursor)
    (source : AnySource) (nodes : List Node) (place : SourceRef) :
    (session.adopt id after source nodes).text place =
      if place.index < after.sources.size then
        if (session.block id).source = place then source.cursor.text
        else (after.sources[place.index]?.getD default).cursor.text
      else (default : AnySource).cursor.text := by
  split
  · rename_i present
    rw [text, source_adopt place present, Array.getD_eq_getD_getElem?]
    split <;> rfl
  · rename_i absent
    have size : (session.adopt id after source nodes).sources.size = after.sources.size :=
      size_sources_adopt
    rw [text, Session.source, Array.getD_eq_getD_getElem?, Array.getElem?_eq_none (by omega)]
    rfl

/-- Parsing a block from a place where its source stands in both. -/
theorem Displaced.parseBlock (displaced : session.Displaced extra other) (embeddings : Embeddings)
    (stands : (other.source (session.block id).source).cursor =
      (session.source (session.block id).source).cursor) :
    (other.parseBlock embeddings id).1 = (session.parseBlock embeddings id).1 ∧
      (session.parseBlock embeddings id).2.Displaced extra (other.parseBlock embeddings id).2 := by
  obtain ⟨nodes, after, source, ran, cursor, eq⟩ := session.parseBlock_eq embeddings id
  obtain ⟨nodes', after', source', ran', cursor', eq'⟩ := other.parseBlock_eq embeddings id
  have sameBlock := displaced.block id
  have sameContext : other.blockContext embeddings id = session.blockContext embeddings id := by
    rw [blockContext, blockContext, sameBlock]
  have here : (other.draft id).source = (session.draft id).source := by
    rw [draft, draft, sameBlock]
    exact stands
  have paired : (session.draft id).Paired
      (draftPairing (other.draft id).source.text (session.blockContext embeddings id).source
        session.sources other.sources displaced.size_sources) (other.draft id) := by
    refine ⟨⟨here.symm, .refl _⟩, displaced.blocks, ⟨#[], ?_, ?_⟩, Nat.zero_le _, ?_⟩
    · exact Array.append_empty.symm
    · exact Array.append_empty.symm
    · exact congrArg Store.heap displaced.store
  obtain ⟨relocated, pairedAfter⟩ :=
    Directive.nodes_mirrors (session.blockContext embeddings id) rfl paired
  have ranOther : (Directive.nodes ((session.blockContext embeddings id).shifted 0)).run
      (other.draft id) = pure (nodes', after') := by
    rw [← ran', sameContext]
    rfl
  change Node.Relocated _ _ ((Directive.nodes ((session.blockContext embeddings id).shifted 0)).run
    (other.draft id)).1 at relocated
  change Draft.Paired _ _ ((Directive.nodes ((session.blockContext embeddings id).shifted 0)).run
    (other.draft id)).2 at pairedAfter
  rw [ran, ranOther] at relocated pairedAfter
  obtain rfl : nodes' = nodes := relocated.eq_of_id
  obtain ⟨⟨sameSource, -⟩, sameBlocks, ⟨added, sources, sources'⟩, -, sameHeap⟩ := pairedAfter
  have sameSource : after'.source = after.source := sameSource.symm
  have sameBlocks : after'.blocks = after.blocks := sameBlocks
  have sameHeap : after'.heap = after.heap := sameHeap
  have sources : after.sources = session.sources ++ added := sources
  have sources' : after'.sources = other.sources ++ added := sources'
  rw [eq, eq']
  refine ⟨rfl, displaced.depth, ?_, ?_, displaced.placeholders, displaced.writes, ?_, ?_⟩
  · exact congrArg (fun blocks => blocks.modify id.index (·.withNodes nodes')) sameBlocks
  · change { other.store with heap := after'.heap } = { session.store with heap := after.heap }
    rw [displaced.store, sameHeap]
  · rw [size_sources_adopt, size_sources_adopt, sources, sources', Array.size_append,
      Array.size_append, displaced.size_sources]
  · intro place
    have size : after'.sources.size = after.sources.size := by
      rw [sources, sources', Array.size_append, Array.size_append, displaced.size_sources]
    rw [text_adopt_eq, text_adopt_eq, size, sameBlock]
    split
    · split
      · rw [cursor, cursor', sameSource]
      · rw [sources, sources', Array.getElem?_append, Array.getElem?_append,
          displaced.size_sources]
        split
        · have known := displaced.text place
          rwa [Session.text, Session.text, Session.source, Session.source,
            Array.getD_eq_getD_getElem?, Array.getD_eq_getD_getElem?] at known
        · rfl
    · rfl

/-- Every block is a range of a source that is there. -/
def Fitted (session : Session η) : Prop :=
  ∀ (id : BlockRef) (block : Block), session.blocks[id.index]? = some block →
    block.source.index < session.sources.size ∧ block.Fits (session.text block.source)

variable {before after : Session η} {nodes : List Node}

theorem Valid.fitted {embeddings : Embeddings} (valid : session.Valid embeddings) :
    session.Fitted :=
  fun _ _ isThere => ⟨valid.source_lt isThere, valid.fits isThere⟩

theorem Fitted.of_quiet (fitted : before.Fitted) (quiet : before.Quiet after) : after.Fitted := by
  intro id block isThere
  obtain ⟨earlier, isEarlier, unmarked⟩ := quiet.symm.exists_block isThere
  obtain ⟨present, fits⟩ := fitted id earlier isEarlier
  have outline : block.outline = earlier.outline := by
    rw [← block.outline_unmarked, ← unmarked, earlier.outline_unmarked]
  have source := Block.eq_of_outline Block.source (fun _ => rfl) outline
  rw [source, quiet.sources, quiet.text]
  exact ⟨present, fits.of_outline outline⟩

theorem Fitted.isPlace_start (fitted : session.Fitted) (id : BlockRef) :
    IsPlace (session.text (session.block id).source) (session.block id).start := by
  by_cases present : id.index < session.blocks.size
  · exact (fitted id _ (getElem?_of_lt present)).2.start
  · rw [block_of_le (Nat.le_of_not_lt present)]
    exact isPlace_zero _

/-- The ends of a block stay places of its text. -/
theorem Fitted.isPlace_later (fitted : before.Fitted) (ext : before.Extends after) (id : BlockRef) :
    IsPlace (after.text (before.block id).source) (before.block id).start ∧
      IsPlace (after.text (before.block id).source) (before.block id).finish := by
  by_cases present : id.index < before.blocks.size
  · obtain ⟨sourcePresent, fits⟩ := fitted id _ (getElem?_of_lt present)
    rw [(ext.source _ sourcePresent).2]
    exact ⟨fits.start, fits.finish⟩
  · rw [block_of_le (Nat.le_of_not_lt present)]
    exact ⟨isPlace_zero _, isPlace_zero _⟩

theorem Fitted.parsing (fitted : before.Fitted) (present : id.index < before.blocks.size)
    {embeddings : Embeddings} (parsing : Parsing embeddings before id nodes after) :
    after.Fitted := by
  have kept {block : Block} (sourcePresent : block.source.index < before.sources.size)
      (fits : block.Fits (before.text block.source)) :
      block.source.index < after.sources.size ∧ block.Fits (after.text block.source) := by
    obtain ⟨stays, text⟩ := parsing.toExtends.source _ sourcePresent
    exact ⟨stays, text ▸ fits⟩
  intro other block isThere
  rcases parsing.cases isThere with ⟨rfl, rfl⟩ | earlier | ⟨-, child⟩
  · obtain ⟨sourcePresent, fits⟩ := fitted other _ (getElem?_of_lt present)
    exact kept sourcePresent (fits.of_outline rfl)
  · obtain ⟨sourcePresent, fits⟩ := fitted other block earlier
    exact kept sourcePresent fits
  · obtain ⟨found, isFound, -, sourcePresent⟩ := child.exists_block
    obtain rfl : block = found := Option.some.inj (isThere.symm.trans isFound)
    exact ⟨sourcePresent, child.fits isThere⟩

theorem Displaced.toExtends (displaced : session.Displaced extra other) :
    session.Extends other where
  block _ block isThere := ⟨block, displaced.blocks ▸ isThere, rfl, fun _ parsed => parsed⟩
  source id present := ⟨displaced.size_sources ▸ present, displaced.text id⟩

/-- Nothing is parsed for a block that is not there. -/
theorem parseBlock_absent (session : Session η) (embeddings : Embeddings) {id : BlockRef}
    (absent : session.blocks.size ≤ id.index) :
    (session.parseBlock embeddings id).1 = [] ∧
      session.Displaced 0 (session.parseBlock embeddings id).2 := by
  obtain ⟨nodes, draft, source, ran, cursor, eq⟩ := session.parseBlock_eq embeddings id
  have ended : (session.blockContext embeddings id).limit ≤ (session.draft id).source.offset := by
    rw [blockContext, block_of_le absent]
    exact Nat.zero_le _
  rw [Directive.nodes_run, Directive.nodesFrom_run_of_limit _ _ ended] at ran
  obtain ⟨rfl, rfl⟩ := Prod.mk.inj ran
  rw [eq]
  refine ⟨rfl, rfl, ?_, rfl, rfl, rfl, size_sources_adopt, fun place => ?_⟩
  · apply Array.ext_getElem?
    intro index
    rw [blocks_adopt]
    split
    · rename_i same
      rw [Array.getElem?_eq_none (by simp only [draft]; omega), Array.getElem?_eq_none (by omega)]
      rfl
    · rfl
  · rw [text_adopt_eq, Session.text, Session.source, Array.getD_eq_getD_getElem?]
    split
    · split
      · rename_i same
        rw [cursor, ← Array.getD_eq_getD_getElem?, ← Session.source, ← same]
        rfl
      · rfl
    · rename_i unknown
      have unknown : session.sources.size ≤ place.index := Nat.le_of_not_lt unknown
      rw [Array.getElem?_eq_none unknown]
      rfl

/-- Parsing a block whose source was sent to its start keeps everything that was there and makes
blocks that fit. -/
theorem Fitted.parseBlock (fitted : session.Fitted) (embeddings : Embeddings) {sought : AnySource}
    (atStart : Source.pointer sought = (session.block id).start)
    (unparsed : (session.block id).nodes? = none)
    (quiet : session.Quiet (session.setSource (session.block id).source sought)) :
    ((session.setSource (session.block id).source sought).parseBlock embeddings id).2.Fitted ∧
      session.Extends
        ((session.setSource (session.block id).source sought).parseBlock embeddings id).2 := by
  have fittedSought := fitted.of_quiet quiet
  by_cases present : id.index < session.blocks.size
  · have sourcePresent := (fitted id _ (getElem?_of_lt present)).1
    have isSource := source_setSource_self sought sourcePresent
    have parsing : Parsing embeddings (session.setSource (session.block id).source sought) id _ _ :=
      parsing_parseBlock present (fittedSought id _ (getElem?_of_lt present)).1 unparsed
        ((congrArg Source.pointer isSource).trans atStart)
    exact ⟨fittedSought.parsing present parsing, quiet.toExtends.trans parsing.toExtends⟩
  · obtain ⟨-, displaced⟩ := (session.setSource (session.block id).source sought).parseBlock_absent
      embeddings (Nat.le_of_not_lt present)
    have ext := displaced.toExtends
    refine ⟨fun other block isThere => ?_, quiet.toExtends.trans ext⟩
    rw [displaced.blocks] at isThere
    obtain ⟨sourcePresent, fits⟩ := fittedSought other block isThere
    obtain ⟨stays, sameText⟩ := ext.source _ sourcePresent
    rw [sameText]
    exact ⟨stays, fits⟩

end Session

end Stencil
