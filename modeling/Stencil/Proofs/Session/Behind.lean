import Stencil.Proofs.Session.Displaced

/-!
# Sessions of a part of a text

The source of a template may stand behind the beginning of its text.  The session is then that of a
template of the rest, except that the places of this one source lie so many bytes further.
-/

namespace Stencil

open Text

variable {η : Type}

theorem Text.Cursor.behind_nil (cursor : Cursor) : cursor.behind [] = cursor := by
  rw [Cursor.behind, List.append_nil, ← cursor.eq_between]

section

variable {α β : Type} {relation : α → β → Prop} {left : Array α} {right : Array β}

/-- Two arrays have as many members, and those at one index are related. -/
def Correspond (relation : α → β → Prop) (left : Array α) (right : Array β) : Prop :=
  ∀ index : Nat, Option.Rel relation left[index]? right[index]?

theorem Correspond.some_of_some (correspond : Correspond relation left right) {index : Nat}
    {member : α} (isThere : left[index]? = some member) :
    ∃ other, right[index]? = some other ∧ relation member other := by
  have related := correspond index
  rw [isThere] at related
  generalize right[index]? = found at related
  cases related with
  | some same => exact ⟨_, rfl, same⟩

theorem Correspond.size_eq (correspond : Correspond relation left right) :
    right.size = left.size := by
  have absent (index : Nat) : right[index]? = none ↔ left[index]? = none := by
    have related := correspond index
    generalize left[index]? = member at related
    generalize right[index]? = other at related
    cases related with
    | some same => exact ⟨nofun, nofun⟩
    | none => exact ⟨fun _ => rfl, fun _ => rfl⟩
  apply Nat.le_antisymm
  · exact Array.getElem?_eq_none_iff.mp
      ((absent left.size).mpr (Array.getElem?_eq_none (Nat.le_refl _)))
  · exact Array.getElem?_eq_none_iff.mp
      ((absent right.size).mp (Array.getElem?_eq_none (Nat.le_refl _)))

theorem Correspond.push (correspond : Correspond relation left right) {member : α} {other : β}
    (same : relation member other) : Correspond relation (left.push member) (right.push other) := by
  intro index
  rw [Array.getElem?_push, Array.getElem?_push, correspond.size_eq]
  split
  · exact .some same
  · exact correspond index

theorem Correspond.modify (correspond : Correspond relation left right) (place : Nat)
    {change : α → α} {change' : β → β}
    (keeps : ∀ member other, left[place]? = some member → relation member other →
      relation (change member) (change' other)) :
    Correspond relation (left.modify place change) (right.modify place change') := by
  intro index
  rw [Array.getElem?_modify, Array.getElem?_modify]
  split
  · rename_i here
    subst here
    have related := correspond place
    cases isThere : left[place]? with
    | none =>
        rw [isThere] at related
        generalize right[place]? = found at related
        cases related with
        | none => exact .none
    | some member =>
        obtain ⟨other, isOther, same⟩ := correspond.some_of_some isThere
        rw [isOther]
        exact .some (keeps member other isThere same)
  · exact correspond index

end

/-- What the source of a template stands behind. -/
structure Lead where
  source : SourceRef
  /-- The characters in front of the source, last first. -/
  passed : List Char
  /-- The characters from the place of the source on. -/
  rest : List Char

namespace Lead

/-- The whole text. -/
def text (lead : Lead) : List Char := lead.passed.reverse ++ lead.rest

/-- The characters that a source stands behind, last first. -/
def front (lead : Lead) (id : SourceRef) : List Char :=
  if id = lead.source then lead.passed else []

/-- The place in the whole text of a place in the rest. -/
def placed (lead : Lead) (position : Position) : Position :=
  positionAt lead.text (position.offset + byteLength lead.passed)

/-- Where a place of a source lies in the text of the source behind its lead. -/
def position (lead : Lead) (id : SourceRef) : Position → Position :=
  if id = lead.source then lead.placed else fun place => place

variable {lead : Lead} {id : SourceRef}

theorem front_self : lead.front lead.source = lead.passed := if_pos rfl

theorem front_of_ne (different : id ≠ lead.source) : lead.front id = [] := if_neg different

theorem position_self : lead.position lead.source = lead.placed := if_pos rfl

theorem position_of_ne (different : id ≠ lead.source) : lead.position id = fun place => place :=
  if_neg different

end Lead

/-- A block lies in its source behind a lead and was parsed into the same nodes, but for the place
of an error at their end. -/
structure Block.Behind (lead : Lead) (block whole : Block) : Prop where
  outline : whole.outline = { block.outline with
    start := block.start + byteLength (lead.front block.source)
    finish := block.finish + byteLength (lead.front block.source) }
  wasLeft : whole.wasLeft = block.wasLeft
  timesParsed : whole.timesParsed = block.timesParsed
  nodes : Option.Rel (Node.Relocated (lead.position block.source)) block.nodes? whole.nodes?

namespace Block.Behind

variable {lead : Lead} {block whole : Block}

theorem part {α : Type} (behind : block.Behind lead whole) (part : Block → α)
    (isPart : ∀ block : Block, part block.outline = part block)
    (unplaced : ∀ (block : Block) start finish, part { block with start, finish } = part block) :
    part whole = part block := by
  rw [← isPart whole, behind.outline, unplaced, isPart]

theorem source (behind : block.Behind lead whole) : whole.source = block.source :=
  behind.part Block.source (fun _ => rfl) fun _ _ _ => rfl

theorem scope (behind : block.Behind lead whole) : whole.scope = block.scope :=
  behind.part Block.scope (fun _ => rfl) fun _ _ _ => rfl

theorem enclosingLoop (behind : block.Behind lead whole) :
    whole.enclosingLoop = block.enclosingLoop :=
  behind.part Block.enclosingLoop (fun _ => rfl) fun _ _ _ => rfl

theorem start (behind : block.Behind lead whole) :
    whole.start = block.start + byteLength (lead.front block.source) :=
  congrArg Block.start behind.outline

theorem finish (behind : block.Behind lead whole) :
    whole.finish = block.finish + byteLength (lead.front block.source) :=
  congrArg Block.finish behind.outline

theorem limit (behind : block.Behind lead whole) :
    whole.limit = block.limit + byteLength (lead.front block.source) := by
  have length : whole.length = block.length :=
    behind.part Block.length (fun _ => rfl) fun _ _ _ => rfl
  rw [Block.limit, Block.limit, behind.start, length, Nat.add_right_comm]

/-- A new block lies where its range was read. -/
theorem of_unparsed (unparsed : block.nodes? = none) :
    block.Behind lead { block with
      start := block.start + byteLength (lead.front block.source)
      finish := block.finish + byteLength (lead.front block.source) } :=
  ⟨rfl, rfl, rfl, unparsed ▸ .none⟩

/-- A block of a source that stands behind nothing lies where it is. -/
theorem of_ne (different : block.source ≠ lead.source) (unparsed : block.nodes? = none) :
    block.Behind lead block := by
  have behind : block.Behind lead _ := of_unparsed unparsed
  rwa [Lead.front_of_ne different] at behind

end Block.Behind

namespace Session

/-- A session and that of the whole text, in which one source stands behind a lead. -/
structure Behind (lead : Lead) (session whole : Session η) : Prop where
  depth : whole.depth = session.depth
  store : whole.store = session.store
  placeholders : whole.placeholders = session.placeholders
  writes : whole.writes = session.writes
  size_sources : whole.sources.size = session.sources.size
  present : lead.source.index < session.sources.size
  text : session.text lead.source = lead.rest
  cursor : ∀ id, (whole.source id).cursor = (session.source id).cursor.behind (lead.front id)
  blocks : Correspond (Block.Behind lead) session.blocks whole.blocks

variable {lead : Lead} {session whole : Session η} {id : BlockRef} {source : SourceRef}
  {offset : Nat} {embeddings : Embeddings}

namespace Behind

theorem block (behind : session.Behind lead whole) (present : id.index < session.blocks.size) :
    (session.block id).Behind lead (whole.block id) := by
  obtain ⟨block, isThere, same⟩ := behind.blocks.some_of_some (getElem?_of_lt present)
  rwa [block_eq_of_getElem? isThere]

/-- What lies nowhere is the same of every block. -/
theorem eq_of_block {α : Type} (behind : session.Behind lead whole) (part : Block → α)
    (same : ∀ block other : Block, block.Behind lead other → part other = part block)
    (id : BlockRef) : part (whole.block id) = part (session.block id) := by
  by_cases present : id.index < session.blocks.size
  · exact same _ _ (behind.block present)
  · have absent := Nat.le_of_not_lt present
    rw [block_of_le absent, block_of_le (behind.blocks.size_eq ▸ absent)]

/-- Sources that both sessions send somewhere stay behind the lead if the cursors do. -/
theorem setSource (behind : session.Behind lead whole) {sought sought' : AnySource}
    (text : sought.cursor.text = session.text source)
    (cursor : sought'.cursor = sought.cursor.behind (lead.front source)) :
    (session.setSource source sought).Behind lead (whole.setSource source sought') := by
  refine ⟨behind.depth, behind.store, behind.placeholders, behind.writes, ?_, ?_, ?_,
    fun other => ?_,
    behind.blocks⟩
  · simp only [Session.setSource, Array.size_setIfInBounds, behind.size_sources]
  · simpa only [Session.setSource, Array.size_setIfInBounds] using behind.present
  · rw [← behind.text]
    rcases session.source_setSource source lead.source sought with ⟨isSought, same⟩ | stays
    · rw [Session.text, isSought, text, same]
    · rw [Session.text, stays]
      rfl
  · by_cases present : source.index < session.sources.size
    · by_cases same : other = source
      · subst same
        rw [source_setSource_self _ present,
          source_setSource_self _ (behind.size_sources.symm ▸ present), cursor]
      · rw [source_setSource_of_ne _ same, source_setSource_of_ne _ same, behind.cursor]
    · have absent := Nat.le_of_not_lt present
      rw [Session.setSource, Array.setIfInBounds_eq_of_size_le (behind.size_sources ▸ absent),
        Session.setSource, Array.setIfInBounds_eq_of_size_le absent]
      exact behind.cursor other

/-- A place of a text lies behind the lead in the whole text. -/
theorem isPlace (behind : session.Behind lead whole)
    (place : IsPlace (session.text source) offset) :
    IsPlace (whole.text source) (offset + byteLength (lead.front source)) := by
  obtain ⟨target, text, isOffset⟩ := place
  refine ⟨target.behind (lead.front source), ?_, ?_⟩
  · rw [Session.text, behind.cursor, Cursor.text_behind, Cursor.text_behind, text]
    rfl
  · rw [Cursor.offset_behind, isOffset]

/-- Sending a source to a place of its text goes along with sending it behind the lead. -/
theorem seek (behind : session.Behind lead whole) (place : IsPlace (session.text source) offset) :
    (session.setSource source (Source.seek offset (session.source source)).2).Behind lead
      (whole.setSource source
        (Source.seek (offset + byteLength (lead.front source)) (whole.source source)).2) := by
  obtain ⟨target, text, isOffset⟩ := place
  have sought : (session.source source).cursor.seek? offset = some target :=
    Cursor.seek?_eq_some_iff.mpr ⟨text, isOffset⟩
  have moved (offset : Nat) (source : AnySource) : (Source.seek offset source).2.cursor =
      (source.cursor.seek? offset).getD source.cursor := Tracked.cursor_seek offset source
  refine behind.setSource (text_seek _ _) ?_
  rw [moved, moved, behind.cursor, Cursor.seek?_behind, sought]
  rfl

theorem mark (behind : session.Behind lead whole) (target : BlockRef) (left : Bool) :
    (session.modifyBlock target ({ · with wasLeft := left })).Behind lead
      (whole.modifyBlock target ({ · with wasLeft := left })) :=
  ⟨behind.depth, behind.store, behind.placeholders, behind.writes, behind.size_sources,
    behind.present, behind.text, behind.cursor, behind.blocks.modify target.index
      fun _ _ _ same => ⟨same.outline, rfl, same.timesParsed, same.nodes⟩⟩

end Behind

/-- How a block of a source is parsed behind a lead, given how the source is read there. -/
def leadPairing (lead : Lead) {text : List Char} (source : SourceRef)
    (placement : Placement Cursor text)
    (shift : placement.shift = byteLength (lead.front source)) (earlier earlier' : Array AnySource)
    (size : earlier'.size = earlier.size) : Draft.Pairing Cursor text source :=
  { draftPairing text source earlier earlier' size with
    placement := placement
    blocks := Correspond (Block.Behind lead)
    known := lead.source.index + 1
    size_blocks := Correspond.size_eq
    push_body := fun made correspond isSource unparsed => by
      refine correspond.push ?_
      rw [shift, ← isSource]
      exact .of_unparsed unparsed
    push_embedded := fun made correspond isEmbedded unparsed => by
      refine correspond.push (.of_ne ?_ unparsed)
      rintro same
      rw [same] at isEmbedded
      omega }

/-- How a source is read behind a lead. -/
theorem Behind.exists_placement (behind : session.Behind lead whole) (source : SourceRef) :
    ∃ placement : Placement Cursor (whole.source source).cursor.text,
      (∀ cursor, placement.cursor cursor = cursor.behind (lead.front source)) ∧
      placement.shift = byteLength (lead.front source) ∧
      placement.position = lead.position source := by
  by_cases same : source = lead.source
  · subst same
    rw [Lead.front_self, Lead.position_self]
    refine ⟨.behind lead.passed _, fun _ => rfl, rfl, ?_⟩
    have text : (whole.source lead.source).cursor.text = lead.text := by
      rw [behind.cursor, Lead.front_self, Cursor.text_behind, Lead.text, ← behind.text]
      rfl
    rw [text]
    rfl
  · rw [Lead.front_of_ne same, Lead.position_of_ne same]
    exact ⟨.itself _, fun cursor => cursor.behind_nil.symm, rfl, rfl⟩

/-- Sources that both sessions get are those of embedded texts, which stand behind nothing. -/
theorem Behind.cursor_append (behind : session.Behind lead whole) (added : Array AnySource)
    (place : SourceRef) : ((whole.sources ++ added).getD place.index default).cursor =
      ((session.sources ++ added).getD place.index default).cursor.behind (lead.front place) := by
  rw [Array.getD_eq_getD_getElem?, Array.getD_eq_getD_getElem?, Array.getElem?_append,
    Array.getElem?_append, behind.size_sources]
  split
  · have known := behind.cursor place
    rwa [Session.source, Session.source, Array.getD_eq_getD_getElem?,
      Array.getD_eq_getD_getElem?] at known
  · rename_i isNew
    have different : place ≠ lead.source := by
      rintro rfl
      exact isNew behind.present
    rw [Lead.front_of_ne different, Cursor.behind_nil]

/-- What is read and made for a block is read and made behind the lead, too. -/
theorem Behind.paired (behind : session.Behind lead whole)
    (placement : Placement Cursor (whole.source (session.block id).source).cursor.text)
    (reads : ∀ cursor, placement.cursor cursor =
      cursor.behind (lead.front (session.block id).source))
    (shift : placement.shift = byteLength (lead.front (session.block id).source))
    (source : (whole.block id).source = (session.block id).source) :
    (session.draft id).Paired
      (leadPairing lead (session.block id).source placement shift session.sources whole.sources
        behind.size_sources) (whole.draft id) := by
  have drafted : (whole.draft id).source = (whole.source (session.block id).source).cursor := by
    rw [draft, source]
  refine ⟨⟨?_, drafted ▸ .refl _⟩, behind.blocks, ⟨#[], ?_, ?_⟩, behind.present, ?_⟩
  · exact ((reads _).trans (behind.cursor _).symm).trans drafted.symm
  · exact Array.append_empty.symm
  · exact Array.append_empty.symm
  · exact congrArg Store.heap behind.store

/-- Taking over what parsing a block made goes along with taking it over behind the lead. -/
theorem Behind.adopt (behind : session.Behind lead whole) {after after' : Draft Cursor}
    {source source' : AnySource} {nodes nodes' : List Node} {added : Array AnySource}
    (present : id.index < session.blocks.size)
    (kept : after.blocks[id.index]? = some (session.block id))
    (blocks : Correspond (Block.Behind lead) after.blocks after'.blocks)
    (sources : after.sources = session.sources ++ added)
    (sources' : after'.sources = whole.sources ++ added) (heap : after'.heap = after.heap)
    (cursor : source'.cursor = source.cursor.behind (lead.front (session.block id).source))
    (text : source.cursor.text = session.text (session.block id).source)
    (relocated : Node.Relocated (lead.position (session.block id).source) nodes nodes') :
    (session.adopt id after source nodes).Behind lead (whole.adopt id after' source' nodes') := by
  have block := behind.block present
  have sizes : after'.sources.size = after.sources.size := by
    rw [sources, sources', Array.size_append, Array.size_append, behind.size_sources]
  have grown : session.sources.size ≤ after.sources.size := by
    rw [sources, Array.size_append]
    exact Nat.le_add_right _ _
  have presentAfter := Nat.lt_of_lt_of_le behind.present grown
  refine ⟨behind.depth, ?_, behind.placeholders, behind.writes, ?_, ?_, ?_, fun place => ?_, ?_⟩
  · change { whole.store with heap := after'.heap } = { session.store with heap := after.heap }
    rw [behind.store, heap]
  · rw [size_sources_adopt, size_sources_adopt, sizes]
  · rwa [size_sources_adopt]
  · rw [text_adopt_eq, if_pos presentAfter, ← behind.text]
    split
    · rename_i same
      rw [text, same]
    · rw [sources, Session.text, Session.source, Array.getD_eq_getD_getElem?,
        Array.getElem?_append_left behind.present]
  · by_cases isThere : place.index < after.sources.size
    · rw [source_adopt place isThere, source_adopt place (sizes.symm ▸ isThere), block.source]
      by_cases same : (session.block id).source = place
      · rw [if_pos same, if_pos same, cursor, same]
      · rw [if_neg same, if_neg same, sources, sources']
        exact behind.cursor_append added place
    · have absent (whole : Session η) (size : whole.sources.size = after.sources.size) :
          whole.source place = default := by
        rw [Session.source, Array.getD_eq_getD_getElem?, Array.getElem?_eq_none (by omega)]
        rfl
      have different : place ≠ lead.source := by
        rintro rfl
        exact isThere presentAfter
      rw [absent _ size_sources_adopt, absent _ (size_sources_adopt.trans sizes),
        Lead.front_of_ne different, Cursor.behind_nil]
  · refine Correspond.modify blocks id.index fun member other isMember same => ?_
    obtain rfl : session.block id = member := Option.some.inj (kept.symm.trans isMember)
    exact ⟨same.outline, same.wasLeft, congrArg (· + 1) same.timesParsed, .some relocated⟩

/-- Parsing a block behind a lead gives the same nodes, but for the place of an error. -/
theorem Behind.parseBlock (behind : session.Behind lead whole) (embeddings : Embeddings)
    (present : id.index < session.blocks.size) :
    Node.Relocated (lead.position (session.block id).source)
        (session.parseBlock embeddings id).1 (whole.parseBlock embeddings id).1 ∧
      (session.parseBlock embeddings id).2.Behind lead (whole.parseBlock embeddings id).2 := by
  obtain ⟨nodes, after, source, ran, cursor, eq⟩ := session.parseBlock_eq embeddings id
  obtain ⟨nodes', after', source', ran', cursor', eq'⟩ := whole.parseBlock_eq embeddings id
  have block := behind.block present
  obtain ⟨placement, reads, shift, position⟩ := behind.exists_placement (session.block id).source
  obtain ⟨relocated, pairedAfter⟩ :=
    Directive.nodes_mirrors (session.blockContext embeddings id) rfl
      (behind.paired placement reads shift block.source)
  have context : (session.blockContext embeddings id).shifted placement.shift =
      whole.blockContext embeddings id := by
    simp only [blockContext, BlockContext.shifted, block.source, block.scope, block.limit,
      block.enclosingLoop, shift]
  have shifted : (session.blockContext embeddings id).shifted
      (leadPairing lead (session.block id).source placement shift session.sources whole.sources
        behind.size_sources).placement.shift = whole.blockContext embeddings id := context
  rw [shifted, ran, ran'] at relocated pairedAfter
  have relocated : Node.Relocated (lead.position (session.block id).source) nodes nodes' :=
    position ▸ relocated
  obtain ⟨⟨read, -⟩, blocks, ⟨added, sources, sources'⟩, -, heap⟩ := pairedAfter
  obtain ⟨grows, -⟩ := Directive.nodes_make ran
  rw [eq, eq']
  refine ⟨relocated, behind.adopt present (grows.block_kept (getElem?_of_lt present)) blocks sources
    sources' heap ?_ ?_ relocated⟩
  · rw [cursor, cursor', ← reads]
    exact read.symm
  · rw [cursor]
    exact (grows.reaches (.refl _)).1

end Session

end Stencil
