import Stencil.Proofs.RoundTrip.ReadBack
import Stencil.Proofs.Template

/-!
# Blocks that cover a text

A block that covers a whole text outside loops is parsed into the nodes of that text, whenever it
first runs, and keeps them.
-/

namespace Stencil

open Text

variable {η : Type}

/-- A text outside loops is parsed into nodes, and no blocks are made. -/
def Text.ParsesInto (text : List Char) (nodes : List Node) : Prop :=
  ∀ (context : BlockContext) (draft : Draft Cursor), context.enclosingLoop = none →
    context.limit = byteLength text → draft.source = .between [] text → ∃ after,
      (Directive.nodes context).run draft = pure (nodes, after) ∧
        after.blocks.size = draft.blocks.size

/-- If no block was made, parsing only moved in the source. -/
theorem Draft.Grows.eq_of_size {context : BlockContext} {anchor : Cursor}
    {before after : Draft Cursor} (grows : Grows context anchor before after)
    (same : after.blocks.size = before.blocks.size) :
    after = { before with source := after.source } := by
  induction grows with
  | refl => rfl
  | @tail middle after earlier step induction =>
      have larger : before.blocks.size ≤ middle.blocks.size := size_blocks_le earlier
      cases step with
      | move source within => rw [induction same]
      | body name role cut finish closes =>
          rw [Array.size_push] at same
          omega
      | embed path text found =>
          rw [Array.size_push] at same
          omega

namespace Session

/-- A block covers a whole text and stands in no loop. -/
structure Covers (session : Session η) (id : BlockRef) (text : List Char) : Prop where
  present : id.index < session.blocks.size
  sourcePresent : (session.block id).source.index < session.sources.size
  start : (session.block id).start = 0
  limit : (session.block id).limit = byteLength text
  finish : (session.block id).finish = byteLength text
  enclosingLoop : (session.block id).enclosingLoop = none
  text : session.text (session.block id).source = text

/-- A block has no other nodes than the given ones. -/
def HoldsOnly (session : Session η) (id : BlockRef) (nodes : List Node) : Prop :=
  ∀ listed, (session.block id).nodes? = some listed → listed = nodes

variable {session before after : Session η} {policy : Policy η} {embeddings : Embeddings}
  {id : BlockRef} {text : List Char} {nodes : List Node}

theorem Covers.mono (covers : before.Covers id text) (ext : before.Extends after) :
    after.Covers id text := by
  have outline := ext.outline_block covers.present
  have source := Block.eq_of_outline Block.source (fun _ => rfl) outline
  obtain ⟨sourcePresent, sameText⟩ := ext.source _ covers.sourcePresent
  refine ⟨ext.lt covers.present, ?_, ?_, ?_, ?_, ?_, ?_⟩
  · rwa [source]
  · rw [Block.eq_of_outline Block.start (fun _ => rfl) outline, covers.start]
  · rw [Block.eq_of_outline Block.limit (fun _ => rfl) outline, covers.limit]
  · rw [Block.eq_of_outline Block.finish (fun _ => rfl) outline, covers.finish]
  · rw [Block.eq_of_outline Block.enclosingLoop (fun _ => rfl) outline, covers.enclosingLoop]
  · rw [source, sameText, covers.text]

/-- A block of a source at the beginning of a text covers the text. -/
theorem covers_of_block {text : String} {source : SourceRef} {scope : ScopeRef} {role : BlockRole}
    (isThere : session.blocks[id.index]? =
      some (.ofSource (AnySource.plain (.ofString text)) source scope role))
    (sourcePresent : source.index < session.sources.size)
    (sourceText : session.text source = text.toList) : session.Covers id text.toList := by
  have size : (Cursor.ofString text).size = byteLength text.toList := Cursor.size_eq _
  have limit := Block.limit_ofSource (.plain (.ofString text)) source scope role
  have finish := Block.finish_ofSource (.plain (.ofString text)) source scope role
  refine ⟨lt_of_getElem? isThere, ?_, ?_, ?_, ?_, ?_, ?_⟩
  all_goals rw [block_eq_of_getElem? isThere]
  · exact sourcePresent
  · rfl
  · exact limit.trans size
  · exact finish.trans size
  · rfl
  · exact sourceText

/-- Parsing such a block gives it the nodes of the text, and nothing else becomes of the session. -/
theorem Covers.parseBlock (embeddings : Embeddings) (covers : session.Covers id text)
    (parses : ParsesInto text nodes)
    (atStart : Source.pointer (session.source (session.block id).source) =
      (session.block id).start) : ∃ source : AnySource,
    source.cursor.text = text ∧ session.parseBlock embeddings id =
      (nodes, (session.setSource (session.block id).source source).modifyBlock id
        (·.withNodes nodes)) := by
  obtain ⟨listed, after, source, ran, cursor, eq⟩ := session.parseBlock_eq embeddings id
  have here : (session.draft id).source = .between [] text := by
    apply Cursor.eq_of_text_of_offset
    · exact covers.text
    · exact atStart.trans covers.start
  obtain ⟨reached, ranText, size⟩ :=
    parses (session.blockContext embeddings id) _ covers.enclosingLoop covers.limit here
  obtain ⟨rfl, rfl⟩ := Prod.mk.inj (ran.symm.trans ranText)
  obtain ⟨grows, -⟩ := Directive.nodes_make ran
  refine ⟨source, ?_, ?_⟩
  · rw [cursor, (grows.reaches (.refl _)).1]
    exact covers.text
  · rw [eq, adopt, grows.eq_of_size size]
    rfl

/-- Whatever a step does, the nodes of such a block are those of the text. -/
theorem Step.holdsOnly (step : before.Step policy embeddings after)
    (valid : before.Valid embeddings)
    (covers : before.Covers id text) (parses : ParsesInto text nodes)
    (holds : before.HoldsOnly id nodes) : after.HoldsOnly id nodes := by
  intro listed parsed
  rcases step.cases_parse with quiet | ⟨other, -, present, unparsed, atStart, rfl⟩
  · have same := Block.eq_of_unmarked Block.nodes? (fun _ => rfl) (quiet.block id)
    exact holds listed (same.symm.trans parsed)
  · have sourcePresent := valid.source_lt (getElem?_of_lt present)
    have parsing : Parsing embeddings before other _ _ :=
      parsing_parseBlock present sourcePresent unparsed atStart
    by_cases same : id = other
    · subst same
      obtain ⟨source, -, eq⟩ := covers.parseBlock embeddings parses atStart
      rw [parsing.block_self, eq] at parsed
      exact (Option.some.inj parsed).symm
    · rw [parsing.block_of_ne same covers.present] at parsed
      exact holds listed parsed

theorem Chain.holdsOnly (chain : before.Chain policy embeddings after)
    (valid : before.Valid embeddings) (covers : before.Covers id text)
    (parses : ParsesInto text nodes) (holds : before.HoldsOnly id nodes) :
    after.HoldsOnly id nodes := by
  induction chain with
  | refl => exact holds
  | tail earlier step induction =>
      have validMiddle := Chain.valid earlier valid
      have ext := Chain.toExtends earlier valid
      exact step.holdsOnly validMiddle (covers.mono ext) parses induction

/-- Sessions differ at most in the places of sources and in nodes of blocks. -/
structure Opens (before after : Session η) : Prop where
  toExtends : before.Extends after
  store : after.store = before.store
  placeholders : after.placeholders = before.placeholders
  depth : after.depth = before.depth
  writes : after.writes = before.writes

theorem Opens.refl (session : Session η) : session.Opens session :=
  ⟨.refl session, rfl, rfl, rfl, rfl⟩

theorem Opens.trans {middle : Session η} (first : before.Opens middle)
    (second : middle.Opens after) :
    before.Opens after :=
  ⟨first.toExtends.trans second.toExtends, second.store.trans first.store,
    second.placeholders.trans first.placeholders, second.depth.trans first.depth,
    second.writes.trans first.writes⟩

theorem opens_seek (session : Session η) (source : SourceRef) (offset : Nat) :
    session.Opens (session.setSource source (Source.seek offset (session.source source)).2) :=
  ⟨(session.quiet_seek source offset).toExtends, rfl, rfl, rfl, rfl⟩

end Session

namespace Run

variable {environment : Environment η} {session : Session η} {id : BlockRef} {text : List Char}
  {listed : List Node}

/-- The nodes of a block that covers a text are those of the text, whether it is parsed now or was
before. -/
theorem ran_nodesOf_of_covers (valid : session.Valid environment.embeddings)
    (covers : session.Covers id text) (parses : ParsesInto text listed)
    (holds : session.HoldsOnly id listed) : ∃ after,
    (nodesOf environment id).run.run session = (.ok listed, after) ∧ session.Opens after := by
  cases isParsed : (session.block id).nodes? with
  | some parsed =>
      obtain rfl := holds parsed isParsed
      exact ⟨session, ran_nodesOf_of_parsed environment isParsed, .refl session⟩
  | none =>
      have fits := valid.fits (Session.getElem?_of_lt covers.present)
      have place : IsPlace (session.text (session.block id).source) (session.block id).start :=
        fits.start
      obtain ⟨-, pointer, sought⟩ := Run.ran_seek place
      have opens := session.opens_seek (session.block id).source (session.block id).start
      have isSource := Session.source_setSource_self
        (Source.seek (session.block id).start (session.source (session.block id).source)).2
        covers.sourcePresent
      have coversSought := covers.mono opens.toExtends
      have atStart := (congrArg Source.pointer isSource).trans pointer
      obtain ⟨source, -, parsed⟩ :=
        coversSought.parseBlock environment.embeddings parses atStart
      have parsing : Session.Parsing environment.embeddings _ id _ _ :=
        Session.parsing_parseBlock coversSought.present coversSought.sourcePresent isParsed atStart
      rw [parsed] at parsing
      refine ⟨_, ?_, opens.trans ⟨parsing.toExtends, rfl, rfl, rfl, rfl⟩⟩
      rw [ran_nodesOf_of_unparsed environment isParsed sought]
      exact congrArg (fun result => (Except.ok result.1, result.2)) parsed

/-- Running a block that covers a text runs the nodes of the text in the scope of the block. -/
theorem ran_block_of_covers (valid : session.Valid environment.embeddings)
    (covers : session.Covers id text) (parses : ParsesInto text listed)
    (holds : session.HoldsOnly id listed) (fuel : Nat) : ∃ opened, session.Opens opened ∧
    (block environment (fuel + 1) id).run.run session =
      (do
        nodes (node environment (block environment fuel) fuel (session.block id).scope) none listed
        seek (session.block id).source (byteLength text) : Run η Unit).run.run opened := by
  obtain ⟨prepared, parsed, opens⟩ := ran_nodesOf_of_covers valid covers parses holds
  have coversPrepared := covers.mono opens.toExtends
  have outline := opens.toExtends.outline_block covers.present
  have scope := Block.eq_of_outline Block.scope (fun _ => rfl) outline
  have source := Block.eq_of_outline Block.source (fun _ => rfl) outline
  have place : IsPlace (prepared.text (prepared.block id).source) (prepared.block id).start := by
    rw [coversPrepared.start]
    exact isPlace_zero _
  obtain ⟨-, -, sought⟩ := Run.ran_seek place
  refine ⟨_, opens.trans (prepared.opens_seek (prepared.block id).source (prepared.block id).start),
    ?_⟩
  have looked : (get : Run η (Session η)).run.run prepared = pure (.ok prepared, prepared) := rfl
  rw [block, blockWith, run_bind_of_ok parsed, run_bind_of_ok looked]
  dsimp only
  rw [run_bind_of_ok sought, scope, source, coversPrepared.finish, coversPrepared.enclosingLoop]

/-- If the nodes of the text succeed, so does the block, and then its source goes to the end. -/
theorem ran_block_of_nodes (valid : session.Valid environment.embeddings)
    (covers : session.Covers id text) (parses : ParsesInto text listed)
    (holds : session.HoldsOnly id listed) (fuel : Nat) (result : Session η → Prop)
    (succeeds : ∀ opened, session.Opens opened → ∃ after,
      (nodes (node environment (block environment fuel) fuel (session.block id).scope) none
          listed).run.run opened = pure (.ok (), after) ∧ opened.Extends after ∧ result after) :
    ∃ after last, (block environment (fuel + 1) id).run.run session = pure (.ok (), last) ∧
      after.Opens last ∧ result after := by
  obtain ⟨opened, opens, ran⟩ := ran_block_of_covers valid covers parses holds fuel
  obtain ⟨after, ranNodes, ext, isResult⟩ := succeeds opened opens
  have extended := opens.toExtends.trans ext
  have source := Block.eq_of_outline Block.source (fun _ => rfl)
    (extended.outline_block covers.present)
  have place : IsPlace (after.text (session.block id).source) (byteLength text) := by
    rw [← source, (covers.mono extended).text]
    exact isPlace_byteLength text
  obtain ⟨-, -, sought⟩ := Run.ran_seek place
  refine ⟨after, _, ?_, after.opens_seek (session.block id).source (byteLength text), isResult⟩
  rw [ran, run_bind_of_ok ranNodes, sought]
  rfl

end Run

namespace Template

variable {text : String} {options : Options} {host : Host η} {state : η} {template : Template η}

/-- The root of the template of a text covers the text and is not parsed yet. -/
theorem covers_root (text : String) (options : Options) (host : Host η) (state : η) :
    (ofString text options host state).session.Covers (ofString text options host state).root
        text.toList ∧
      ((ofString text options host state).session.block
        (ofString text options host state).root).nodes? = none := by
  obtain ⟨id, sourcePresent, sourceText, isThere⟩ :=
    root_ofSource (.plain (.ofString text)) options host state
  refine ⟨Session.covers_of_block isThere sourcePresent sourceText, ?_⟩
  exact congrArg Block.nodes? (Session.block_eq_of_getElem? isThere)

/-- Whatever becomes of the template of a text, its root covers the text and has no nodes but those
of the text. -/
theorem Evolves.covers_root
    (evolves : (ofString text options host state).Evolves (fun _ _ => True) template)
    {nodes : List Node} (parses : ParsesInto text.toList nodes) :
    template.session.Valid options.embeddings ∧
      template.session.Covers template.root text.toList ∧
      template.session.HoldsOnly template.root nodes := by
  obtain ⟨valid, chain⟩ := Evolves.free_chain evolves
  obtain ⟨covers, unparsed⟩ := Template.covers_root text options host state
  have holds : (ofString text options host state).session.HoldsOnly
      (ofString text options host state).root nodes := fun listed parsed => by
    rw [unparsed] at parsed
    cases parsed
  rw [evolves.root]
  exact ⟨chain.valid valid, covers.mono (chain.toExtends valid),
    chain.holdsOnly valid covers parses holds⟩

end Template

end Stencil
