import Stencil.Proofs.RoundTrip.Layer
import Stencil.Proofs.RoundTrip.ReadBack
import Stencil.Proofs.Run.Apart
import Stencil.Proofs.Session.Scopes

/-!
# Sessions of templates that differ in a body

Two templates have different texts in one body.  As long as that body is not parsed, the blocks of
both are the same but for their ranges, and whatever else is parsed is parsed alike.
-/

namespace Stencil

open Text

variable {η : Type}

/-- Two texts for one body, and the layers that are around it in the root of a template.  No keyword
of a body stands in either text. -/
structure Variation where
  root : BlockRef
  layers : List Layer
  text : List Char
  otherText : List Char
  plain : holdsNoKeyword text = true
  plainOther : holdsNoKeyword otherText = true

/-- The block of the body inside layers, once the bodies around it were parsed. -/
def Session.bodyOf? (session : Session η) (layers : List Layer) (root : BlockRef) :
    Option BlockRef :=
  layers.foldlM (fun id layer => (session.block id).nodes?.bind layer.body?) root

/-- What is parsed in a session is parsed in another one, into the same nodes. -/
def Session.KeepsNodes (session other : Session η) : Prop :=
  ∀ (id : BlockRef) (nodes : List Node), (session.block id).nodes? = some nodes →
    (other.block id).nodes? = some nodes

namespace Session

variable {session after other : Session η} {layers : List Layer} {root id : BlockRef}

theorem Extends.keepsNodes (ext : session.Extends after) : session.KeepsNodes after := by
  intro id nodes parsed
  by_cases present : id.index < session.blocks.size
  · obtain ⟨later, isThere, -, keeps⟩ := ext.block id.index _ (getElem?_of_lt present)
    rw [block_eq_of_getElem? isThere]
    exact keeps nodes parsed
  · rw [block_of_le (Nat.le_of_not_lt present)] at parsed
    cases parsed

theorem bodyOf?_concat (session : Session η) (layers : List Layer) (layer : Layer)
    (root : BlockRef) : session.bodyOf? (layers ++ [layer]) root =
      (session.bodyOf? layers root).bind fun id =>
        (session.block id).nodes?.bind layer.body? := by
  simp [bodyOf?, List.foldlM_append]

theorem bodyOf?_keeps (keeps : session.KeepsNodes after)
    (leads : session.bodyOf? layers root = some id) : after.bodyOf? layers root = some id := by
  induction layers generalizing root with
  | nil => exact leads
  | cons layer layers induction =>
      rw [bodyOf?, List.foldlM_cons] at leads ⊢
      obtain ⟨inner, isBody, leads⟩ := Option.bind_eq_some_iff.mp leads
      obtain ⟨nodes, parsed, isBody⟩ := Option.bind_eq_some_iff.mp isBody
      rw [keeps root nodes parsed, Option.bind_some, isBody]
      exact induction leads

end Session

theorem getElem?_middle {α : Type} {before after : List α} {here item : α} {place : Nat}
    (found : (before ++ here :: after)[place]? = some item) :
    place = before.length ∧ item = here ∨
      item ∈ before ++ after ∧ ∀ other, (before ++ other :: after)[place]? = some item := by
  rcases Nat.lt_trichotomy place before.length with earlier | rfl | later
  · rw [List.getElem?_append_left earlier] at found
    refine .inr ⟨List.mem_append_left _ (List.mem_of_getElem? found), fun other => ?_⟩
    rw [List.getElem?_append_left earlier, found]
  · rw [List.getElem?_append_right (Nat.le_refl _), Nat.sub_self] at found
    exact .inl ⟨rfl, (Option.some.inj found).symm⟩
  · obtain ⟨more, rfl⟩ := Nat.exists_eq_add_of_lt later
    have behind (other : α) : (before ++ other :: after)[before.length + more + 1]? =
        after[more]? := by
      rw [Nat.add_assoc, List.getElem?_append_right (Nat.le_add_right _ _),
        Nat.add_sub_cancel_left, List.getElem?_cons_succ]
    rw [behind] at found
    exact .inr ⟨List.mem_append_right _ (List.mem_of_getElem? found),
      fun other => (behind other).trans found⟩

namespace Variation

variable {variation : Variation} {session after : Session η} {id : BlockRef} {body other : Body}

/-- What a block holds in both templates: the same well-formed body, or the layers that are still
around the body in question. -/
inductive Alike (variation : Variation) (session : Session η) (id : BlockRef) :
    Body → Body → Prop where
  | same (body : Body) (valid : areWellFormed body.around.isSome body.trees = true) :
      Alike variation session id body body
  | inside {around : Option BlockRef} {name : String} (outer inner : List Layer)
      (split : outer ++ inner = variation.layers)
      (leads : session.bodyOf? outer variation.root = some id)
      (valid : areWellFormed around.isSome (Layer.enclose inner []) = true) :
      Alike variation session id
        ⟨around, name, Layer.enclose inner [.text (String.ofList variation.text)]⟩
        ⟨around, name, Layer.enclose inner [.text (String.ofList variation.otherText)]⟩

namespace Alike

theorem around (alike : variation.Alike session id body other) : other.around = body.around := by
  cases alike <;> rfl

theorem keeps (alike : variation.Alike session id body other) (keeps : session.KeepsNodes after) :
    variation.Alike after id body other := by
  cases alike with
  | same _ valid => exact .same _ valid
  | inside outer inner split leads valid =>
      exact .inside outer inner split (Session.bodyOf?_keeps keeps leads) valid

/-- Bodies around the one in question have a layer around it. -/
theorem cases_layer (alike : variation.Alike session id body other)
    (unentered : session.bodyOf? variation.layers variation.root ≠ some id) :
    other = body ∧ areWellFormed body.around.isSome body.trees = true ∨
      ∃ (outer inner : List Layer) (layer : Layer) (around : Option BlockRef) (name : String),
        outer ++ layer :: inner = variation.layers ∧
        session.bodyOf? outer variation.root = some id ∧
        areWellFormed around.isSome (Layer.enclose (layer :: inner) []) = true ∧
        body = ⟨around, name,
          Layer.enclose (layer :: inner) [.text (String.ofList variation.text)]⟩ ∧
        other = ⟨around, name,
          Layer.enclose (layer :: inner) [.text (String.ofList variation.otherText)]⟩ := by
  cases alike with
  | same _ valid => exact .inl ⟨rfl, valid⟩
  | inside outer inner split leads valid =>
      cases inner with
      | nil =>
          rw [List.append_nil] at split
          exact absurd (split ▸ leads) unentered
      | cons layer inner =>
          exact .inr ⟨outer, inner, layer, _, _, split, leads, valid, rfl, rfl⟩

theorem areSound (alike : variation.Alike session id body other)
    (unentered : session.bodyOf? variation.layers variation.root ≠ some id) :
    AreSound body.around.isSome body.trees ∧ AreSound other.around.isSome other.trees := by
  rcases alike.cases_layer unentered with
    ⟨rfl, valid⟩ | ⟨_, _, _, _, _, -, -, valid, rfl, rfl⟩
  · exact ⟨Stencil.areSound _ _ valid, Stencil.areSound _ _ valid⟩
  · exact ⟨Layer.areSound_enclose variation.plain valid,
      Layer.areSound_enclose variation.plainOther valid⟩

/-- Parsed into nodes, what a block holds is the same in both. -/
theorem nodesFor_eq (alike : variation.Alike session id body other)
    (unentered : session.bodyOf? variation.layers variation.root ≠ some id) (size : Nat) :
    nodesFor other.around size other.trees = nodesFor body.around size body.trees := by
  rcases alike.cases_layer unentered with
    ⟨rfl, -⟩ | ⟨_, _, layer, _, _, -, -, -, rfl, rfl⟩
  · rfl
  · exact layer.nodesFor_fill _ _

theorem names_eq (alike : variation.Alike session id body other)
    (unentered : session.bodyOf? variation.layers variation.root ≠ some id) (size : Nat) :
    (bodiesFor other.around size other.trees).map Body.name =
      (bodiesFor body.around size body.trees).map Body.name := by
  rcases alike.cases_layer unentered with
    ⟨rfl, -⟩ | ⟨_, _, layer, around, _, -, -, -, rfl, rfl⟩
  · rfl
  · obtain ⟨before, after, within, name, -, bodies, -⟩ := layer.exists_bodiesFor around size
    change (bodiesFor around size (layer.fill _)).map _ =
      (bodiesFor around size (layer.fill _)).map _
    rw [bodies, bodies, List.map_append, List.map_append]
    rfl

/-- Once a block was parsed, the blocks that were added hold alike bodies. -/
theorem bodiesFor (alike : variation.Alike session id body other)
    (unentered : session.bodyOf? variation.layers variation.root ≠ some id)
    {size : Nat} (keeps : session.KeepsNodes after)
    (parsed : (after.block id).nodes? = some (nodesFor body.around size body.trees))
    {place : Nat} {child : Body}
    (found : (Stencil.bodiesFor body.around size body.trees)[place]? = some child) :
    ∃ otherChild, (Stencil.bodiesFor other.around size other.trees)[place]? = some otherChild ∧
      variation.Alike after ⟨size + place⟩ child otherChild := by
  rcases alike.cases_layer unentered with
    ⟨rfl, valid⟩ | ⟨outer, inner, layer, around, _, split, leads, valid, rfl, rfl⟩
  · exact ⟨child, found,
      .same child (areWellFormed_bodiesFor valid (List.mem_of_getElem? found))⟩
  · obtain ⟨before, behind, within, name, inLoop, bodies, isBody⟩ :=
      layer.exists_bodiesFor around size
    change (Stencil.bodiesFor around size (layer.fill _))[place]? = _ at found
    change (after.block id).nodes? = some (nodesFor around size (layer.fill _)) at parsed
    change ∃ _, (Stencil.bodiesFor around size (layer.fill _))[place]? = _ ∧ _
    rw [bodies] at found
    rw [bodies]
    rcases getElem?_middle found with ⟨rfl, rfl⟩ | ⟨member, sameThere⟩
    · refine ⟨_, ?_, .inside (outer ++ [layer]) inner ?_ ?_ ?_⟩
      · rw [List.getElem?_append_right (Nat.le_refl _), Nat.sub_self, List.getElem?_cons_zero]
        rfl
      · rw [List.append_assoc]
        exact split
      · rw [Session.bodyOf?_concat, Session.bodyOf?_keeps keeps leads, Option.bind_some, parsed,
          Option.bind_some, isBody]
      · rw [inLoop]
        exact Layer.areWellFormed_body valid
    · have listed : child ∈ Stencil.bodiesFor around size
          (layer.fill (Layer.enclose inner [])) := by
        rw [bodies]
        rcases List.mem_append.mp member with isBefore | isBehind
        · exact List.mem_append_left _ isBefore
        · exact List.mem_append_right _ (List.mem_cons_of_mem _ isBehind)
      exact ⟨child, sameThere _, .same child (areWellFormed_bodiesFor valid listed)⟩

end Alike

end Variation

/-- The print of some trees as a source. -/
abbrev Text.AnySource.ofTrees (trees : List Tree) : AnySource :=
  .plain (.ofString (String.ofList (printAll trees)))

/-- Blocks that are the same but for their ranges. -/
structure Block.Twin (block other : Block) : Prop where
  source : other.source = block.source
  scope : other.scope = block.scope
  enclosingLoop : other.enclosingLoop = block.enclosingLoop
  wasLeft : other.wasLeft = block.wasLeft
  nodes : other.nodes? = block.nodes?

theorem Block.Twin.refl (block : Block) : block.Twin block :=
  ⟨rfl, rfl, rfl, rfl, rfl⟩

namespace Session

/-- A block of one of its texts that is not parsed yet holds a body. -/
def HoldsBody (session : Session η) (id : BlockRef) (body : Body) : Prop :=
  (session.block id).Holds (session.text (session.block id).source) (session.block id).source body

/-- Sessions of two templates that differ in a body: a block that is not parsed holds alike
bodies. -/
structure Varied (variation : Variation) (session other : Session η) : Prop where
  depth : other.depth = session.depth
  store : other.store = session.store
  placeholders : other.placeholders = session.placeholders
  writes : other.writes = session.writes
  size_blocks : other.blocks.size = session.blocks.size
  size_sources : other.sources.size = session.sources.size
  block : ∀ id, (session.block id).Twin (other.block id)
  unparsed : ∀ id : BlockRef, id.index < session.blocks.size → (session.block id).nodes? = none →
    ∃ body otherBody, variation.Alike session id body otherBody ∧ session.HoldsBody id body ∧
      other.HoldsBody id otherBody

variable {variation : Variation} {session other before after : Session η} {id : BlockRef}

theorem KeepsNodes.of_blocks (blocks : after.blocks = session.blocks) :
    session.KeepsNodes after := by
  intro id nodes parsed
  rwa [Session.block, blocks]

theorem HoldsBody.of_same {body : Body} (holds : session.HoldsBody id body)
    (same : after.block id = session.block id)
    (text : after.text (session.block id).source = session.text (session.block id).source) :
    after.HoldsBody id body := by
  rw [HoldsBody, same, text]
  exact holds

theorem holdsBody_addText (session : Session η) (scope : ScopeRef) (role : BlockRole)
    (trees : List Tree) :
    (session.addText (.ofTrees trees) scope role).2.HoldsBody ⟨session.blocks.size⟩
      ⟨none, "", trees⟩ := by
  have awaits := session.awaits_addText scope role "" trees
  obtain ⟨block, isThere, holds⟩ := awaits.holds 0 _ rfl
  have isBlock : (session.addText (.ofTrees trees) scope role).2.block ⟨session.blocks.size⟩ =
    block := block_eq_of_getElem? isThere
  rw [HoldsBody, isBlock, holds.source, awaits.text]
  exact holds

/-- Marking a block changes nothing but the mark. -/
theorem block_mark (session : Session η) (target : BlockRef) (left : Bool) (id : BlockRef) :
    (session.modifyBlock target ({ · with wasLeft := left })).block id =
      if id = target ∧ target.index < session.blocks.size then
        { session.block id with wasLeft := left } else session.block id := by
  by_cases same : id = target
  · subst same
    by_cases present : id.index < session.blocks.size
    · rw [block_modifyBlock_self _ present, if_pos ⟨rfl, present⟩]
    · have absent := Nat.le_of_not_lt present
      rw [if_neg fun both => present both.2, block_of_le absent, block_of_le]
      exact (Nat.le_of_eq Array.size_modify).trans absent
  · rw [block_modifyBlock_of_ne _ same, if_neg fun both => same both.1]

namespace Varied

/-- Besides what runs read themselves only blocks and texts matter. -/
theorem of_same (varied : session.Varied variation other)
    (blocks : before.blocks = session.blocks) (blocks' : after.blocks = other.blocks)
    (text : ∀ id, before.text id = session.text id) (text' : ∀ id, after.text id = other.text id)
    (sources : after.sources.size = before.sources.size) (depth : after.depth = before.depth)
    (store : after.store = before.store) (placeholders : after.placeholders = before.placeholders)
    (writes : after.writes = before.writes) : before.Varied variation after := by
  have same (id : BlockRef) : before.block id = session.block id := by
    rw [Session.block, Session.block, blocks]
  have same' (id : BlockRef) : after.block id = other.block id := by
    rw [Session.block, Session.block, blocks']
  refine ⟨depth, store, placeholders, writes, ?_, sources, fun id => ?_,
    fun id present isUnparsed => ?_⟩
  · rw [blocks, blocks', varied.size_blocks]
  · rw [same, same']
    exact varied.block id
  · rw [blocks] at present
    rw [same] at isUnparsed
    obtain ⟨body, otherBody, alike, holds, holds'⟩ := varied.unparsed id present isUnparsed
    exact ⟨body, otherBody, alike.keeps (.of_blocks blocks), holds.of_same (same id) (text _),
      holds'.of_same (same' id) (text' _)⟩

theorem revise (varied : session.Varied variation other)
    (revised : session.Revised other before after) : before.Varied variation after := by
  have text {changed kept : Session η} (sources : changed.sources = kept.sources)
      (id : SourceRef) : changed.text id = kept.text id := by
    rw [Session.text, Session.text, Session.source, Session.source, sources]
  refine varied.of_same revised.blocks revised.blocks' (text revised.sources)
    (text revised.sources') ?_ revised.depth revised.store revised.placeholders revised.writes
  rw [revised.sources, revised.sources', varied.size_sources]

/-- Where their sources stand does not matter. -/
theorem displaced (varied : session.Varied variation other) (here : session.Displaced 0 before)
    (there : other.Displaced 0 after) : before.Varied variation after := by
  refine varied.of_same here.blocks there.blocks (fun id => (here.text id))
    (fun id => (there.text id)) ?_ ?_ ?_ ?_ ?_
  · rw [there.size_sources, here.size_sources, varied.size_sources]
  · exact there.depth.symm.trans (varied.depth.trans here.depth)
  · rw [there.store, here.store, varied.store]
  · rw [there.placeholders, here.placeholders, varied.placeholders]
  · rw [there.writes, here.writes, varied.writes]

theorem seek (varied : session.Varied variation other) (source : SourceRef)
    (offset offset' : Nat) :
    (session.setSource source (Source.seek offset (session.source source)).2).Varied variation
      (other.setSource source (Source.seek offset' (other.source source)).2) :=
  varied.displaced (session.displaced_seek source offset).symm
    (other.displaced_seek source offset').symm

theorem mark (varied : session.Varied variation other) (target : BlockRef) (left : Bool) :
    (session.modifyBlock target ({ · with wasLeft := left })).Varied variation
      (other.modifyBlock target ({ · with wasLeft := left })) := by
  have size (session : Session η) :
      (session.modifyBlock target ({ · with wasLeft := left })).blocks.size =
        session.blocks.size := Array.size_modify
  have quiet : session.Quiet (session.modifyBlock target ({ · with wasLeft := left })) :=
    session.quiet_modifyBlock target fun _ => rfl
  refine { varied with size_blocks := ?_, block := fun id => ?_, unparsed := fun id => ?_ }
  · rw [size, size, varied.size_blocks]
  · have twin := varied.block id
    rw [block_mark, block_mark, varied.size_blocks]
    split
    · exact { twin with wasLeft := rfl }
    · exact twin
  · intro present isUnparsed
    rw [size] at present
    have unmarked {session : Session η} : ((session.modifyBlock target
        ({ · with wasLeft := left })).block id).nodes? = (session.block id).nodes? := by
      rw [block_mark]
      split <;> rfl
    have holds {session : Session η} {body : Body} (holds : session.HoldsBody id body) :
        (session.modifyBlock target ({ · with wasLeft := left })).HoldsBody id body := by
      rw [HoldsBody, block_mark]
      split
      · exact ⟨holds.unparsed, holds.source, holds.enclosingLoop, holds.printed⟩
      · exact holds
    rw [unmarked] at isUnparsed
    obtain ⟨body, otherBody, alike, holdsHere, holdsThere⟩ :=
      varied.unparsed id present isUnparsed
    exact ⟨body, otherBody, alike.keeps quiet.toExtends.keepsNodes, holds holdsHere,
      holds holdsThere⟩

end Varied

namespace Fills

variable {embeddings : Embeddings} {body : Body} {made : List Block}

theorem block_self (fills : before.Fills embeddings id body made after) :
    after.block id = (before.block id).withNodes
      (nodesFor body.around before.blocks.size body.trees) :=
  block_eq_of_getElem? fills.parsing.self

theorem exists_made (fills : before.Fills embeddings id body made after)
    (sourcePresent : (before.block id).source.index < before.sources.size) {place : Nat}
    {child : Body}
    (found : (bodiesFor body.around before.blocks.size body.trees)[place]? = some child) :
    ∃ block, made[place]? = some block ∧ after.block ⟨before.blocks.size + place⟩ = block ∧
      block.source = (before.block id).source ∧ block.enclosingLoop = child.around ∧
      block.nodes? = none ∧ block.wasLeft = false ∧
      after.HoldsBody ⟨before.blocks.size + place⟩ child := by
  obtain ⟨block, isMade, holds, wasLeft⟩ := exists_of_forall₂ fills.makes.forall₂ found
  have isThere : after.block ⟨before.blocks.size + place⟩ = block :=
    block_eq_of_getElem? (fills.blocks place block isMade)
  have source : block.source = (before.block id).source := holds.source
  refine ⟨block, isMade, isThere, source, holds.enclosingLoop, holds.unparsed, wasLeft, ?_⟩
  rw [HoldsBody, isThere, source, (fills.parsing.toExtends.source _ sourcePresent).2]
  exact holds

end Fills

namespace Varied

section

variable {embeddings : Embeddings} {body otherBody : Body} {made made' : List Block}
  (varied : session.Varied variation other) (alike : variation.Alike session id body otherBody)
  (unentered : session.bodyOf? variation.layers variation.root ≠ some id)
  (fills : session.Fills embeddings id body made before)
  (fills' : other.Fills embeddings id otherBody made' after)

include varied alike unentered fills fills'

/-- Parsing a block in both makes the same scopes. -/
theorem same_scopes : after.store.heap = before.store.heap ∧
    made'.map Block.scope = made.map Block.scope := by
  have makes' := fills'.makes
  rw [varied.size_blocks, varied.store] at makes'
  exact fills.makes.same_scopes makes' (varied.block id).scope (alike.names_eq unentered _)

theorem length_made : made'.length = made.length := by
  have lengths := congrArg List.length (varied.same_scopes alike unentered fills fills').2
  rwa [List.length_map, List.length_map] at lengths

variable (fitted : session.Fitted) (fitted' : other.Fitted)
  (present : id.index < session.blocks.size)

include fitted fitted' present

/-- Parsing a block in both adds blocks that are the same but for their ranges, and that hold alike
bodies. -/
theorem added {place : Nat} (isNew : place < made.length) :
    (before.block ⟨session.blocks.size + place⟩).Twin
        (after.block ⟨session.blocks.size + place⟩) ∧
      ∃ child otherChild,
        variation.Alike before ⟨session.blocks.size + place⟩ child otherChild ∧
        before.HoldsBody ⟨session.blocks.size + place⟩ child ∧
        after.HoldsBody ⟨session.blocks.size + place⟩ otherChild := by
  have size := varied.size_blocks
  have known := (fitted id _ (getElem?_of_lt present)).1
  have known' := (fitted' id _ (getElem?_of_lt (size ▸ present))).1
  have parsed : (before.block id).nodes? =
      some (nodesFor body.around session.blocks.size body.trees) :=
    congrArg Block.nodes? fills.block_self
  rw [← fills.makes.forall₂.length_eq] at isNew
  have found := List.getElem?_eq_getElem isNew
  obtain ⟨otherChild, foundThere, alikeChild⟩ :=
    alike.bodiesFor unentered fills.parsing.toExtends.keepsNodes parsed found
  obtain ⟨block, isMade, isThere, source, enclosingLoop, isUnparsed, wasLeft, holds⟩ :=
    fills.exists_made known found
  rw [← size] at foundThere
  obtain ⟨block', isMade', isThere', source', enclosingLoop', isUnparsed', wasLeft', holds'⟩ :=
    fills'.exists_made known' foundThere
  rw [size] at isThere' holds'
  have scope : block'.scope = block.scope := by
    have places := congrArg (·[place]?) (varied.same_scopes alike unentered fills fills').2
    simpa [isMade, isMade'] using places
  refine ⟨?_, _, otherChild, alikeChild, holds, holds'⟩
  rw [isThere, isThere']
  exact ⟨by rw [source, source', (varied.block id).source], scope,
    by rw [enclosingLoop, enclosingLoop', alikeChild.around], by rw [wasLeft, wasLeft'],
    by rw [isUnparsed, isUnparsed']⟩

/-- Parsing a block in both leaves them so, unless it is the body in question. -/
theorem fill : before.Varied variation after := by
  have size := varied.size_blocks
  obtain ⟨heap, -⟩ := varied.same_scopes alike unentered fills fills'
  have count := varied.length_made alike unentered fills fills'
  have added {place : Nat} (isNew : place < made.length) :=
    varied.added alike unentered fills fills' fitted fitted' present isNew
  -- A block is the one that was parsed, one that was there before, a new one, or not there.
  refine ⟨?_, ?_, ?_, ?_, ?_, ?_, fun place => ?_, fun place isThere isUnparsed => ?_⟩
  · rw [fills.depth, fills'.depth, varied.depth]
  · rw [fills.store, fills'.store, varied.store, heap]
  · rw [fills.parsing.placeholders, fills'.parsing.placeholders, varied.placeholders]
  · rw [fills.writes, fills'.writes, varied.writes]
  · rw [fills.size_blocks, fills'.size_blocks, size, count]
  · rw [fills.size_sources, fills'.size_sources, varied.size_sources]
  · by_cases same : place = id
    · subst same
      have twin := varied.block place
      rw [fills.block_self, fills'.block_self, size, alike.nodesFor_eq unentered]
      exact ⟨twin.source, twin.scope, twin.enclosingLoop, twin.wasLeft, rfl⟩
    · by_cases earlier : place.index < session.blocks.size
      · rw [fills.parsing.block_of_ne same earlier,
          fills'.parsing.block_of_ne same (size ▸ earlier)]
        exact varied.block place
      · obtain ⟨more, isBehind⟩ := Nat.exists_eq_add_of_le (Nat.le_of_not_lt earlier)
        obtain rfl : place = ⟨session.blocks.size + more⟩ := congrArg BlockRef.mk isBehind
        by_cases isNew : more < made.length
        · exact (added isNew).1
        · rw [block_of_le (by rw [fills.size_blocks]; omega),
            block_of_le (by rw [fills'.size_blocks]; omega)]
          exact .refl _
  · by_cases same : place = id
    · subst same
      rw [fills.block_self] at isUnparsed
      cases isUnparsed
    · by_cases earlier : place.index < session.blocks.size
      · have isBlock := fills.parsing.block_of_ne same earlier
        have isBlock' := fills'.parsing.block_of_ne same (size ▸ earlier)
        rw [isBlock] at isUnparsed
        obtain ⟨child, otherChild, alikeChild, holds, holds'⟩ :=
          varied.unparsed place earlier isUnparsed
        have known := (fitted place _ (getElem?_of_lt earlier)).1
        have known' := (fitted' place _ (getElem?_of_lt (size ▸ earlier))).1
        exact ⟨child, otherChild, alikeChild.keeps fills.parsing.toExtends.keepsNodes,
          holds.of_same isBlock (fills.parsing.toExtends.source _ known).2,
          holds'.of_same isBlock' (fills'.parsing.toExtends.source _ known').2⟩
      · obtain ⟨more, isBehind⟩ := Nat.exists_eq_add_of_le (Nat.le_of_not_lt earlier)
        obtain rfl : place = ⟨session.blocks.size + more⟩ := congrArg BlockRef.mk isBehind
        rw [fills.size_blocks] at isThere
        exact (added (Nat.lt_of_add_lt_add_left isThere)).2

end

/-- A block that is parsed from its start is parsed alike in both, unless it is the body in
question. -/
theorem parseBlock_atStart (varied : session.Varied variation other) (fitted : session.Fitted)
    (fitted' : other.Fitted)
    (unentered : session.bodyOf? variation.layers variation.root ≠ some id)
    (isUnparsed : (session.block id).nodes? = none) (embeddings : Embeddings) :
    ((other.atStart id).parseBlock embeddings id).1 =
        ((session.atStart id).parseBlock embeddings id).1 ∧
      ((session.atStart id).parseBlock embeddings id).2.Varied variation
        ((other.atStart id).parseBlock embeddings id).2 := by
  have sought : (session.atStart id).Varied variation (other.atStart id) := by
    rw [atStart, atStart, (varied.block id).source]
    exact varied.seek _ _ _
  by_cases present : id.index < session.blocks.size
  · have present' : id.index < other.blocks.size := varied.size_blocks ▸ present
    have known := (fitted id _ (getElem?_of_lt present)).1
    have known' := (fitted' id _ (getElem?_of_lt present')).1
    have quiet (session : Session η) : session.Quiet (session.atStart id) :=
      session.quiet_seek _ _
    have fittedAt := fitted.of_quiet (quiet session)
    have fittedAt' := fitted'.of_quiet (quiet other)
    obtain ⟨body, otherBody, alike, holds, holds'⟩ := sought.unparsed id present isUnparsed
    obtain ⟨sound, sound'⟩ := alike.areSound unentered
    obtain ⟨made, after, fills⟩ := (session.atStart id).exists_fills embeddings present
      (fittedAt id _ (getElem?_of_lt present)).1 holds sound (offset_atStart fitted id known)
    obtain ⟨made', after', fills'⟩ := (other.atStart id).exists_fills embeddings present'
      (fittedAt' id _ (getElem?_of_lt present')).1 holds' sound' (offset_atStart fitted' id known')
    rw [fills.parses, fills'.parses]
    refine ⟨?_, sought.fill alike unentered fills fills' fittedAt fittedAt' present⟩
    rw [sought.size_blocks, alike.nodesFor_eq unentered]
  · have absent := Nat.le_of_not_lt present
    have absent' : other.blocks.size ≤ id.index := varied.size_blocks ▸ absent
    obtain ⟨nodes, displaced⟩ := (session.atStart id).parseBlock_absent embeddings absent
    obtain ⟨nodes', displaced'⟩ := (other.atStart id).parseBlock_absent embeddings absent'
    exact ⟨nodes'.trans nodes.symm, sought.displaced displaced displaced'⟩

/-- Each of both gets the print of one of two bodies that are alike. -/
theorem addText (varied : session.Varied variation other) (fitted : session.Fitted)
    (fitted' : other.Fitted) (scope : ScopeRef) (role : BlockRole) {trees otherTrees : List Tree}
    (alike : variation.Alike (session.addText (.ofTrees trees) scope role).2
      ⟨session.blocks.size⟩ ⟨none, "", trees⟩ ⟨none, "", otherTrees⟩) :
    (session.addText (.ofTrees trees) scope role).2.Varied variation
      (other.addText (.ofTrees otherTrees) scope role).2 := by
  have size := varied.size_blocks
  have isNew : (session.addText (.ofTrees trees) scope role).2.block ⟨session.blocks.size⟩ = _ :=
    block_addText_last _ scope role
  have isNew' : (other.addText (.ofTrees otherTrees) scope role).2.block ⟨other.blocks.size⟩ = _ :=
    block_addText_last _ scope role
  rw [size] at isNew'
  have grown (session : Session η) (trees : List Tree) :
      (session.addText (.ofTrees trees) scope role).2.blocks.size = session.blocks.size + 1 :=
    Array.size_push _
  refine ⟨varied.depth, varied.store, varied.placeholders, varied.writes, ?_, ?_, fun id => ?_,
    fun id isThere isUnparsed => ?_⟩
  · rw [grown, grown, size]
  · exact (Array.size_push _).trans
      ((congrArg Nat.succ varied.size_sources).trans (Array.size_push _).symm)
  · rcases Nat.lt_trichotomy id.index session.blocks.size with earlier | isLast | absent
    · rw [block_addText_of_lt earlier, block_addText_of_lt (size ▸ earlier)]
      exact varied.block id
    · obtain rfl : id = ⟨session.blocks.size⟩ := congrArg BlockRef.mk isLast
      rw [isNew, isNew', varied.size_sources]
      exact ⟨rfl, rfl, rfl, rfl, rfl⟩
    · rw [block_of_le (by rw [grown]; omega), block_of_le (by rw [grown]; omega)]
      exact .refl _
  · rw [grown] at isThere
    rcases Nat.lt_succ_iff_lt_or_eq.mp isThere with earlier | isLast
    · have isBlock : (session.addText (.ofTrees trees) scope role).2.block id = _ :=
        block_addText_of_lt earlier
      have isBlock' : (other.addText (.ofTrees otherTrees) scope role).2.block id = _ :=
        block_addText_of_lt (size ▸ earlier)
      have known := (fitted id _ (getElem?_of_lt earlier)).1
      have known' := (fitted' id _ (getElem?_of_lt (size ▸ earlier))).1
      rw [isBlock] at isUnparsed
      obtain ⟨body, otherBody, alikeHere, holds, holds'⟩ := varied.unparsed id earlier isUnparsed
      have ext := session.extends_addText (.ofTrees trees) scope role
      have ext' := other.extends_addText (.ofTrees otherTrees) scope role
      exact ⟨body, otherBody, alikeHere.keeps ext.keepsNodes,
        holds.of_same isBlock (ext.source _ known).2,
        holds'.of_same isBlock' (ext'.source _ known').2⟩
    · obtain rfl : id = ⟨session.blocks.size⟩ := congrArg BlockRef.mk isLast
      refine ⟨_, _, alike, session.holdsBody_addText scope role trees, ?_⟩
      rw [← size]
      exact other.holdsBody_addText scope role otherTrees

end Varied

end Session

/-- As long as the body in question is not run, sessions of both templates run alike. -/
def Variation.kinship (variation : Variation) (embeddings : Embeddings) :
    Run.Kinship η embeddings where
  related session other := session.Varied variation other
  mayRun session id := session.bodyOf? variation.layers variation.root ≠ some id
  alike _ := True
  alike_of_mayRun _ := trivial
  depth varied := varied.depth
  store varied := varied.store
  placeholders varied := varied.placeholders
  writes varied := varied.writes
  scope varied id := (varied.block id).scope
  wasLeft varied id := (varied.block id).wasLeft
  revise varied revised := varied.revise revised
  mark varied := varied.mark
  seek varied := varied.seek
  block varied _ :=
    ⟨(varied.block _).source, (varied.block _).enclosingLoop, (varied.block _).nodes⟩
  parses varied fitted fitted' may isUnparsed :=
    varied.parseBlock_atStart fitted fitted' (of_decide_eq_true may) isUnparsed embeddings

end Stencil
