import Stencil.Proofs.Run.Block
import Stencil.Proofs.Run.Lockstep
import Stencil.Proofs.Session.Behind

/-!
# Runs of a part of a text

A template whose source stands behind the beginning of its text runs in lockstep with the template
of the rest.  Errors of parsing its own source name the place in the whole text; every other stop is
the same.
-/

namespace Stencil

open Text

variable {η : Type}

namespace Session

/-- A block of a source was parsed up to an error. -/
def Malformed (session : Session η) (source : SourceRef) (error : TemplateError) : Prop :=
  ∃ (id : BlockRef) (nodes : List Node), (session.block id).source = source ∧
    (session.block id).nodes? = some nodes ∧ .malformed error ∈ nodes

/-- How a stop shows if the source of a template stands behind a lead: an error that a block of this
source was parsed up to is found further on, and any other stop is the same. -/
inductive StopsBehind (host : Host η) (lead : Lead) (session : Session η) : Stop → Stop → Prop where
  | own {error : TemplateError} (malformed : session.Malformed lead.source error) :
      StopsBehind host lead session (.failed error) (.failed (error.relocate lead.placed))
  | elsewhere {source : SourceRef} {error : TemplateError} (different : source ≠ lead.source)
      (malformed : session.Malformed source error) :
      StopsBehind host lead session (.failed error) (.failed error)
  | plain {stop : Stop} (isPlain : stop.Plain host) : StopsBehind host lead session stop stop

end Session

namespace Run

/-- The pairing of a session that came about from a base with that of the whole text. -/
def behind (environment : Environment η) (lead : Lead) (base : Session η) : Run.Pairing η where
  related before before' :=
    before.Behind lead before' ∧ before.Valid environment.embeddings ∧ base.Extends before
  runs session id := id.index < session.blocks.size
  stops := Session.StopsBehind environment.host lead
  excused _ := False

variable {environment : Environment η} {lead : Lead} {base now before before' : Session η}
  {id : BlockRef}

/-- Changes of both sessions that parse nothing keep them related. -/
theorem related_behind (related : (behind environment lead base).related before before')
    {after after' : Session η} (quiet : before.Quiet after) (goOn : after.Behind lead after')
    (placeholders : ∀ key placeholder, after.placeholders.get? key = some placeholder →
      before.HasRole .placeholder placeholder.body) :
    (behind environment lead base).related after after' :=
  ⟨goOn, quiet.valid related.2.1 placeholders, related.2.2.trans quiet.toExtends⟩

theorem lawful_behind (environment : Environment η) (lead : Lead) (base : Session η) :
    (behind environment lead base).Lawful environment.host where
  plain _ _ isPlain := .plain isPlain
  stops session store depth stop stop' same := by
    cases same with
    | own malformed => exact .own malformed
    | elsewhere different malformed => exact .elsewhere different malformed
    | plain isPlain => exact .plain isPlain
  store _ _ related := related.1.store
  placeholders _ _ related := related.1.placeholders
  scope _ _ related := related.1.eq_of_block Block.scope fun _ _ same => same.scope
  wasLeft _ _ related := related.1.eq_of_block Block.wasLeft fun _ _ same => same.wasLeft
  withStore before before' related store := by
    have ⟨here, valid, _⟩ := related
    exact related_behind related ⟨rfl, rfl, fun _ => rfl, fun _ => rfl⟩
      ⟨here.depth, rfl, here.placeholders, here.writes, here.size_sources, here.present, here.text,
        here.cursor, here.blocks⟩ valid.placeholders
  write before before' related text := by
    have ⟨here, valid, _⟩ := related
    exact related_behind related ⟨rfl, rfl, fun _ => rfl, fun _ => rfl⟩
      ⟨here.depth, here.store, here.placeholders, congrArg (·.push text) here.writes,
        here.size_sources, here.present, here.text, here.cursor, here.blocks⟩ valid.placeholders
  mark before before' related target left :=
    related_behind related (before.quiet_modifyBlock target fun _ => rfl)
      (related.1.mark target left) related.2.1.placeholders
  bodies before before' related key placeholder found := by
    obtain ⟨block, isThere, -⟩ := related.2.1.placeholders key placeholder found
    exact Session.lt_of_getElem? isThere

/-- The nodes of a block that stand for no error can be run. -/
theorem admits_behind (valid : now.Valid environment.embeddings)
    (present : id.index < now.blocks.size) {nodes : List Node}
    (parsed : (now.block id).nodes? = some nodes) {node : Node} (member : node ∈ nodes)
    (directs : node.Directs) : (behind environment lead now).Admits node where
  runs before before' related target isTarget :=
    related.2.2.lt (valid.node_blocks
      (Session.getElem?_of_lt present) parsed member target isTarget)
  defines := by
    rintro key parameter body rfl before before' related
    have ⟨here, validBefore, ext⟩ := related
    obtain ⟨-, origins⟩ := valid.parsed id _ nodes (Session.getElem?_of_lt present) parsed
    have made : now.HasRole .placeholder body := by
      cases origins _ member with
      | definePlaceholder _ _ _ opening isMade =>
          obtain ⟨block, isThere, role, -⟩ := isMade.exists_block
          exact ⟨block, isThere, role⟩
    refine related_behind related ⟨rfl, rfl, fun _ => rfl, fun _ => rfl⟩
      ⟨here.depth, here.store, by rw [here.placeholders], here.writes, here.size_sources,
        here.present, here.text, here.cursor, here.blocks⟩ fun other placeholder found => ?_
    by_cases same : other = key
    · subst same
      rw [Dictionary.get?_put_self] at found
      cases found
      exact ext.hasRole made
    · rw [Dictionary.get?_put_of_ne _ _ same] at found
      exact validBefore.placeholders other placeholder found
  fails error same := absurd same (directs error)

namespace Lockstep

/-- A source goes to a place of its text, and behind the lead in the whole text. -/
theorem seek_behind {source : SourceRef} {offset : Nat}
    (place : ∀ after, base.Extends after → IsPlace (after.text source) offset) :
    Lockstep (behind environment lead base) (Run.seek source offset)
      (Run.seek source (offset + byteLength (lead.front source))) fun _ _ => True := by
  intro before before' related
  have isPlace := place before related.2.2
  rw [EndAlike, (ran_seek isPlace).2.2, (ran_seek (related.1.isPlace isPlace)).2.2]
  exact .inr ⟨related_behind related (before.quiet_seek source offset) (related.1.seek isPlace)
    related.2.1.placeholders, .ok trivial⟩

/-- A block is parsed into the same nodes, but for the place of an error at their end. -/
theorem nodesOf_behind (related : (behind environment lead base).related before before')
    (present : id.index < before.blocks.size) :
    EndAlike (behind environment lead base) (Run.nodesOf environment id)
      (Run.nodesOf environment id)
      (Node.Relocated (lead.position (before.block id).source)) before before' := by
  have ⟨here, valid, ext⟩ := related
  have block := here.block present
  have sameNodes := block.nodes
  cases isParsed : (before.block id).nodes? with
  | some nodes =>
      rw [isParsed] at sameNodes
      cases isParsed' : (before'.block id).nodes? with
      | none =>
          rw [isParsed'] at sameNodes
          cases sameNodes
      | some nodes' =>
          rw [isParsed'] at sameNodes
          cases sameNodes with
          | some relocated =>
              rw [EndAlike, ran_nodesOf_of_parsed environment isParsed,
                ran_nodesOf_of_parsed environment isParsed']
              exact .inr ⟨related, .ok relocated⟩
  | none =>
      have unparsed' : (before'.block id).nodes? = none := by
        rw [isParsed] at sameNodes
        generalize (before'.block id).nodes? = nodes'? at sameNodes
        cases sameNodes
        rfl
      have place := valid.fitted.isPlace_start id
      have sourcePresent := valid.source_lt (Session.getElem?_of_lt present)
      obtain ⟨-, pointer, sought⟩ := ran_seek place
      obtain ⟨-, -, sought'⟩ := ran_seek (here.isPlace place)
      rw [← block.start, ← block.source] at sought'
      have quiet := before.quiet_seek (before.block id).source (before.block id).start
      have validSought := quiet.valid valid valid.placeholders
      have isSource := Session.source_setSource_self (Source.seek (before.block id).start
        (before.source (before.block id).source)).2 sourcePresent
      have parsing : Session.Parsing environment.embeddings (before.setSource _ _) id _ _ :=
        Session.parsing_parseBlock present (quiet.sources.symm ▸ sourcePresent) isParsed
          ((congrArg Source.pointer isSource).trans pointer)
      obtain ⟨relocated, hereAfter⟩ :=
        (here.seek place).parseBlock environment.embeddings present
      rw [EndAlike, ran_nodesOf_of_unparsed environment isParsed sought,
        ran_nodesOf_of_unparsed environment unparsed' sought', block.start, block.source]
      exact .inr ⟨⟨hereAfter, parsing.valid present isParsed validSought,
        ext.trans (quiet.toExtends.trans parsing.toExtends)⟩, .ok relocated⟩

/-- Blocks that are entered one level deeper end alike if they are there. -/
theorem nested_behind {runBlock runBlock' : BlockRef → Run η Unit} (what : Nested)
    (related : (behind environment lead base).related before before')
    (present : id.index < before.blocks.size)
    (block : ∀ before before', (behind environment lead base).related before before' →
      id.index < before.blocks.size → EndAlike (behind environment lead base) (runBlock id)
        (runBlock' id) (fun _ _ => True) before before') :
    EndAlike (behind environment lead base) (Run.nested runBlock what id)
      (Run.nested runBlock' what id) (fun _ _ => True) before before' := by
  have changeDepth (depth depth' : Session η → Nat)
      (same : ∀ after after', after.Behind lead after' → depth' after' = depth after)
      {after after' : Session η}
      (relatedAfter : (behind environment lead base).related after after') :
      (behind environment lead base).related { after with depth := depth after }
        { after' with depth := depth' after' } := by
    have ⟨here, valid, _⟩ := relatedAfter
    exact related_behind relatedAfter ⟨rfl, rfl, fun _ => rfl, fun _ => rfl⟩
      ⟨same _ _ here, here.store, here.placeholders, here.writes, here.size_sources, here.present,
        here.text, here.cursor, here.blocks⟩ valid.placeholders
  refine Lockstep.nested (lawful_behind environment lead base)
    (behind environment lead base).related what id related (fun isDeep => .inl ?_)
    (fun below => ⟨?_, ?_⟩) fun after after' relatedAfter => ?_
  · rwa [related.1.depth]
  · rwa [related.1.depth]
  · exact block _ _ (changeDepth (·.depth + 1) (·.depth + 1) (fun _ _ here => by rw [here.depth])
      related) present
  · exact changeDepth (·.depth - 1) (·.depth - 1) (fun _ _ here => by rw [here.depth]) relatedAfter

/-- The nodes of a block are in lockstep if the blocks that they run are. -/
theorem nodes_behind (valid : now.Valid environment.embeddings)
    (present : id.index < now.blocks.size) {nodes nodes' : List Node}
    (parsed : (now.block id).nodes? = some nodes)
    (relocated : Node.Relocated (lead.position (now.block id).source) nodes nodes')
    {runBlock : BlockRef → Run η Unit} {fuel : Nat}
    (blocks : ∀ inner before before', (behind environment lead now).related before before' →
      inner.index < before.blocks.size → EndAlike (behind environment lead now) (runBlock inner)
        (runBlock inner) (fun _ _ => True) before before')
    (scope : ScopeRef) (enclosingLoop : Option BlockRef) :
    Lockstep (behind environment lead now)
      (Run.nodes (Run.node environment runBlock fuel scope) enclosingLoop nodes)
      (Run.nodes (Run.node environment runBlock fuel scope) enclosingLoop nodes')
      fun _ _ => True := by
  have lawful := lawful_behind environment lead now
  have admitted (node : Node) (member : node ∈ nodes) (directs : node.Directs) :
      Lockstep (behind environment lead now) (Run.node environment runBlock fuel scope node)
        (Run.node environment runBlock fuel scope node) fun _ _ => True :=
    .node lawful blocks (fun what inner before before' related isThere =>
        nested_behind what related isThere (blocks inner)) (.inl rfl) scope
      (admits_behind valid present parsed member directs)
  refine Lockstep.nodes lawful enclosingLoop ?_
  cases relocated with
  | same nodes directs =>
      exact List.forall₂_same.mpr fun node member => admitted node member (directs node member)
  | malformed earlier directs error expected =>
      refine List.rel_append (List.forall₂_same.mpr fun node member =>
        admitted node (List.mem_append_left _ member) (directs node member)) (.cons ?_ .nil)
      refine .stop fun before before' related => ?_
      have ext := related.2.2
      obtain ⟨later, isThere, outline, kept⟩ := ext.block _ _ (Session.getElem?_of_lt present)
      have isLater : before.block id = later := Session.block_eq_of_getElem? isThere
      have malformed : before.Malformed (now.block id).source error := by
        refine ⟨id, _, ?_, isLater ▸ kept _ parsed, List.mem_append_right _ List.mem_cons_self⟩
        rw [isLater]
        exact Block.eq_of_outline Block.source (fun _ => rfl) outline
      by_cases own : (now.block id).source = lead.source
      · rw [own] at malformed ⊢
        rw [Lead.position_self]
        exact .own malformed
      · have stays : error.relocate (fun place => place) = error := error.relocate_id
        rw [Lead.position_of_ne own, stays]
        exact .elsewhere own malformed

/-- A block runs in lockstep with the same block of the whole text. -/
theorem block_behind (environment : Environment η) (lead : Lead) (fuel : Nat) (base : Session η)
    (id : BlockRef) : ∀ before before', (behind environment lead base).related before before' →
      id.index < before.blocks.size → EndAlike (behind environment lead base)
        (Run.block environment fuel id) (Run.block environment fuel id) (fun _ _ => True)
        before before' := by
  induction fuel generalizing base id with
  | zero =>
      exact fun before before' related _ =>
        Lockstep.stop (fun session _ _ => (lawful_behind environment lead base).plain session _
          .outOfFuel) before before' related
  | succ fuel induction =>
      intro before before' related present
      rw [block]
      unfold blockWith
      refine Lockstep.bind_at (nodesOf_behind related present) ?_
      rintro parsed parsed' now now' ran relatedNow relocated
      have ⟨here, valid, ext⟩ := relatedNow
      obtain ⟨presentNow, isParsed, outline⟩ : id.index < now.blocks.size ∧
          (now.block id).nodes? = some parsed ∧
          (now.block id).outline = (before.block id).outline := by
        have sound : (Policy.free fun _ => True).Sound environment.embeddings before :=
          ⟨related.2.1, trivial, fun _ _ _ => trivial⟩
        have obeys := Policy.Obeys.nodesOf
          (Policy.lawful_free (fun _ => True) True environment.host)
          present (.inl trivial) sound
        rw [ran] at obeys
        have later := obeys.1.toExtends related.2.1
        exact ⟨later.lt present, obeys.2.1 parsed rfl, later.outline_block present⟩
      have source : (now.block id).source = (before.block id).source :=
        Block.eq_of_outline Block.source (fun _ => rfl) outline
      have block := here.block presentNow
      rw [← source] at relocated
      have body : Lockstep (behind environment lead now)
          (do
            Run.seek (now.block id).source (now.block id).start
            Run.nodes (Run.node environment (Run.block environment fuel) fuel (now.block id).scope)
              (now.block id).enclosingLoop parsed
            Run.seek (now.block id).source (now.block id).finish : Run η Unit)
          (do
            Run.seek (now'.block id).source (now'.block id).start
            Run.nodes (Run.node environment (Run.block environment fuel) fuel (now'.block id).scope)
              (now'.block id).enclosingLoop parsed'
            Run.seek (now'.block id).source (now'.block id).finish : Run η Unit)
          fun _ _ => True := by
        rw [block.source, block.start, block.finish, block.scope, block.enclosingLoop]
        refine (seek_behind fun _ later => (valid.fitted.isPlace_later later id).1).bind
          fun _ _ _ => ?_
        refine (nodes_behind valid presentNow isParsed relocated (induction now) _ _).bind
          fun _ _ _ => ?_
        exact seek_behind fun _ later => (valid.fitted.isPlace_later later id).2
      have ended := body now now' ⟨here, valid, .refl now⟩
      exact .get_bind (ended.imp_right fun ⟨⟨goOn, validLater, extLater⟩, same⟩ =>
        ⟨⟨goOn, validLater, ext.trans extLater⟩, same⟩)

end Lockstep

end Run

end Stencil
