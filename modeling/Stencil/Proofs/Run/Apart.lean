import Stencil.Proofs.Run.Displaced
import Stencil.Proofs.Run.Refines
import Stencil.Proofs.Session.Apart

/-!
# Runs of sessions that are apart in one block

Runs of such sessions go in lockstep as long as the first comes neither to that block nor to one
that may be parsed in another way.
-/

namespace Stencil

open Text

variable {η : Type}

/-- The session whose source of a block was sent to the start of the block. -/
def Session.atStart (session : Session η) (id : BlockRef) : Session η :=
  session.setSource (session.block id).source
    (Source.seek (session.block id).start (session.source (session.block id).source)).2

theorem Session.offset_atStart {session : Session η} (fitted : session.Fitted) (id : BlockRef)
    (known : (session.block id).source.index < session.sources.size) :
    ((session.atStart id).draft id).source.offset = (session.block id).start := by
  have pointer := (Run.ran_seek (fitted.isPlace_start id)).2.1
  have stands : (session.atStart id).source (session.block id).source = _ :=
    source_setSource_self _ known
  change (((session.atStart id).source (session.block id).source).cursor).offset = _
  rw [stands]
  exact pointer

theorem Session.source_setSource_of_le {session : Session η} {id : SourceRef} (source : AnySource)
    (absent : session.sources.size ≤ id.index) :
    (session.setSource id source).source id = default := by
  rw [Session.source, setSource, Array.getD_eq_getD_getElem?,
    Array.getElem?_eq_none (by rwa [Array.size_setIfInBounds])]
  rfl

/-- A block of a text that is the same in sessions that are apart is parsed alike from its start. -/
theorem Session.Apart.parseBlock_atStart {divergence : Divergence} {session other : Session η}
    (apart : session.Apart divergence other) (fitted : session.Fitted) (embeddings : Embeddings)
    {id : BlockRef} (different : id ≠ divergence.block)
    (same : divergence.source ≠ some (session.block id).source) :
    ((other.atStart id).parseBlock embeddings id).1 =
        ((session.atStart id).parseBlock embeddings id).1 ∧
      ((session.atStart id).parseBlock embeddings id).2.Apart divergence
        ((other.atStart id).parseBlock embeddings id).2 := by
  have sameBlock := apart.block different
  have sought := seek_of_text (apart.text _ same) (session.block id).start
  have moved := apart.seek (session.block id).source (session.block id).start
  have stands := sought.2 (Run.ran_seek (fitted.isPlace_start id)).1
  rw [atStart, atStart, sameBlock]
  refine moved.parseBlock embeddings different ?_
  change ((other.setSource _ _).source (session.block id).source).cursor =
    ((session.setSource _ _).source (session.block id).source).cursor
  by_cases known : (session.block id).source.index < session.sources.size
  · rw [source_setSource_self _ known, source_setSource_self _ (apart.size_sources ▸ known)]
    exact stands
  · rw [source_setSource_of_le _ (Nat.le_of_not_lt known),
      source_setSource_of_le _ (apart.size_sources ▸ Nat.le_of_not_lt known)]

/-- Two sessions keep their blocks and sources and are given the same besides. -/
structure Session.Revised (session other after after' : Session η) : Prop where
  blocks : after.blocks = session.blocks
  sources : after.sources = session.sources
  blocks' : after'.blocks = other.blocks
  sources' : after'.sources = other.sources
  depth : after'.depth = after.depth
  store : after'.store = after.store
  placeholders : after'.placeholders = after.placeholders
  writes : after'.writes = after.writes

theorem Session.Apart.revise {divergence : Divergence} {session other after after' : Session η}
    (apart : session.Apart divergence other) (revised : session.Revised other after after') :
    after.Apart divergence after' := by
  obtain ⟨sources, blocks, _, _, _, _⟩ := after
  obtain ⟨sources', blocks', _, _, _, _⟩ := after'
  obtain ⟨rfl, rfl, rfl, rfl, depth, store, placeholders, writes⟩ := revised
  exact ⟨depth, store, placeholders, writes, apart.present, apart.size_blocks, apart.blocks,
    apart.scope, apart.wasLeft, apart.size_sources, apart.text, apart.own⟩

/-- How sessions may differ that run alike as long as the first one comes to certain blocks only.
What runs read of them is the same, changes of both keep them so, and these blocks are parsed
alike. -/
structure Run.Kinship (η : Type) (embeddings : Embeddings) where
  related : Session η → Session η → Prop
  /-- The blocks that the first one may come to. -/
  mayRun : Session η → BlockRef → Bool
  /-- The blocks that are the same but for their ranges. -/
  alike : BlockRef → Prop
  alike_of_mayRun {session : Session η} {id : BlockRef} : mayRun session id = true → alike id
  depth {session other : Session η} : related session other → other.depth = session.depth
  store {session other : Session η} : related session other → other.store = session.store
  placeholders {session other : Session η} : related session other →
    other.placeholders = session.placeholders
  writes {session other : Session η} : related session other → other.writes = session.writes
  scope {session other : Session η} : related session other → ∀ id,
    (other.block id).scope = (session.block id).scope
  wasLeft {session other : Session η} : related session other → ∀ id,
    (other.block id).wasLeft = (session.block id).wasLeft
  revise {session other after after' : Session η} : related session other →
    session.Revised other after after' → related after after'
  mark {session other : Session η} : related session other → ∀ target left,
    related (session.modifyBlock target ({ · with wasLeft := left }))
      (other.modifyBlock target ({ · with wasLeft := left }))
  seek {session other : Session η} : related session other → ∀ source offset offset',
    related (session.setSource source (Source.seek offset (session.source source)).2)
      (other.setSource source (Source.seek offset' (other.source source)).2)
  block {session other : Session η} {id : BlockRef} : related session other → alike id →
    (other.block id).source = (session.block id).source ∧
      (other.block id).enclosingLoop = (session.block id).enclosingLoop ∧
      (other.block id).nodes? = (session.block id).nodes?
  parses {session other : Session η} {id : BlockRef} : related session other →
    session.Fitted → other.Fitted → mayRun session id = true → (session.block id).nodes? = none →
    ((other.atStart id).parseBlock embeddings id).1 =
        ((session.atStart id).parseBlock embeddings id).1 ∧
      related ((session.atStart id).parseBlock embeddings id).2
        ((other.atStart id).parseBlock embeddings id).2

namespace Run

/-- Runs a block, and stops before the first block inside it that must not run. -/
def blockWhere (mayRun : Session η → BlockRef → Bool) (environment : Environment η) :
    Nat → BlockRef → Run η Unit
  | 0, _ => throw .outOfFuel
  | fuel + 1, id =>
      blockWith environment (fun inner => do
        if mayRun (← get) inner then blockWhere mayRun environment fuel inner
        else throw .outOfFuel) fuel id

/-- Runs a block unless it must not run. -/
def guarded (mayRun : Session η → BlockRef → Bool) (environment : Environment η) (fuel : Nat)
    (id : BlockRef) : Run η Unit := do
  if mayRun (← get) id then blockWhere mayRun environment fuel id
  else throw .outOfFuel

theorem Refines.guarded_of {mayRun : Session η → BlockRef → Bool} {environment : Environment η}
    {fuel : Nat} {id : BlockRef}
    (refines : (Run.blockWhere mayRun environment fuel id).Refines
      (Run.block environment fuel id)) :
    (Run.guarded mayRun environment fuel id).Refines (Run.block environment fuel id) := by
  intro session
  change (if mayRun session id then _ else _ : Run η Unit).run.run session = _ ∨
    ((if mayRun session id then _ else _ : Run η Unit).run.run session).1 = _
  split
  · exact refines session
  · exact .inr rfl

/-- Such a run does what the run of the block does, unless it stops before a block. -/
theorem Refines.blockWhere (mayRun : Session η → BlockRef → Bool) (environment : Environment η)
    (fuel : Nat) (id : BlockRef) :
    (Run.blockWhere mayRun environment fuel id).Refines (Run.block environment fuel id) := by
  induction fuel generalizing id with
  | zero => exact stop _
  | succ fuel induction =>
      exact blockWith (fun inner => guarded_of (induction inner)) (Nat.le_refl fuel) id

variable {embeddings : Embeddings} {kinship : Run.Kinship η embeddings} {base base' : Session η}

/-- The pairing of akin sessions that came about from two bases by parsing.  A run that stops
without an answer is not compared. -/
def akin (kinship : Run.Kinship η embeddings) (base base' : Session η) : Run.Pairing η where
  related before before' := kinship.related before before' ∧ before.Fitted ∧ before'.Fitted ∧
    base.Extends before ∧ base'.Extends before'
  stops _ := Eq
  excused stop := stop = .outOfFuel

theorem related_akin {before before' after after' : Session η}
    (related : (akin kinship base base').related before before')
    (goOn : kinship.related after after') (quiet : before.Quiet after)
    (quiet' : before'.Quiet after') : (akin kinship base base').related after after' := by
  obtain ⟨-, fitted, fitted', ext, ext'⟩ := related
  exact ⟨goOn, fitted.of_quiet quiet, fitted'.of_quiet quiet', ext.trans quiet.toExtends,
    ext'.trans quiet'.toExtends⟩

/-- A change of what is neither a block nor a source. -/
theorem quiet_of_same {before after : Session η} (blocks : after.blocks = before.blocks)
    (sources : after.sources = before.sources) : before.Quiet after := by
  have source (id : SourceRef) : after.source id = before.source id := by
    rw [Session.source, Session.source, sources]
  exact ⟨by rw [blocks], by rw [sources], fun id => by rw [Session.text, Session.text, source],
    fun id => by rw [source]⟩

theorem revise_akin {before before' after after' : Session η}
    (related : (akin kinship base base').related before before')
    (revised : before.Revised before' after after') :
    (akin kinship base base').related after after' :=
  related_akin related (kinship.revise related.1 revised)
    (quiet_of_same revised.blocks revised.sources) (quiet_of_same revised.blocks' revised.sources')

theorem lawful_akin (kinship : Run.Kinship η embeddings) (base base' : Session η)
    (host : Host η) : (akin kinship base base').Lawful host where
  plain _ _ _ := rfl
  stops _ _ _ _ _ same := same
  store _ _ related := kinship.store related.1
  placeholders _ _ related := kinship.placeholders related.1
  scope _ _ related := kinship.scope related.1
  wasLeft _ _ related := kinship.wasLeft related.1
  withStore _ _ related _ := by
    have depth := kinship.depth related.1
    have placeholders := kinship.placeholders related.1
    have writes := kinship.writes related.1
    exact revise_akin related ⟨rfl, rfl, rfl, rfl, depth, rfl, placeholders, writes⟩
  write _ _ related text := by
    have depth := kinship.depth related.1
    have store := kinship.store related.1
    have placeholders := kinship.placeholders related.1
    have writes := congrArg (·.push text) (kinship.writes related.1)
    exact revise_akin related ⟨rfl, rfl, rfl, rfl, depth, store, placeholders, writes⟩
  mark before before' related target left := related_akin related
    (kinship.mark related.1 target left) (before.quiet_modifyBlock target fun _ => rfl)
    (before'.quiet_modifyBlock target fun _ => rfl)
  bodies _ _ _ _ _ _ := trivial

theorem admits_akin (node : Node) : (akin kinship base base').Admits node where
  runs _ _ _ _ _ := trivial
  defines key parameter body _ _ _ related := by
    have depth := kinship.depth related.1
    have store := kinship.store related.1
    have placeholders := congrArg (·.put key ⟨body, parameter⟩) (kinship.placeholders related.1)
    have writes := kinship.writes related.1
    exact revise_akin related ⟨rfl, rfl, rfl, rfl, depth, store, placeholders, writes⟩
  fails _ _ _ _ _ := rfl

/-- What came about from later bases came about from earlier ones. -/
theorem EndAlike.rebase_akin {later later' before before' : Session η} {left right : Run η Unit}
    {answers : Unit → Unit → Prop}
    (alike : EndAlike (akin kinship later later') left right answers before before')
    (ext : base.Extends later) (ext' : base'.Extends later') :
    EndAlike (akin kinship base base') left right answers before before' :=
  alike.imp_right fun ⟨⟨here, fitted, fitted', extLater, extLater'⟩, same⟩ =>
    ⟨⟨here, fitted, fitted', ext.trans extLater, ext'.trans extLater'⟩, same⟩

namespace Lockstep

/-- A source goes to places of its text in both sessions. -/
theorem seek_akin {source : SourceRef} {offset offset' : Nat}
    (place : ∀ after, base.Extends after → IsPlace (after.text source) offset)
    (place' : ∀ after, base'.Extends after → IsPlace (after.text source) offset') :
    Lockstep (akin kinship base base') (Run.seek source offset) (Run.seek source offset')
      fun _ _ => True := by
  intro before before' related
  have ⟨here, _, _, ext, ext'⟩ := related
  rw [EndAlike, (ran_seek (place before ext)).2.2, (ran_seek (place' before' ext')).2.2]
  exact .inr ⟨related_akin related (kinship.seek here source offset offset')
    (before.quiet_seek source offset) (before'.quiet_seek source offset'), .ok trivial⟩

/-- A block that may be run has the same nodes in both sessions. -/
theorem nodesOf_akin {environment : Environment η}
    {kinship : Run.Kinship η environment.embeddings} {id : BlockRef} {before before' : Session η}
    (related : (akin kinship base base').related before before')
    (may : kinship.mayRun before id = true) :
    EndAlike (akin kinship base base') (Run.nodesOf environment id) (Run.nodesOf environment id)
      (fun nodes nodes' => nodes = nodes') before before' := by
  have ⟨here, fitted, fitted', ext, ext'⟩ := related
  obtain ⟨-, -, sameNodes⟩ := kinship.block here (kinship.alike_of_mayRun may)
  cases isParsed : (before.block id).nodes? with
  | some nodes =>
      rw [EndAlike, ran_nodesOf_of_parsed environment isParsed,
        ran_nodesOf_of_parsed environment (sameNodes.trans isParsed)]
      exact .inr ⟨related, .ok rfl⟩
  | none =>
      have isUnparsed' : (before'.block id).nodes? = none := sameNodes.trans isParsed
      obtain ⟨-, pointer, sought⟩ := ran_seek (fitted.isPlace_start id)
      obtain ⟨-, pointer', sought'⟩ := ran_seek (fitted'.isPlace_start id)
      obtain ⟨fittedAfter, extAfter⟩ :=
        fitted.parseBlock environment.embeddings pointer isParsed (before.quiet_seek _ _)
      obtain ⟨fittedAfter', extAfter'⟩ :=
        fitted'.parseBlock environment.embeddings pointer' isUnparsed' (before'.quiet_seek _ _)
      obtain ⟨sameParsed, hereAfter⟩ := kinship.parses here fitted fitted' may isParsed
      rw [EndAlike, ran_nodesOf_of_unparsed environment isParsed sought,
        ran_nodesOf_of_unparsed environment isUnparsed' sought']
      exact .inr ⟨⟨hereAfter, fittedAfter, fittedAfter', ext.trans extAfter, ext'.trans extAfter'⟩,
        .ok sameParsed.symm⟩

/-- Blocks that are entered one level deeper are in lockstep if they are there. -/
theorem nested_akin {runBlock runBlock' : BlockRef → Run η Unit} (host : Host η) (what : Nested)
    (id : BlockRef)
    (block : Lockstep (akin kinship base base') (runBlock id) (runBlock' id) fun _ _ => True) :
    Lockstep (akin kinship base base') (Run.nested runBlock what id)
      (Run.nested runBlock' what id) fun _ _ => True := by
  intro before before' related
  have changeDepth {after after' : Session η} (depth depth' : Nat) (same : depth' = depth)
      (relatedAfter : (akin kinship base base').related after after') :
      (akin kinship base base').related { after with depth } { after' with depth := depth' } :=
    have store := kinship.store relatedAfter.1
    have placeholders := kinship.placeholders relatedAfter.1
    have writes := kinship.writes relatedAfter.1
    revise_akin relatedAfter ⟨rfl, rfl, rfl, rfl, same, store, placeholders, writes⟩
  have depth := kinship.depth related.1
  refine Lockstep.nested (lawful_akin kinship base base' host)
    (akin kinship base base').related what id related (fun isDeep => .inl ?_)
    (fun below => ⟨?_, ?_⟩) fun after after' relatedAfter => ?_
  · rwa [depth]
  · rwa [depth]
  · exact block _ _ (changeDepth _ _ (by rw [depth]) related)
  · exact changeDepth _ _ (by rw [kinship.depth relatedAfter.1]) relatedAfter

/-- Lists of nodes are in lockstep if the blocks that they run are. -/
theorem nodes_akin (environment : Environment η) {runBlock runBlock' : BlockRef → Run η Unit}
    {fuel : Nat} (blocks : ∀ id,
      Lockstep (akin kinship base base') (runBlock id) (runBlock' id) fun _ _ => True)
    (scope : ScopeRef) (enclosingLoop : Option BlockRef) (listed : List Node) :
    Lockstep (akin kinship base base')
      (Run.nodes (Run.node environment runBlock fuel scope) enclosingLoop listed)
      (Run.nodes (Run.node environment runBlock' fuel scope) enclosingLoop listed)
      fun _ _ => True := by
  have lawful := lawful_akin kinship base base' environment.host
  refine Lockstep.nodes lawful enclosingLoop (List.forall₂_same.mpr fun next _ => ?_)
  exact .node lawful (fun inner before before' related _ => blocks inner before before' related)
    (fun what inner before before' related _ =>
      nested_akin environment.host what inner (blocks inner) before before' related)
    (.inl rfl) scope (admits_akin next)

section

variable (environment : Environment η) (kinship : Run.Kinship η environment.embeddings)

/-- A block is in lockstep with itself if the blocks inside it are. -/
theorem blockWith_akin {runBlock runBlock' : BlockRef → Run η Unit} {fuel : Nat}
    (blocks : ∀ base base' id,
      Lockstep (akin kinship base base') (runBlock id) (runBlock' id) fun _ _ => True)
    {id : BlockRef} {before before' : Session η}
    (related : (akin kinship base base').related before before')
    (may : kinship.mayRun before id = true) :
    EndAlike (akin kinship base base') (Run.blockWith environment runBlock fuel id)
      (Run.blockWith environment runBlock' fuel id) (fun _ _ => True) before before' := by
  unfold Run.blockWith
  refine Lockstep.bind_at (nodesOf_akin related may) ?_
  rintro parsed _ now now' - relatedNow rfl
  have ⟨here, fitted, fitted', ext, ext'⟩ := relatedNow
  obtain ⟨source, enclosingLoop, -⟩ := kinship.block here (kinship.alike_of_mayRun may)
  have places {session later : Session η} (fits : session.Fitted) (ext : session.Extends later) :=
    fits.isPlace_later ext id
  have body : Lockstep (akin kinship now now')
      (do
        Run.seek (now.block id).source (now.block id).start
        Run.nodes (Run.node environment runBlock fuel (now.block id).scope)
          (now.block id).enclosingLoop parsed
        Run.seek (now.block id).source (now.block id).finish : Run η Unit)
      (do
        Run.seek (now'.block id).source (now'.block id).start
        Run.nodes (Run.node environment runBlock' fuel (now'.block id).scope)
          (now'.block id).enclosingLoop parsed
        Run.seek (now'.block id).source (now'.block id).finish : Run η Unit)
      fun _ _ => True := by
    rw [kinship.scope here, enclosingLoop, source]
    refine (seek_akin (fun _ later => (places fitted later).1)
      fun _ later => source ▸ (places fitted' later).1).bind fun _ _ _ => ?_
    refine (nodes_akin environment (blocks now now') _ _ parsed).bind fun _ _ _ => ?_
    exact seek_akin (fun _ later => (places fitted later).2)
      fun _ later => source ▸ (places fitted' later).2
  have ended := body now now' ⟨here, fitted, fitted', .refl now, .refl now'⟩
  exact .get_bind (ended.rebase_akin ext ext')

/-- A run that may come to certain blocks only is in lockstep with that of the other session. -/
theorem guarded_akin (fuel : Nat) (base base' : Session η) (id : BlockRef) :
    Lockstep (akin kinship base base') (guarded kinship.mayRun environment fuel id)
      (Run.block environment fuel id) fun _ _ => True := by
  induction fuel generalizing base base' id with
  | zero =>
      intro before before' related
      refine .get_left ?_
      split
      · exact Lockstep.excused _ rfl before before' related
      · exact Lockstep.excused _ rfl before before' related
  | succ fuel induction =>
      intro before before' related
      refine .get_left ?_
      split
      · rename_i may
        exact blockWith_akin environment kinship induction related may
      · exact Lockstep.excused _ rfl before before' related

end

end Lockstep

/-- A block does the same in akin sessions if the first comes to certain blocks only. -/
theorem ran_block_akin (environment : Environment η)
    (kinship : Run.Kinship η environment.embeddings) {id : BlockRef} {fuel : Nat}
    {before before' : Session η} (related : kinship.related before before')
    (fitted : before.Fitted) (fitted' : before'.Fitted)
    (ends : ((guarded kinship.mayRun environment fuel id).run.run before).1 ≠ .error .outOfFuel) :
    let ran := (block environment fuel id).run.run before
    let ran' := (block environment fuel id).run.run before'
    ran'.1 = ran.1 ∧ kinship.related ran.2 ran'.2 ∧ ran.2.Fitted ∧ ran'.2.Fitted := by
  have alike := Lockstep.guarded_akin environment kinship fuel before before' id before before'
    ⟨related, fitted, fitted', .refl _, .refl _⟩
  have refines := Refines.guarded_of (Refines.blockWhere kinship.mayRun environment fuel id)
  have same := (refines before).resolve_right ends
  rcases alike with ⟨stop, stopped, rfl⟩ | ⟨relatedAfter, alike⟩
  · exact absurd stopped ends
  · rw [same] at relatedAfter alike
    obtain ⟨goesOn, fittedAfter, fittedAfter', -⟩ := relatedAfter
    exact ⟨alike.eq.symm, goesOn, fittedAfter, fittedAfter'⟩

end Run

section

variable {divergence : Divergence} {embeddings : Embeddings}
  {mayRun : Session η → BlockRef → Bool}

/-- Blocks that may be run are parsed alike in sessions that are apart, and the block in which they
are apart may not be run. -/
structure Divergence.Spares (divergence : Divergence) (embeddings : Embeddings)
    (mayRun : Session η → BlockRef → Bool) : Prop where
  different : ∀ session, mayRun session divergence.block = false
  parses : ∀ (session other : Session η) (id : BlockRef), session.Apart divergence other →
    session.Fitted → other.Fitted → mayRun session id = true → (session.block id).nodes? = none →
    ((other.atStart id).parseBlock embeddings id).1 =
        ((session.atStart id).parseBlock embeddings id).1 ∧
      ((session.atStart id).parseBlock embeddings id).2.Apart divergence
        ((other.atStart id).parseBlock embeddings id).2

/-- The kinship of sessions that are apart. -/
def Divergence.Spares.kinship (spares : divergence.Spares embeddings mayRun) :
    Run.Kinship η embeddings where
  related session other := session.Apart divergence other
  mayRun := mayRun
  alike id := id ≠ divergence.block
  alike_of_mayRun {session id} may := by
    rintro rfl
    exact Bool.false_ne_true ((spares.different session).symm.trans may)
  depth apart := apart.depth
  store apart := apart.store
  placeholders apart := apart.placeholders
  writes apart := apart.writes
  scope apart := apart.scope_eq
  wasLeft apart := apart.wasLeft_eq
  revise apart revised := apart.revise revised
  mark apart := apart.mark
  seek {session other} apart source offset offset' :=
    apart.displaced (session.displaced_seek source offset).symm
      (other.displaced_seek source offset').symm
  block apart different := by
    rw [apart.block different]
    exact ⟨rfl, rfl, rfl⟩
  parses := spares.parses _ _ _

end

end Stencil
