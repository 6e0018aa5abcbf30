import Stencil.Proofs.Reading.Values

/-!
# Pieces of two runs

What both runs do to a session one thing after another: they write, bind and clear, mark loops as
left, and go to places of sources.  Only the first one parses.
-/

namespace Stencil

open Text

variable {η : Type}

/-- The scope of a body, inside the scope that its directive stands in. -/
structure Session.Inner (session : Session η) (outer scope : ScopeRef)
    (body : BlockRef) : Prop where
  owns : Session.Owns (fun _ => True) session scope body
  parent : (session.store.heap.scope scope).parent = some outer
  later : outer.index < scope.index

namespace Session.Inner

variable {environment : Environment η} {called : List String} {session after : Session η}
    {outer scope : ScopeRef}
  {body : BlockRef}

theorem inRange (inner : session.Inner outer scope body)
    (nested : session.Nested environment.embeddings) :
    scope.index < session.store.heap.scopes.size := by
  rw [← inner.owns.isScope]
  exact nested.inRange body (inner.owns.live.lt nested)

theorem mono (inner : session.Inner outer scope body) (keeps : environment.host.KeepsParents)
    (nested : session.Nested environment.embeddings)
    (reads : session.Reads environment called after) :
    after.Inner outer scope body := by
  constructor
  · exact inner.owns.mono keeps reads.effects nested
  · rw [(reads.heap.scopes scope (inner.inRange nested)).2.1]
    exact inner.parent
  · exact inner.later

end Session.Inner

/-- More scopes make no difference to heaps that look alike. -/
theorem View.Alike.addScopes {view : View} {heap other : Heap} (alike : view.Alike heap other)
    {scopes : Array Scope} (grown : heap.scopes.size ≤ scopes.size)
    (size : scopes.size ≤ other.scopes.size)
    (kept : ∀ id : ScopeRef, id.index < heap.scopes.size →
      ({ heap with scopes } : Heap).scope id = heap.scope id) :
    view.Alike { heap with scopes } other := by
  have covers := covers_of_scopes heap scopes
  constructor
  · exact alike.listCounts
  · exact alike.functionCounts
  · exact size
  · intro list known
    obtain ⟨same, areKnown⟩ := alike.items list known
    exact ⟨same, fun item member => (areKnown item member).mono covers⟩
  · intro function known
    obtain ⟨same, isKnown⟩ := alike.callables function known
    exact ⟨same, isKnown.mono covers⟩
  · intro scope known
    obtain ⟨present, parent, entries, areKnown⟩ := alike.scopes scope known
    have same : ({ heap with scopes } : Heap).entries scope = heap.entries scope :=
      congrArg Scope.entries (kept scope present)
    rw [same, kept scope present]
    refine ⟨Nat.lt_of_lt_of_le present grown, parent, entries, fun value member => ?_⟩
    exact (areKnown value member).mono covers

theorem View.Alike.grow_marks {view : View} {heap other : Heap} (alike : view.Alike heap other)
    (target : BlockRef) : (view.marking target).Alike heap other :=
  ⟨alike.listCounts, alike.functionCounts, alike.scopeCounts, alike.items,
    alike.callables, alike.scopes⟩

namespace Rerun

variable {rerun : Rerun η} {view : View} {session other : Session η}

namespace Twin

theorem lt_of_ahead (twin : rerun.Twin view session other)
    (settled : session.Settled rerun.environment rerun.called)
    (ahead : session.Reads rerun.environment rerun.called rerun.final) {index : Nat}
    (present : index < session.blocks.size) : index < other.blocks.size :=
  twin.quiet.toExtends.lt ((ahead.effects.toExtends rerun.keeps settled.nested).lt present)

/-- The heaps of both runs change, and nothing else does. -/
theorem modifyHeap (twin : rerun.Twin view session other) {later : View} (grows : view.Grows later)
    (marks : later.marks = view.marks) {change change' : Heap → Heap}
    (alike : later.Alike (change session.store.heap) (change' other.store.heap))
    (keeps : other.store.heap.Keeps (change' other.store.heap)) :
    rerun.Twin later (session.modifyHeap change) (other.modifyHeap change') := by
  constructor
  · exact grows.shift.trans twin.shift
  · exact alike
  · exact twin.depth
  · exact twin.writes
  · exact twin.placeholders
  · rw [marks]
    exact twin.marks
  · exact twin.quiet.trans ⟨rfl, rfl, fun _ => rfl, fun _ => rfl⟩
  · exact twin.heap.trans keeps

/-- Both runs mark a block. -/
theorem mark (twin : rerun.Twin view session other) (target : BlockRef) (left : Bool) :
    rerun.Twin view (session.modifyBlock target ({ · with wasLeft := left }))
      (other.modifyBlock target ({ · with wasLeft := left })) := by
  have keeps (block : Block) : ({ block with wasLeft := left } : Block).unmarked = block.unmarked :=
    rfl
  have quiet := other.quiet_modifyBlock target keeps
  constructor
  · exact twin.shift
  · exact twin.alike
  · exact twin.depth
  · exact twin.writes
  · exact twin.placeholders
  · intro block marked
    obtain ⟨present, presentOther, same⟩ := twin.marks block marked
    refine ⟨(session.quiet_modifyBlock target keeps).size_blocks ▸ present,
      quiet.size_blocks ▸ presentOther, ?_⟩
    by_cases isTarget : block = target
    · subst isTarget
      rw [Session.block_modifyBlock_self _ present, Session.block_modifyBlock_self _ presentOther]
    · rw [Session.block_modifyBlock_of_ne _ isTarget, Session.block_modifyBlock_of_ne _ isTarget]
      exact same
  · exact twin.quiet.trans quiet
  · exact twin.heap

/-- The first run gets to know that both runs mark a block in the same way. -/
theorem marking (twin : rerun.Twin view session other) {target : BlockRef}
    (present : target.index < session.blocks.size) (presentOther : target.index < other.blocks.size)
    (same : (other.block target).wasLeft = (session.block target).wasLeft) :
    rerun.Twin (view.marking target) session other := by
  have grows := view.grows_marking target
  constructor
  · exact twin.shift
  · exact twin.alike.grow_marks target
  · exact twin.depth
  · exact twin.writes
  · exact twin.placeholders
  · rintro block (rfl | marked)
    · exact ⟨present, presentOther, same⟩
    · exact twin.marks block marked
  · exact twin.quiet
  · exact twin.heap

end Twin

namespace Mirrors

variable {setting : Setting}

theorem write (text : String) :
    rerun.Mirrors setting session (Run.write text) (Run.write text) id (fun _ _ => True)
      fun _ => {} := by
  apply update
  · intro _
    exact .of_store (.write text) ⟨rfl, rfl, fun _ => rfl, fun _ => rfl⟩ rfl rfl
  · rfl
  · intro _ _ view other known twin
    refine ⟨view, .refl view, ?_, known.none⟩
    constructor
    · exact twin.shift
    · exact twin.alike
    · exact twin.depth
    · exact congrArg (·.push text) twin.writes
    · exact twin.placeholders
    · exact twin.marks
    · exact twin.quiet.trans ⟨rfl, rfl, fun _ => rfl, fun _ => rfl⟩
    · exact twin.heap

section

variable {outer scope : ScopeRef} {body : BlockRef}

/-- Both runs clear the scope of a body, whose names they have in common from then on. -/
theorem clear (inner : session.Inner outer scope body) (opened : outer ∈ setting.opened) :
    rerun.Mirrors setting session (Run.clear scope) (Run.clear scope) id (fun _ _ => True)
      fun _ => { scopes := [scope] } := by
  obtain ⟨live, isOwn, rfl, may⟩ := inner.owns
  apply update
  · intro _
    exact .modifyEntries inner.owns (.clear body live isOwn may) fun lacks => lacks.clear _
  · rfl
  · intro settled ahead view other known twin
    have present := inner.inRange settled.nested
    have parents := (twin.scopes ahead present).1
    have grows := view.grows_opening (session.block body).scope
    have keeps := Heap.Keeps.modifyEntries session.store.heap (session.block body).scope
      fun _ => .empty
    have alike := twin.alike.clear present parents
    refine ⟨_, grows, ?_, ?_⟩
    · exact twin.modifyHeap grows rfl alike (.modifyEntries _ _ _)
    · apply (known.mono twin.alike grows keeps).ofScope
      have isOpen : (view.opening (session.block body).scope).scopes (session.block body).scope :=
        .inl rfl
      apply View.Opens.inner _ outer isOpen
      · exact (Heap.parent_modifyEntries _ _ _ _).trans inner.parent
      · exact inner.later
      · exact (known.scopes outer opened).mono twin.alike grows keeps

theorem bindName (owns : Session.Owns (fun _ => True) session scope body)
    (opened : scope ∈ setting.opened) {name : String} (unused : name ∉ rerun.called)
    (value : Value) (isKnown : ∀ view heap, setting.Known view heap → view.Knows heap value) :
    rerun.Mirrors setting session (Run.bindName scope name value)
      (Run.bindName scope name (rerun.shift.value value)) id (fun _ _ => True) fun _ => {} := by
  obtain ⟨live, isOwn, rfl, may⟩ := owns
  apply update
  · intro _
    exact .modifyEntries ⟨live, isOwn, rfl, may⟩ (.bind body name value live isOwn may)
      fun lacks => lacks.put _ value unused
  · rfl
  · intro _ _ view other known twin
    have knownScope := (known.scopes _ opened).known
    have alike := twin.alike.put knownScope name (isKnown view _ known)
    rw [twin.shift] at alike
    have keeps := Heap.Keeps.modifyEntries session.store.heap (session.block body).scope
      (·.put name value)
    refine ⟨view, .refl view, ?_, ?_⟩
    · exact twin.modifyHeap (.refl view) rfl alike (.modifyEntries _ _ _)
    · exact (known.mono twin.alike (.refl view) keeps).none

end

theorem reads_mark (session : Session η) (target : BlockRef) (left : Bool) :
    session.Reads rerun.environment rerun.called
        (session.modifyBlock target ({ · with wasLeft := left })) :=
  .of_store (.mark target left) (session.quiet_modifyBlock target fun _ => rfl) rfl rfl

theorem mark (target : BlockRef) (left : Bool) :
    rerun.Mirrors setting session
      (modify fun session => session.modifyBlock target ({ · with wasLeft := left }))
      (modify fun session => session.modifyBlock target ({ · with wasLeft := left })) id
      (fun _ _ => True) fun _ => {} := by
  apply update
  · exact fun _ => reads_mark session target left
  · rfl
  · exact fun _ _ view other known twin =>
      ⟨view, .refl view, twin.mark target left, known.none⟩

/-- Both runs mark a loop, and the first one knows that from then on. -/
theorem marking {target : BlockRef} (present : target.index < session.blocks.size) (left : Bool) :
    rerun.Mirrors setting session
      (modify fun session => session.modifyBlock target ({ · with wasLeft := left }))
      (modify fun session => session.modifyBlock target ({ · with wasLeft := left })) id
      (fun _ _ => True) fun _ => { marks := [target] } := by
  apply update
  · exact fun _ => reads_mark session target left
  · rfl
  · intro settled ahead view other known twin
    have keeps (block : Block) :
        ({ block with wasLeft := left } : Block).unmarked = block.unmarked := rfl
    have presentOther := twin.lt_of_ahead settled ahead present
    have grows := view.grows_marking target
    refine ⟨_, grows, ?_, ?_⟩
    · apply (twin.mark target left).marking
      · exact (session.quiet_modifyBlock target keeps).toExtends.lt present
      · exact (other.quiet_modifyBlock target keeps).toExtends.lt presentOther
      · rw [Session.block_modifyBlock_self _ present,
          Session.block_modifyBlock_self _ presentOther]
    · apply (known.mono twin.alike grows (.refl _)).ofMark
      exact .inl rfl

theorem wasLeft {enclosingLoop : Option BlockRef}
    (marked : ∀ target ∈ enclosingLoop, target ∈ setting.marks) :
    rerun.Mirrors setting session (Run.wasLeft enclosingLoop) (Run.wasLeft enclosingLoop) id
      (fun _ _ => True) fun _ => {} := by
  unfold Run.wasLeft
  apply get_bind (Pure.pure (enclosingLoop.any fun target => (session.block target).wasLeft))
  · intro view other known twin _
    cases enclosingLoop with
    | none => rfl
    | some target =>
        obtain ⟨-, -, same⟩ := twin.marks target (known.marks target (marked target rfl))
        change Pure.pure (other.block target).wasLeft = _
        rw [same]
        rfl
  · apply pure
    · rfl
    · trivial
    · exact fun view heap known => known.none

theorem seek {source : SourceRef} {offset : Nat} (present : source.index < session.sources.size)
    (place : IsPlace (session.text source) offset) :
    rerun.Mirrors setting session (Run.seek source offset) (Run.seek source offset) id
      (fun _ after => session.Quiet after ∧ Source.pointer (after.source source) = offset)
      fun _ => {} := by
  obtain ⟨found, pointer, ran⟩ := Run.ran_seek place
  have quiet := session.quiet_seek source offset
  intro settled
  rw [ran]
  refine ⟨.of_store (.seek source offset found) quiet rfl rfl, rfl, ?_, ?_⟩
  · rintro _ ⟨⟩
    refine ⟨quiet, ?_⟩
    rw [Session.source_setSource_self _ present]
    exact pointer
  · intro view other known twin ahead
    have sought : session.Reads rerun.environment rerun.called _ :=
      .of_store (.seek source offset found) quiet rfl rfl
    have toFinal := (sought.trans rerun.keeps settled.nested ahead).effects.toExtends rerun.keeps
      settled.nested
    have text : other.text source = session.text source :=
      (twin.quiet.text source).trans (toFinal.source source present).2
    rw [← text] at place
    obtain ⟨-, -, ranOther⟩ := Run.ran_seek place
    rw [ranOther]
    refine ⟨view, .refl view, ?_, rfl, fun _ _ => known.none⟩
    constructor
    · exact twin.shift
    · exact twin.alike
    · exact twin.depth
    · exact twin.writes
    · exact twin.placeholders
    · exact twin.marks
    · exact twin.quiet.trans (other.quiet_seek source offset)
    · exact twin.heap

/-- Where the first run goes to the start of a block and parses it, the second one looks at it. -/
theorem parseBlock {block : BlockRef} (present : block.index < session.blocks.size)
    (unparsed : (session.block block).nodes? = none)
    (atStart : Source.pointer (session.source (session.block block).source) =
      (session.block block).start) :
    rerun.Mirrors setting session
      (modifyGet fun session => session.parseBlock rerun.environment.embeddings block)
      (Pure.pure (session.parseBlock rerun.environment.embeddings block).1) id
      (fun nodes after => (after.block block).nodes? = some nodes) fun _ => {} := by
  intro settled
  have sourcePresent := settled.nested.valid.source_lt (Session.getElem?_of_lt present)
  have parsing := @Session.parsing_parseBlock _ _ rerun.environment.embeddings _ present
    sourcePresent unparsed atStart
  have furnishes := @Session.furnishes_parseBlock _ _ rerun.environment.embeddings _ present
  have reads : session.Reads rerun.environment rerun.called
      (session.parseBlock rerun.environment.embeddings block).2 :=
    .parse present unparsed atStart settled.nested
  obtain ⟨onlyScopes, keeps, -⟩ := session.heap_parseBlock rerun.environment.embeddings block
  have ran : (modifyGet fun session => session.parseBlock rerun.environment.embeddings block :
      Run η (List Node)).run.run session =
      (.ok (session.parseBlock rerun.environment.embeddings block).1,
        (session.parseBlock rerun.environment.embeddings block).2) := rfl
  rw [ran]
  refine ⟨reads, rfl, ?_, fun view other known twin ahead => ?_⟩
  · rintro _ ⟨⟩
    exact (congrArg Block.nodes? parsing.block_self).trans rfl
  · refine ⟨view, .refl view, ?_, rfl, fun _ _ => ?_⟩
    · constructor
      · exact twin.shift
      · rw [onlyScopes]
        apply twin.alike.addScopes keeps.size_scopes_le
        · exact Nat.le_trans ahead.heap.size_scopes_le twin.heap.size_scopes_le
        · intro scope inRange
          rw [← onlyScopes]
          exact furnishes.scope scope inRange
      · exact twin.depth
      · exact twin.writes
      · exact twin.placeholders.trans parsing.placeholders.symm
      · intro target marked
        obtain ⟨isThere, isThereOther, same⟩ := twin.marks target marked
        exact ⟨parsing.toExtends.lt isThere, isThereOther, same.trans (parsing.wasLeft target).symm⟩
      · exact twin.quiet
      · exact twin.heap
    · exact (known.mono twin.alike (.refl view) keeps).none

/-- The second run finds the nodes that the first one finds or parses. -/
theorem nodesOf {block : BlockRef} (present : block.index < session.blocks.size) :
    rerun.Mirrors setting session (Run.nodesOf rerun.environment block)
      (Run.nodesOf rerun.environment block) id
      (fun nodes after => (after.block block).nodes? = some nodes) fun _ => {} := by
  apply of_settled
  intro settled
  have isThere := Session.getElem?_of_lt present
  have found {other : Session η} {nodes : List Node}
      (parsed : (other.block block).nodes? = some nodes) :
      (Run.nodesOf rerun.environment block).run.run other =
        (Pure.pure nodes : Run η (List Node)).run.run other :=
    Run.ran_nodesOf_of_parsed rerun.environment parsed
  cases parsed : (session.block block).nodes? with
  | some nodes =>
      have mirrors : rerun.Mirrors setting session (Pure.pure nodes : Run η (List Node))
          (Pure.pure nodes) id (fun nodes after => (after.block block).nodes? = some nodes)
          fun _ => {} :=
        pure rfl parsed fun view heap known => known.none
      apply congr (found parsed) _ mirrors
      intro view other known twin ahead
      exact found ((twin.block settled ahead present).2 nodes parsed)
  | none =>
      have sourcePresent := settled.nested.valid.source_lt isThere
      obtain ⟨isFound, pointer, sought⟩ :=
        Run.ran_seek (settled.nested.valid.fits isThere).start
      let ready := session.setSource (session.block block).source
        (Source.seek (session.block block).start (session.source (session.block block).source)).2
      have ran : (Run.nodesOf rerun.environment block).run.run session =
          (modifyGet fun session => session.parseBlock rerun.environment.embeddings block :
            Run η (List Node)).run.run ready :=
        Run.ran_nodesOf_of_unparsed rerun.environment parsed sought
      have quiet : session.Quiet ready := session.quiet_seek _ _
      have toReady : session.Reads rerun.environment rerun.called ready :=
        .of_store (.seek _ _ isFound) quiet rfl rfl
      have atStart : Source.pointer (ready.source (ready.block block).source) =
          (ready.block block).start := by
        change Source.pointer (ready.source (session.block block).source) = _
        rw [Session.source_setSource_self _ sourcePresent]
        exact pointer
      have mirrors : rerun.Mirrors setting ready _ _ id _ fun _ => {} :=
        parseBlock present parsed atStart
      obtain ⟨reads, depth, isAnswer, twins⟩ := mirrors (toReady.settled rerun.keeps settled)
      intro _
      rw [ran]
      refine ⟨toReady.trans rerun.keeps settled.nested reads, depth, isAnswer,
        fun view other known twin ahead => ?_⟩
      have twinReady : rerun.Twin view ready other :=
        ⟨twin.shift, twin.alike, twin.depth, twin.writes, twin.placeholders, twin.marks, twin.quiet,
          twin.heap⟩
      have ext := ahead.effects.toExtends rerun.keeps
        (reads.settled rerun.keeps (toReady.settled rerun.keeps settled)).nested
      have parsedOther := twin.quiet.toExtends.nodes? (ext.nodes? (isAnswer _ rfl))
      rw [found parsedOther]
      exact twins view other known twinReady ahead

end Mirrors

end Rerun

end Stencil
