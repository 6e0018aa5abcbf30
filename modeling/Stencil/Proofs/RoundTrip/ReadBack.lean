import Stencil.Proofs.RoundTrip.Block
import Stencil.Proofs.Run.Obeys
import Stencil.Proofs.Session.Begin
import Stencil.Template

/-!
# Printed templates are read back

Preparing a block and then, recursively, every block that its nodes refer to answers the trees whose
print the range of the block holds.
-/

namespace Stencil

open Text

variable {η : Type} {α β : Type} {whole : List Char} {source : SourceRef}

theorem exists_of_forall₂ {related : α → β → Prop} {left : List α} {right : List β} {place : Nat}
    {item : α} (all : List.Forall₂ related left right) (found : left[place]? = some item) :
    ∃ other, right[place]? = some other ∧ related item other := by
  induction all generalizing place with
  | nil => cases found
  | cons first _ induction =>
      cases place with
      | zero =>
          obtain rfl := Option.some.inj found
          exact ⟨_, rfl, first⟩
      | succ place => exact induction found

namespace Session

/-- The blocks from a number on are not parsed yet, and they hold some bodies of a source. -/
structure Awaits (session : Session η) (whole : List Char) (source : SourceRef) (first : Nat)
    (bodies : List Body) : Prop where
  present : source.index < session.sources.size
  text : session.text source = whole
  holds : ∀ place body, bodies[place]? = some body → ∃ block,
    session.blocks[first + place]? = some block ∧ block.Holds whole source body

/-- All blocks that were there stay as they are but for a range of numbers, and sources keep their
texts. -/
structure Spares (first last : Nat) (before after : Session η) : Prop where
  blocks : ∀ index < before.blocks.size, index < first ∨ last ≤ index →
    after.blocks[index]? = before.blocks[index]?
  size : before.blocks.size ≤ after.blocks.size
  texts : ∀ other : SourceRef, other.index < before.sources.size →
    other.index < after.sources.size ∧ after.text other = before.text other

variable {first last : Nat} {bodies : List Body} {session before middle after : Session η}

namespace Spares

theorem refl (first : Nat) (session : Session η) : Spares first first session session where
  blocks _ _ _ := rfl
  size := Nat.le_refl _
  texts _ present := ⟨present, rfl⟩

theorem trans {start finish startLater finishLater : Nat}
    (here : Spares start finish before middle) (there : Spares startLater finishLater middle after)
    (within : ∀ index < before.blocks.size, index < first ∨ last ≤ index →
      (index < start ∨ finish ≤ index) ∧ (index < startLater ∨ finishLater ≤ index)) :
    Spares first last before after where
  blocks index present outside := by
    obtain ⟨outsideHere, outsideThere⟩ := within index present outside
    rw [there.blocks index (Nat.lt_of_lt_of_le present here.size) outsideThere]
    exact here.blocks index present outsideHere
  size := Nat.le_trans here.size there.size
  texts other present := by
    obtain ⟨presentBetween, textBetween⟩ := here.texts other present
    obtain ⟨presentAfter, textAfter⟩ := there.texts other presentBetween
    exact ⟨presentAfter, textAfter.trans textBetween⟩

end Spares

namespace Awaits

theorem of_append_left {later : List Body}
    (awaits : session.Awaits whole source first (bodies ++ later)) :
    session.Awaits whole source first bodies where
  present := awaits.present
  text := awaits.text
  holds place body found := by
    have within := (List.getElem?_eq_some_iff.mp found).1
    exact awaits.holds place body (by rw [List.getElem?_append_left within, found])

/-- What is awaited behind the blocks that changed is awaited still. -/
theorem of_append_right {later : List Body}
    (awaits : before.Awaits whole source first (bodies ++ later))
    (spares : before.Spares first (first + bodies.length) after) :
    after.Awaits whole source (first + bodies.length) later where
  present := (spares.texts source awaits.present).1
  text := (spares.texts source awaits.present).2.trans awaits.text
  holds place body found := by
    have behind : (bodies ++ later)[bodies.length + place]? = some body := by
      rw [List.getElem?_append_right (Nat.le_add_right _ _), Nat.add_sub_cancel_left, found]
    obtain ⟨block, isThere, holds⟩ := awaits.holds _ body behind
    rw [← Nat.add_assoc] at isThere
    refine ⟨block, ?_, holds⟩
    rw [spares.blocks _ (lt_of_getElem? isThere) (.inr (Nat.le_add_right _ _)), isThere]

end Awaits

end Session

/-- In a session where blocks from a number on hold some bodies a run changes no other block, and it
answers. -/
def Run.ReadsBack (run : Run η α) (whole : List Char) (source : SourceRef) (first : Nat)
    (bodies : List Body) (answer : α) : Prop :=
  ∀ session : Session η, session.Awaits whole source first bodies → ∃ after,
    run.run.run session = pure (.ok answer, after) ∧
      session.Spares first (first + bodies.length) after

namespace Run.ReadsBack

variable {first : Nat} {bodies later : List Body}

theorem pure (answer : α) :
    ReadsBack (Pure.pure answer : Run η α) whole source first [] answer :=
  fun session _ => ⟨session, rfl, .refl first session⟩

theorem bind {run : Run η α} {next : α → Run η β} {answer : α} {result : β}
    (here : run.ReadsBack whole source first bodies answer)
    (there : (next answer).ReadsBack whole source (first + bodies.length) later result) :
    (run >>= next).ReadsBack whole source first (bodies ++ later) result := by
  intro session awaits
  obtain ⟨middle, ran, spares⟩ := here session awaits.of_append_left
  obtain ⟨after, ranLater, sparesLater⟩ := there middle (awaits.of_append_right spares)
  refine ⟨after, (run_bind_of_ok ran).trans ranLater, spares.trans sparesLater ?_⟩
  intro index _ outside
  rw [List.length_append] at outside
  omega

/-- What is done with the answer changes nothing. -/
theorem map {run : Run η α} {answer : α} (change : α → β)
    (here : run.ReadsBack whole source first bodies answer) :
    (run >>= fun found => Pure.pure (change found)).ReadsBack whole source first bodies
      (change answer) := by
  have both : (run >>= fun found => Pure.pure (change found)).ReadsBack whole source first
      (bodies ++ []) (change answer) :=
    bind here (pure (change answer))
  rwa [List.append_nil] at both

variable {readBlock : Option BlockRef → BlockRef → Run η (List Tree)} {around : Option BlockRef}

/-- The bodies of branches are read one after another. -/
theorem branches (conditions : List (Condition × List Tree)) (size : Nat)
    (reads : ∀ branch ∈ conditions, ∀ index,
      (readBlock around ⟨index⟩).ReadsBack whole source index [⟨around, "if", branch.2⟩] branch.2) :
    ((branchesFor size conditions).mapM fun branch : Condition × BlockRef =>
        return (branch.1, ← readBlock around branch.2)).ReadsBack whole source size
      (conditions.map fun branch : Condition × List Tree => ⟨around, "if", branch.2⟩)
      conditions := by
  induction conditions generalizing size with
  | nil => exact pure []
  | cons branch conditions induction =>
      have first := reads branch List.mem_cons_self size
      have later := induction (size + 1) fun other member =>
        reads other (List.mem_cons_of_mem _ member)
      rw [branchesFor, List.mapM_cons]
      exact bind (map (fun trees => (branch.1, trees)) first) (map (branch :: ·) later)

theorem last (otherwise : Option (List Tree)) (size : Nat)
    (reads : ∀ trees ∈ otherwise, ∀ index,
      (readBlock around ⟨index⟩).ReadsBack whole source index [⟨around, "if", trees⟩] trees) :
    ((otherwise.map fun _ => (⟨size⟩ : BlockRef)).mapM (readBlock around)).ReadsBack whole source
      size (otherwise.toList.map fun trees => ⟨around, "if", trees⟩) otherwise := by
  cases otherwise with
  | none => exact pure none
  | some trees => exact map some (reads trees rfl size)

/-- A node is read back as the tree that it was made of. -/
theorem treeOf {tree : Tree} (size : Nat) (valid : tree.isWellFormed around.isSome = true)
    (reads : ∀ body ∈ tree.bodies around size, ∀ index,
      (readBlock body.around ⟨index⟩).ReadsBack whole source index [body] body.trees) :
    (Run.treeOf readBlock around (tree.node around size)).ReadsBack whole source size
      (tree.bodies around size) tree := by
  cases tree with
  | loop header body =>
      exact map (Tree.loop header) (reads ⟨some ⟨size⟩, "for", body⟩ List.mem_cons_self size)
  | definePlaceholder key parameter body =>
      exact map (Tree.definePlaceholder key parameter)
        (reads ⟨none, s!"placeholder {key.name}", body⟩ List.mem_cons_self size)
  | branches conditions otherwise =>
      have readsBranch : ∀ branch ∈ conditions, ∀ index,
          (readBlock around ⟨index⟩).ReadsBack whole source index [⟨around, "if", branch.2⟩]
            branch.2 :=
        fun branch member => reads ⟨around, "if", branch.2⟩
          (List.mem_append_left _ (List.mem_map_of_mem member))
      have readsLast : ∀ trees ∈ otherwise, ∀ index,
          (readBlock around ⟨index⟩).ReadsBack whole source index [⟨around, "if", trees⟩] trees :=
        fun trees member => reads ⟨around, "if", trees⟩
          (List.mem_append_right _ (List.mem_map_of_mem (Option.mem_toList.mpr member)))
      refine bind (branches conditions size readsBranch) ?_
      rw [List.length_map]
      exact map (Tree.branches conditions) (last otherwise (size + conditions.length) readsLast)
  | leave =>
      obtain ⟨target, inside⟩ := Option.isSome_iff_exists.mp valid
      subst inside
      have same : Run.treeOf readBlock (some target) (Tree.leave.node (some target) size) =
          (Pure.pure .leave : Run η Tree) := if_pos rfl
      rw [same]
      exact pure _
  | _ => exact pure _

theorem mapM_treeOf (trees : List Tree) (size : Nat)
    (valid : areWellFormed around.isSome trees = true)
    (reads : ∀ body ∈ bodiesFor around size trees, ∀ index,
      (readBlock body.around ⟨index⟩).ReadsBack whole source index [body] body.trees) :
    ((nodesFor around size trees).mapM (Run.treeOf readBlock around)).ReadsBack whole source size
      (bodiesFor around size trees) trees := by
  induction trees generalizing size with
  | nil => exact pure []
  | cons tree trees induction =>
      simp only [areWellFormed, Bool.and_eq_true] at valid
      have first := treeOf size valid.1.1 fun body member =>
        reads body (List.mem_append_left _ member)
      have later := induction (size + (tree.bodies around size).length) valid.2 fun body member =>
        reads body (List.mem_append_right _ member)
      rw [nodesFor, List.mapM_cons]
      exact bind first (map (tree :: ·) later)

end Run.ReadsBack

section

variable {environment : Environment η} {body : Body} {index : Nat} {session : Session η}

/-- What parsing a block that holds a body comes to. -/
structure Session.Fills (embeddings : Embeddings) (before : Session η) (id : BlockRef) (body : Body)
    (made : List Block) (after : Session η) : Prop where
  parses : before.parseBlock embeddings id =
    (nodesFor body.around before.blocks.size body.trees, after)
  parsing : Parsing embeddings before id (nodesFor body.around before.blocks.size body.trees) after
  size_blocks : after.blocks.size = before.blocks.size + made.length
  blocks : ∀ place block, made[place]? = some block →
    after.blocks[before.blocks.size + place]? = some block
  size_sources : after.sources.size = before.sources.size
  depth : after.depth = before.depth
  store : after.store = { before.store with heap := after.store.heap }
  writes : after.writes = before.writes
  makes : (Making.holding (before.text (before.block id).source)
      (before.blockContext embeddings id)).Makes before.store.heap
    (bodiesFor body.around before.blocks.size body.trees) made after.store.heap

/-- Parsing a block that holds a body gives the nodes of the body and adds blocks that hold the
bodies of these. -/
theorem Session.exists_fills (embeddings : Embeddings) {id : BlockRef}
    (present : id.index < session.blocks.size)
    (sourcePresent : (session.block id).source.index < session.sources.size)
    (holds : (session.block id).Holds (session.text (session.block id).source)
      (session.block id).source body)
    (sound : AreSound body.around.isSome body.trees)
    (atStart : (session.source (session.block id).source).cursor.offset =
      (session.block id).start) :
    ∃ made after, session.Fills embeddings id body made after := by
  obtain ⟨unparsed, -, enclosingLoop, before, rest, split, range, ends⟩ := holds
  obtain ⟨start, length⟩ := Directive.BodyRange.mk.inj range
  have here : (session.draft id).source =
      .between before.reverse (printAll body.trees ++ rest) := by
    apply Cursor.eq_of_text_of_offset
    · rw [Cursor.text_between, List.reverse_reverse, ← split]
      rfl
    · rw [Cursor.offset_between, byteLength_reverse, ← start]
      exact atStart
  have limit : (session.blockContext embeddings id).limit =
      byteLength before.reverse + byteLength (printAll body.trees) := by
    rw [byteLength_reverse, ← start, ← length]
    rfl
  obtain ⟨nodes, drafted, left, ran, -, parsed⟩ := session.parseBlock_eq embeddings id
  have around : (session.blockContext embeddings id).enclosingLoop = body.around :=
    enclosingLoop
  rw [← around] at sound
  obtain ⟨made, reached, ranPrint, blocks, sources, makes⟩ :=
    Directive.nodes_print sound ends limit
      (by rw [List.reverse_reverse, List.append_assoc, ← split]) here
  rw [around] at ranPrint makes
  obtain ⟨rfl, rfl⟩ := Prod.mk.inj (ranPrint.symm.trans ran)
  have parsing : Parsing embeddings session id _ _ :=
    session.parsing_parseBlock present sourcePresent unparsed atStart
  rw [parsed] at parsing
  have blocks : reached.blocks.toList = session.blocks.toList ++ made := blocks
  refine ⟨made, _, parsed, parsing, ?_, fun place block isMade => ?_, ?_, rfl, rfl, rfl, makes⟩
  · rw [Session.size_blocks_adopt, ← Array.length_toList, blocks, List.length_append,
      Array.length_toList]
  · rw [Session.blocks_adopt, if_neg (by omega), ← Array.getElem?_toList, blocks,
      ← Array.length_toList, List.getElem?_append_right (Nat.le_add_right _ _),
      Nat.add_sub_cancel_left, isMade]
  · exact size_sources_adopt.trans (congrArg Array.size sources)

/-- Parsing a block that holds a body gives the nodes of the body, whose bodies are then held by the
blocks that were added. -/
theorem Session.parseBlock_print (embeddings : Embeddings)
    (awaits : session.Awaits whole source index [body])
    (sound : AreSound body.around.isSome body.trees)
    (atStart : (session.source source).cursor.offset = (session.block ⟨index⟩).start) :
    ∃ after, session.parseBlock embeddings ⟨index⟩ =
        (nodesFor body.around session.blocks.size body.trees, after) ∧
      session.Spares index (index + 1) after ∧
      after.Awaits whole source session.blocks.size
        (bodiesFor body.around session.blocks.size body.trees) := by
  obtain ⟨block, isThere, holds⟩ := awaits.holds 0 body rfl
  have present : index < session.blocks.size := Session.lt_of_getElem? isThere
  obtain rfl : session.block ⟨index⟩ = block := Session.block_eq_of_getElem? isThere
  obtain rfl := holds.source
  rw [← awaits.text] at holds
  obtain ⟨made, after, fills⟩ :=
    session.exists_fills embeddings present awaits.present holds sound atStart
  obtain ⟨presentAfter, textAfter⟩ := fills.parsing.toExtends.source _ awaits.present
  refine ⟨after, fills.parses, ?_, presentAfter, textAfter.trans awaits.text,
    fun place later found => ?_⟩
  · refine ⟨fun other isEarlier outside => ?_, ?_, fills.parsing.toExtends.source⟩
    · exact fills.parsing.others other (by change other ≠ index; omega) isEarlier
    · rw [fills.size_blocks]
      exact Nat.le_add_right _ _
  · obtain ⟨block, isMade, holds, -⟩ := exists_of_forall₂ fills.makes.forall₂ found
    rw [awaits.text] at holds
    exact ⟨block, fills.blocks place block isMade, holds⟩

/-- Preparing a block that holds a body gives the nodes of the body, whose bodies are then held by
the blocks that were added. -/
theorem Run.prepare_print (awaits : session.Awaits whole source index [body])
    (sound : AreSound body.around.isSome body.trees) :
    ∃ after, (Run.nodesOf environment ⟨index⟩).run.run session =
        pure (.ok (nodesFor body.around session.blocks.size body.trees), after) ∧
      session.Spares index (index + 1) after ∧
      after.Awaits whole source session.blocks.size
        (bodiesFor body.around session.blocks.size body.trees) := by
  obtain ⟨block, isThere, holds⟩ := awaits.holds 0 body rfl
  obtain rfl : session.block ⟨index⟩ = block := Session.block_eq_of_getElem? isThere
  obtain ⟨before, rest, split, range, -⟩ := holds.printed
  obtain ⟨start, -⟩ := Directive.BodyRange.mk.inj range
  obtain ⟨unparsed, rfl, -, -⟩ := holds
  have place : IsPlace (session.text (session.block ⟨index⟩).source)
      (session.block ⟨index⟩).start := by
    rw [awaits.text, start, split]
    exact isPlace_append before _
  obtain ⟨-, offset, sought⟩ := Run.ran_seek place
  have text : _ = session.text (session.block ⟨index⟩).source :=
    Session.text_seek (session.source _) (session.block ⟨index⟩).start
  generalize (Source.seek (session.block ⟨index⟩).start
    (session.source (session.block ⟨index⟩).source)).2 = atStart at offset sought text
  have isSource := Session.source_setSource_self atStart awaits.present
  have awaitsSought : (session.setSource (session.block ⟨index⟩).source atStart).Awaits whole
      (session.block ⟨index⟩).source index [body] := by
    refine ⟨?_, ?_, awaits.holds⟩
    · simpa [Session.setSource] using awaits.present
    · rw [Session.text, isSource, text, awaits.text]
  have stands : ((session.setSource (session.block ⟨index⟩).source atStart).source
      (session.block ⟨index⟩).source).cursor.offset = (session.block ⟨index⟩).start :=
    (congrArg (fun place => place.cursor.offset) isSource).trans offset
  obtain ⟨after, parsed, spares, awaitsAfter⟩ :=
    Session.parseBlock_print environment.embeddings awaitsSought sound stands
  refine ⟨after, ?_, ⟨spares.blocks, spares.size, fun other isThere => ?_⟩, awaitsAfter⟩
  · rw [Run.ran_nodesOf_of_unparsed environment unparsed sought]
    exact congrArg (fun result => (Except.ok result.1, result.2)) parsed
  · obtain ⟨presentAfter, textAfter⟩ :=
      spares.texts other (by simpa [Session.setSource] using isThere)
    refine ⟨presentAfter, textAfter.trans ?_⟩
    rcases session.source_setSource (session.block ⟨index⟩).source other atStart with
      ⟨same, rfl⟩ | same
    · rw [Session.text, same, text]
    · rw [Session.text, same]
      rfl

/-- A body of a tree is smaller than the tree. -/
theorem Tree.sizeOf_bodies_lt {tree : Tree} {around : Option BlockRef} {size : Nat} {body : Body}
    (member : body ∈ tree.bodies around size) : sizeOf body.trees < sizeOf tree := by
  cases tree with
  | loop header trees =>
      obtain rfl := List.mem_singleton.mp member
      rw [Tree.loop.sizeOf_spec]
      dsimp only
      omega
  | definePlaceholder key parameter trees =>
      obtain rfl := List.mem_singleton.mp member
      rw [Tree.definePlaceholder.sizeOf_spec]
      dsimp only
      omega
  | branches conditions otherwise =>
      rw [Tree.branches.sizeOf_spec]
      rcases List.mem_append.mp member with isBranch | isLast
      · obtain ⟨⟨condition, trees⟩, listed, rfl⟩ := List.mem_map.mp isBranch
        have smaller := List.sizeOf_lt_of_mem listed
        rw [Prod.mk.sizeOf_spec] at smaller
        dsimp only
        omega
      · obtain ⟨trees, listed, rfl⟩ := List.mem_map.mp isLast
        obtain rfl := Option.mem_toList.mp listed
        rw [Option.some.sizeOf_spec]
        dsimp only
        omega
  | _ => cases member

theorem sizeOf_bodiesFor_lt {trees : List Tree} {around : Option BlockRef} {size :
    Nat} {body : Body}
    (member : body ∈ bodiesFor around size trees) : sizeOf body.trees < sizeOf trees := by
  induction trees generalizing size with
  | nil => cases member
  | cons tree trees induction =>
      rw [List.cons.sizeOf_spec]
      rcases List.mem_append.mp member with isFirst | isLater
      · have smaller := tree.sizeOf_bodies_lt isFirst
        omega
      · have smaller := induction isLater
        omega

/-- Reading a block back, over as many levels as the size of its trees. -/
theorem Run.ReadsBack.readBack {fuel : Nat} (enough : sizeOf body.trees ≤ fuel)
    (valid : areWellFormed body.around.isSome body.trees = true) :
    (Run.readBack environment fuel body.around ⟨index⟩).ReadsBack whole source index [body]
      body.trees := by
  induction fuel generalizing body index with
  | zero =>
      obtain ⟨around, name, trees⟩ := body
      cases trees <;> simp at enough
  | succ fuel induction =>
      intro session awaits
      obtain ⟨prepared, ran, spares, awaitsBodies⟩ :=
        Run.prepare_print awaits (areSound body.trees _ valid)
      have reads : ∀ child ∈ bodiesFor body.around session.blocks.size body.trees, ∀ index,
          (Run.readBack environment fuel child.around ⟨index⟩).ReadsBack whole source index [child]
            child.trees := by
        intro child member index
        have smaller := sizeOf_bodiesFor_lt member
        exact induction (by omega) (areWellFormed_bodiesFor valid member)
      obtain ⟨after, ranLater, sparesLater⟩ :=
        mapM_treeOf body.trees session.blocks.size valid reads prepared awaitsBodies
      refine ⟨after, (run_bind_of_ok ran).trans ranLater, spares.trans sparesLater ?_⟩
      intro other isEarlier outside
      exact ⟨outside, .inl isEarlier⟩

end

/-- The block of the print of some trees holds them. -/
theorem Session.awaits_addText (session : Session η) (scope : ScopeRef) (role : BlockRole)
    (name : String) (trees : List Tree) :
    (session.addText (.plain (.ofString (String.ofList (printAll trees)))) scope role).2.Awaits
      (printAll trees) ⟨session.sources.size⟩ session.blocks.size [⟨none, name, trees⟩] := by
  have text : (Cursor.ofString (String.ofList (printAll trees))).text = printAll trees :=
    String.toList_ofList
  refine ⟨?_, Session.text_addText.trans text, fun place body found => ?_⟩
  · simp [Session.addText]
  · obtain ⟨rfl, rfl⟩ : place = 0 ∧ (⟨none, name, trees⟩ : Body) = body := by
      cases place with
      | zero => exact ⟨rfl, Option.some.inj found⟩
      | succ place => cases found
    refine ⟨_, Session.block_addText, rfl, rfl, rfl, [], [], ?_, ?_, rfl⟩
    · exact (List.append_nil _).symm
    · have start : (Block.ofSource (AnySource.plain (.ofString (String.ofList (printAll trees))))
          ⟨session.sources.size⟩ scope role).start = 0 := rfl
      have limit := Block.limit_ofSource
        (AnySource.plain (.ofString (String.ofList (printAll trees))))
          ⟨session.sources.size⟩ scope role
      have size : (Cursor.ofString (String.ofList (printAll trees))).size =
          byteLength (printAll trees) := by
        rw [Cursor.size_eq, text]
      rw [Block.limit, start, Nat.zero_add] at limit
      rw [start, limit]
      exact congrArg _ size

namespace Template

/-- Preparing the root block of the print of some well-formed trees and then, recursively, every
block that nodes refer to answers these trees. -/
theorem readBack_print (trees : List Tree) (valid : areWellFormed false trees = true)
    (options : Options) (host : Host η) (state : η) :
    let template := ofString (String.ofList (printAll trees)) options host state
    ∃ levels, ∀ fuel ≥ levels,
      ((Run.readBack template.environment fuel none template.root).run.run template.session).1 =
        .ok trees := by
  refine ⟨sizeOf trees, fun fuel enough => ?_⟩
  have enough : sizeOf (Body.mk none "" trees).trees ≤ fuel := enough
  obtain ⟨after, ran, -⟩ := Run.ReadsBack.readBack enough valid _
    (Session.awaits_addText _ .global .root "" trees)
  exact congrArg Prod.fst ran

/-- A loop around branches, and a placeholder. -/
def nestedTrees : List Tree :=
  [.declare "n" (.binary (.literal (.int 2)) .times
      (.binary (.literal (.int 3)) .plus (.reference [.property "x", .property "y"]))) true,
    .text "- ",
    .loop (.iterable "item" (some "at") (.list false [.reference [.property "n"],
        .literal (.string "a\"b")]))
      [.branches [(.compare (.reference [.property "item"]) .equal (.reference [.property "n"]),
          [.text " same ", .leave])]
        (some [.read [.property "item"], .usePlaceholder (.default "quote")
          (some (.reference [.call "get" [.literal (.char 'c')] true false]))])],
    .definePlaceholder ⟨"quote", "quote"⟩ (some "it") [.read [.property "it"]]]

theorem readBack_print_nestedTrees : areWellFormed false nestedTrees = true ∧
    ∃ levels, ∀ fuel ≥ levels,
      ((Run.readBack (ofString (String.ofList (printAll nestedTrees)) {} Host.none
        ()).environment fuel
        none (ofString (String.ofList (printAll nestedTrees)) {} Host.none ()).root).run.run
          (ofString (String.ofList (printAll nestedTrees)) {} Host.none ()).session).1 =
        .ok nestedTrees := by
  have valid : areWellFormed false nestedTrees = true := by decide +kernel
  exact ⟨valid, readBack_print nestedTrees valid {} Host.none ()⟩

example : String.ofList (printAll nestedTrees) =
    "@const n = 2 * (3 + x.y)\n- @for(item,at:@list(n,\"a\x5c\"b\"))\n" ++
      "@if(item == n)\n same @breakfor\n\n@else\n@var(item)@placeholder(quote,@var(@get('c')))\n" ++
      "@endif\n@endfor@define_placeholder(quote,quote,it)\n@var(it)\n@end_define_placeholder\n" := by
  decide +kernel

end Template

end Stencil
