import Stencil.Proofs.Inlining
import Stencil.Proofs.LiteralText
import Stencil.Proofs.OwnRange
import Stencil.Proofs.Run.Apart
import Stencil.Proofs.Run.Whole
import Stencil.Proofs.Session.Scopes

/-!
# Templates that are cut in front of an error

A directive that cannot be parsed ends the nodes of its block, and those in front of it run as if
the text ended there.
-/

namespace Stencil

open Text Text.Brackets

variable {η : Type}

namespace Directive

variable {context : BlockContext} {draft here last after : Draft Cursor} {parsed nodes : List Node}
  {offset limit fuel : Nat} {error : TemplateError}

/-- The offset at which the round begins that ends the parsing of a block with an error, and that
error. -/
def failureFrom? (context : BlockContext) : Nat → Draft Cursor → Option (Nat × TemplateError)
  | 0, _ => none
  | fuel + 1, draft =>
      if context.limit ≤ draft.source.offset ∨ draft.source.rest = [] then none
      else
        match (node context).run.run draft with
        | (.ok _, next) => failureFrom? context fuel next
        | (.error error, _) => some (draft.source.offset, error)

/-- What rounds that find something come to, and the nodes that they found, which come last
first. -/
inductive Passes (context : BlockContext) (draft : Draft Cursor) : Draft Cursor →
    List Node → Prop where
  | start : Passes context draft draft []
  | round {here next : Draft Cursor} {parsed : List Node} {found : Node}
      (earlier : Passes context draft here parsed) (inside : here.place.offset < context.limit)
      (more : here.place.rest ≠ []) (ran : (node context).run.run here = (.ok found, next)) :
      Passes context draft next (Node.append parsed found)

/-- A block fails in a round behind others that found something. -/
theorem exists_of_failureFrom? (earlier : Passes context draft here parsed)
    (fails : failureFrom? context fuel here = some (offset, error)) :
    ∃ last parsed after, Passes context draft last parsed ∧ last.source.offset = offset ∧
      offset < context.limit ∧ last.place.rest ≠ [] ∧
      (node context).run.run last = (.error error, after) := by
  induction fuel generalizing here parsed with
  | zero => cases fails
  | succ fuel induction =>
      rw [failureFrom?] at fails
      split at fails
      · cases fails
      · rename_i notAtEnd
        obtain ⟨inside, more⟩ := not_or.mp notAtEnd
        have inside := Nat.lt_of_not_le inside
        split at fails
        · rename_i found next ran
          exact induction (.round earlier inside more ran) fails
        · rename_i found next ran
          obtain ⟨rfl, rfl⟩ := Prod.mk.inj (Option.some.inj fails)
          exact ⟨here, parsed, next, earlier, rfl, inside, more, ran⟩

theorem precedes_of_node (more : here.place.rest ≠ []) {found : Node} {next : Draft Cursor}
    (ran : (node context).run.run here = (.ok found, next)) : Precedes here.place next.place := by
  have came := node_comes context more
  rw [ran] at came
  exact came.1

/-- The rounds of parsing a block begin with those that found something. -/
theorem Passes.rounds (passes : Passes context draft last parsed)
    (later : Rounds context last parsed nodes after) : Rounds context draft [] nodes after := by
  induction passes with
  | start => exact later
  | round earlier inside more ran induction =>
      exact induction (.advanced inside more ran (precedes_of_node more ran) later)

/-- Rounds in front of a fence are the same in both texts. -/
theorem Passes.up_to {fence : Fence} {likeness : Draft.Likeness} {there : Draft Cursor}
    (passes : Passes context draft last parsed) (limits : fence.Limits context.limit limit)
    (agree : fence.DraftsAgree likeness draft there) (ends : last.source.offset ≤ fence.place) :
    ∃ lastThere, Passes (context.upTo limit) there lastThere parsed ∧
      fence.DraftsAgree likeness last lastThere := by
  induction passes with
  | start => exact ⟨there, .start, agree⟩
  | @round here next parsed found earlier inside more ran induction =>
      have before : here.source.offset < fence.place :=
        Nat.lt_of_lt_of_le (precedes_of_node more ran).offset_lt ends
      obtain ⟨hereThere, passesThere, agreeHere⟩ := induction (Nat.le_of_lt before)
      have offset : hereThere.source.offset = here.source.offset := agreeHere.source.pointer_eq
      have ahead : fence.Inside here.source hereThere.source := ⟨agreeHere.source, before⟩
      have moreThere : hereThere.place.rest ≠ [] := ahead.rest_ne_nil
      have ranRoomy : (node context : DirectiveParser (Roomy fence.rounds) Node).run.run here =
        (.ok found, next) := (node_allowing context more).trans ran
      rcases Fence.meets_node limits here hereThere found next ⟨agreeHere, before⟩
        ranRoomy trivial with
        beyond | ⟨nextThere, ranThere, agreeNext⟩
      · exact absurd ends (Nat.not_le_of_lt beyond)
      · have ranThere : (node (context.upTo limit)).run.run hereThere = (.ok found, nextThere) :=
          (node_allowing (context.upTo limit) moreThere).symm.trans ranThere
        have insideThere : hereThere.source.offset < limit := by
          rw [offset]
          exact (limits _ before).mp inside
        exact ⟨nextThere, .round passesThere insideThere moreThere ranThere, agreeNext⟩

/-- A block that reaches to the end of its text fails at a mark only. -/
theorem exists_marked_of_fails (reaches : here.source.size ≤ context.limit)
    (more : here.place.rest ≠ []) (fails : (node context).run.run here = (.error error, after)) :
    ∃ rest, here.place.rest = '@' :: rest := by
  obtain ⟨piece, rest, split, filled, isMark | ⟨unmarked, ends⟩⟩ := exists_piece more
  · exact ⟨rest, by rw [split, isMark]; rfl⟩
  · have isHere : here.source = .between here.source.passed (piece ++ rest) := by
      rw [← split]
      exact here.source.eq_between
    have size : here.source.size = byteLength here.source.passed + byteLength (piece ++ rest) := by
      rw [isHere]
      rfl
    have fits : byteLength here.source.passed + byteLength piece ≤ context.limit := by
      rw [size, byteLength_append] at reaches
      omega
    obtain ⟨_, ran, -⟩ := DirectiveParser.Builds.exists_run
      (.node_unmarked filled unmarked fits (ends.imp_right .inl)) isHere
    cases fails.symm.trans ran

/-- Rounds that find something make blocks, scopes and sources only. -/
theorem Passes.grows (passes : Passes context draft last parsed) :
    draft.Grows context draft.source last := by
  induction passes with
  | start => exact .refl
  | @round here next parsed found earlier inside more ran induction =>
      have makes : DirectiveParser.Makes context draft.source here (node context) _ :=
        DirectiveParser.node_makes (Nat.zero_le _)
      have grows := (makes (induction.reaches (.refl _))).1
      rw [ran] at grows
      exact induction.trans grows

/-- A block that reaches to the end of its text and fails in some round has the nodes in front of
that round and the error; in the text in front of that round it has those nodes only. -/
theorem exists_cut_of_fails (here : draft.source = .between [] draft.source.text)
    (reaches : context.limit = byteLength draft.source.text)
    (fails : failureFrom? context fuel draft = some (offset, error)) :
    ∃ (front rest : List Char) (nodes : List Node) (last after : Draft Cursor),
      draft.source.text = front ++ '@' :: rest ∧
      byteLength front = offset ∧
      (Directive.nodes context).run draft = (nodes ++ [.malformed error], after) ∧
      last.Grows context draft.source after ∧
      ∀ (likeness : Draft.Likeness) (there : Draft Cursor), there.source = .between [] front →
        likeness.blocks draft.blocks there.blocks → likeness.sources draft.sources there.sources →
        there.heap = draft.heap → ∃ afterThere,
        (Directive.nodes (context.upTo offset)).run there = (nodes, afterThere) ∧
          there.source.Reaches afterThere.source ∧
          likeness.blocks last.blocks afterThere.blocks ∧
          likeness.sources last.sources afterThere.sources ∧ afterThere.heap = last.heap := by
  obtain ⟨last, parsed, after, passes, rfl, inside, more, ran⟩ :=
    exists_of_failureFrom? .start fails
  have grows := passes.grows
  have within := grows.reaches (.refl _)
  have size : last.source.size ≤ context.limit := by
    rw [reaches, ← within.1, last.source.size_eq]
  obtain ⟨rest, isRest⟩ := exists_marked_of_fails size more ran
  have split : draft.source.text = last.source.passed.reverse ++ '@' :: rest := by
    rw [← within.1]
    exact congrArg (last.source.passed.reverse ++ ·) isRest
  have isOffset : byteLength last.source.passed.reverse = last.source.offset := by
    rw [byteLength_reverse, last.source.offset_eq]
  have rounds := passes.rounds (.failed inside more ran)
  have makes : DirectiveParser.Makes context draft.source last (node context) _ :=
    DirectiveParser.node_makes (Nat.zero_le _)
  have growsLast := (makes within).1
  rw [ran] at growsLast
  refine ⟨_, rest, parsed.reverse, last, after, split, isOffset, rounds.run_nodes, growsLast, ?_⟩
  intro likeness there isThere blocks sources heap
  let fence : Fence := ⟨last.source.passed.reverse, rest, [], .inl rfl⟩
  have limits : fence.Limits context.limit last.source.offset := fun place before =>
    iff_of_true (Nat.lt_trans (isOffset ▸ before) inside) (isOffset ▸ before)
  have agree : fence.DraftsAgree likeness draft there := by
    refine ⟨⟨[], last.source.passed.reverse, rfl, ?_, ?_⟩, blocks, sources, heap⟩
    · rw [← split]
      exact here
    · rw [List.append_nil]
      exact isThere
  obtain ⟨lastThere, passesThere, agreeLast⟩ :=
    passes.up_to limits agree (Nat.le_of_eq isOffset.symm)
  have offset : lastThere.source.offset = last.source.offset := agreeLast.source.pointer_eq
  have ended := passesThere.rounds (.ended (.inl (Nat.le_of_eq offset.symm)))
  exact ⟨lastThere, ended.run_nodes, passesThere.grows.reaches (.refl _), agreeLast.blocks,
    agreeLast.sources, agreeLast.heap⟩

end Directive

namespace Text.Fence

/-- Places at one offset of two texts that agree up to a fence agree, if they are not beyond it. -/
theorem agree_of_offset {fence : Fence} {here there : Cursor}
    (text : here.text = fence.before ++ '@' :: fence.beyond)
    (textThere : there.text = fence.before ++ fence.other) (offset : there.offset = here.offset)
    (before : here.offset ≤ fence.place) : fence.Agree here there := by
  let mark : Cursor := .between fence.before.reverse ('@' :: fence.beyond)
  have isMark : here.text = mark.text := by
    rw [text, Cursor.text_between, List.reverse_reverse]
  have order : here.offset ≤ mark.offset := by
    rw [Cursor.offset_between, byteLength_reverse]
    exact before
  obtain ⟨inside, passed, rest⟩ := Cursor.exists_middle isMark order
  have split : here.passed.reverse ++ inside.reverse = fence.before := by
    rw [← List.reverse_append, ← passed, Cursor.passed_between, List.reverse_reverse]
  refine ⟨here.passed, inside.reverse, split, ?_, ?_⟩
  · rw [← Cursor.rest_between fence.before.reverse ('@' :: fence.beyond), ← rest]
    exact here.eq_between
  · refine Cursor.eq_of_text_of_offset ?_ ?_
    · rw [Cursor.text_between, ← List.append_assoc, split]
      exact textThere
    · rw [Cursor.offset_between]
      exact offset.trans here.offset_eq

end Text.Fence

/-- One block covers a text in one session and the front of it, up to a mark, in the other. -/
def Divergence.cut (block : BlockRef) (source : SourceRef) (front rest : List Char) : Divergence :=
  ⟨block, some source, front ++ '@' :: rest, front⟩

namespace Session

variable {session other : Session η} {embeddings : Embeddings} {id root : BlockRef}
  {source : SourceRef} {front rest : List Char}

theorem text_atStart (session : Session η) (id : BlockRef) (source : SourceRef) :
    (session.atStart id).text source = session.text source :=
  (session.quiet_seek (session.block id).source (session.block id).start).text source

theorem text_draft_atStart (session : Session η) (id : BlockRef) :
    ((session.atStart id).draft id).source.text = session.text (session.block id).source :=
  session.text_atStart id (session.block id).source

theorem Apart.texts_cut (apart : session.Apart (.cut root source front rest) other) :
    source.index < session.sources.size ∧ session.text source = front ++ '@' :: rest ∧
      other.text source = front :=
  apart.own source rfl

theorem Apart.atStart {divergence : Divergence} (apart : session.Apart divergence other)
    (source : (other.block id).source = (session.block id).source)
    (start : (other.block id).start = (session.block id).start) :
    (session.atStart id).Apart divergence (other.atStart id) := by
  rw [Session.atStart, Session.atStart, source, start]
  exact apart.seek (session.block id).source (session.block id).start

theorem Fitted.parseBlock_atStart (fitted : session.Fitted) (embeddings : Embeddings)
    (unparsed : (session.block id).nodes? = none) :
    ((session.atStart id).parseBlock embeddings id).2.Fitted ∧
      session.Extends ((session.atStart id).parseBlock embeddings id).2 :=
  fitted.parseBlock embeddings (Run.ran_seek (fitted.isPlace_start id)).2.1 unparsed
    (session.quiet_seek _ _)

/-- A block of a text that is cut ends at the cut or in front of it. -/
theorem Apart.limit_le (apart : session.Apart (.cut root source front rest) other)
    (fitted' : other.Fitted) (different : id ≠ root)
    (isSource : (session.block id).source = source) :
    (session.block id).limit ≤ byteLength front := by
  by_cases present : id.index < session.blocks.size
  · have fits := (fitted' id _ (getElem?_of_lt (apart.size_blocks ▸ present))).2
    rw [apart.block different, isSource, apart.texts_cut.2.2] at fits
    exact fits.limit.le
  · rw [block_of_le (Nat.le_of_not_lt present)]
    exact Nat.zero_le _

/-- A block of a text that is parsed without an error and without a look beyond the place where the
text is cut is parsed alike in the text that is cut there. -/
theorem Apart.parseBlock_upTo
    (apart : session.Apart (.cut root source front rest) other)
    (fitted : session.Fitted) (fitted' : other.Fitted) (different : id ≠ root)
    (isSource : (session.block id).source = source)
    (sound : ∀ error, .malformed error ∉ ((session.atStart id).parseBlock embeddings id).1)
    (ends : Source.pointer (((session.atStart id).parseBlock embeddings id).2.source source) ≤
      byteLength front) :
    ((other.atStart id).parseBlock embeddings id).1 =
        ((session.atStart id).parseBlock embeddings id).1 ∧
      ((session.atStart id).parseBlock embeddings id).2.Apart (.cut root source front rest)
        ((other.atStart id).parseBlock embeddings id).2 := by
  obtain ⟨known, text, textThere⟩ := apart.texts_cut
  have knownThere : source.index < other.sources.size := apart.size_sources ▸ known
  have sameBlock := apart.block different
  have isSourceThere : (other.block id).source = source :=
    (congrArg Block.source sameBlock).trans isSource
  have moved := apart.atStart (congrArg Block.source sameBlock) (congrArg Block.start sameBlock)
  have offset := offset_atStart fitted id (isSource ▸ known)
  have offsetThere := offset_atStart fitted' id (isSourceThere ▸ knownThere)
  have isText : ((session.atStart id).draft id).source.text = front ++ '@' :: rest := by
    rw [text_draft_atStart, isSource, text]
  have isTextThere : ((other.atStart id).draft id).source.text = front := by
    rw [text_draft_atStart, isSourceThere, textThere]
  have limit : ((session.atStart id).blockContext embeddings id).limit ≤ byteLength front :=
    apart.limit_le fitted' different isSource
  obtain ⟨nodes, after, left, ran, cursor, eq⟩ := (session.atStart id).parseBlock_eq embeddings id
  obtain ⟨nodesThere, afterThere, leftThere, ranThere, cursorThere, eqThere⟩ :=
    (other.atStart id).parseBlock_eq embeddings id
  obtain ⟨listed, last, rounds⟩ := Directive.exists_rounds
    ((session.atStart id).blockContext embeddings id) ((session.atStart id).draft id) []
  obtain ⟨rfl, rfl⟩ := Prod.mk.inj (rounds.run_nodes.symm.trans ran)
  rw [eq] at sound ends
  have grows := (Directive.nodes_make ran).1
  have growsThere := (Directive.nodes_make ranThere).1
  have endsAt : last.source.offset ≤ byteLength front := by
    have kept := grows.source_kept (Array.getElem?_eq_getElem moved.texts_cut.1)
    have isLeft : ((session.atStart id).block id).source = source := isSource
    rw [source_adopt source (Array.getElem?_eq_some_iff.mp kept).1, if_pos isLeft] at ends
    rw [← cursor]
    exact ends
  let fence : Fence := ⟨front, rest, [], .inl rfl⟩
  have agree : fence.DraftsAgree moved.likeness ((session.atStart id).draft id)
      ((other.atStart id).draft id) := by
    refine ⟨Fence.agree_of_offset isText ?_ ?_ ?_, moved.likeness_blocks,
      moved.likeness_sources, ?_⟩
    · rw [List.append_nil]
      exact isTextThere
    · rw [offset, offsetThere, sameBlock]
    · exact Nat.le_trans (rounds.offset_le sound) endsAt
    · exact congrArg Store.heap moved.store
  have confined := @Directive.Rounds.up_to _ _ _ fence _ _ _ _ rounds limit sound endsAt agree
  obtain ⟨lastThere, roundsThere, -, blocks, sources, heap⟩ := confined
  have sameContext : (other.atStart id).blockContext embeddings id =
      (session.atStart id).blockContext embeddings id := by
    change other.blockContext embeddings id = session.blockContext embeddings id
    rw [blockContext, blockContext, sameBlock]
  rw [sameContext] at ranThere
  obtain ⟨rfl, rfl⟩ := Prod.mk.inj (roundsThere.run_nodes.symm.trans ranThere)
  rw [eq, eqThere]
  refine ⟨rfl, moved.adopt (congrArg Block.source sameBlock)
    (fun _ => rfl) blocks sources heap ?_ ?_⟩
  · rw [cursor, (grows.reaches (.refl _)).1]
    rfl
  · rw [cursorThere, (growsThere.reaches (.refl _)).1, isTextThere, ← textThere,
      ← other.text_atStart id source]
    exact congrArg _ isSource.symm

/-- Whether a block other than the root may run in front of an offset of the source of the root.  It
may if it is of another source or parsed already, or if parsing it comes to no error and leaves the
source at the offset or in front of it. -/
def mayRunUpTo (embeddings : Embeddings) (root : BlockRef) (source : SourceRef) (offset : Nat)
    (session : Session η) (id : BlockRef) : Bool :=
  let parsed := (session.atStart id).parseBlock embeddings id
  decide (id ≠ root) &&
    ((session.block id).nodes?.isSome || decide ((session.block id).source ≠ source) ||
      parsed.1.all (!·.isMalformed) && decide (Source.pointer (parsed.2.source source) ≤ offset))

end Session

/-- Such blocks may run while a text and the front of it differ. -/
theorem Divergence.spares_front (embeddings : Embeddings) (root : BlockRef) (source : SourceRef)
    (front rest : List Char) : (Divergence.cut root source front rest).Spares (η := η) embeddings
      (Session.mayRunUpTo embeddings root source (byteLength front)) where
  different session := by
    have same : decide (root ≠ root) = false := decide_eq_false fun different => different rfl
    change (decide (root ≠ root) && _) = false
    rw [same, Bool.false_and]
  parses session other id apart fitted fitted' may unparsed := by
    obtain ⟨different, reads⟩ := Bool.and_eq_true_iff.mp may
    have different := of_decide_eq_true different
    by_cases isSource : (session.block id).source = source
    · rw [unparsed, decide_eq_false (not_not.mpr isSource)] at reads
      obtain ⟨sound, ends⟩ := Bool.and_eq_true_iff.mp reads
      refine apart.parseBlock_upTo fitted fitted' different isSource (fun error member => ?_)
        (of_decide_eq_true ends)
      have isSound := List.all_eq_true.mp sound _ member
      cases isSound
    · exact apart.parseBlock_atStart fitted embeddings different
        fun same => isSource (Option.some.inj same).symm

namespace Run

theorem run_bind_of_stop {α β : Type} {run : Run η α} {next : α → Run η β} {stop : Stop}
    {session after : Session η} (ran : run.run.run session = pure (.error stop, after)) :
    (run >>= next).run.run session = pure (.error stop, after) := by
  have split : (run >>= next).run.run session =
      (ExceptT.bindCont next (run.run.run session).1).run (run.run.run session).2 := rfl
  rw [split, ran]
  rfl

/-- A block that is not parsed yet is parsed, and then its nodes run from its start on. -/
theorem ran_blockWith_of_unparsed
    (environment : Environment η) {session : Session η} {id : BlockRef}
    (fitted : session.Fitted) (unparsed : (session.block id).nodes? = none)
    (runBlock : BlockRef → Run η Unit) (fuel : Nat) :
    let parsed := (session.atStart id).parseBlock environment.embeddings id
    let block := parsed.2.block id
    (blockWith environment runBlock fuel id).run.run session =
      (do
        nodes (node environment runBlock fuel block.scope) block.enclosingLoop parsed.1
        seek block.source block.finish : Run η Unit).run.run (parsed.2.atStart id) := by
  intro parsed block
  obtain ⟨-, -, sought⟩ := ran_seek (fitted.isPlace_start id)
  have prepared : (nodesOf environment id).run.run session = pure (.ok parsed.1, parsed.2) :=
    ran_nodesOf_of_unparsed environment unparsed sought
  have looked : (get : Run η (Session η)).run.run parsed.2 = pure (.ok parsed.2, parsed.2) := rfl
  have fittedAfter : parsed.2.Fitted :=
    (fitted.parseBlock_atStart environment.embeddings unparsed).1
  have again : (seek block.source block.start).run.run parsed.2 =
      pure (.ok (), parsed.2.atStart id) :=
    (ran_seek (fittedAfter.isPlace_start id)).2.2
  rw [blockWith, run_bind_of_ok prepared, run_bind_of_ok looked]
  exact run_bind_of_ok again

variable {environment : Environment η} {session other : Session η} {root : BlockRef}
  {source : SourceRef} {front rest : List Char} {listed : List Node} {error : TemplateError}

theorem ran_nodes_malformed {runBlock : BlockRef → Run η Unit} {fuel : Nat} {scope : ScopeRef}
    (after : Session η) :
    (nodes (node environment runBlock fuel scope) none [.malformed error]).run.run after =
      pure (.error (.failed error), after) := by
  rw [ran_nodes_cons, if_neg (by exact Bool.false_ne_true)]
  exact run_bind_of_stop rfl

/-- Nodes in front of an error end as they do without it, and if they succeed the error follows. -/
theorem ran_nodes_cut {divergence : Divergence} {mayRun : Session η → BlockRef → Bool}
    (spares : divergence.Spares environment.embeddings mayRun)
    (apart : session.Apart divergence other)
    (fitted : session.Fitted) (fitted' : other.Fitted) (scope : ScopeRef) {fuel finish : Nat}
    (place : IsPlace (other.text source) finish) (known : source.index < other.sources.size)
    (last : Run η Unit)
    (ends : ((do
      nodes (node environment (guarded mayRun environment fuel) fuel scope) none
        (listed ++ [.malformed error])
      last : Run η Unit).run.run session).1 ≠ .error .outOfFuel) :
    ((do
      nodes (node environment (guarded mayRun environment fuel) fuel scope) none
        (listed ++ [.malformed error])
      last : Run η Unit).run.run session).1 =
        ((do
          nodes (node environment (block environment fuel) fuel scope) none listed
          seek source finish : Run η Unit).run.run other).1.bind
            (fun _ => .error (.failed error)) ∧
      ((do
        nodes (node environment (guarded mayRun environment fuel) fuel scope) none
          (listed ++ [.malformed error])
        last : Run η Unit).run.run session).2.writes =
        ((do
          nodes (node environment (block environment fuel) fuel scope) none listed
          seek source finish : Run η Unit).run.run other).2.writes := by
  have alike : EndAlike (Run.akin spares.kinship session other)
      (nodes (node environment (guarded mayRun environment fuel) fuel scope) none listed)
      (nodes (node environment (block environment fuel) fuel scope) none listed)
      (fun _ _ => True) session other :=
    Lockstep.nodes_akin environment
      (fun id => Lockstep.guarded_akin environment spares.kinship fuel session other id) scope none
      listed
      session other ⟨apart, fitted, fitted', .refl _, .refl _⟩
  rw [nodes_append, bind_assoc] at ends ⊢
  rw [EndAlike] at alike
  generalize ran : (nodes (node environment (guarded mayRun environment fuel) fuel scope) none
    listed).run.run session = ended at alike
  generalize ran' : (nodes (node environment (block environment fuel) fuel scope) none
    listed).run.run other = ended' at alike
  obtain ⟨outcome, after⟩ := ended
  obtain ⟨outcome', after'⟩ := ended'
  rcases alike with ⟨stop, rfl, rfl⟩ | ⟨⟨apartAfter, -, -, -, ext'⟩, alike⟩
  · rw [run_bind_of_stop ran] at ends
    exact absurd rfl ends
  · cases alike with
    | error same =>
        obtain rfl := same
        rw [run_bind_of_stop ran, run_bind_of_stop ran']
        exact ⟨rfl, apartAfter.writes.symm⟩
    | ok same =>
        have placeAfter : IsPlace (after'.text source) finish := (ext'.source _ known).2 ▸ place
        have stopped : (do
            nodes (node environment (guarded mayRun environment fuel) fuel scope) none
              [.malformed error]
            last : Run η Unit).run.run after = pure (.error (.failed error), after) :=
          run_bind_of_stop (ran_nodes_malformed after)
        rw [run_bind_of_ok ran, run_bind_of_ok ran', stopped, (ran_seek placeAfter).2.2]
        exact ⟨rfl, apartAfter.writes.symm⟩

/-- A text that fails to be parsed runs as the front of it does, and then fails.  So it is if no
block that is run on the way is read beyond the front. -/
theorem ran_block_cut (covers : session.Covers root (front ++ '@' :: rest))
    (covers' : other.Covers root front)
    (isSource : (session.block root).source = source)
    (isSource' : (other.block root).source = source)
    (fitted : session.Fitted) (fitted' : other.Fitted)
    (unparsed : (session.block root).nodes? = none) (unparsed' : (other.block root).nodes? = none)
    (parsed : ((session.atStart root).parseBlock environment.embeddings root).1 =
      ((other.atStart root).parseBlock environment.embeddings root).1 ++ [.malformed error])
    (apart : ((session.atStart root).parseBlock environment.embeddings root).2.Apart
      (.cut root source front rest)
      ((other.atStart root).parseBlock environment.embeddings root).2) {fuel : Nat}
    (ends : ((blockWhere (Session.mayRunUpTo environment.embeddings root source (byteLength front))
      environment fuel root).run.run session).1 ≠ .error .outOfFuel) :
    ((block environment fuel root).run.run session).1 =
        ((block environment fuel root).run.run other).1.bind (fun _ => .error (.failed error)) ∧
      ((block environment fuel root).run.run session).2.writes =
        ((block environment fuel root).run.run other).2.writes := by
  let mayRun : Session η → BlockRef → Bool :=
    Session.mayRunUpTo environment.embeddings root source (byteLength front)
  cases fuel with
  | zero => exact absurd rfl ends
  | succ fuel =>
      rw [← (Refines.blockWhere mayRun environment (fuel + 1) root session).resolve_right ends]
      have watched : (blockWhere mayRun environment (fuel + 1) root).run.run session = _ :=
        ran_blockWith_of_unparsed environment fitted unparsed (guarded mayRun environment fuel) fuel
      have ran : (block environment (fuel + 1) root).run.run other = _ :=
        ran_blockWith_of_unparsed environment fitted' unparsed' (block environment fuel) fuel
      obtain ⟨fittedAfter, ext⟩ := fitted.parseBlock_atStart environment.embeddings unparsed
      obtain ⟨fittedAfter', ext'⟩ := fitted'.parseBlock_atStart environment.embeddings unparsed'
      change ((blockWhere mayRun environment (fuel + 1) root).run.run session).1 ≠ _ at ends
      rw [watched] at ends ⊢
      rw [ran]
      generalize (session.atStart root).parseBlock environment.embeddings root = opened
        at parsed apart fittedAfter ext ends ⊢
      generalize (other.atStart root).parseBlock environment.embeddings root = opened'
        at parsed apart fittedAfter' ext' ⊢
      obtain ⟨_, opened⟩ := opened
      obtain ⟨listed, opened'⟩ := opened'
      obtain rfl := parsed
      have coversAfter := covers.mono ext
      have coversAfter' := covers'.mono ext'
      have sameSource : (opened'.block root).source = (opened.block root).source := by
        have same := Block.eq_of_outline Block.source (fun _ => rfl)
          (ext.outline_block covers.present)
        have same' :=
          Block.eq_of_outline Block.source (fun _ => rfl) (ext'.outline_block covers'.present)
        rw [same, same', isSource, isSource']
      have moved := apart.atStart sameSource (coversAfter'.start.trans coversAfter.start.symm)
      have place : IsPlace ((opened'.atStart root).text (opened'.block root).source)
          (opened'.block root).finish := by
        rw [Session.text_atStart, coversAfter'.text, coversAfter'.finish]
        exact isPlace_byteLength front
      have known : (opened'.block root).source.index < (opened'.atStart root).sources.size :=
        ((opened'.quiet_seek _ _).toExtends.source _ coversAfter'.sourcePresent).1
      dsimp only at ends ⊢
      rw [coversAfter.enclosingLoop] at ends ⊢
      rw [coversAfter'.enclosingLoop, apart.scope_eq]
      exact ran_nodes_cut (Divergence.spares_front environment.embeddings root source
        front rest) moved
        (fittedAfter.of_quiet (opened.quiet_seek _ _))
        (fittedAfter'.of_quiet (opened'.quiet_seek _ _))
        (opened.block root).scope place known _ ends

end Run

namespace Session

variable {session : Session η} {embeddings : Embeddings} {id root : BlockRef}

/-- The block of an added text has the scope that it was given, and was not left. -/
theorem addText_block (session : Session η) (source : AnySource) (scope : ScopeRef)
    (role : BlockRole) :
    ((session.addText source scope role).2.block ⟨session.blocks.size⟩).scope = scope ∧
      ((session.addText source scope role).2.block ⟨session.blocks.size⟩).wasLeft = false := by
  rw [block_addText_last]
  exact ⟨rfl, rfl⟩

/-- Where a block begins that covers a text. -/
theorem Covers.source_atStart {text : List Char} (covers : session.Covers root text)
    (fitted : session.Fitted) :
    ((session.atStart root).draft root).source = .between [] text := by
  refine Cursor.eq_of_text_of_offset ?_ ?_
  · exact (session.text_atStart root _).trans covers.text
  · rw [offset_atStart fitted root covers.sourcePresent, covers.start]
    rfl

/-- A block that covers a text and fails to be parsed has the nodes of the front of the text, and
then the error.  Unless the directive that fails made a block, nothing else differs. -/
theorem Covers.parseBlock_cut {text : List Char} {offset fuel : Nat} {error : TemplateError}
    (covers : session.Covers root text) (fitted : session.Fitted)
    (fails : Directive.failureFrom? ((session.atStart root).blockContext embeddings root) fuel
      ((session.atStart root).draft root) = some (offset, error)) :
    ∃ front rest, text = front ++ '@' :: rest ∧ byteLength front = offset ∧
      ∀ other : Session η, session.Apart (.cut root (session.block root).source front rest) other →
        other.Covers root front → other.Fitted →
        (other.block root).source = (session.block root).source →
        let parsed := (session.atStart root).parseBlock embeddings root
        let parsedThere := (other.atStart root).parseBlock embeddings root
        parsed.1 = parsedThere.1 ++ [.malformed error] ∧
          (parsed.2.blocks.size = parsedThere.2.blocks.size →
            parsed.2.Apart (.cut root (session.block root).source front rest) parsedThere.2) := by
  have here := covers.source_atStart fitted
  have isText : ((session.atStart root).draft root).source.text = text := by
    rw [here]
    rfl
  obtain ⟨front, rest, listed, last, after, split, isOffset, ran, grows, others⟩ :=
    Directive.exists_cut_of_fails (isText.symm ▸ here) (isText.symm ▸ covers.limit) fails
  rw [isText] at split
  refine ⟨front, rest, split, isOffset, ?_⟩
  intro other apart coversThere fittedThere sameSource parsed parsedThere
  have begun := apart.atStart sameSource (coversThere.start.trans covers.start.symm)
  obtain ⟨afterThere, ranThere, reaches, blocks, sources, heap⟩ := others begun.likeness
    ((other.atStart root).draft root) (coversThere.source_atStart fittedThere) begun.likeness_blocks
    begun.likeness_sources (congrArg Store.heap begun.store)
  have context : (other.atStart root).blockContext embeddings root =
      ((session.atStart root).blockContext embeddings root).upTo offset := by
    change other.blockContext embeddings root = (session.blockContext embeddings root).upTo offset
    simp only [blockContext, BlockContext.upTo, sameSource, apart.scope_eq, coversThere.limit,
      coversThere.enclosingLoop, covers.enclosingLoop, isOffset]
  obtain ⟨nodes, drafted, taken, ranHere, cursor, eq⟩ :=
    (session.atStart root).parseBlock_eq embeddings root
  obtain ⟨nodesThere, draftedThere, takenThere, ranOther, cursorThere, eqThere⟩ :=
    (other.atStart root).parseBlock_eq embeddings root
  have reachesHere := ((Directive.nodes_make ranHere).1.reaches (.refl _)).1
  rw [context] at ranOther
  obtain ⟨rfl, rfl⟩ := Prod.mk.inj (ran.symm.trans ranHere)
  obtain ⟨rfl, rfl⟩ := Prod.mk.inj (ranThere.symm.trans ranOther)
  have whole : parsed = _ := eq
  have cut : parsedThere = _ := eqThere
  rw [whole, cut]
  refine ⟨rfl, fun size => ?_⟩
  rw [size_blocks_adopt, size_blocks_adopt, begun.likeness.size_blocks blocks] at size
  have same := grows.eq_of_size size
  refine begun.adopt sameSource (fun different => absurd rfl different) ?_ ?_ ?_ ?_ ?_
  · rw [same]
    exact blocks
  · rw [same]
    exact sources
  · rw [same]
    exact heap
  · rw [cursor, reachesHere]
    rfl
  · rw [cursorThere, reaches.1]
    exact congrArg (other.atStart root).text sameSource

/-- Sessions to which a text and the front of it were added. -/
theorem apart_addText {text : String} {front rest : List Char}
    (split : text.toList = front ++ '@' :: rest) (session : Session η) (scope : ScopeRef)
    (role : BlockRole) : (session.addText (.plain (.ofString text)) scope role).2.Apart
      (.cut ⟨session.blocks.size⟩ ⟨session.sources.size⟩ front rest)
      (session.addText (.plain (.ofString (String.ofList front))) scope role).2 where
  depth := rfl
  store := rfl
  placeholders := rfl
  writes := rfl
  present := Nat.lt_of_lt_of_eq (Nat.lt_succ_self _) (Array.size_push _).symm
  size_blocks := (Array.size_push _).trans (Array.size_push _).symm
  blocks index different := by
    have different : index ≠ session.blocks.size := different
    rw [addText, addText, Array.getElem?_push, Array.getElem?_push, if_neg different,
      if_neg different]
  scope := (session.addText_block _ scope role).1.trans (session.addText_block _ scope role).1.symm
  wasLeft := (session.addText_block _ scope role).2.trans
    (session.addText_block _ scope role).2.symm
  size_sources := (Array.size_push _).trans (Array.size_push _).symm
  text id different := by
    have indexes : id.index ≠ session.sources.size := fun same =>
      different (congrArg (fun index => some (SourceRef.mk index)) same).symm
    rw [Session.text, Session.text, Session.source, Session.source, addText, addText,
      Array.getD_eq_getD_getElem?, Array.getD_eq_getD_getElem?, Array.getElem?_push,
      Array.getElem?_push, if_neg indexes, if_neg indexes]
  own id isOwn := by
    obtain rfl := Option.some.inj isOwn
    refine ⟨Nat.lt_of_lt_of_eq (Nat.lt_succ_self _) (Array.size_push _).symm, ?_, ?_⟩
    · exact text_addText.trans split
    · exact text_addText.trans String.toList_ofList

end Session

namespace Template

/-- The offset of the directive that ends the parsing of a template with an error, and that
error. -/
def failure? (template : Template η) : Option (Nat × TemplateError) :=
  let session := template.session.atStart template.root
  let draft := session.draft template.root
  Directive.failureFrom? (session.blockContext template.environment.embeddings template.root)
    (draft.source.remaining + 1) draft

/-- The nodes of the root of a template, and the session once the root is parsed. -/
def parsedRoot (template : Template η) : List Node × Session η :=
  (template.session.atStart template.root).parseBlock template.environment.embeddings template.root

/-- How a template ends that stops before the first block which is read beyond an offset. -/
def endUpTo (template : Template η) (offset fuel : Nat) : Except Stop Unit :=
  let source := (template.session.block template.root).source
  let mayRun := Session.mayRunUpTo template.environment.embeddings template.root source offset
  ((Run.blockWhere mayRun template.environment fuel template.root).run.run template.session).1

variable {text : String} {front rest : List Char} {options : Options} {host : Host η} {state : η}
  {store : Store η} {offset : Nat} {error : TemplateError}

theorem writes_ofSource (source : AnySource) (options : Options) (host : Host η) (state : η) :
    (ofSource source options host state).session.writes = #[] :=
  ofSource_induction (fun session => session.writes = #[]) source options host state rfl
    (fun _ _ same => same) fun _ same => same

/-- The first render begins in the session of the template. -/
theorem render_new (text : String) (options : Options) (host : Host η) (state : η) (store : Store η)
    (fuel : Nat) :
    let template := (ofString text options host state).withStore store
    let ran := (Run.block template.environment fuel template.root).run.run template.session
    (template.render fuel).1 = ⟨ran.1, ran.2.writes⟩ := by
  intro template ran
  have writes : template.session.writes = #[] :=
    writes_ofSource (.plain (.ofString text)) options host state
  have begun : { template.session with writes := #[] } = template.session := by
    rw [← writes]
  change (⟨((Run.block template.environment fuel template.root).run.run
      { template.session with writes := #[] }).1, ((Run.block template.environment fuel
        template.root).run.run { template.session with writes := #[] }).2.writes⟩ : Rendering) = _
  rw [begun]

theorem apart_ofString (split : text.toList = front ++ '@' :: rest) :
    let whole := (ofString text options host state).withStore store
    let cut := (ofString (String.ofList front) options host state).withStore store
    cut.root = whole.root ∧
      (cut.session.block whole.root).source = (whole.session.block whole.root).source ∧
      whole.session.Apart (.cut whole.root (whole.session.block whole.root).source front rest)
        cut.session := by
  intro whole cut
  have root : whole.root = ⟨(seeded options state).blocks.size⟩ := rfl
  have isBlock (text : String) :
      ((ofString text options host state).withStore store).session.block whole.root = _ :=
    Session.block_addText_last (.plain (.ofString text)) .global .root
  have here := congrArg Block.source (isBlock text)
  have there := congrArg Block.source (isBlock (String.ofList front))
  refine ⟨rfl, there.trans here.symm, ?_⟩
  rw [here]
  exact { Session.apart_addText split (seeded options state) .global .root with store := rfl }

theorem covers_withStore (text : String) (options : Options) (host : Host η) (state : η)
    (store : Store η) :
    let template := (ofString text options host state).withStore store
    template.session.Covers template.root text.toList ∧
      (template.session.block template.root).nodes? = none ∧ template.session.Fitted := by
  intro template
  obtain ⟨covers, unparsed⟩ := covers_root text options host state
  have fitted := (valid_ofSource (.plain (.ofString text)) options host state).fitted
  exact ⟨⟨covers.present, covers.sourcePresent, covers.start, covers.limit, covers.finish,
    covers.enclosingLoop, covers.text⟩, unparsed, fitted⟩

/-- A template whose parsing ends with an error at a directive has the nodes of the text in front of
that directive, and then the error.  Unless the directive made a block, nothing else differs. -/
theorem parsedRoot_cut (fails : ((ofString text options host state).withStore store).failure? =
      some (offset, error)) :
    ∃ front rest, text.toList = front ++ '@' :: rest ∧ byteLength front = offset ∧
      let whole := (ofString text options host state).withStore store
      let cut := (ofString (String.ofList front) options host state).withStore store
      whole.parsedRoot.1 = cut.parsedRoot.1 ++ [.malformed error] ∧
        (whole.parsedRoot.2.blocks.size = cut.parsedRoot.2.blocks.size →
          whole.parsedRoot.2.Apart
            (.cut whole.root (whole.session.block whole.root).source front rest)
            cut.parsedRoot.2) := by
  obtain ⟨covers, -, fitted⟩ := covers_withStore text options host state store
  obtain ⟨front, rest, split, isOffset, parsed⟩ := covers.parseBlock_cut fitted fails
  refine ⟨front, rest, split, isOffset, ?_⟩
  intro whole cut
  obtain ⟨root, sameSource, apart⟩ := apart_ofString split
  obtain ⟨coversThere, -, fittedThere⟩ :=
    covers_withStore (String.ofList front) options host state store
  rw [String.toList_ofList] at coversThere
  exact parsed cut.session apart coversThere fittedThere sameSource

/-- A template whose parsing ends with an error at a directive runs as the template of the text in
front of that directive does: it writes the same, and either fails with the error that the front
fails with, or fails with that error once the front has succeeded.  So it is if the directive made
no block, and if no block that runs is read beyond the front or into an error. -/
theorem error_behind_front
    (fails : ((ofString text options host state).withStore store).failure? = some (offset, error)) :
    ∃ front rest, text.toList = front ++ '@' :: rest ∧ byteLength front = offset ∧
      let whole := (ofString text options host state).withStore store
      let cut := (ofString (String.ofList front) options host state).withStore store
      whole.parsedRoot.1 = cut.parsedRoot.1 ++ [.malformed error] ∧
        (whole.parsedRoot.2.blocks.size = cut.parsedRoot.2.blocks.size → ∀ fuel,
          whole.endUpTo offset fuel ≠ .error .outOfFuel →
            (whole.render fuel).1.writes = (cut.render fuel).1.writes ∧
              (whole.render fuel).1.outcome =
                (cut.render fuel).1.outcome.bind fun _ => .error (.failed error)) := by
  obtain ⟨front, rest, split, rfl, parsed, apart⟩ := parsedRoot_cut fails
  refine ⟨front, rest, split, rfl, parsed, fun size fuel ends => ?_⟩
  obtain ⟨covers, unparsed, fitted⟩ := covers_withStore text options host state store
  obtain ⟨coversThere, unparsedThere, fittedThere⟩ :=
    covers_withStore (String.ofList front) options host state store
  obtain ⟨root, sameSource, -⟩ := apart_ofString split
  rw [split] at covers
  rw [String.toList_ofList] at coversThere
  obtain ⟨outcome, writes⟩ := Run.ran_block_cut covers coversThere rfl sameSource fitted fittedThere
    unparsed unparsedThere parsed (apart size) ends
  have whole := render_new text options host state store fuel
  have cut := render_new (String.ofList front) options host state store fuel
  dsimp only at whole cut ⊢
  rw [whole, cut]
  exact ⟨writes, outcome⟩

/-- A template of a text with nothing in its session besides. -/
def bare (text : String) : Template Unit :=
  (ofString text { defaultPlaceholders := false } Host.none ()).withStore ⟨.ofGlobal "Global", ()⟩

theorem error_behind_front_unfinished :
    ((bare "a@if(true)b@endif").render 9).1.writes = #["a", "b"] ∧
      ((bare "a@if(true)b@endif@if(").render 9).1.writes =
        ((bare "a@if(true)b@endif").render 9).1.writes ∧
      ((bare "a@if(true)b@endif@if(").render 9).1.outcome =
        ((bare "a@if(true)b@endif").render 9).1.outcome.bind fun _ =>
          .error (.failed (.parse (.expected "a condition") ⟨1, 22, 21⟩)) := by
  have fails : (bare "a@if(true)b@endif@if(").failure? =
      some (17, .parse (.expected "a condition") ⟨1, 22, 21⟩) := by decide +kernel
  have sizes : (bare "a@if(true)b@endif@if(").parsedRoot.2.blocks.size =
      (bare "a@if(true)b@endif").parsedRoot.2.blocks.size := by decide +kernel
  have ends : (bare "a@if(true)b@endif@if(").endUpTo 17 9 ≠ .error .outOfFuel := by decide +kernel
  have output : ((bare "a@if(true)b@endif").render 9).1.writes = #["a", "b"] := by decide +kernel
  unfold bare at fails sizes ends output ⊢
  obtain ⟨front, rest, split, bytes, -, follows⟩ := error_behind_front fails
  have isPrefix : front = "a@if(true)b@endif@if(".toList.take front.length := by
    rw [split, List.take_left]
  have short : front.length ≤ byteLength front := length_le_byteLength front
  have unique : ∀ count < 18,
      byteLength ("a@if(true)b@endif@if(".toList.take count) = 17 → count = 17 := by decide
  have count := unique front.length (by omega) (isPrefix ▸ bytes)
  have isFront : String.ofList front = "a@if(true)b@endif" := by
    rw [isPrefix, count]
    decide
  rw [isFront] at follows
  exact ⟨output, follows sizes 9 ends⟩

/-- The directive that is in error has not been come to, but it decides how the template ends: the
path that the branch ends with is read on up to that directive. -/
theorem renderText_error_behind_front :
    (renderText "@if(true)@var x = y.@endif.@if(" 9).outcome =
        .error (.failed (.parse (.expected "an argument") ⟨1, 32, 31⟩)) ∧
      (renderText "@if(true)@var x = y.@endif." 9).outcome =
        .error (.failed (.reference (.undefinedName "y"))) := by
  decide +kernel

end Template

end Stencil
