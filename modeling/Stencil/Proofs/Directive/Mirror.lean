import Stencil.Proofs.Directive.Answers
import Stencil.Proofs.Expression.Mirror

/-!
# Directives in placed sources

Parsing a block of a source that is placed in a text gives what parsing the block there gives: the
same nodes, scopes and sources, and blocks whose places lie a fixed number of bytes further.
-/

namespace Stencil

open Text

/-- How what is made while a block of a placed source is parsed corresponds to what is made while
the same block is parsed in the whole text. -/
structure Draft.Pairing (σ : Type) [Source σ] (text : List Char) (source : SourceRef) where
  placement : Placement σ text
  blocks : Array Block → Array Block → Prop
  sources : Array AnySource → Array AnySource → Prop
  /-- Sources from here on are those of embedded texts. -/
  known : Nat
  size_blocks {left right : Array Block} : blocks left right → right.size = left.size
  push_body {left right : Array Block} (made : Block) : blocks left right →
    made.source = source → made.nodes? = none → blocks (left.push made)
      (right.push { made with
        start := made.start + placement.shift, finish := made.finish + placement.shift })
  push_embedded {left right : Array Block} (made : Block) : blocks left right →
    known ≤ made.source.index → made.nodes? = none → blocks (left.push made) (right.push made)
  size_sources {left right : Array AnySource} : sources left right → right.size = left.size
  push_sources {left right : Array AnySource} (added : AnySource) : sources left right →
    sources (left.push added) (right.push added)

/-- Drafts that correspond, at or after an anchor. -/
structure Draft.Paired {σ : Type} [Source σ] {anchor : Cursor} {source : SourceRef}
    (pairing : Draft.Pairing σ anchor.text source) (draft : Draft σ) (whole : Draft Cursor) :
    Prop where
  stands : pairing.placement.Stands draft.source whole.source
  blocks : pairing.blocks draft.blocks whole.blocks
  sources : pairing.sources draft.sources whole.sources
  known : pairing.known ≤ draft.sources.size
  heap : whole.heap = draft.heap

/-- What is known of a block, seen in a text with more bytes in front. -/
def BlockContext.shifted (context : BlockContext) (shift : Nat) : BlockContext :=
  { context with limit := context.limit + shift }

namespace Parser.Mirrors

variable {σ : Type} [Source σ] {anchor : Cursor} {placement : Placement σ anchor.text}

theorem afterBreak :
    Follows (fun source cursor => placement.Stands source cursor ∧ 1 ≤ Source.pointer source) id
      (Directive.afterBreak : StateM σ Bool) Directive.afterBreak :=
  (Text.Mirrors.isAfter ' ').bind fun _ =>
    .ite Iff.rfl (.pure id true) (Text.Mirrors.isAfter '\n')

theorem bodyLength (start : Nat) :
    Text.Mirrors anchor placement (Directive.bodyLength start : StateM σ Nat)
      (Directive.bodyLength (start + placement.shift)) := by
  rintro source _ ⟨rfl, reaches⟩
  have place : Source.pointer (placement.cursor source) =
      Source.pointer source + placement.shift := (placement.pointer_eq source).symm
  have looked : (Directive.bodyLength start : StateM σ Nat).run source =
      (do
        if Source.pointer source - start = 0 then return 0
        else if ← Directive.afterBreak then return Source.pointer source - start - 1
        else return Source.pointer source - start : StateM σ Nat).run source := rfl
  have lookedThere : (Directive.bodyLength (start + placement.shift)).run
      (placement.cursor source) =
      (do
        if Source.pointer (placement.cursor source) - (start + placement.shift) = 0 then return 0
        else if ← Directive.afterBreak then
          return Source.pointer (placement.cursor source) - (start + placement.shift) - 1
        else return Source.pointer (placement.cursor source) - (start + placement.shift) :
          StateM Cursor Nat).run (placement.cursor source) := rfl
  rw [looked, lookedThere, place, Nat.add_sub_add_right]
  split
  · exact ⟨rfl, rfl, reaches⟩
  · -- a body that is not empty leaves a character to look back at
    have follows (length : Nat) : Follows (fun source cursor => placement.Stands source cursor ∧
        1 ≤ Source.pointer source) id
        (do if ← Directive.afterBreak then return length - 1 else return length : StateM σ Nat)
        (do if ← Directive.afterBreak then return length - 1 else return length) :=
      Follows.bind afterBreak fun _ => .ite Iff.rfl (.pure id (length - 1)) (.pure id length)
    obtain ⟨answers, stands, -⟩ := follows _ source _ ⟨⟨rfl, reaches⟩, by omega⟩
    exact ⟨answers, stands⟩

theorem bodyRange (limit : Nat) (opening : String) (keywords : List String) :
    MirrorsAs (fun found => (⟨found.1.start + placement.shift, found.1.length⟩, found.2)) anchor
      placement
      (Directive.bodyRange limit opening keywords : Parser σ (Directive.BodyRange × Nat))
      (Directive.bodyRange (limit + placement.shift) opening keywords) := by
  refine pointer_bindAs fun start within => (scan (.closingKeyword? opening keywords)).bindAs
    fun found => ?_
  cases found with
  | none => exact .fail _ nofun
  | some index =>
      refine pointer_bindAs fun place _ => FollowsOrFails.ite Nat.add_lt_add_iff_right.symm ?_
        (MirrorsAs.fail _ nofun)
      exact (scan (bodyLength (Source.pointer start))).bindAs fun length =>
        (scan (.acceptText _)).bindAs fun _ =>
          MirrorsAs.pure _ ((⟨Source.pointer start, length⟩ : Directive.BodyRange), index)

theorem loopHeader :
    Mirrors anchor placement (Directive.loopHeader : Parser σ LoopHeader) Directive.loopHeader :=
  (congruence anchor placement).loopHeader expression?

theorem branchCondition :
    Mirrors anchor placement
        (Directive.branchCondition : Parser σ Condition) Directive.branchCondition :=
  (scan .skipSpaces).bind fun _ => condition?.bind fun _ => (require _ _).bind fun _ =>
    (expectSymbol ')').bind fun _ => (scan .acceptBreak).bind fun _ => pure _

theorem furtherNames (allowed : Nat) :
    Mirrors anchor placement (Directive.furtherNames allowed : Parser σ (List String))
      (Directive.furtherNames allowed) :=
  (congruence anchor placement).furtherNames allowed

theorem defaultUse :
    Mirrors anchor placement (Directive.defaultUse : Parser σ Node) Directive.defaultUse := by
  refine (expectName _).bind fun _ => (scan .skipSpaces).bind fun _ =>
    (scan (.accept ',')).bind fun _ => ite ?_ ?_
  · exact (scan .skipSpaces).bind fun _ => (expression _).bind fun _ => (pure _).bind fun _ =>
      (expectSymbol ')').bind fun _ => pure _
  · exact (pure none).bind fun _ => (expectSymbol ')').bind fun _ => pure _

theorem definitionUse :
    Mirrors anchor placement (Directive.definitionUse : Parser σ Node) Directive.definitionUse := by
  refine (expectName _).bind fun _ => (scan .skipSpaces).bind fun _ =>
    (scan (.accept ',')).bind fun _ => ite ?_ ?_
  · exact (expectName _).bind fun _ => (expectSymbol ')').bind fun _ => pure _
  · exact (pure _).bind fun _ => (expectSymbol ')').bind fun _ => pure _

theorem textFrom (limit fuel : Nat) (taken : List Char) :
    Text.Mirrors anchor placement (Directive.textFrom limit fuel taken : StateM σ (List Char))
      (Directive.textFrom (limit + placement.shift) fuel taken) := by
  induction fuel generalizing taken with
  | zero => exact .pure taken
  | succ fuel induction =>
      refine .pointer_bind fun place _ => .ite_iff Nat.add_lt_add_iff_right.symm ?_ (.pure taken)
      refine Text.Mirrors.current.bind fun found => ?_
      cases found with
      | none => exact .pure taken
      | some character =>
          exact .ite (.pure taken) (Text.Mirrors.step.bind fun _ => induction _)

theorem text? (limit : Nat) :
    Text.Mirrors anchor placement (Directive.text? limit : StateM σ (Option Node))
      (Directive.text? (limit + placement.shift)) :=
  Text.Mirrors.remaining.bind fun _ => (textFrom limit _ []).bind fun _ =>
    .ite (.pure none) (.pure _)

theorem declarationStart? :
    Text.Mirrors anchor placement
      (Directive.declarationStart? : StateM σ (Option Directive.BindingForm))
      Directive.declarationStart? :=
  (congruence anchor placement).declarationStart?

theorem declaration? :
    Mirrors anchor placement
        (Directive.declaration? : Parser σ (Option Node)) Directive.declaration? := by
  refine (scan declarationStart?).bind fun form? => ?_
  cases form? with
  | none => exact pure none
  | some form =>
      exact (expectName _).bind fun _ => (expectSymbol '=').bind fun _ =>
        (scan .skipSpaces).bind fun _ => (expression _).bind fun _ =>
        (scan .acceptBreak).bind fun _ => pure _

theorem read? :
    Mirrors anchor placement (Directive.read? : Parser σ (Option Node)) Directive.read? :=
  reference.bind fun _ => pure _

theorem leave (context : BlockContext) :
    Mirrors anchor placement (Directive.leave context : Parser σ Node)
        (Directive.leave context) := by
  unfold Directive.leave
  cases context.enclosingLoop with
  | none => exact fail _ nofun
  | some target => exact (scan .acceptBreak).bind fun _ => pure _

theorem embeddedPath :
    Mirrors anchor placement (Directive.embeddedPath : Parser σ String) Directive.embeddedPath :=
  (congruence anchor placement).embeddedPath

theorem stray? (keywords : List String) :
    Text.Mirrors anchor placement (Directive.stray? keywords : StateM σ (Option String))
      (Directive.stray? keywords) := by
  induction keywords with
  | nil => exact .pure none
  | cons keyword keywords induction =>
      exact (Text.Mirrors.looksAtKeyword keyword).bind fun _ => .ite (.pure _) induction

theorem markText :
    Mirrors anchor placement (Directive.markText : Parser σ Node) Directive.markText := by
  refine (scan .current).bind fun found => ?_
  cases found with
  | none => exact fail _ nofun
  | some character => exact (scan .step).bind fun _ => pure _

theorem atLimit (limit : Nat) :
    Text.Mirrors anchor placement (Directive.atLimit limit : StateM σ Bool)
      (Directive.atLimit (limit + placement.shift)) :=
  .pointer_bind fun _ _ => .ite_iff Nat.add_le_add_iff_right.symm (.pure true) .hasEnded

end Parser.Mirrors

namespace DirectiveParser

variable {σ : Type} [Source σ] {α β γ : Type} {anchor : Cursor} {source : SourceRef}
  {pairing : Draft.Pairing σ anchor.text source}

/-- A parser of directives answers, fails and changes its draft as one of the whole text does. -/
def Mirrors (anchor : Cursor) (pairing : Draft.Pairing σ anchor.text source)
    (left : DirectiveParser σ α) (right : DirectiveParser Cursor α) : Prop :=
  FollowsOrFails (Draft.Paired pairing) TemplateError.OtherThanSeek
    (TemplateError.relocate pairing.placement.position) id left right

namespace Mirrors

theorem pure (answer : α) :
    Mirrors anchor pairing (Pure.pure answer : DirectiveParser σ α) (Pure.pure answer) :=
  FollowsOrFails.pure id answer

theorem throw (error : TemplateError) (expected : TemplateError.OtherThanSeek error) :
    Mirrors anchor pairing (MonadExcept.throw error : DirectiveParser σ α)
      (MonadExcept.throw (error.relocate pairing.placement.position)) :=
  FollowsOrFails.throw error expected

theorem bind {first : DirectiveParser σ α} {firstCursor : DirectiveParser Cursor α}
    {next : α → DirectiveParser σ β} {nextCursor : α → DirectiveParser Cursor β}
    (here : Mirrors anchor pairing first firstCursor)
    (later : ∀ answer, Mirrors anchor pairing (next answer) (nextCursor answer)) :
    Mirrors anchor pairing (first >>= next) (firstCursor >>= nextCursor) :=
  FollowsOrFails.bind here later

theorem ite {condition : Prop} [Decidable condition] {yes no : DirectiveParser σ α}
    {yesCursor noCursor : DirectiveParser Cursor α}
    (holds : Mirrors anchor pairing yes yesCursor) (fails : Mirrors anchor pairing no noCursor) :
    Mirrors anchor pairing (if condition then yes else no)
      (if condition then yesCursor else noCursor) :=
  FollowsOrFails.ite Iff.rfl holds fails

theorem scan {run : StateM σ α} {runCursor : StateM Cursor α}
    (inner : Text.Mirrors anchor pairing.placement run runCursor) :
    Mirrors anchor pairing (DirectiveParser.scan run) (DirectiveParser.scan runCursor) := by
  refine FollowsOrFails.lift fun draft whole paired => ?_
  obtain ⟨answers, stands⟩ := inner draft.source whole.source paired.stands
  exact ⟨answers, stands, paired.blocks, paired.sources, paired.known, paired.heap⟩

theorem parseAs {change : α → β} {parser : Parser σ α} {parserCursor : Parser Cursor β}
    (inner : Parser.MirrorsAs change anchor pairing.placement parser parserCursor) :
    FollowsOrFails (Draft.Paired pairing) TemplateError.OtherThanSeek
      (TemplateError.relocate pairing.placement.position) change (DirectiveParser.parse parser)
      (DirectiveParser.parse parserCursor) := by
  refine ⟨fun draft whole paired => ?_, fun draft whole paired error failed => ?_⟩
  · obtain ⟨answers, stands⟩ := inner.1 draft.source whole.source paired.stands
    exact ⟨answers, stands, paired.blocks, paired.sources, paired.known, paired.heap⟩
  · exact inner.2 draft.source whole.source paired.stands error failed

theorem parse {parser : Parser σ α} {parserCursor : Parser Cursor α}
    (inner : Parser.Mirrors anchor pairing.placement parser parserCursor) :
    Mirrors anchor pairing (DirectiveParser.parse parser) (DirectiveParser.parse parserCursor) :=
  parseAs inner

theorem pointer_bind {next : Nat → DirectiveParser σ β} {nextCursor :
    Nat → DirectiveParser Cursor β}
    (later : ∀ place : σ, anchor.Reaches (pairing.placement.cursor place) →
      Mirrors anchor pairing (next (Source.pointer place))
        (nextCursor (Source.pointer place + pairing.placement.shift))) :
    Mirrors anchor pairing (DirectiveParser.scan Scan.pointer >>= next)
      (DirectiveParser.scan Scan.pointer >>= nextCursor) := by
  refine FollowsOrFails.of_state fun draft whole paired => ?_
  obtain ⟨isCursor, reaches⟩ := paired.stands
  have place : Source.pointer whole.source =
      Source.pointer draft.source + pairing.placement.shift := by
    rw [pairing.placement.pointer_eq, isCursor]
    rfl
  refine ⟨_, _, later draft.source (isCursor ▸ reaches), rfl, ?_⟩
  rw [← place]
  rfl

theorem bodyRange_bind {limit : Nat} {opening : String} {keywords : List String}
    {next : Directive.BodyRange × Nat → DirectiveParser σ β}
    {nextCursor : Directive.BodyRange × Nat → DirectiveParser Cursor β}
    (later : ∀ (range : Directive.BodyRange) (index : Nat), Mirrors anchor pairing
      (next (range, index))
      (nextCursor (⟨range.start + pairing.placement.shift, range.length⟩, index))) :
    Mirrors anchor pairing
      (DirectiveParser.parse (Directive.bodyRange limit opening keywords) >>= next)
      (DirectiveParser.parse
        (Directive.bodyRange (limit + pairing.placement.shift) opening keywords) >>= nextCursor) :=
  FollowsOrFails.bind (parseAs (Parser.Mirrors.bodyRange limit opening keywords)) fun found =>
    later found.1 found.2

theorem newScope (context : BlockContext) (name : String) :
    Mirrors anchor pairing (DirectiveParser.newScope context name : DirectiveParser σ ScopeRef)
      (DirectiveParser.newScope (context.shifted pairing.placement.shift) name) := by
  refine ⟨fun draft whole paired => ?_, fun _ _ _ _ same => nomatch same⟩
  have heap : (whole.heap.newScope name (some context.scope)) =
      draft.heap.newScope name (some context.scope) := by rw [paired.heap]
  refine ⟨congrArg (fun made : ScopeRef × Heap => Except.ok made.1) heap.symm, ?_⟩
  exact ⟨paired.stands, paired.blocks, paired.sources, paired.known, congrArg Prod.snd heap⟩

theorem newBlock {block blockCursor : BlockRef → Block}
    (push : ∀ id left right, pairing.blocks left right →
      pairing.blocks (left.push (block id)) (right.push (blockCursor id))) :
    Mirrors anchor pairing (DirectiveParser.newBlock block : DirectiveParser σ BlockRef)
      (DirectiveParser.newBlock blockCursor) := by
  refine ⟨fun draft whole paired => ?_, fun _ _ _ _ same => nomatch same⟩
  have size := pairing.size_blocks paired.blocks
  refine ⟨congrArg (fun index => Except.ok (BlockRef.mk index)) size.symm, ?_⟩
  refine ⟨paired.stands, ?_, paired.sources, paired.known, paired.heap⟩
  change pairing.blocks _ (whole.blocks.push (blockCursor ⟨whole.blocks.size⟩))
  rw [size]
  exact push _ _ _ paired.blocks

theorem newSource_bind {added : AnySource} {next : SourceRef → DirectiveParser σ β}
    {nextCursor : SourceRef → DirectiveParser Cursor β}
    (later : ∀ id : SourceRef, pairing.known ≤ id.index →
      Mirrors anchor pairing (next id) (nextCursor id)) :
    Mirrors anchor pairing (DirectiveParser.newSource added >>= next)
      (DirectiveParser.newSource added >>= nextCursor) := by
  have pushed {draft : Draft σ} {whole : Draft Cursor} (paired : Draft.Paired pairing draft whole) :
      Draft.Paired pairing { draft with sources := draft.sources.push added }
        { whole with sources := whole.sources.push added } := by
    refine ⟨paired.stands, paired.blocks, pairing.push_sources added paired.sources, ?_,
      paired.heap⟩
    exact Nat.le_trans paired.known (by simp)
  constructor
  · intro draft whole paired
    have size := pairing.size_sources paired.sources
    have here := (later ⟨draft.sources.size⟩ paired.known).1 _ _ (pushed paired)
    have split : ((DirectiveParser.newSource added >>= nextCursor).run.run whole) =
        (nextCursor ⟨whole.sources.size⟩).run.run
          { whole with sources := whole.sources.push added } := rfl
    rw [split, size]
    exact here
  · intro draft whole paired error failed
    exact (later ⟨draft.sources.size⟩ paired.known).2 _ _ (pushed paired) error failed

section

variable (context : BlockContext) (isSource : context.source = source)

include isSource

theorem newBody (range : Directive.BodyRange) (role : BlockRole) (scope : ScopeRef)
    (enclosingLoop : BlockRef → Option BlockRef) :
    Mirrors anchor pairing
      (Directive.newBody context range role scope enclosingLoop : DirectiveParser σ BlockRef)
      (Directive.newBody (context.shifted pairing.placement.shift)
        ⟨range.start + pairing.placement.shift, range.length⟩ role scope enclosingLoop) := by
  exact pointer_bind fun finish _ => newBlock fun id left right related =>
    pairing.push_body _ related isSource rfl

theorem loop? :
    Mirrors anchor pairing (Directive.loop? context : DirectiveParser σ (Option Node))
      (Directive.loop? (context.shifted pairing.placement.shift)) := by
  refine (scan (.acceptText "@for(")).bind fun _ => ite ?_ (pure none)
  exact (parse .loopHeader).bind fun _ => (parse (.expectSymbol ')')).bind fun _ =>
    (scan .acceptBreak).bind fun _ => bodyRange_bind fun _ _ =>
    (newScope context "for").bind fun _ => (newBody context isSource _ _ _ _).bind fun _ => pure _

theorem branchBody :
    Mirrors anchor pairing (Directive.branchBody context : DirectiveParser σ (BlockRef × Nat))
      (Directive.branchBody (context.shifted pairing.placement.shift)) :=
  bodyRange_bind fun _ _ => (newScope context "if").bind fun _ =>
    (newBody context isSource _ _ _ _).bind fun _ => pure _

theorem lastBody :
    Mirrors anchor pairing (Directive.lastBody context : DirectiveParser σ BlockRef)
      (Directive.lastBody (context.shifted pairing.placement.shift)) :=
  (scan .acceptBreak).bind fun _ => (branchBody context isSource).bind fun _ =>
    ite (parse (.fail _ nofun)) (pure _)

theorem branchesFrom (fuel : Nat) (condition : Condition) :
    Mirrors anchor pairing
      (Directive.branchesFrom context fuel condition :
        DirectiveParser σ (List (Condition × BlockRef) × Option BlockRef))
      (Directive.branchesFrom (context.shifted pairing.placement.shift) fuel condition) := by
  induction fuel generalizing condition with
  | zero => exact pure _
  | succ fuel induction =>
      refine (branchBody context isSource).bind fun body => ?_
      obtain ⟨body, found⟩ := body
      match found with
      | 0 =>
          exact (parse .branchCondition).bind fun next => (induction next).bind fun _ => pure _
      | 1 => exact (lastBody context isSource).bind fun _ => pure _
      | _ + 2 => exact pure _

theorem branches :
    Mirrors anchor pairing (Directive.branches context : DirectiveParser σ Node)
      (Directive.branches (context.shifted pairing.placement.shift)) :=
  (parse .branchCondition).bind fun condition => (scan .remaining).bind fun _ =>
    (branchesFrom context isSource _ condition).bind fun _ => pure _

theorem definition :
    Mirrors anchor pairing (Directive.definition context : DirectiveParser σ Node)
      (Directive.definition (context.shifted pairing.placement.shift)) :=
  (parse (.expectName _)).bind fun _ => (parse (.furtherNames 2)).bind fun _ =>
    (parse (.expectSymbol ')')).bind fun _ => (scan .acceptBreak).bind fun _ =>
    bodyRange_bind fun _ _ => (scan .acceptBreak).bind fun _ =>
    (newScope context _).bind fun _ => (newBody context isSource _ _ _ _).bind fun _ => pure _

theorem placeholder? :
    Mirrors anchor pairing (Directive.placeholder? context : DirectiveParser σ (Option Node))
      (Directive.placeholder? (context.shifted pairing.placement.shift)) := by
  refine (scan (.acceptText _)).bind fun _ =>
    ite ((definition context isSource).bind fun _ => pure _) ?_
  refine (scan (.acceptText _)).bind fun _ => ite ((parse .defaultUse).bind fun _ => pure _) ?_
  exact (scan (.acceptText _)).bind fun _ =>
    ite ((parse .definitionUse).bind fun _ => pure _) (pure none)

omit isSource in
theorem embed :
    Mirrors anchor pairing (Directive.embed context : DirectiveParser σ Node)
      (Directive.embed (context.shifted pairing.placement.shift)) := by
  unfold Directive.embed
  simp only [BlockContext.shifted]
  refine (parse .embeddedPath).bind fun path => ?_
  cases context.embeddings path with
  | none => exact throw _ nofun
  | some text =>
      refine newSource_bind fun id isEmbedded => (newBlock fun _ left right related => ?_).bind
        fun _ => pure _
      exact pairing.push_embedded _ related isEmbedded rfl

theorem nested? :
    Mirrors anchor pairing (Directive.nested? context : DirectiveParser σ (Option Node))
      (Directive.nested? (context.shifted pairing.placement.shift)) := by
  refine (scan (.acceptText _)).bind fun _ =>
    ite ((parse (.leave context)).bind fun _ => pure _) ?_
  refine (scan (.acceptText _)).bind fun _ =>
    ite ((branches context isSource).bind fun _ => pure _) ?_
  refine (scan (.acceptText _)).bind fun _ => ite ((embed context).bind fun _ => pure _) ?_
  refine (scan (Parser.Mirrors.stray? Directive.closingKeywords)).bind fun found => ?_
  cases found with
  | none => exact pure none
  | some keyword => exact parse (.fail _ nofun)

end

theorem firstOf?_cons {recogniser : DirectiveParser σ (Option Node)}
    {recogniserCursor : DirectiveParser Cursor (Option Node)}
    {recognisers : List (DirectiveParser σ (Option Node))}
    {recognisersCursor : List (DirectiveParser Cursor (Option Node))}
    (here : Mirrors anchor pairing recogniser recogniserCursor)
    (later : Mirrors anchor pairing (Directive.firstOf? recognisers)
      (Directive.firstOf? recognisersCursor)) :
    Mirrors anchor pairing (Directive.firstOf? (recogniser :: recognisers))
      (Directive.firstOf? (recogniserCursor :: recognisersCursor)) := by
  refine pointer_bind fun place within => here.bind fun found => ?_
  cases found with
  | some node => exact pure (some node)
  | none => exact (scan (.returnTo within)).bind fun _ => later

section

variable (context : BlockContext) (isSource : context.source = source)

include isSource

theorem firstOf?_recognisers :
    Mirrors anchor pairing
      (Directive.firstOf? (Directive.recognisers context) : DirectiveParser σ (Option Node))
      (Directive.firstOf?
        (Directive.recognisers (context.shifted pairing.placement.shift))) :=
  firstOf?_cons (scan (Parser.Mirrors.text? context.limit)) <|
    firstOf?_cons (parse .declaration?) <|
    firstOf?_cons (loop? context isSource) <|
    firstOf?_cons (placeholder? context isSource) <|
    firstOf?_cons (parse .read?) <|
    firstOf?_cons (nested? context isSource) (pure none)

theorem node :
    Mirrors anchor pairing (Directive.node context : DirectiveParser σ Node)
      (Directive.node (context.shifted pairing.placement.shift)) := by
  refine (firstOf?_recognisers context isSource).bind fun found => ?_
  cases found with
  | some node => exact pure node
  | none => exact parse .markText

end

end Mirrors

end DirectiveParser

/-- Nodes that a text is parsed into in two places: they are the same except that an error at the
end is in another place. -/
inductive Node.Relocated (position : Position → Position) : List Node → List Node → Prop where
  | same (nodes : List Node) (directs : ∀ node ∈ nodes, node.Directs) :
      Relocated position nodes nodes
  | malformed (parsed : List Node) (directs : ∀ node ∈ parsed, node.Directs)
      (error : TemplateError) (expected : TemplateError.OtherThanSeek error) :
      Relocated position (parsed ++ [.malformed error])
        (parsed ++ [.malformed (error.relocate position)])

/-- What a step of the loop over the directives of a block finds, and what it goes on with. -/
theorem Directive.nodesFrom_succ_run {σ : Type} [Source σ] (context : BlockContext) (fuel : Nat)
    (parsed : List Node) (draft : Draft σ) :
    (Directive.nodesFrom context (fuel + 1) parsed).run draft =
      match (DirectiveParser.scan (Directive.atLimit context.limit)).run.run draft with
      | (.ok false, looked) =>
          match (Directive.node context).run.run looked with
          | (.ok node, after) =>
              (Directive.nodesFrom context fuel (Node.append parsed node)).run after
          | (.error error, after) => pure ((.malformed error :: parsed).reverse, after)
      | (_, looked) => pure (parsed.reverse, looked) := by
  simp only [Directive.nodesFrom, StateT.run_bind]
  generalize (DirectiveParser.scan (Directive.atLimit context.limit)).run.run draft = outcome
  obtain ⟨outcome, looked⟩ := outcome
  match outcome with
  | .error _ => rfl
  | .ok true => rfl
  | .ok false =>
      change ((Directive.node context).run >>= _).run looked = _
      rw [StateT.run_bind]
      dsimp only
      generalize (Directive.node context).run.run looked = found
      obtain ⟨found, after⟩ := found
      cases found with
      | error error => rfl
      | ok node => rfl

theorem Directive.scan_atLimit {σ : Type} [Source σ] [Tracked σ] (limit : Nat) (draft : Draft σ) :
    (DirectiveParser.scan (Directive.atLimit limit)).run.run draft =
      pure (.ok (decide (limit ≤ (Tracked.cursor draft.source).offset) ||
        (Tracked.cursor draft.source).rest.isEmpty), draft) := by
  have looked : (Directive.atLimit limit).run draft.source =
      pure (decide (limit ≤ Source.pointer draft.source) || Source.hasEnded draft.source,
        draft.source) := by
    change (if limit ≤ Source.pointer draft.source then (Pure.pure true : StateM σ Bool)
      else Scan.hasEnded).run draft.source = _
    by_cases ended : limit ≤ Source.pointer draft.source
    · rw [if_pos ended, decide_eq_true ended]
      rfl
    · rw [if_neg ended, decide_eq_false ended]
      rfl
  rw [← Tracked.pointer_eq, ← Tracked.hasEnded_eq]
  exact congrArg (fun ran : Bool × σ =>
    ((.ok ran.1 : Except TemplateError Bool), { draft with source := ran.2 })) looked

theorem Directive.scan_atLimit_run (limit : Nat) (draft : Draft Cursor) :
    (DirectiveParser.scan (Directive.atLimit limit)).run.run draft =
      pure (.ok (decide (limit ≤ draft.source.offset) || draft.source.rest.isEmpty), draft) :=
  Directive.scan_atLimit limit draft

theorem Directive.nodesFrom_run_of_limit {context : BlockContext} (fuel : Nat)
    (parsed : List Node) {draft : Draft Cursor}
    (ended : context.limit ≤ draft.source.offset) :
    (Directive.nodesFrom context fuel parsed).run draft = pure (parsed.reverse, draft) := by
  cases fuel with
  | zero => rfl
  | succ fuel =>
      rw [Directive.nodesFrom_succ_run, Directive.scan_atLimit_run, decide_eq_true ended,
        Bool.true_or]
      rfl

theorem Directive.nodes_run {σ : Type} [Source σ] (context : BlockContext) (draft : Draft σ) :
    (Directive.nodes context).run draft =
      (Directive.nodesFrom context (Source.remaining draft.source + 1) []).run draft := rfl

namespace Directive

variable {σ : Type} [Source σ] {anchor : Cursor} {source : SourceRef}
  {pairing : Draft.Pairing σ anchor.text source} (context : BlockContext)
  (isSource : context.source = source)

include isSource

theorem nodesFrom_mirrors (fuel : Nat) (parsed : List Node)
    (directs : ∀ node ∈ parsed, node.Directs) {draft : Draft σ} {whole : Draft Cursor}
    (paired : draft.Paired pairing whole) :
    Node.Relocated pairing.placement.position
        ((nodesFrom context fuel parsed).run draft).1
        ((nodesFrom (context.shifted pairing.placement.shift) fuel parsed).run whole).1 ∧
      Draft.Paired pairing ((nodesFrom context fuel parsed).run draft).2
        ((nodesFrom (context.shifted pairing.placement.shift) fuel parsed).run whole).2 := by
  have reversed : ∀ node ∈ parsed.reverse, node.Directs :=
    fun node member => directs node (List.mem_reverse.mp member)
  induction fuel generalizing parsed draft whole with
  | zero => exact ⟨.same _ reversed, paired⟩
  | succ fuel induction =>
      rw [nodesFrom_succ_run, nodesFrom_succ_run]
      have looks : DirectiveParser.Mirrors anchor pairing
        (DirectiveParser.scan (atLimit context.limit))
          (DirectiveParser.scan (atLimit (context.shifted pairing.placement.shift).limit)) :=
        .scan (Parser.Mirrors.atLimit context.limit)
      obtain ⟨sameLook, pairedLook⟩ := looks.1 draft whole paired
      revert sameLook pairedLook
      generalize (DirectiveParser.scan (atLimit context.limit)).run.run draft = looked
      generalize (DirectiveParser.scan (atLimit
        (context.shifted pairing.placement.shift).limit)).run.run whole = lookedThere
      obtain ⟨outcome, draft⟩ := looked
      obtain ⟨outcomeThere, whole⟩ := lookedThere
      intro sameLook pairedLook
      match outcome with
      | .error _ =>
          obtain rfl : Except.error _ = outcomeThere := sameLook
          exact ⟨.same _ reversed, pairedLook⟩
      | .ok true =>
          obtain rfl : Except.ok true = outcomeThere := sameLook
          exact ⟨.same _ reversed, pairedLook⟩
      | .ok false =>
          obtain rfl : Except.ok false = outcomeThere := sameLook
          have parses : DirectiveParser.Mirrors anchor pairing (node context) _ :=
            .node context isSource
          obtain ⟨sameNode, pairedNode⟩ := parses.1 draft whole pairedLook
          have expected := parses.2 draft whole pairedLook
          have answers : ∀ found after, (node context).run.run draft = (.ok found, after) →
              found.Directs := answers_node context draft
          dsimp only
          revert sameNode pairedNode expected answers
          generalize (node context).run.run draft = found
          generalize (node (context.shifted pairing.placement.shift)).run.run whole = foundThere
          obtain ⟨outcome, draft⟩ := found
          obtain ⟨outcomeThere, whole⟩ := foundThere
          intro sameNode pairedNode expected answers
          cases outcome with
          | ok node =>
              obtain rfl : Except.ok node = outcomeThere := sameNode
              have more := Node.directs_append directs (answers node draft rfl)
              exact induction _ more pairedNode fun next member =>
                more next (List.mem_reverse.mp member)
          | error error =>
              obtain rfl : Except.error _ = outcomeThere := sameNode
              refine ⟨?_, pairedNode⟩
              dsimp only [pure]
              rw [List.reverse_cons, List.reverse_cons]
              exact .malformed _ reversed _ (expected error rfl)

/-- Parsing a block of a placed source gives the nodes that parsing it in the whole text gives. -/
theorem nodes_mirrors {draft : Draft σ} {whole : Draft Cursor}
    (paired : draft.Paired pairing whole) :
    Node.Relocated pairing.placement.position ((nodes context).run draft).1
        ((nodes (context.shifted pairing.placement.shift)).run whole).1 ∧
      Draft.Paired pairing ((nodes context).run draft).2
        ((nodes (context.shifted pairing.placement.shift)).run whole).2 := by
  have fuel : Source.remaining whole.source = Source.remaining draft.source := by
    rw [pairing.placement.remaining_eq, paired.stands.1]
    rfl
  rw [nodes_run, nodes_run, fuel]
  exact nodesFrom_mirrors context isSource _ [] (List.forall_mem_nil _) paired

end Directive

section

variable {σ : Type} [Source σ] [Tracked σ]

/-- The draft whose source is the cursor that a source goes along with. -/
def Draft.tracked (draft : Draft σ) : Draft Cursor :=
  { draft with source := Tracked.cursor draft.source }

/-- Drafts with equal blocks and sources correspond if their sources stand at equal offsets. -/
def Draft.Pairing.unshifted {text : List Char} (placement : Placement σ text)
    (noShift : placement.shift = 0) (source : SourceRef) : Draft.Pairing σ text source where
  placement
  blocks left right := right = left
  sources left right := right = left
  known := 0
  size_blocks := congrArg Array.size
  push_body made same _ _ := by
    rw [noShift]
    exact congrArg (·.push made) same
  push_embedded made same _ _ := congrArg (·.push made) same
  size_sources := congrArg Array.size
  push_sources added same := congrArg (·.push added) same

/-- The draft of a source corresponds to the one of its cursor. -/
def Draft.Pairing.itself (text : List Char) (source : SourceRef) : Draft.Pairing σ text source :=
  .unshifted (.itself text) rfl source

theorem Draft.Paired.eq_tracked {anchor : Cursor} {source : SourceRef} {draft : Draft σ}
    {whole : Draft Cursor} (paired : draft.Paired (.itself anchor.text source) whole) :
    draft.tracked = whole := by
  obtain ⟨⟨cursor, -⟩, blocks, sources, -, heap⟩ := paired
  obtain ⟨wholeSource, wholeBlocks, wholeSources, wholeHeap⟩ := whole
  obtain rfl : wholeBlocks = draft.blocks := blocks
  obtain rfl : wholeSources = draft.sources := sources
  obtain rfl : wholeHeap = draft.heap := heap
  obtain rfl : Tracked.cursor draft.source = wholeSource := cursor
  rfl

theorem Node.Relocated.eq_of_id {nodes nodes' : List Node} (relocated : Relocated id nodes nodes') :
    nodes' = nodes := by
  cases relocated with
  | same => rfl
  | malformed parsed directs error expected => rw [TemplateError.relocate_id]

/-- Parsing a block of a source gives what parsing it at the cursor of the source gives. -/
theorem Directive.nodes_tracked (context : BlockContext) (draft : Draft σ) :
    ((Directive.nodes context).run draft).1 = ((Directive.nodes context).run draft.tracked).1 ∧
      ((Directive.nodes context).run draft).2.tracked =
        ((Directive.nodes context).run draft.tracked).2 := by
  have paired : draft.Paired (.itself (Tracked.cursor draft.source).text context.source)
      draft.tracked := ⟨⟨rfl, .refl _⟩, rfl, rfl, Nat.zero_le _, rfl⟩
  obtain ⟨relocated, after⟩ := Directive.nodes_mirrors context rfl paired
  exact ⟨relocated.eq_of_id.symm, after.eq_tracked⟩

end

end Stencil
