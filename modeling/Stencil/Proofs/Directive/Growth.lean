import Mathlib.Logic.Relation
import Stencil.Proofs.Directive.BodyRange
import Stencil.Proofs.Directive.Mirror
import Stencil.Proofs.Parser.Run

/-!
# What parsing a block makes

While a block is parsed its source only moves forward, and blocks, scopes and sources are only
added: the body of a directive with a scope of its own, or an embedded text with a source of its
own.  `Draft.Step` lists these moves, and every rule of the grammar is a sequence of them.  The
nodes that come out refer to blocks that were made on the way.
-/

namespace Stencil

open Text Directive

/-- The keywords that close a body. -/
def BlockRole.closers : BlockRole → List String
  | .loopBody => ["@endfor"]
  | .branch => branchKeywords
  | .placeholder => ["@end_define_placeholder"]
  | .root | .embedded => []

/-- The loop body that `@breakfor` leaves in a body, given the one around the directive. -/
def BlockRole.leaves (outer : Option BlockRef) (id : BlockRef) : BlockRole → Option BlockRef
  | .loopBody => some id
  | .placeholder => none
  | .branch | .root | .embedded => outer

/-- A text is cut around a body of a role whose directive was read from the anchor on in a block.
Running the body ends after the keyword, or after the break behind the end of a placeholder. -/
structure Directive.BodyCut.Closes (cut : BodyCut) (context : BlockContext) (anchor : Cursor)
    (role : BlockRole) (finish : Nat) : Prop where
  splits : cut.Splits
  text : cut.text = anchor.text
  start : anchor.offset ≤ cut.start
  keyword : cut.keyword ∈ role.closers
  closing : cut.closing < context.limit
  finish : finish = cut.closed ∨
    role = .placeholder ∧ cut.after.head?.any isBreak = true ∧ finish = cut.closed + 1

/-- The block of a body. -/
def Directive.BodyCut.block (cut : BodyCut) (context : BlockContext) (id : BlockRef)
    (role : BlockRole) (finish : Nat) (scope : ScopeRef) : Block :=
  { source := context.source, start := cut.start, length := byteLength cut.body,
    finish, scope, role,
    enclosingLoop := role.leaves context.enclosingLoop id }

/-- The block of an embedded text. -/
def embeddedBlock (context : BlockContext) (text : String) (source : SourceRef) : Block :=
  { Block.ofSource (AnySource.plain (.ofString text)) source context.scope .embedded with
    enclosingLoop := context.enclosingLoop }

/-- What parsing a block does to its draft. -/
inductive Draft.Step (context : BlockContext) (anchor : Cursor) (draft : Draft Cursor) :
    Draft Cursor → Prop where
  | move (source : Cursor) (within : anchor.Reaches source) :
      Step context anchor draft { draft with source }
  | body (name : String) (role : BlockRole) (cut : BodyCut) (finish : Nat)
      (closes : cut.Closes context anchor role finish) :
      Step context anchor draft
        { draft with
          heap := (draft.heap.newScope name (some context.scope)).2
          blocks := draft.blocks.push
            (cut.block context ⟨draft.blocks.size⟩ role finish ⟨draft.heap.scopes.size⟩) }
  | embed (path text : String) (found : context.embeddings path = some text)
      (opening : "@embed ".toList <:+: anchor.text) :
      Step context anchor draft
        { draft with
          sources := draft.sources.push (.plain (.ofString text))
          blocks := draft.blocks.push (embeddedBlock context text ⟨draft.sources.size⟩) }

/-- Any number of steps. -/
def Draft.Grows (context : BlockContext) (anchor : Cursor) : Draft Cursor → Draft Cursor → Prop :=
  Relation.ReflTransGen (Draft.Step context anchor)

theorem getElem?_push_of_some {α : Type} {items : Array α} {index : Nat} {item : α} (added : α)
    (present : items[index]? = some item) : (items.push added)[index]? = some item := by
  obtain ⟨within, same⟩ := Array.getElem?_eq_some_iff.mp present
  rw [Array.getElem?_push_lt within, same]

theorem eq_or_of_getElem?_push {α : Type} {items : Array α} {index : Nat} {item added : α}
    (present : (items.push added)[index]? = some item) :
    items[index]? = some item ∨ index = items.size ∧ item = added := by
  rw [Array.getElem?_push] at present
  split at present
  · exact .inr ⟨‹_›, (Option.some.inj present).symm⟩
  · exact .inl present

namespace Draft

variable {context : BlockContext} {anchor : Cursor} {before middle after : Draft Cursor}

namespace Grows

theorem refl : Grows context anchor before before := Relation.ReflTransGen.refl

theorem trans (first : Grows context anchor before middle)
    (second : Grows context anchor middle after) :
    Grows context anchor before after :=
  Relation.ReflTransGen.trans first second

theorem single (step : Step context anchor before after) : Grows context anchor before after :=
  Relation.ReflTransGen.single step

theorem reaches (grows : Grows context anchor before after)
    (within : anchor.Reaches before.source) :
    anchor.Reaches after.source := by
  induction grows with
  | refl => exact within
  | tail _ step induction =>
      cases step with
      | move source within => exact within
      | body name role cut finish closes => exact induction
      | embed path text found => exact induction

/-- A block that is there stays as it is. -/
theorem block_kept (grows : Grows context anchor before after) {index : Nat} {block : Block}
    (present : before.blocks[index]? = some block) : after.blocks[index]? = some block := by
  induction grows with
  | refl => exact present
  | tail _ step induction =>
      have pushed (other : Block) := getElem?_push_of_some other induction
      cases step with
      | move source within => exact induction
      | body name role cut finish closes => exact pushed _
      | embed path text found => exact pushed _

theorem source_kept (grows : Grows context anchor before after) {index : Nat} {source : AnySource}
    (present : before.sources[index]? = some source) : after.sources[index]? = some source := by
  induction grows with
  | refl => exact present
  | tail _ step induction =>
      cases step with
      | move source within => exact induction
      | body name role cut finish closes => exact induction
      | embed path text found => exact getElem?_push_of_some _ induction

theorem size_blocks_le (grows : Grows context anchor before after) :
    before.blocks.size ≤ after.blocks.size := by
  induction grows with
  | refl => exact Nat.le_refl _
  | tail _ step induction =>
      cases step with
      | move source within => exact induction
      | body name role cut finish closes => simp; omega
      | embed path text found => simp; omega

end Grows

end Draft

/-- How a block comes into being while another one is parsed. -/
inductive Draft.Offspring (context : BlockContext) (anchor : Cursor) (draft : Draft Cursor)
    (id : BlockRef) : Block → Prop where
  | body (role : BlockRole) (cut : BodyCut) (finish : Nat) (scope : ScopeRef)
      (closes : cut.Closes context anchor role finish) :
      Offspring context anchor draft id (cut.block context id role finish scope)
  | embedded (path text : String) (source : SourceRef) (found : context.embeddings path = some text)
      (opening : "@embed ".toList <:+: anchor.text)
      (present : draft.sources[source.index]? = some (.plain (.ofString text))) :
      Offspring context anchor draft id (embeddedBlock context text source)

namespace Draft

variable {context : BlockContext} {anchor : Cursor} {before middle after : Draft Cursor}

theorem Offspring.mono {id : BlockRef} {block : Block}
    (offspring : Offspring context anchor before id block)
    (grows : Grows context anchor before after) : Offspring context anchor after id block := by
  cases offspring with
  | body role cut finish scope closes => exact .body role cut finish scope closes
  | embedded path text source found opening present =>
      exact .embedded path text source found opening (grows.source_kept present)

/-- Every block that was not there before is the body of a directive or an embedded text. -/
theorem Grows.offspring (grows : Grows context anchor before after) {index : Nat} {block : Block}
    (isNew : before.blocks.size ≤ index) (present : after.blocks[index]? = some block) :
    Offspring context anchor after ⟨index⟩ block := by
  induction grows with
  | refl =>
      have within := (Array.getElem?_eq_some_iff.mp present).1
      omega
  | tail _ step induction =>
      have mono := fun earlier => (induction earlier).mono (.single step)
      cases step with
      | move source within => exact mono present
      | body name role cut finish closes =>
          rcases eq_or_of_getElem?_push present with earlier | ⟨rfl, rfl⟩
          · exact mono earlier
          · exact .body role cut finish _ closes
      | embed path text found opening =>
          rcases eq_or_of_getElem?_push present with earlier | ⟨rfl, rfl⟩
          · exact mono earlier
          · exact .embedded path text _ found opening Array.getElem?_push_size

end Draft

/-- A node comes from a directive of a text: its keyword occurs there, what it evaluates is read
there, and the blocks that it refers to were made for it. -/
inductive Node.Origin (text : List Char) (enclosingLoop : Option BlockRef)
    (made : BlockRole → BlockRef → Prop) : Node → Prop where
  | text (content : String) : Origin text enclosingLoop made (.text content)
  | read (path : Path) (standing : read?.AnswersIn "" text (some (.read path))) :
      Origin text enclosingLoop made (.read path)
  | declare (name : String) (value : Expression) (constant : Bool)
      (standing : declaration?.AnswersIn "" text (some (.declare name value constant))) :
      Origin text enclosingLoop made (.declare name value constant)
  | assign (name : String) (value : Expression)
      (standing : declaration?.AnswersIn "" text (some (.assign name value))) :
      Origin text enclosingLoop made (.assign name value)
  | loop (header : LoopHeader) (body : BlockRef) (opening : "@for(".toList <:+: text)
      (isMade : made .loopBody body) (standing : loopHeader.AnswersIn "@for(" text header) :
      Origin text enclosingLoop made (.loop header body)
  | leave (target : BlockRef) (opening : "@breakfor".toList <:+: text)
      (enclosing : enclosingLoop = some target) : Origin text enclosingLoop made (.leave target)
  | branches (conditions : List (Condition × BlockRef)) (otherwise : Option BlockRef)
      (opening : "@if(".toList <:+: text)
      (areMade : ∀ branch ∈ conditions, made .branch branch.2)
      (lastMade : ∀ body, otherwise = some body → made .branch body)
      (standing : ∀ branch ∈ conditions, branchCondition.AnswersIn "if(" text branch.1) :
      Origin text enclosingLoop made (.branches conditions otherwise)
  | definePlaceholder (key : Placeholder.Key) (parameter : Option String) (body : BlockRef)
      (opening : "@define_placeholder(".toList <:+: text) (isMade : made .placeholder body) :
      Origin text enclosingLoop made (.definePlaceholder key parameter body)
  | usePlaceholder (key : Placeholder.Key) (argument : Option Expression)
      (standing : argument = none ∨
        defaultUse.AnswersIn "@placeholder(" text (.usePlaceholder key argument)) :
      Origin text enclosingLoop made (.usePlaceholder key argument)
  | embed (block : BlockRef) (opening : "@embed ".toList <:+: text)
      (isMade : made .embedded block) : Origin text enclosingLoop made (.embed block)
  | malformed (error : TemplateError) (expected : TemplateError.OtherThanSeek error) :
      Origin text enclosingLoop made (.malformed error)

namespace Node

variable {text : List Char} {enclosingLoop : Option BlockRef}
  {made made' : BlockRole → BlockRef → Prop}

theorem Origin.mono {node : Node} (origin : node.Origin text enclosingLoop made)
    (later : ∀ role id, made role id → made' role id) : node.Origin text enclosingLoop made' := by
  cases origin with
  | text content => exact .text content
  | read path standing => exact .read path standing
  | declare name value constant standing => exact .declare name value constant standing
  | assign name value standing => exact .assign name value standing
  | loop header body opening isMade standing =>
      exact .loop header body opening (later _ _ isMade) standing
  | leave target opening enclosing => exact .leave target opening enclosing
  | branches conditions otherwise opening areMade lastMade standing =>
      exact .branches conditions otherwise opening
        (fun branch member => later _ _ (areMade branch member))
        (fun body isLast => later _ _ (lastMade body isLast)) standing
  | definePlaceholder key parameter body opening isMade =>
      exact .definePlaceholder key parameter body opening (later _ _ isMade)
  | usePlaceholder key argument standing => exact .usePlaceholder key argument standing
  | embed block opening isMade => exact .embed block opening (later _ _ isMade)
  | malformed error expected => exact .malformed error expected

theorem Origin.append {nodes : List Node} {node : Node}
    (earlier : ∀ member ∈ nodes, member.Origin text enclosingLoop made)
    (last : node.Origin text enclosingLoop made) :
    ∀ member ∈ Node.append nodes node, member.Origin text enclosingLoop made := by
  unfold Node.append
  split
  · intro member isMember
    rcases List.mem_cons.mp isMember with rfl | later
    · exact .text _
    · exact earlier member (List.mem_cons_of_mem _ later)
  · intro member isMember
    rcases List.mem_cons.mp isMember with rfl | later
    · exact last
    · exact earlier member later

end Node

/-- A block of a role was made after the earlier ones. -/
def Draft.Made (earlier : Nat) (draft : Draft Cursor) (role : BlockRole) (id : BlockRef) : Prop :=
  earlier ≤ id.index ∧ ∃ block, draft.blocks[id.index]? = some block ∧ block.role = role

theorem Draft.Made.of_le {draft : Draft Cursor} {earlier earliest : Nat} {role : BlockRole}
    {id : BlockRef} (made : draft.Made earlier role id) (order : earliest ≤ earlier) :
    draft.Made earliest role id :=
  ⟨Nat.le_trans order made.1, made.2⟩

theorem Draft.Made.mono {context : BlockContext} {anchor : Cursor} {before after : Draft Cursor}
    {earlier : Nat} {role : BlockRole} {id : BlockRef} (made : before.Made earlier role id)
    (grows : before.Grows context anchor after) : after.Made earlier role id := by
  obtain ⟨later, block, present, isRole⟩ := made
  exact ⟨later, block, grows.block_kept present, isRole⟩

namespace DirectiveParser

variable {α β : Type} {context : BlockContext} {anchor : Cursor} {draft : Draft Cursor}

/-- A rule that is tried at or after the anchor takes a draft only through steps of parsing, and its
answer has a property. -/
def Makes (context : BlockContext) (anchor : Cursor) (draft : Draft Cursor)
    (rule : DirectiveParser Cursor α) (answers : α → Draft Cursor → Prop) : Prop :=
  anchor.Reaches draft.source → draft.Grows context anchor (rule.run.run draft).2 ∧
    (∀ answer, (rule.run.run draft).1 = .ok answer → answers answer (rule.run.run draft).2) ∧
    ∀ error, (rule.run.run draft).1 = .error error → TemplateError.OtherThanSeek error

namespace Makes

theorem pure {answers : α → Draft Cursor → Prop} {answer : α} (holds : answers answer draft) :
    Makes context anchor draft (Pure.pure answer) answers := by
  refine fun _ => ⟨.refl, fun found same => ?_, fun _ same => nomatch same⟩
  cases same
  exact holds

theorem of_within {rule : DirectiveParser Cursor α} {answers : α → Draft Cursor → Prop}
    (makes : anchor.Reaches draft.source → Makes context anchor draft rule answers) :
    Makes context anchor draft rule answers :=
  fun within => makes within within

theorem throw {answers : α → Draft Cursor → Prop} {error : TemplateError}
    (expected : TemplateError.OtherThanSeek error) :
    Makes context anchor draft (MonadExcept.throw error) answers := by
  refine fun _ => ⟨.refl, fun _ same => (nomatch same), fun found same => ?_⟩
  cases same
  exact expected

theorem bind {first : DirectiveParser Cursor α} {next : α → DirectiveParser Cursor β}
    {middle : α → Draft Cursor → Prop} {answers : β → Draft Cursor → Prop}
    (here : Makes context anchor draft first middle)
    (later : ∀ answer after, draft.Grows context anchor after → middle answer after →
      Makes context anchor after (next answer) answers) :
    Makes context anchor draft (first >>= next) answers := by
  intro within
  obtain ⟨grows, holds, expected⟩ := here within
  have split : (first >>= next).run.run draft =
      (ExceptT.bindCont next (first.run.run draft).1).run (first.run.run draft).2 := rfl
  cases outcome : (first.run.run draft).1 with
  | error error =>
      rw [outcome] at split
      rw [split]
      refine ⟨grows, fun _ same => (nomatch same), fun raised same => ?_⟩
      cases same
      exact expected error outcome
  | ok answer =>
      obtain ⟨growsLater, holdsLater, expectedLater⟩ :=
        later answer _ grows (holds answer outcome) (grows.reaches within)
      rw [outcome] at split
      rw [split]
      exact ⟨grows.trans growsLater, holdsLater, expectedLater⟩

theorem weaken {rule : DirectiveParser Cursor α} {answers weaker : α → Draft Cursor → Prop}
    (makes : Makes context anchor draft rule answers)
    (implies : ∀ answer after, draft.Grows context anchor after → answers answer after →
      weaker answer after) : Makes context anchor draft rule weaker := by
  intro within
  obtain ⟨grows, holds, expected⟩ := makes within
  exact ⟨grows, fun answer found => implies answer _ grows (holds answer found), expected⟩

theorem scan {run : StateM Cursor α}
    (mirrors : Text.Mirrors anchor (.itself anchor.text) run run) :
    Makes context anchor draft (DirectiveParser.scan run) fun answer after =>
      run.run draft.source = Pure.pure (answer, after.source) := by
  refine fun within => ⟨.single (.move _ (mirrors.keeps _ within)), fun answer same => ?_,
    fun _ same => nomatch same⟩
  cases same
  rfl

theorem parse {parser : Parser Cursor α}
    (mirrors : Parser.Mirrors anchor (.itself anchor.text) parser parser) :
    Makes context anchor draft (DirectiveParser.parse parser) fun answer after =>
      parser.run.run draft.source = Pure.pure (.ok answer, after.source) := by
  refine fun within => ⟨.single (.move _ (mirrors.keeps _ within)), fun answer same => ?_,
    fun error same => ?_⟩
  · exact Prod.ext same rfl
  · exact mirrors.otherThanSeek within same

theorem pointer_bind {next : Nat → DirectiveParser Cursor β} {answers : β → Draft Cursor → Prop}
    (later : Makes context anchor draft (next draft.source.offset) answers) :
    Makes context anchor draft (DirectiveParser.scan Scan.pointer >>= next) answers :=
  later

/-- A literal that is accepted stands before the place that is reached. -/
theorem acceptText_passed (literal : String) :
    Makes context anchor draft
      (DirectiveParser.scan (Scan.acceptText literal)) fun accepted after =>
      accepted = true → literal.toList <:+: anchor.text ∧
        literal.toList.reverse <+: after.source.passed := by
  refine of_within fun within => (scan (.acceptText literal)).weaken ?_
  rintro _ after _ ran rfl
  rw [Scan.acceptText_run] at ran
  have accepted : literal.toList.isPrefixOf draft.source.rest = true := congrArg Prod.fst ran
  have begins := List.isPrefixOf_iff_prefix.mp accepted
  refine ⟨within.1 ▸ begins.isInfix.trans (List.suffix_append _ _).isInfix, ?_⟩
  have reached : draft.source.past literal = after.source := congrArg Prod.snd ran
  rw [← reached, Cursor.past, if_pos accepted]
  exact List.prefix_append _ _

/-- A literal that is accepted occurs in the text. -/
theorem acceptText (literal : String) :
    Makes context anchor draft (DirectiveParser.scan (Scan.acceptText literal)) fun accepted _ =>
      accepted = true → literal.toList <:+: anchor.text :=
  (acceptText_passed literal).weaken fun _ _ _ occurs accepted => (occurs accepted).1

theorem fail {answers : α → Draft Cursor → Prop} (problem : ParseProblem)
    (expected : ∀ offset, problem ≠ .cannotSeek offset) :
    Makes context anchor draft (DirectiveParser.parse (Parser.fail problem)) answers :=
  (parse (.fail problem expected)).weaken fun _ _ _ ran => by cases ran

/-- The body whose closing keyword was just consumed gets a scope and a block. -/
theorem newBody_bind {cut : BodyCut} {role : BlockRole} {earlier : Nat}
    {next : BlockRef → DirectiveParser Cursor β} {answers : β → Draft Cursor → Prop} (name : String)
    (closes : cut.Closes context anchor role draft.source.offset)
    (order : earlier ≤ draft.blocks.size)
    (later : ∀ body after, draft.Grows context anchor after →
      after.Made earlier role body ∧ after.source = draft.source →
      Makes context anchor after (next body) answers) :
    Makes context anchor draft
      (do
        let scope ← DirectiveParser.newScope context name
        let body ← newBody context cut.range role scope
          fun id => role.leaves context.enclosingLoop id
        next body)
      answers := by
  rw [← bind_assoc]
  have made : Makes context anchor draft
      (do
        let scope ← DirectiveParser.newScope context name
        newBody context cut.range role scope fun id => role.leaves context.enclosingLoop id)
      fun id after => after.Made earlier role id ∧ after.source = draft.source := by
    refine fun _ => ⟨.single (.body name role cut _ closes), fun id same => ?_,
      fun _ same => nomatch same⟩
    obtain rfl : ⟨draft.blocks.size⟩ = id := Except.ok.inj same
    have pushed : (draft.blocks.push (cut.block context ⟨draft.blocks.size⟩ role
        draft.source.offset ⟨draft.heap.scopes.size⟩))[draft.blocks.size]? = some _ :=
      Array.getElem?_push_size
    exact ⟨⟨order, _, pushed, rfl⟩, rfl⟩
  exact made.bind later

theorem bodyRange (role : BlockRole) {opening : String} {keywords : List String}
    (closers : ∀ keyword ∈ keywords, keyword ∈ role.closers) :
    Makes context anchor draft
      (DirectiveParser.parse (Directive.bodyRange context.limit opening keywords))
      fun found after => ∃ cut : BodyCut, found.1 = cut.range ∧ after.source = cut.cursor ∧
        cut.Closes context anchor role cut.closed ∧ keywords[found.2]? = some cut.keyword := by
  refine of_within fun within => (parse (.bodyRange context.limit opening keywords)).weaken
    fun found after _ ran => ?_
  obtain ⟨cut, splits, before, rest, isKeyword, closing, range, place⟩ := bodyRange_ok ran
  refine ⟨cut, range, place, ⟨splits, ?_, ?_, ?_, closing, .inl rfl⟩, isKeyword⟩
  · rw [← within.1, Cursor.text, ← before, ← rest, BodyCut.text]
    simp
  · rw [BodyCut.start, before, byteLength_reverse, ← draft.source.offset_eq]
    exact within.2
  · exact closers _ (List.mem_of_getElem? isKeyword)

end Makes

/-- A directive of a text that refers to blocks which were made after the earlier ones. -/
def Originates (context : BlockContext) (anchor : Cursor) (earlier : Nat) (node : Node)
    (draft : Draft Cursor) : Prop :=
  node.Origin anchor.text context.enclosingLoop (draft.Made earlier)

/-- If there is an answer, it is a directive of the text. -/
def OriginatesIfAny (context : BlockContext) (anchor : Cursor) (earlier : Nat) (node? : Option Node)
    (draft : Draft Cursor) : Prop :=
  ∀ node, node? = some node → Originates context anchor earlier node draft

theorem Makes.found {earlier : Nat} {rule : DirectiveParser Cursor Node}
    (makes : Makes context anchor draft rule (Originates context anchor earlier)) :
    Makes context anchor draft (do return some (← rule)) (OriginatesIfAny context anchor earlier) :=
  makes.bind fun _ _ _ origin => .pure fun _ same => Option.some.inj same ▸ origin

theorem loop?_makes :
    Makes context anchor draft (Directive.loop? context)
      (OriginatesIfAny context anchor draft.blocks.size) := by
  unfold Directive.loop?
  refine .of_within fun within => ?_
  refine (Makes.acceptText_passed "@for(").bind fun opens opened grows opening => ?_
  cases opens with
  | false => exact .pure fun _ same => nomatch same
  | true =>
      obtain ⟨opening, passed⟩ := opening rfl
      have place := (grows.reaches within).1
      refine (Makes.parse .loopHeader).bind fun header headed growsHeader ran => ?_
      have standing : loopHeader.AnswersIn "@for(" anchor.text header :=
        ⟨opened.source, place, passed, congrArg Prod.fst ran⟩
      refine (Makes.parse (.expectSymbol ')')).bind fun _ closed growsClosed _ => ?_
      refine (Makes.scan .acceptBreak).bind fun _ begun growsBegun _ => ?_
      have forward := ((grows.trans growsHeader).trans growsClosed).trans growsBegun
      refine (Makes.bodyRange .loopBody fun _ member => member).bind fun found ended growsEnded
        ⟨cut, range, place, closes, _⟩ => ?_
      obtain ⟨range', index⟩ := found
      obtain rfl : range' = cut.range := range
      rw [← BodyCut.offset_cursor, ← place] at closes
      have order := (forward.trans growsEnded).size_blocks_le
      refine Makes.newBody_bind "for" closes order fun body after _ ⟨made, _⟩ => .pure ?_
      rintro node ⟨⟩
      exact .loop header body opening made standing

/-- After `@elseif(` the next condition stands right behind the opening. -/
theorem branchBody_makes :
    Makes context anchor draft (Directive.branchBody context)
      fun answer after => after.Made draft.blocks.size .branch answer.1 ∧
        (answer.2 = 0 → "if(".toList.reverse <+: after.source.passed) := by
  unfold Directive.branchBody
  refine (Makes.bodyRange .branch fun _ member => member).bind
    fun found ended grows ⟨cut, range, place, closes, isKeyword⟩ => ?_
  obtain ⟨range', index⟩ := found
  obtain rfl : range' = cut.range := range
  rw [← BodyCut.offset_cursor, ← place] at closes
  refine Makes.newBody_bind "if" closes grows.size_blocks_le fun body after _ ⟨made, same⟩ =>
    .pure ⟨made, ?_⟩
  rintro rfl
  obtain isOpening : "@elseif(" = cut.keyword := Option.some.inj isKeyword
  have opens : "if(".toList.reverse <+: cut.keyword.toList.reverse := by
    rw [← isOpening]
    decide
  rw [same, place]
  apply opens.trans
  change _ <+: (cut.before ++ cut.body ++ cut.gap ++ cut.keyword.toList).reverse
  rw [List.reverse_append]
  exact List.prefix_append _ _

theorem lastBody_makes :
    Makes context anchor draft (Directive.lastBody context)
      fun body after => after.Made draft.blocks.size .branch body := by
  unfold Directive.lastBody
  refine (Makes.scan .acceptBreak).bind fun _ begun grows _ => ?_
  refine branchBody_makes.bind fun answer after _ ⟨made, _⟩ => ?_
  obtain ⟨body, found⟩ := answer
  change Makes context anchor after
    (if found < 2 then DirectiveParser.parse (Parser.fail .branchAfterElse) else pure body) _
  by_cases early : found < 2
  · rw [if_pos early]
    exact .fail .branchAfterElse nofun
  · rw [if_neg early]
    exact .pure (made.of_le grows.size_blocks_le)

/-- All bodies of branches were made after the earlier blocks, and their conditions are read in the
text. -/
structure MadeBranches (text : List Char) (earlier : Nat) (draft : Draft Cursor)
    (bodies : List (Condition × BlockRef) × Option BlockRef) : Prop where
  branches : ∀ branch ∈ bodies.1, draft.Made earlier .branch branch.2
  last : ∀ body, bodies.2 = some body → draft.Made earlier .branch body
  standing : ∀ branch ∈ bodies.1, branchCondition.AnswersIn "if(" text branch.1

theorem branchesFrom_makes (fuel : Nat) (condition : Condition)
    (standing : branchCondition.AnswersIn "if(" anchor.text condition) :
    Makes context anchor draft (Directive.branchesFrom context fuel condition)
      fun bodies after => MadeBranches anchor.text draft.blocks.size after bodies := by
  induction fuel generalizing draft condition with
  | zero => exact .pure ⟨nofun, nofun, nofun⟩
  | succ fuel induction =>
      unfold Directive.branchesFrom
      refine .of_within fun within => ?_
      refine branchBody_makes.bind fun answer after grows ⟨made, opens⟩ => ?_
      obtain ⟨body, found⟩ := answer
      match found with
      | 0 =>
          have place := (grows.reaches within).1
          refine (Makes.parse .branchCondition).bind fun next headed growsNext ran => ?_
          have standingNext : branchCondition.AnswersIn "if(" anchor.text next :=
            ⟨after.source, place, opens rfl, congrArg Prod.fst ran⟩
          have forward := grows.trans growsNext
          refine (induction next standingNext).bind
            fun bodies ended growsEnded branches => .pure ⟨?_, ?_, ?_⟩
          · intro branch member
            rcases List.mem_cons.mp member with rfl | later
            · exact made.mono (growsNext.trans growsEnded)
            · exact (branches.branches branch later).of_le forward.size_blocks_le
          · intro last isLast
            exact (branches.last last isLast).of_le forward.size_blocks_le
          · intro branch member
            rcases List.mem_cons.mp member with rfl | later
            · exact standing
            · exact branches.standing branch later
      | 1 =>
          refine lastBody_makes.bind
            fun last ended growsEnded madeLast => .pure ⟨?_, ?_, ?_⟩
          · intro branch member
            obtain rfl := List.mem_singleton.mp member
            exact made.mono growsEnded
          · rintro _ ⟨⟩
            exact madeLast.of_le grows.size_blocks_le
          · intro branch member
            obtain rfl := List.mem_singleton.mp member
            exact standing
      | _ + 2 =>
          refine .pure ⟨?_, nofun, ?_⟩
          · intro branch member
            obtain rfl := List.mem_singleton.mp member
            exact made
          · intro branch member
            obtain rfl := List.mem_singleton.mp member
            exact standing

theorem branches_makes (opening : "@if(".toList <:+: anchor.text)
    (opens : "if(".toList.reverse <+: draft.source.passed) :
    Makes context anchor draft (Directive.branches context)
      (Originates context anchor draft.blocks.size) := by
  unfold Directive.branches
  refine .of_within fun within => ?_
  refine (Makes.parse .branchCondition).bind fun condition headed grows ran => ?_
  have standing : branchCondition.AnswersIn "if(" anchor.text condition :=
    ⟨draft.source, within.1, opens, congrArg Prod.fst ran⟩
  refine (Makes.scan .remaining).bind fun fuel looked growsLooked _ => ?_
  have forward := grows.trans growsLooked
  refine (branchesFrom_makes _ condition standing).bind fun bodies after _ branches => .pure ?_
  apply Node.Origin.branches
  · exact opening
  · exact fun branch member => (branches.branches branch member).of_le forward.size_blocks_le
  · exact fun last isLast => (branches.last last isLast).of_le forward.size_blocks_le
  · exact branches.standing

/-- The break behind the end of a placeholder belongs to the directive. -/
theorem closes_acceptBreak {cut : BodyCut} {accepted : Bool} {after : Cursor}
    (closes : cut.Closes context anchor .placeholder cut.closed)
    (ran : Scan.acceptBreak.run cut.cursor = (accepted, after)) :
    cut.Closes context anchor .placeholder after.offset := by
  refine ⟨closes.splits, closes.text, closes.start, closes.keyword, closes.closing, ?_⟩
  rw [Scan.acceptBreak_run] at ran
  obtain ⟨-, rfl⟩ := Prod.mk.inj ran
  split
  · rename_i breaks
    obtain ⟨next, rest, split⟩ : ∃ next rest, cut.after = next :: rest := by
      cases split : cut.after with
      | nil => simp [BodyCut.cursor, split] at breaks
      | cons next rest => exact ⟨next, rest, rfl⟩
    have isBreak : isBreak next = true := by simpa [BodyCut.cursor, split] using breaks
    have offset := cut.offset_cursor
    rw [BodyCut.cursor, Cursor.offset_between] at offset
    refine .inr ⟨rfl, breaks, ?_⟩
    rw [BodyCut.cursor, split, Cursor.advance_between_cons, Cursor.offset_between, byteLength,
      utf8Size_of_isBreak isBreak, offset, Nat.add_comm]
  · exact .inl cut.offset_cursor

theorem definition_makes
    (opening : "@define_placeholder(".toList <:+: anchor.text) :
    Makes context anchor draft (Directive.definition context)
      (Originates context anchor draft.blocks.size) := by
  unfold Directive.definition
  refine (Makes.parse (.expectName _)).bind fun name named growsName _ => ?_
  refine (Makes.parse (.furtherNames 2)).bind fun further listed growsListed _ => ?_
  refine (Makes.parse (.expectSymbol ')')).bind fun _ closed growsClosed _ => ?_
  refine (Makes.scan .acceptBreak).bind fun _ begun growsBegun _ => ?_
  have forward := ((growsName.trans growsListed).trans growsClosed).trans growsBegun
  refine (Makes.bodyRange .placeholder fun _ member => member).bind fun found ended growsEnded
    ⟨cut, range, place, closes, _⟩ => ?_
  obtain ⟨range', index⟩ := found
  obtain rfl : range' = cut.range := range
  refine (Makes.scan .acceptBreak).bind fun _ left growsLeft ran => ?_
  rw [place] at ran
  have order := ((forward.trans growsEnded).trans growsLeft).size_blocks_le
  refine Makes.newBody_bind _ (closes_acceptBreak closes ran) order fun body after _ ⟨made, _⟩ =>
    .pure ?_
  exact .definePlaceholder _ _ body opening made

theorem text?_answers {limit : Nat} {cursor after : Cursor} {node? : Option Node}
    (ran : (Directive.text? limit).run cursor = pure (node?, after)) :
    ∀ node, node? = some node → ∃ content, node = .text content := by
  rintro node rfl
  simp only [Directive.text?, StateT.run_bind, Scan.remaining_run, pure_bind] at ran
  generalize (Directive.textFrom limit (cursor.remaining + 1) []).run cursor = outcome at ran
  obtain ⟨taken, place⟩ := outcome
  change (if taken.isEmpty = true then (pure none : StateM Cursor (Option Node))
    else pure (some (.text (String.ofList taken.reverse)))).run place = _ at ran
  split at ran
  · cases ran
  · cases ran
    exact ⟨_, rfl⟩

theorem declaration?_answers :
    Parser.Answers (Directive.declaration? : Parser Cursor (Option Node)) fun node? =>
      ∀ node, node? = some node → (∃ name value constant, node = .declare name value constant) ∨
        ∃ name value, node = .assign name value := by
  refine .bind fun form? => ?_
  cases form? with
  | none => exact .pure fun _ same => nomatch same
  | some form =>
      refine .bind fun name => .bind fun _ => .bind fun _ => .bind fun value => .bind fun _ =>
        .pure ?_
      rintro _ ⟨⟩
      match form with
      | .variable => exact .inl ⟨_, _, _, rfl⟩
      | .constant => exact .inl ⟨_, _, _, rfl⟩
      | .assignment => exact .inr ⟨_, _, rfl⟩

theorem read?_answers :
    Parser.Answers (Directive.read? : Parser Cursor (Option Node)) fun node? =>
      ∀ node, node? = some node → ∃ path, node = .read path := by
  refine .bind fun path? => .pure ?_
  cases path? with
  | none => exact fun _ same => nomatch same
  | some path =>
      rintro _ ⟨⟩
      exact ⟨path, rfl⟩

theorem defaultUse_answers :
    Parser.Answers (Directive.defaultUse : Parser Cursor Node) fun node =>
      ∃ key argument, node = .usePlaceholder key argument := by
  refine .bind fun name => .bind fun _ => .bind fun comma => ?_
  refine .ite (.bind fun _ => .bind fun argument => .bind fun _ => .bind fun _ => .pure ?_)
    (.bind fun _ => .bind fun _ => .pure ?_)
  · exact ⟨_, _, rfl⟩
  · exact ⟨_, _, rfl⟩

theorem definitionUse_answers :
    Parser.Answers (Directive.definitionUse : Parser Cursor Node) fun node =>
      ∃ key, node = .usePlaceholder key none := by
  refine .bind fun name => .bind fun _ => .bind fun comma => ?_
  refine .ite (.bind fun definition => .bind fun _ => .pure ?_)
    (.bind fun _ => .bind fun _ => .pure ?_)
  · exact ⟨_, rfl⟩
  · exact ⟨_, rfl⟩

theorem markText_answers :
    Parser.Answers (Directive.markText : Parser Cursor Node) fun node =>
      ∃ content, node = .text content := by
  refine .bind fun found => ?_
  cases found with
  | none => exact .fail _
  | some character => exact .bind fun _ => .pure ⟨_, rfl⟩

theorem leave_answers :
    Parser.Answers (Directive.leave context : Parser Cursor Node) fun node =>
      ∃ target, context.enclosingLoop = some target ∧ node = .leave target := by
  unfold Directive.leave
  cases context.enclosingLoop with
  | none => exact .fail _
  | some target => exact .bind fun _ => .pure ⟨target, rfl, rfl⟩

theorem declaration?_makes {earlier : Nat} :
    Makes context anchor draft (DirectiveParser.parse Directive.declaration?)
      (OriginatesIfAny context anchor earlier) := by
  refine .of_within fun within => (Makes.parse .declaration?).weaken fun _ _ _ ran => ?_
  rintro node rfl
  have standing : Directive.declaration?.AnswersIn "" anchor.text (some node) :=
    ⟨draft.source, within.1, List.nil_prefix, congrArg Prod.fst ran⟩
  rcases declaration?_answers _ _ _ ran node rfl with ⟨name, value, constant, rfl⟩ |
    ⟨name, value, rfl⟩
  · exact .declare name value constant standing
  · exact .assign name value standing

theorem read?_makes {earlier : Nat} :
    Makes context anchor draft (DirectiveParser.parse Directive.read?)
      (OriginatesIfAny context anchor earlier) := by
  refine .of_within fun within => (Makes.parse .read?).weaken fun _ _ _ ran => ?_
  rintro node rfl
  obtain ⟨path, rfl⟩ := read?_answers _ _ _ ran node rfl
  exact .read path ⟨draft.source, within.1, List.nil_prefix, congrArg Prod.fst ran⟩

theorem defaultUse_makes {earlier : Nat}
    (opens : "@placeholder(".toList.reverse <+: draft.source.passed) :
    Makes context anchor draft (do return some (← DirectiveParser.parse Directive.defaultUse))
      (OriginatesIfAny context anchor earlier) := by
  refine .of_within fun within => (Makes.parse .defaultUse).bind fun node _ _ ran => .pure ?_
  rintro _ ⟨⟩
  obtain ⟨key, argument, rfl⟩ := defaultUse_answers _ _ _ ran
  exact .usePlaceholder key argument
    (.inr ⟨draft.source, within.1, opens, congrArg Prod.fst ran⟩)

theorem definitionUse_makes {earlier : Nat} :
    Makes context anchor draft (do return some (← DirectiveParser.parse Directive.definitionUse))
      (OriginatesIfAny context anchor earlier) := by
  refine (Makes.parse .definitionUse).bind fun node _ _ ran => .pure ?_
  rintro _ ⟨⟩
  obtain ⟨key, rfl⟩ := definitionUse_answers _ _ _ ran
  exact .usePlaceholder key none (.inl rfl)

theorem placeholder?_makes :
    Makes context anchor draft (Directive.placeholder? context)
      (OriginatesIfAny context anchor draft.blocks.size) := by
  unfold Directive.placeholder?
  refine (Makes.acceptText "@define_placeholder(").bind fun opens opened grows opening => ?_
  cases opens with
  | true =>
      refine (definition_makes (opening rfl)).bind fun node _ _ origin =>
        .pure ?_
      rintro _ ⟨⟩
      exact origin.mono fun _ _ made => made.of_le grows.size_blocks_le
  | false =>
      refine (Makes.acceptText_passed "@placeholder(").bind fun used _ _ opens => ?_
      cases used with
      | true => exact defaultUse_makes (opens rfl).2
      | false =>
          refine (Makes.acceptText "@use_placeholder(").bind fun used _ _ _ => ?_
          cases used with
          | true => exact definitionUse_makes
          | false => exact .pure fun _ same => nomatch same

theorem embed_makes (opening : "@embed ".toList <:+: anchor.text) :
    Makes context anchor draft (Directive.embed context)
      (Originates context anchor draft.blocks.size) := by
  unfold Directive.embed
  refine (Makes.parse .embeddedPath).bind fun path reached grows _ => ?_
  cases found : context.embeddings path with
  | none => exact .throw nofun
  | some text =>
      refine fun _ => ⟨.single (.embed path text found opening), fun node same => ?_,
        fun _ same => nomatch same⟩
      obtain rfl : .embed ⟨reached.blocks.size⟩ = node := Except.ok.inj same
      have pushed : (reached.blocks.push (embeddedBlock context text ⟨reached.sources.size⟩))[
          reached.blocks.size]? = some _ := Array.getElem?_push_size
      exact .embed _ opening ⟨grows.size_blocks_le, _, pushed, rfl⟩

theorem nested?_makes :
    Makes context anchor draft (Directive.nested? context)
      (OriginatesIfAny context anchor draft.blocks.size) := by
  unfold Directive.nested?
  refine (Makes.acceptText "@breakfor").bind fun opens left grows opening => ?_
  cases opens with
  | true =>
      refine (Makes.parse (.leave context)).bind fun node _ _ ran => .pure ?_
      rintro _ ⟨⟩
      obtain ⟨target, enclosing, rfl⟩ := leave_answers _ _ _ ran
      exact .leave target (opening rfl) enclosing
  | false =>
      refine (Makes.acceptText_passed "@if(").bind fun opens opened growsOpened opening => ?_
      have forward := grows.trans growsOpened
      cases opens with
      | true =>
          obtain ⟨opening, passed⟩ := opening rfl
          have opens : "if(".toList.reverse <+: opened.source.passed :=
            List.IsPrefix.trans (by decide) passed
          refine (branches_makes opening opens).bind fun node _ _ origin => .pure ?_
          rintro _ ⟨⟩
          exact origin.mono fun _ _ made => made.of_le forward.size_blocks_le
      | false =>
          refine (Makes.acceptText "@embed ").bind fun opens begun growsBegun opening => ?_
          cases opens with
          | true =>
              refine (embed_makes (opening rfl)).bind fun node _ _ origin => .pure ?_
              rintro _ ⟨⟩
              exact origin.mono fun _ _ made =>
                made.of_le (forward.trans growsBegun).size_blocks_le
          | false =>
              refine (Makes.scan (Parser.Mirrors.stray? Directive.closingKeywords)).bind
                fun keyword? _ _ _ => ?_
              cases keyword? with
              | none => exact .pure fun _ same => nomatch same
              | some keyword =>
                  exact .fail (.strayTerminator keyword) nofun

theorem OriginatesIfAny.of_le {earlier earliest : Nat} {node? : Option Node}
    (originates : OriginatesIfAny context anchor earlier node? draft) (order : earliest ≤ earlier) :
    OriginatesIfAny context anchor earliest node? draft :=
  fun node same => (originates node same).mono fun _ _ made => made.of_le order

theorem firstOf?_makes {earlier : Nat} (rules : List (DirectiveParser Cursor (Option Node)))
    (each : ∀ rule ∈ rules, ∀ reached : Draft Cursor, earlier ≤ reached.blocks.size →
      Makes context anchor reached rule (OriginatesIfAny context anchor earlier))
    (order : earlier ≤ draft.blocks.size) :
    Makes context anchor draft (Directive.firstOf? rules)
      (OriginatesIfAny context anchor earlier) := by
  induction rules generalizing draft with
  | nil => exact .pure fun _ same => nomatch same
  | cons rule rules induction =>
      refine .of_within fun within => ?_
      unfold Directive.firstOf?
      refine .pointer_bind ?_
      refine (each rule (List.mem_cons_self ..) draft order).bind fun node? tried grows origin => ?_
      have later := Nat.le_trans order grows.size_blocks_le
      cases node? with
      | some node => exact .pure fun _ same => origin _ same
      | none =>
          refine (Makes.scan (.returnTo within)).bind fun _ returned growsReturned _ => ?_
          exact induction (fun other member => each other (List.mem_cons_of_mem _ member))
            (Nat.le_trans later growsReturned.size_blocks_le)

theorem recogniser_makes {earlier : Nat} {rule : DirectiveParser Cursor (Option Node)}
    (listed : rule ∈ Directive.recognisers context) (order : earlier ≤ draft.blocks.size) :
    Makes context anchor draft rule (OriginatesIfAny context anchor earlier) := by
  simp only [Directive.recognisers, List.mem_cons, List.not_mem_nil, or_false] at listed
  rcases listed with rfl | rfl | rfl | rfl | rfl | rfl
  · refine (Makes.scan (Parser.Mirrors.text? context.limit)).weaken
      fun _ _ _ ran node same => ?_
    obtain ⟨content, rfl⟩ := text?_answers ran node same
    exact .text content
  · exact declaration?_makes
  · exact loop?_makes.weaken fun _ _ _ origin => origin.of_le order
  · exact placeholder?_makes.weaken fun _ _ _ origin => origin.of_le order
  · exact read?_makes
  · exact nested?_makes.weaken fun _ _ _ origin => origin.of_le order

theorem node_makes {earlier : Nat} (order : earlier ≤ draft.blocks.size) :
    Makes context anchor draft (Directive.node context) (Originates context anchor earlier) := by
  unfold Directive.node
  refine (firstOf?_makes _ (fun rule listed _ => recogniser_makes listed) order).bind
    fun node? tried _ origin => ?_
  cases node? with
  | some node => exact .pure (origin node rfl)
  | none =>
      refine (Makes.parse .markText).weaken fun _ _ _ ran => ?_
      obtain ⟨content, rfl⟩ := markText_answers _ _ _ ran
      exact .text content

/-- The directives of a block originate from its text, and the draft only grows. -/
theorem nodesFrom_makes {earlier fuel : Nat} {parsed nodes : List Node} {after : Draft Cursor}
    (within : anchor.Reaches draft.source) (order : earlier ≤ draft.blocks.size)
    (origins : ∀ node ∈ parsed, Originates context anchor earlier node draft)
    (ran : (Directive.nodesFrom context fuel parsed).run draft = pure (nodes, after)) :
    draft.Grows context anchor after ∧
      ∀ node ∈ nodes, Originates context anchor earlier node after := by
  induction fuel generalizing draft parsed with
  | zero =>
      cases ran
      exact ⟨.refl, fun node member => origins node (List.mem_reverse.mp member)⟩
  | succ fuel induction =>
      rw [Directive.nodesFrom_succ_run] at ran
      have looking : Makes context anchor draft
          (DirectiveParser.scan (Directive.atLimit context.limit)) _ :=
        .scan (Parser.Mirrors.atLimit context.limit)
      have looks := looking within
      generalize (DirectiveParser.scan (Directive.atLimit context.limit)).run.run draft = outcome
        at ran looks
      obtain ⟨outcome, looked⟩ := outcome
      have growsLooked : draft.Grows context anchor looked := looks.1
      have stopped : ∀ node ∈ parsed.reverse, Originates context anchor earlier node looked :=
        fun node member => (origins node (List.mem_reverse.mp member)).mono
          fun _ _ made => made.mono growsLooked
      match outcome with
      | .error _ =>
          cases ran
          exact ⟨growsLooked, stopped⟩
      | .ok true =>
          cases ran
          exact ⟨growsLooked, stopped⟩
      | .ok false =>
          simp only at ran
          have started := Nat.le_trans order growsLooked.size_blocks_le
          have making : Makes context anchor looked (Directive.node context) _ :=
            node_makes started
          have makes := making (growsLooked.reaches within)
          generalize (Directive.node context).run.run looked = found at ran makes
          obtain ⟨found, reached⟩ := found
          have grows : looked.Grows context anchor reached := makes.1
          have earlierOnes : ∀ node ∈ parsed, Originates context anchor earlier node reached :=
            fun node member => (origins node member).mono
              fun _ _ made => made.mono (growsLooked.trans grows)
          cases found with
          | error error =>
              cases ran
              refine ⟨growsLooked.trans grows, fun node member => ?_⟩
              rcases List.mem_cons.mp (List.mem_reverse.mp member) with rfl | isEarlier
              · exact .malformed _ (makes.2.2 error rfl)
              · exact earlierOnes node isEarlier
          | ok node =>
              obtain ⟨growsLater, originsLater⟩ := induction
                (grows.reaches (growsLooked.reaches within))
                (Nat.le_trans started grows.size_blocks_le)
                (Node.Origin.append earlierOnes (makes.2.1 node rfl)) ran
              exact ⟨(growsLooked.trans grows).trans growsLater, originsLater⟩

end DirectiveParser

/-- Parsing a block from the place of its source on only makes the draft grow, and every directive
originates from the text of the source. -/
theorem Directive.nodes_make {context : BlockContext} {draft after : Draft Cursor}
    {nodes : List Node} (ran : (Directive.nodes context).run draft = pure (nodes, after)) :
    draft.Grows context draft.source after ∧ ∀ node ∈ nodes,
      DirectiveParser.Originates context draft.source draft.blocks.size node after := by
  rw [Directive.nodes_run] at ran
  exact DirectiveParser.nodesFrom_makes (.refl _) (Nat.le_refl _)
    (fun _ member => absurd member List.not_mem_nil) ran

end Stencil
