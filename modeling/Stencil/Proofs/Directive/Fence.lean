import Mathlib.Data.List.Find
import Stencil.Proofs.Directive.BodyRange
import Stencil.Proofs.Directive.Progress
import Stencil.Proofs.Expression.Fence

/-!
# Directives in front of a fence

A directive that ends in front of a fence is read without a look at what stands behind it, also
where the bodies of directives are searched for the keywords that close them.

While a block is parsed its source is read, and blocks, scopes and sources are made.  A recogniser
that is tried in front of a fence and does not pass it does the same whatever text stands behind the
fence.
-/

namespace Stencil

open Text Boundary Directive

/-- Bytes of a body that begins at an offset and ends at a place. -/
def Directive.bodyBytes (start : Nat) (cursor : Cursor) : Nat :=
  let length := cursor.offset - start
  if length = 0 then 0 else if cursor.passed.head?.any isBreak then length - 1 else length

theorem Directive.bodyLength_run_eq (start : Nat) (cursor : Cursor) :
    (bodyLength start).run cursor = pure (bodyBytes start cursor, cursor) := by
  by_cases empty : cursor.offset - start = 0
  · simp [bodyLength, bodyBytes, empty]
  · cases breaks : cursor.passed.head?.any isBreak <;>
      simp [bodyLength, bodyBytes, empty, afterBreak_run, breaks]

namespace Text.Roomy

variable {rounds : Nat} {limit : Nat} {opening : String} {keywords : List String} {index : Nat}
  {start place : Roomy rounds}

theorem standsAt_of_closingKeyword? (nonempty : opening ≠ "")
    (found : (Scan.closingKeyword? opening keywords).run start = pure (some index, place)) :
    ∃ keyword, keywords[index]? = some keyword ∧ standsAt keyword place.cursor.rest = true := by
  have concurs : ConcurFrom start.cursor (σ := Cursor)
      (@Scan.closingKeyword? (Roomy rounds) _ opening keywords)
      (Scan.closingKeyword? opening keywords) := .closingKeyword? nonempty keywords
  have same := (concurs start.cursor (.refl _)).1
  exact (reaches_of_closingKeyword? (same.symm.trans found)).2

theorem bodyLength_run (start : Nat) (place : Roomy rounds) :
    (bodyLength start).run place = pure (bodyBytes start place.cursor, place) :=
  bodyLength_run_eq start place

/-- The range of a body whose closing keyword was found. -/
theorem bodyRange_run {keyword : String} (named : keywords[index]? = some keyword)
    (found : (Scan.closingKeyword? opening keywords).run start = pure (some index, place))
    (inside : place.cursor.offset < limit) :
    (bodyRange limit opening keywords).run.run start =
      pure (.ok (⟨start.cursor.offset, bodyBytes start.cursor.offset place.cursor⟩, index),
        place.cursor.past keyword) := by
  have isKeyword : keywords.getD index "" = keyword := by
    rw [List.getD_eq_getElem?_getD, named, Option.getD_some]
  unfold bodyRange
  rw [Parser.run_scan_bind (pointer_run start), Parser.run_scan_bind found]
  dsimp only
  rw [Parser.run_scan_bind (pointer_run place), if_pos inside,
    Parser.run_scan_bind (bodyLength_run _ place), isKeyword,
    Parser.run_scan_bind (acceptText_run place keyword)]
  rfl

theorem textFrom_succ_run (limit fuel : Nat) (taken : List Char) (place : Roomy rounds) :
    (textFrom limit (fuel + 1) taken).run place =
      if place.cursor.offset < limit then
        match place.cursor.rest.head? with
        | none => pure (taken, place)
        | some character =>
            if character = '@' then pure (taken, place)
            else (textFrom limit fuel (character :: taken)).run place.cursor.advance
      else pure (taken, place) := by
  rw [textFrom, StateT.run_bind, pointer_run, pure_bind]
  dsimp only
  split
  · rw [StateT.run_bind, current_run, pure_bind]
    dsimp only
    cases place.cursor.rest.head? with
    | none => rfl
    | some character =>
        dsimp only
        split <;> rfl
  · rfl

/-- The first of some keywords that stands at a place. -/
theorem stray?_run (keywords : List String) (place : Roomy rounds) :
    (stray? keywords).run place = pure (keywords.find? (standsAt · place.cursor.rest), place) := by
  induction keywords with
  | nil => rfl
  | cons keyword keywords induction =>
      rw [stray?, StateT.run_bind, looksAtKeyword_run, pure_bind]
      rw [List.find?_cons]
      cases standsAt keyword place.cursor.rest with
      | true => rfl
      | false => exact induction

end Text.Roomy

namespace Text.Fence

variable {fence : Fence} {limit limitThere : Nat}

/-- Two ends of blocks that have the same places in front of the fence before them. -/
def Limits (fence : Fence) (limit limitThere : Nat) : Prop :=
  ∀ place < fence.place, place < limit ↔ place < limitThere

/-- A parser that reads one text up to a limit and the other one up to another. -/
def ReadsAs {α : Type} (fence : Fence) (left right : Parser (Roomy fence.rounds) α) : Prop :=
  fence.boundary.Confines fence.boundary.agree Anything left right

theorem Agree.bodyBytes_eq {here there : Roomy fence.rounds} (agree : fence.Agree here there)
    (start : Nat) : bodyBytes start there.cursor = bodyBytes start here.cursor := by
  obtain ⟨passed, inside, -, isHere, isThere⟩ := agree
  rw [isHere, isThere]
  rfl

namespace Follows

theorem indexName? : fence.Follows Directive.indexName? := by
  refine (accept (by decide)).bind fun _ => .ite ?_ (.pure _)
  refine skipSpaces.bind fun _ => Reads.name?.bind fun found => ?_
  cases found with
  | none => exact .pure none
  | some index => exact skipSpaces.bind fun _ => .pure _

theorem elementNames? : fence.Follows Directive.elementNames? := by
  refine Reads.name?.bind fun element? => ?_
  cases element? with
  | none => exact .pure none
  | some element =>
      refine skipSpaces.bind fun _ => indexName?.bind fun index? => ?_
      cases index? with
      | none => exact .pure none
      | some index => exact (accept (by decide)).bind fun _ => .ite (.pure _) (.pure none)

theorem counterName? : fence.Follows Directive.counterName? := by
  refine Reads.name?.bind fun name? => ?_
  cases name? with
  | none => exact .pure none
  | some name =>
      refine skipSpaces.bind fun _ => (accept (by decide)).bind fun _ => .ite ?_ (.pure none)
      have tested (second : Bool) : fence.Follows
          (if second then Pure.pure none else Pure.pure (some name)) := .ite (.pure none) (.pure _)
      have blind : (some '@' == some '=') = (none == some '=') := rfl
      exact look_bind blind tested

theorem textFrom (limits : fence.Limits limit limitThere) (fuel : Nat) (taken : List Char) :
    Stencil.Follows fence.Agree id (Directive.textFrom limit fuel taken)
      (Directive.textFrom limitThere fuel taken) := by
  induction fuel generalizing taken with
  | zero => exact pure taken
  | succ fuel induction =>
      intro here there agree
      have offset : there.cursor.offset = here.cursor.offset := agree.pointer_eq
      rw [Roomy.textFrom_succ_run, Roomy.textFrom_succ_run, offset]
      have stops (place : Roomy fence.rounds) (limit : Nat)
          (atEnd : place.cursor.rest.head? = none ∨ place.cursor.rest.head? = some '@') :
          (if here.cursor.offset < limit then
            match place.cursor.rest.head? with
            | none => Pure.pure (taken, place)
            | some character =>
                if character = '@' then Pure.pure (taken, place)
                else (Directive.textFrom limit fuel (character :: taken)).run place.cursor.advance
          else Pure.pure (taken, place)) = (Pure.pure (taken, place) : Id _) := by
        rcases atEnd with stands | stands <;> rw [stands] <;> split <;> rfl
      rcases agree.cases with ⟨character, isHere, isThere, before, advanced⟩ | ⟨isHere, isThere, -⟩
      · rw [isHere, isThere]
        dsimp only
        have same := limits _ before
        by_cases inside : here.cursor.offset < limit
        · rw [if_pos inside, if_pos (same.mp inside)]
          split
          · exact ⟨rfl, agree⟩
          · exact induction _ _ _ advanced
        · rw [if_neg inside, if_neg fun insideThere => inside (same.mpr insideThere)]
          exact ⟨rfl, agree⟩
      · rw [stops here limit (.inr isHere), stops there limitThere isThere]
        exact ⟨rfl, agree⟩

theorem text? (limits : fence.Limits limit limitThere) :
    Stencil.Follows fence.Agree id (Directive.text? limit) (Directive.text? limitThere) := by
  let made (taken : List Char) : StateM (Roomy fence.rounds) (Option Node) :=
    if taken.isEmpty then return none else return some (.text (String.ofList taken.reverse))
  have read (rounds : Nat) : Stencil.Follows fence.Agree id
      (Directive.textFrom limit rounds [] >>= made)
      (Directive.textFrom limitThere rounds [] >>= made) :=
    Stencil.Follows.bind (textFrom limits rounds []) fun _ => ite (pure none) (pure _)
  refine Stencil.Follows.of_state fun here there agree =>
    ⟨_, _, read (Source.remaining here + 1), rfl, ?_⟩
  rw [← agree.remaining_eq]
  rfl

end Follows

namespace Reads

theorem bodyRange (limits : fence.Limits limit limitThere) {opening : String}
    {keywords : List String} (nonempty : opening ≠ "") (opens : '@' ∉ opening.toList.tail)
    (filled : ∀ keyword ∈ keywords, keyword ≠ "")
    (once : ∀ keyword ∈ keywords, '@' ∉ keyword.toList.tail) :
    fence.ReadsAs (Directive.bodyRange limit opening keywords)
      (Directive.bodyRange limitThere opening keywords) := by
  refine ⟨?_, stays_of_concurs fun _ => Parser.ConcurFrom.bodyRange limit nonempty keywords⟩
  intro here there answer after agree ran _
  have parts := ran
  unfold Directive.bodyRange at parts
  rw [Parser.run_scan_bind (Roomy.pointer_run here)] at parts
  obtain ⟨found?, place, searched, rest⟩ := Parser.exists_of_run_bind_ok parts
  replace searched := Parser.exists_of_run_scan_ok searched
  cases found? with
  | none => cases rest
  | some index =>
      rw [Parser.run_scan_bind (Roomy.pointer_run place)] at rest
      by_cases inside : place.cursor.offset < limit
      · obtain ⟨keyword, named, stands⟩ := Roomy.standsAt_of_closingKeyword? nonempty searched
        have member := List.mem_of_getElem? named
        have passes := Brackets.Precedes.past (filled keyword member) (isPrefix_of_standsAt stands)
        rw [Roomy.bodyRange_run named searched inside] at ran
        cases ran
        by_cases before : place.cursor.offset < fence.place
        · obtain ⟨placeThere, searchedThere, agreed⟩ :=
            Agree.closingKeyword? opens once agree searched before
          have pointers : placeThere.cursor.offset = place.cursor.offset := agreed.pointer_eq
          have start : there.cursor.offset = here.cursor.offset := Agree.pointer_eq agree
          have insideThere : placeThere.cursor.offset < limitThere :=
            pointers ▸ (limits _ before).mp inside
          have ranThere := Roomy.bodyRange_run named searchedThere insideThere
          rw [start, agreed.bodyBytes_eq] at ranThere
          exact .inr ⟨_, ranThere, (Inside.past ⟨agreed, before⟩ (once keyword member)).2⟩
        · exact .inl (Nat.lt_of_le_of_lt (Nat.le_of_not_lt before) passes.offset_lt)
      · rw [if_neg inside] at rest
        cases rest

theorem iterableHeader? : fence.Reads (Scan.attempt Directive.iterableHeader?) :=
  attempt .elementNames? (fun _ => Parser.ConcurFrom.elementNames?) rfl
    (fun _ => skipSpaces.bind fun _ => (expression _).bind fun _ => pure _)
    fun _ => .bind fun _ => .bind fun _ => .pure nofun

theorem expectCounter (name : String) : fence.Reads (Directive.expectCounter name) :=
  skipSpaces.bind fun _ => (scan name? fun _ => Parser.ConcurFrom.name?).bind fun _ =>
    ite (pure ()) (fail _)

theorem counterStep : fence.Reads Directive.counterStep := by
  refine (acceptText (by decide)).bind fun _ => ite (pure _) ?_
  refine (acceptText (by decide)).bind fun _ => ite (pure _) ?_
  refine look_bind rfl (fail _) fun character => ?_
  cases found : (some character).bind Operator.ofSymbol? with
  | none => exact (fail _).weaken fun _ _ => And.left
  | some operator =>
      have isFound : Parser.require "a step operator" (some operator) =
        (Pure.pure operator : Parser (Roomy fence.rounds) Operator) := rfl
      rw [isFound, pure_bind]
      exact step_bind (skipSpaces.bind fun _ => (expression _).bind fun _ => pure _)

theorem numberedHeader? : fence.Reads (Scan.attempt Directive.numberedHeader?) := by
  refine attempt .counterName? (fun _ => Parser.ConcurFrom.counterName?) rfl (fun name => ?_)
    fun name => ?_
  · refine skipSpaces.bind fun _ => (expression "a start value").bind fun _ =>
      (expectSymbol (by decide)).bind fun _ => (expectCounter name).bind fun _ =>
      skipSpaces.bind fun _ => comparison?.bind fun _ => ?_
    refine (require _ _).bind fun _ => skipSpaces.bind fun _ =>
      (expression "a loop bound").bind fun _ => (expectSymbol (by decide)).bind fun _ =>
      (expectCounter name).bind fun _ => skipSpaces.bind fun _ => ?_
    exact counterStep.bind fun _ => pure _
  · refine .bind fun _ => .bind fun _ => .bind fun _ => .bind fun _ => .bind fun _ => ?_
    refine .bind fun _ => .bind fun _ => .bind fun _ => .bind fun _ => .bind fun _ => ?_
    exact .bind fun _ => .bind fun _ => .bind fun _ => .pure nofun

theorem loopHeader : fence.Reads Directive.loopHeader := by
  refine skipSpaces.bind fun _ => iterableHeader?.bind fun iterable? => ?_
  cases iterable? with
  | some header => exact pure header
  | none =>
      refine numberedHeader?.bind fun numbered? => ?_
      cases numbered? with
      | some header => exact pure header
      | none => exact required _ condition? fun _ => pure _

theorem branchCondition : fence.Reads Directive.branchCondition :=
  skipSpaces.bind fun _ => required _ condition? fun _ => (expectSymbol (by decide)).bind fun _ =>
    acceptBreak.bind fun _ => pure _

theorem furtherNames (allowed : Nat) : fence.Reads (Directive.furtherNames allowed) := by
  induction allowed with
  | zero =>
      exact skipSpaces.bind fun _ => (accept (by decide)).bind fun _ => ite (fail _) (pure [])
  | succ allowed induction =>
      exact skipSpaces.bind fun _ => (accept (by decide)).bind fun _ =>
        ite ((expectName _).bind fun _ => induction.bind fun _ => pure _) (pure [])

theorem defaultUse : fence.Reads Directive.defaultUse := by
  refine (expectName _).bind fun _ => skipSpaces.bind fun _ => (accept (by decide)).bind fun _ =>
    ite ?_ ?_
  · exact skipSpaces.bind fun _ => (expression _).bind fun _ => (pure _).bind fun _ =>
      (expectSymbol (by decide)).bind fun _ => pure _
  · exact (pure none).bind fun _ => (expectSymbol (by decide)).bind fun _ => pure _

theorem definitionUse : fence.Reads Directive.definitionUse := by
  refine (expectName _).bind fun _ => skipSpaces.bind fun _ => (accept (by decide)).bind fun _ =>
    ite ?_ ?_
  · exact (expectName _).bind fun _ => (expectSymbol (by decide)).bind fun _ => pure _
  · exact (pure _).bind fun _ => (expectSymbol (by decide)).bind fun _ => pure _

theorem leave (context : BlockContext) : fence.Reads (Directive.leave context) := by
  unfold Directive.leave
  cases context.enclosingLoop with
  | none => exact fail _
  | some target => exact acceptBreak.bind fun _ => pure _

theorem embeddedPath : fence.Reads Directive.embeddedPath :=
  skipSpaces.bind fun _ => (takeWhile _).bind fun _ =>
    ite (fail _) (acceptBreak.bind fun _ => pure _)

theorem declaration? :
    fence.boundary.Confines fence.Inside Anything Directive.declaration?
        Directive.declaration? := by
  have declares (form : BindingForm) : fence.Reads (do
      let name ← Parser.expectName "a variable name"
      Parser.expectSymbol '='
      let _ ← Parser.scan Scan.skipSpaces
      let value ← Grammar.expression "a value"
      let _ ← Parser.scan Scan.acceptBreak
      return some (form.node name value)) :=
    (expectName _).bind fun _ => (expectSymbol (by decide)).bind fun _ =>
      skipSpaces.bind fun _ => (expression _).bind fun _ => acceptBreak.bind fun _ => pure _
  unfold Directive.declaration? Directive.declarationStart?
  rw [Parser.scan_bind_bind]
  refine acceptText_bind (by decide) (declares .variable) ?_
  change fence.boundary.Confines _ _ (Parser.scan (_ >>= _) >>= _) (Parser.scan (_ >>= _) >>= _)
  rw [Parser.scan_bind_bind]
  refine acceptText_bind (by decide) (declares .constant) ?_
  change fence.boundary.Confines _ _ (Parser.scan (_ >>= _) >>= _) (Parser.scan (_ >>= _) >>= _)
  rw [Parser.scan_bind_bind]
  exact acceptText_bind (by decide) (declares .assignment) ((pure none).weaken fun _ _ => And.left)

theorem read? : fence.boundary.Confines fence.Inside Anything Directive.read? Directive.read? :=
  Confines.bind reference fun _ => .pure _

end Reads

end Text.Fence

/-- How what is made while one text is read is related to what is made while the other one is. -/
structure Draft.Likeness where
  blocks : Array Block → Array Block → Prop
  sources : Array AnySource → Array AnySource → Prop
  size_blocks {left right : Array Block} : blocks left right → right.size = left.size
  push_blocks {left right : Array Block} (made : Block) : blocks left right →
    blocks (left.push made) (right.push made)
  size_sources {left right : Array AnySource} : sources left right → right.size = left.size
  push_sources {left right : Array AnySource} (added : AnySource) : sources left right →
    sources (left.push added) (right.push added)

theorem DirectiveParser.run_scan {σ α : Type} {run : StateM σ α} {draft : Draft σ} {answer : α}
    {source : σ} (ran : run.run draft.source = pure (answer, source)) :
    (DirectiveParser.scan run).run.run draft = pure (.ok answer, { draft with source }) :=
  congrArg (fun ran : α × σ =>
    ((.ok ran.1, { draft with source := ran.2 }) : Except TemplateError α × Draft σ)) ran

/-- What is known of a block, with another end of its range. -/
def BlockContext.upTo (context : BlockContext) (limit : Nat) : BlockContext :=
  { context with limit }

theorem Draft.Likeness.size_of_same {α : Type} {left right : Array α} (same : right = left) :
    right.size = left.size := congrArg Array.size same

theorem Draft.Likeness.push_of_same {α : Type} {left right : Array α} (made : α)
    (same : right = left) : right.push made = left.push made := congrArg (Array.push · made) same

/-- The same is made while both texts are read. -/
def Draft.Likeness.same : Draft.Likeness where
  blocks left right := right = left
  sources left right := right = left
  size_blocks := @size_of_same Block
  push_blocks := @push_of_same Block
  size_sources := @size_of_same AnySource
  push_sources := @push_of_same AnySource

namespace Text.Fence

variable {fence : Fence} {likeness : Draft.Likeness} {α β : Type}

/-- Drafts whose sources agree up to a fence. -/
structure DraftsAgree (fence : Fence) (likeness : Draft.Likeness)
    (here there : Draft (Roomy fence.rounds)) : Prop where
  source : fence.Agree here.source there.source
  blocks : likeness.blocks here.blocks there.blocks
  sources : likeness.sources here.sources there.sources
  heap : there.heap = here.heap

/-- Drafts of the first text up to the fence and beyond it. -/
def drafts (fence : Fence) (likeness : Draft.Likeness) :
    Boundary (Draft (Roomy fence.rounds)) (Draft (Roomy fence.rounds)) where
  agree := fence.DraftsAgree likeness
  beyond here := fence.boundary.beyond here.source

/-- Drafts that agree and whose sources stand in front of the fence. -/
def DraftsInside (fence : Fence) (likeness : Draft.Likeness)
    (here there : Draft (Roomy fence.rounds)) : Prop :=
  fence.DraftsAgree likeness here there ∧ here.source.cursor.offset < fence.place

/-- Parsers of directives that do the same, unless the first one passes the fence. -/
def Parses (fence : Fence) (likeness : Draft.Likeness)
    (left right : DirectiveParser (Roomy fence.rounds) α) : Prop :=
  (fence.drafts likeness).Confines (fence.DraftsAgree likeness) Anything left right

/-- The same for parsers that are tried in front of the fence. -/
def Tries (fence : Fence) (likeness : Draft.Likeness)
    (left right : DirectiveParser (Roomy fence.rounds) α) : Prop :=
  (fence.drafts likeness).Confines (fence.DraftsInside likeness) Anything left right

theorem exists_of_parse_ok {parser : Parser (Roomy fence.rounds) α}
    {here after : Draft (Roomy fence.rounds)} {answer : α}
    (ran : (DirectiveParser.parse parser).run.run here = (.ok answer, after)) :
    parser.run.run here.source = (.ok answer, after.source) ∧
      after = { here with source := after.source } := by
  obtain ⟨outcome, same⟩ := Prod.mk.inj ran
  exact ⟨Prod.ext outcome (congrArg Draft.source same), same ▸ rfl⟩

theorem drafts_stays {accepted : α → Prop} {parser : Parser (Roomy fence.rounds) α}
    (inner : fence.boundary.Stays accepted parser) :
    (fence.drafts likeness).Stays accepted (DirectiveParser.parse parser) :=
  fun _ answer _ beyond ran isAccepted =>
    inner _ answer _ beyond (exists_of_parse_ok ran).1 isAccepted

theorem drafts_keeps {pre : Roomy fence.rounds → Roomy fence.rounds → Prop} {accepted : α → Prop}
    {left right : Parser (Roomy fence.rounds) α}
    (inner : fence.boundary.Keeps pre accepted left right) :
    (fence.drafts likeness).Keeps
      (fun here there => fence.DraftsAgree likeness here there ∧ pre here.source there.source)
      accepted (DirectiveParser.parse left) (DirectiveParser.parse right) := by
  rintro here there answer after ⟨agree, within⟩ ran isAccepted
  obtain ⟨ranSource, same⟩ := exists_of_parse_ok ran
  refine (inner _ _ answer _ within ranSource isAccepted).imp_right ?_
  rintro ⟨sourceThere, ranThere, agreeAfter⟩
  refine ⟨{ there with source := sourceThere }, ?_, ?_⟩
  · exact congrArg (fun ran : Except TemplateError α × Roomy fence.rounds =>
      (ran.1, { there with source := ran.2 })) ranThere
  · rw [same]
    exact ⟨agreeAfter, agree.blocks, agree.sources, agree.heap⟩

theorem drafts_parse {pre : Roomy fence.rounds → Roomy fence.rounds → Prop} {accepted : α → Prop}
    {left right : Parser (Roomy fence.rounds) α}
    (inner : fence.boundary.Confines pre accepted left right) :
    (fence.drafts likeness).Confines
      (fun here there => fence.DraftsAgree likeness here there ∧ pre here.source there.source)
      accepted (DirectiveParser.parse left) (DirectiveParser.parse right) :=
  ⟨drafts_keeps inner.keeps, drafts_stays inner.stays⟩

namespace Parses

theorem pure (answer : α) : fence.Parses likeness (Pure.pure answer) (Pure.pure answer) :=
  Confines.pure answer

theorem bind {first firstThere : DirectiveParser (Roomy fence.rounds) α}
    {next nextThere : α → DirectiveParser (Roomy fence.rounds) β}
    (here : fence.Parses likeness first firstThere)
    (later : ∀ answer, fence.Parses likeness (next answer) (nextThere answer)) :
    fence.Parses likeness (first >>= next) (firstThere >>= nextThere) :=
  Confines.bind here later

theorem ite {condition : Prop} [Decidable condition]
    {yes yesThere no noThere : DirectiveParser (Roomy fence.rounds) α}
    (holds : fence.Parses likeness yes yesThere) (fails : fence.Parses likeness no noThere) :
    fence.Parses likeness (if condition then yes else no)
        (if condition then yesThere else noThere) :=
  Confines.ite holds fails

theorem parse {left right : Parser (Roomy fence.rounds) α} (inner : fence.ReadsAs left right) :
    fence.Parses likeness (DirectiveParser.parse left) (DirectiveParser.parse right) :=
  (drafts_parse inner).weaken fun _ _ agree => ⟨agree, agree.source⟩

theorem scan {run : StateM (Roomy fence.rounds) α} (inner : fence.Reads (Parser.scan run)) :
    fence.Parses likeness (DirectiveParser.scan run) (DirectiveParser.scan run) :=
  parse inner

theorem pointer : fence.Parses likeness (DirectiveParser.scan Scan.pointer)
    (DirectiveParser.scan Scan.pointer) :=
  scan (Fence.pointer_bind (fun _ _ => id) fun offset => Reads.pure offset)

theorem remaining : fence.Parses likeness (DirectiveParser.scan Scan.remaining)
    (DirectiveParser.scan Scan.remaining) :=
  scan (Fence.remaining_bind (fun _ _ => id) fun rounds => Reads.pure rounds)

/-- What is made is the same, and the source stays where it is. -/
theorem made {make : StateM (Draft (Roomy fence.rounds)) α}
    (stays : ∀ here, (make.run here).2.source = here.source)
    (agrees : ∀ here there, fence.DraftsAgree likeness here there →
      (make.run there).1 = (make.run here).1 ∧
        fence.DraftsAgree likeness (make.run here).2 (make.run there).2) :
    fence.Parses likeness (Parser.scan make) (Parser.scan make) := by
  constructor
  · intro here there answer after agree ran _
    obtain ⟨same, agreeAfter⟩ := agrees here there agree
    have ran : make.run here = (answer, after) := Parser.exists_of_run_scan_ok ran
    rw [ran] at same agreeAfter
    exact .inr ⟨(make.run there).2, Parser.run_scan (Prod.ext same rfl), agreeAfter⟩
  · intro here answer after beyond ran _
    have ran : make.run here = (answer, after) := Parser.exists_of_run_scan_ok ran
    have same := stays here
    rw [ran] at same
    exact Nat.lt_of_lt_of_eq beyond (congrArg (·.cursor.offset) same.symm)

theorem newBlock (block : BlockRef → Block) :
    fence.Parses likeness (DirectiveParser.newBlock block) (DirectiveParser.newBlock block) := by
  refine made (fun _ => rfl) fun here there agree => ?_
  have size := likeness.size_blocks agree.blocks
  refine ⟨congrArg BlockRef.mk size, agree.source, ?_, agree.sources, agree.heap⟩
  change likeness.blocks (here.blocks.push (block ⟨here.blocks.size⟩))
    (there.blocks.push (block ⟨there.blocks.size⟩))
  rw [size]
  exact likeness.push_blocks _ agree.blocks

theorem newScope (context : BlockContext) (name : String) :
    fence.Parses likeness (DirectiveParser.newScope context name)
      (DirectiveParser.newScope context name) := by
  refine made (fun _ => rfl) fun here there agree => ?_
  have heap : there.heap.newScope name (some context.scope) =
      here.heap.newScope name (some context.scope) := by rw [agree.heap]
  refine ⟨congrArg (fun made : ScopeRef × Heap => made.1) heap, agree.source, agree.blocks,
    agree.sources, ?_⟩
  exact congrArg (fun made : ScopeRef × Heap => made.2) heap

theorem newSource (added : AnySource) :
    fence.Parses likeness (DirectiveParser.newSource added) (DirectiveParser.newSource added) := by
  refine made (fun _ => rfl) fun here there agree => ?_
  exact ⟨congrArg SourceRef.mk (likeness.size_sources agree.sources), agree.source, agree.blocks,
    likeness.push_sources added agree.sources, agree.heap⟩

section

variable {context : BlockContext} {limitThere : Nat}
  (limits : fence.Limits context.limit limitThere)

theorem newBody (range : BodyRange) (role : BlockRole) (scope : ScopeRef)
    (enclosingLoop : BlockRef → Option BlockRef) :
    fence.Parses likeness (Directive.newBody context range role scope enclosingLoop)
      (Directive.newBody (context.upTo limitThere) range role scope enclosingLoop) :=
  pointer.bind fun _ => newBlock _

include limits

theorem branchBody : fence.Parses likeness (Directive.branchBody context)
    (Directive.branchBody (context.upTo limitThere)) :=
  (parse (Reads.bodyRange limits (by decide) (by decide) (by decide) (by decide))).bind fun _ =>
    (newScope context "if").bind fun _ => (newBody _ _ _ _).bind fun _ => pure _

theorem lastBody : fence.Parses likeness (Directive.lastBody context)
    (Directive.lastBody (context.upTo limitThere)) :=
  (scan .acceptBreak).bind fun _ => (branchBody limits).bind fun _ =>
    ite (parse (Reads.fail _)) (pure _)

theorem branchesFrom (fuel : Nat) (condition : Condition) :
    fence.Parses likeness (Directive.branchesFrom context fuel condition)
      (Directive.branchesFrom (context.upTo limitThere) fuel condition) := by
  induction fuel generalizing condition with
  | zero => exact pure _
  | succ fuel induction =>
      refine (branchBody limits).bind fun (body, found) => ?_
      match found with
      | 0 => exact (parse Reads.branchCondition).bind fun next =>
          (induction next).bind fun _ => pure _
      | 1 => exact (lastBody limits).bind fun _ => pure _
      | _ + 2 => exact pure _

theorem branches : fence.Parses likeness (Directive.branches context)
    (Directive.branches (context.upTo limitThere)) :=
  (parse Reads.branchCondition).bind fun condition => remaining.bind fun _ =>
    (branchesFrom limits _ condition).bind fun _ => pure _

theorem definition : fence.Parses likeness (Directive.definition context)
    (Directive.definition (context.upTo limitThere)) :=
  (parse (Reads.expectName _)).bind fun _ => (parse (Reads.furtherNames 2)).bind fun _ =>
    (parse (Reads.expectSymbol (by decide))).bind fun _ => (scan .acceptBreak).bind fun _ =>
    (parse (Reads.bodyRange limits (by decide) (by decide) (by decide) (by decide))).bind fun _ =>
    (scan .acceptBreak).bind fun _ => (newScope context _).bind fun _ =>
    (newBody _ _ _ _).bind fun _ => pure _

omit limits in
theorem embed : fence.Parses likeness (Directive.embed context)
    (Directive.embed (context.upTo limitThere)) := by
  unfold Directive.embed
  simp only [BlockContext.upTo]
  refine (parse Reads.embeddedPath).bind fun path => ?_
  cases context.embeddings path with
  | none => exact Confines.throw _
  | some text => exact (newSource _).bind fun id => (newBlock _).bind fun _ => pure _

end

end Parses

namespace Tries

theorem declines : fence.Tries likeness (Pure.pure none : DirectiveParser _ (Option α))
    (Pure.pure none) :=
  (Parses.pure none).weaken fun _ _ => And.left

theorem parse {left right : Parser (Roomy fence.rounds) α}
    (inner : fence.boundary.Confines fence.Inside Anything left right) :
    fence.Tries likeness (DirectiveParser.parse left) (DirectiveParser.parse right) :=
  (drafts_parse inner).weaken fun _ _ inside => ⟨inside.1, inside.1.source, inside.2⟩

theorem acceptText_bind {literal : String} (once : '@' ∉ literal.toList.tail)
    {next nextThere : Bool → DirectiveParser (Roomy fence.rounds) α}
    (yes : fence.Parses likeness (next true) (nextThere true))
    (no : fence.Tries likeness (next false) (nextThere false)) :
    fence.Tries likeness (DirectiveParser.scan (Scan.acceptText literal) >>= next)
      (DirectiveParser.scan (Scan.acceptText literal) >>= nextThere) := by
  have stays : fence.boundary.Stays Anything (Parser.scan (Scan.acceptText literal)) :=
    stays_scan fun _ => .acceptText literal
  refine Confines.test (fun here there inside => ?_) (drafts_stays stays) yes no
  obtain ⟨same, came⟩ := Inside.acceptText once ⟨inside.1.source, inside.2⟩
  refine ⟨same, ?_⟩
  change cond ((Scan.acceptText literal).run here.source).1 (fence.DraftsAgree likeness)
    (fence.DraftsInside likeness)
    { here with source := ((Scan.acceptText literal).run here.source).2 }
    { there with source := ((Scan.acceptText literal).run there.source).2 }
  revert came
  cases ((Scan.acceptText literal).run here.source).1 with
  | true => exact fun agree => ⟨agree, inside.1.blocks, inside.1.sources, inside.1.heap⟩
  | false =>
      exact fun ahead => ⟨⟨ahead.1, inside.1.blocks, inside.1.sources, inside.1.heap⟩, ahead.2⟩

/-- In front of the fence the same keywords stand in both texts. -/
theorem stray?_bind {next nextThere : Option String → DirectiveParser (Roomy fence.rounds) α}
    (later : ∀ found, fence.Tries likeness (next found) (nextThere found)) :
    fence.Tries likeness (DirectiveParser.scan (stray? closingKeywords) >>= next)
      (DirectiveParser.scan (stray? closingKeywords) >>= nextThere) := by
  have ran (here : Draft (Roomy fence.rounds)) := congrArg
    (fun ran : Option String × Roomy fence.rounds => (ran.1, { here with source := ran.2 }))
    (Roomy.stray?_run closingKeywords here.source)
  refine Confines.ask ran ran (fun here there inside => ?_) later
  have once : ∀ keyword ∈ closingKeywords, '@' ∉ keyword.toList.tail := by decide
  exact List.find?_congr fun keyword listed =>
    Inside.standsAt_eq ⟨inside.1.source, inside.2⟩ (once keyword listed)

variable {context : BlockContext} {limitThere : Nat}
  (limits : fence.Limits context.limit limitThere)

include limits

theorem loop? : fence.Tries likeness (Directive.loop? context)
    (Directive.loop? (context.upTo limitThere)) := by
  refine acceptText_bind (by decide) ?_ declines
  exact (Parses.parse Reads.loopHeader).bind fun _ =>
    (Parses.parse (Reads.expectSymbol (by decide))).bind fun _ =>
    (Parses.scan .acceptBreak).bind fun _ =>
    (Parses.parse (Reads.bodyRange limits (by decide) (by decide) (by decide) (by decide))).bind
      fun _ => (Parses.newScope context "for").bind fun _ => (Parses.newBody _ _ _ _).bind fun _ =>
    .pure _

theorem placeholder? : fence.Tries likeness (Directive.placeholder? context)
    (Directive.placeholder? (context.upTo limitThere)) :=
  acceptText_bind (by decide) ((Parses.definition limits).bind fun _ => .pure _) <|
    acceptText_bind (by decide) ((Parses.parse Reads.defaultUse).bind fun _ => .pure _) <|
    acceptText_bind (by decide) ((Parses.parse Reads.definitionUse).bind fun _ => .pure _) declines

theorem nested? : fence.Tries likeness (Directive.nested? context)
    (Directive.nested? (context.upTo limitThere)) := by
  refine acceptText_bind (by decide)
    ((Parses.parse (Reads.leave context)).bind fun _ => .pure _) ?_
  refine acceptText_bind (by decide) ((Parses.branches limits).bind fun _ => .pure _) ?_
  refine acceptText_bind (by decide) (Parses.embed.bind fun _ => .pure _) ?_
  refine stray?_bind fun found => ?_
  cases found with
  | none => exact declines
  | some keyword => exact parse (.of_never (.bind fun _ => .throw _))

end Tries

/-- Parsers that do the same from drafts in front of the fence, unless the first one passes it. -/
def Meets (fence : Fence) (likeness : Draft.Likeness)
    (left right : DirectiveParser (Roomy fence.rounds) α) : Prop :=
  (fence.drafts likeness).Keeps (fence.DraftsInside likeness) Anything left right

variable {context : BlockContext} {limitThere : Nat}

theorem meets_text? (limits : fence.Limits context.limit limitThere) :
    fence.Meets likeness (DirectiveParser.scan (Directive.text? context.limit))
      (DirectiveParser.scan (Directive.text? limitThere)) := by
  intro here there answer after inside
  exact drafts_keeps (.scan (Follows.text? limits)) here there answer after
    ⟨inside.1, inside.1.source⟩

/-- A recogniser that declines leaves the place where it was, and the next one is tried there. -/
theorem meets_firstOf?_cons {recogniser recogniserThere : DirectiveParser _ (Option Node)}
    {recognisers recognisersThere : List (DirectiveParser (Roomy fence.rounds) (Option Node))}
    (here : fence.Meets likeness recogniser recogniserThere)
    (declines : ∀ before after : Draft (Roomy fence.rounds),
      recogniser.run.run before = (.ok none, after) → after.source.cursor = before.source.cursor)
    (later : fence.Meets likeness (firstOf? recognisers) (firstOf? recognisersThere)) :
    fence.Meets likeness (firstOf? (recogniser :: recognisers))
      (firstOf? (recogniserThere :: recognisersThere)) := by
  intro start startThere answer after inside ran _
  have pointed (draft : Draft (Roomy fence.rounds)) :
      (DirectiveParser.scan Scan.pointer).run.run draft =
        pure (.ok draft.source.cursor.offset, draft) := rfl
  have offset : startThere.source.cursor.offset = start.source.cursor.offset :=
    inside.1.source.pointer_eq
  unfold firstOf? at ran ⊢
  rw [Parser.run_bind_of_ok (pointed start)] at ran
  rw [Parser.run_bind_of_ok (pointed startThere), offset]
  obtain ⟨found, tried, ranHere, rest⟩ := Parser.exists_of_run_bind_ok ran
  have met := here start startThere found tried inside ranHere trivial
  cases found with
  | some node =>
      cases rest
      refine met.imp_right ?_
      rintro ⟨triedThere, ranThere, agree⟩
      rw [Parser.run_bind_of_ok ranThere]
      exact ⟨triedThere, rfl, agree⟩
  | none =>
      have same := declines start tried ranHere
      rcases met with beyond | ⟨triedThere, ranThere, agree⟩
      · have further : fence.place < tried.source.cursor.offset := beyond
        rw [same] at further
        exact absurd inside.2 (Nat.lt_asymm further)
      · obtain ⟨back, backThere⟩ := Agree.returnTo inside.1.source agree.source
        rw [Roomy.pointer_eq] at back backThere
        dsimp only at rest
        rw [Parser.run_bind_of_ok (DirectiveParser.run_scan back)] at rest
        rw [Parser.run_bind_of_ok ranThere]
        dsimp only
        rw [Parser.run_bind_of_ok (DirectiveParser.run_scan backThere)]
        exact later { tried with source := start.source }
          { triedThere with source := startThere.source } answer after
          ⟨⟨inside.1.source, agree.blocks, agree.sources, agree.heap⟩, inside.2⟩ rest trivial

theorem declined {recogniser : DirectiveParser (Roomy fence.rounds) (Option Node)}
    {plain : DirectiveParser Cursor (Option Node)}
    (recognise : DirectiveParser.Recognise (σ := Cursor) recogniser plain)
    (before after : Draft (Roomy fence.rounds))
    (ran : recogniser.run.run before = (.ok none, after)) :
    after.source.cursor = before.source.cursor := by
  obtain ⟨same, came⟩ := recognise before.source.cursor before rfl
  have same : recogniser.run.run before = plain.run.run before := same
  rw [← same, ran] at came
  exact came

theorem meets_recognisers (limits : fence.Limits context.limit limitThere) :
    fence.Meets likeness (firstOf? (recognisers context))
      (firstOf? (recognisers (context.upTo limitThere))) := by
  have tried {left right : DirectiveParser (Roomy fence.rounds) (Option Node)}
      {plain : DirectiveParser Cursor (Option Node)}
      {rest restThere : List (DirectiveParser (Roomy fence.rounds) (Option Node))}
      (tries : fence.Tries likeness left right)
      (recognise : DirectiveParser.Recognise (σ := Cursor) left plain)
      (later : fence.Meets likeness (firstOf? rest) (firstOf? restThere)) :
      fence.Meets likeness (firstOf? (left :: rest)) (firstOf? (right :: restThere)) :=
    meets_firstOf?_cons tries.keeps (declined recognise) later
  refine meets_firstOf?_cons (meets_text? limits)
    (declined fun _ => DirectiveParser.Concur.scan (Parser.Concur.text? context.limit)) ?_
  refine tried (.parse Reads.declaration?)
    (fun _ => DirectiveParser.Concur.parse Parser.Concur.declaration?) ?_
  refine tried (.loop? limits) (fun _ => DirectiveParser.Concur.loop? context) ?_
  refine tried (.placeholder? limits) (fun _ => DirectiveParser.Concur.placeholder? context) ?_
  refine tried (.parse Reads.read?) (fun _ => DirectiveParser.Concur.parse Parser.Concur.read?) ?_
  refine tried (.nested? limits) (fun _ => DirectiveParser.Concur.nested? context) ?_
  exact Tries.declines.keeps

theorem meets_node (limits : fence.Limits context.limit limitThere) :
    fence.Meets likeness (node context) (node (context.upTo limitThere)) := by
  refine (meets_recognisers limits).bind fun found => ?_
  cases found with
  | some node => exact Parses.pure node
  | none =>
      exact Parses.parse (read_bind (fun _ => rfl) (.bind fun _ => .throw _) fun _ => Reads.pure _)

end Text.Fence

end Stencil
