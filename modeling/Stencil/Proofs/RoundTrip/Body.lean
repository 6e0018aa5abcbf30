import Mathlib.Data.List.Forall2
import Stencil.Directive.Grammar
import Stencil.Proofs.RoundTrip.Search

/-!
# The ranges of printed bodies

The range that is found for a printed body is just the print, and the block that is made of it holds
the body.
-/

namespace Stencil

open Text Text.Cursor Directive

variable {form : BodyForm} {passed rest : List Char}

namespace BodyForm

/-- No two keywords of a form have one word. -/
theorem exists_split {form : BodyForm} {keyword : String} {index : Nat}
    (isKeyword : form.keywords[index]? = some keyword) : ∃ before after,
    form.keywords = before ++ keyword :: after ∧ before.length = index ∧
      ∀ other ∈ form.opening :: before, wordOf other ≠ wordOf keyword := by
  have distinct : ((form.opening :: form.keywords).map wordOf).Nodup := by cases form <;> decide
  obtain ⟨within, same⟩ := List.getElem?_eq_some_iff.mp isKeyword
  have split : form.keywords = form.keywords.take index ++ keyword ::
      form.keywords.drop (index + 1) := by
    rw [← same, ← List.drop_eq_getElem_cons, List.take_append_drop]
  refine ⟨form.keywords.take index, form.keywords.drop (index + 1), split, ?_, ?_⟩
  · rw [List.length_take]
    omega
  · rw [split, ← List.cons_append, List.map_append] at distinct
    intro other member
    exact (List.nodup_append.mp distinct).2.2 _ (List.mem_map_of_mem member) _
      (List.mem_map_of_mem List.mem_cons_self)

/-- Behind a body the search stops at the keyword that ends it. -/
theorem closingKeyword?_print {keyword : String} {index : Nat} {body : List Char}
    (isKeyword : form.keywords[index]? = some keyword) (isBody : IsBodyText body)
    (ends : EndsKeyword keyword rest) :
    (Scan.closingKeyword? form.opening form.keywords).run
        (between passed (body ++ '\n' :: (keyword.toList ++ rest))) =
      pure (some index, between ('\n' :: body.reverse ++ passed) (keyword.toList ++ rest)) := by
  obtain ⟨before, after, split, rfl, others⟩ := exists_split isKeyword
  have last : form.keywords.getLast? = some form.terminator := by simp [keywords]
  have content : form.Passes 0 (body ++ ['\n']) (keyword.toList ++ rest) :=
    (isBody form _).append (.plain (by decide))
  generalize whole : body ++ '\n' :: (keyword.toList ++ rest) = text
  have parts : (body ++ ['\n']) ++ (keyword.toList ++ rest) = text := by
    rw [← whole, List.append_assoc]
    rfl
  have rounds : (body ++ ['\n']).length ≤ byteLength text := by
    rw [← parts]
    exact Reads.length_le_remaining _ _
  obtain ⟨more, enough, ran⟩ := content
    (2 * (byteLength text + 1) - (body ++ ['\n']).length) 0 (Nat.le_refl _)
  obtain ⟨fuel, rfl⟩ : ∃ fuel, more = fuel + 1 := ⟨more - 1, by omega⟩
  have stops := search_keyword split others ends fuel 0 ((body ++ ['\n']).reverse ++ passed)
  rw [if_pos rfl] at stops
  have found := (ran passed).trans stops
  rw [Nat.sub_add_cancel (by omega), parts, List.reverse_append] at found
  have ran : (Scan.closingKeywordFrom form.opening form.keywords form.terminator
      (2 * ((between passed text).remaining + 1)) 0).run (between passed text) =
      pure (some before.length, between ('\n' :: (body.reverse ++ passed))
        (keyword.toList ++ rest)) := found
  simp [Scan.closingKeyword?, last, ran]

/-- The range of a body is its text. -/
theorem bodyRange_print {keyword : String} {index limit : Nat} {body : List Char}
    (isKeyword : form.keywords[index]? = some keyword) (isBody : IsBodyText body)
    (ends : EndsKeyword keyword rest)
    (inside : byteLength ('\n' :: body.reverse ++ passed) < limit) :
    (bodyRange limit form.opening form.keywords).run.run
        (between passed (body ++ '\n' :: (keyword.toList ++ rest))) =
      pure (.ok (⟨byteLength passed, byteLength body⟩, index),
        between ((body ++ '\n' :: keyword.toList).reverse ++ passed) rest) := by
  have found : (Scan.closingKeyword? form.opening form.keywords).run
      (between passed (body ++ '\n' :: (keyword.toList ++ rest))) = _ :=
    closingKeyword?_print isKeyword isBody ends
  have length := bodyLength_run (body ++ ['\n']) passed (keyword.toList ++ rest)
  rw [cutBreak_concat, if_pos (by decide), List.reverse_append] at length
  have named : form.keywords.getD index "" = keyword := by
    rw [List.getD_eq_getElem?_getD, isKeyword]
    rfl
  unfold bodyRange
  rw [Parser.run_scan_bind (Scan.pointer_run _), Parser.run_scan_bind found]
  dsimp only
  rw [Parser.run_scan_bind (Scan.pointer_run _), offset_between, if_pos inside]
  refine (Parser.run_scan_bind length).trans ?_
  rw [named]
  refine (Parser.run_scan_bind (Scan.acceptText_run_self keyword _ rest)).trans ?_
  simp

end BodyForm

/-- A body, the loop body that a break in it leaves, and the name of its scope. -/
structure Body where
  around : Option BlockRef
  name : String
  trees : List Tree

/-- A range of a text that is the print of a body; no name goes on behind it. -/
def IsPrinted (whole : List Char) (range : BodyRange) (trees : List Tree) : Prop :=
  ∃ before after, whole = before ++ (printAll trees ++ after) ∧
    range = ⟨byteLength before, byteLength (printAll trees)⟩ ∧
    after.head?.any isNamePart = false

/-- A block that is not parsed yet and whose range holds the print of a body. -/
structure Block.Holds (whole : List Char) (source : SourceRef) (body : Body) (block : Block) :
    Prop where
  unparsed : block.nodes? = none
  source : block.source = source
  enclosingLoop : block.enclosingLoop = body.around
  printed : IsPrinted whole ⟨block.start, block.length⟩ body.trees

/-- Which blocks are made for bodies, and the scope around theirs. -/
structure Making where
  held : Body → Block → Prop
  outer : ScopeRef

namespace Making

/-- Any blocks. -/
def any : Making := ⟨fun _ _ => True, .global⟩

/-- New blocks of a source that hold bodies. -/
def holding (whole : List Char) (context : BlockContext) : Making where
  held body block := block.Holds whole context.source body ∧ block.wasLeft = false
  outer := context.scope

/-- Bodies get blocks and scopes, one after another. -/
inductive Makes (making : Making) : Heap → List Body → List Block → Heap → Prop where
  | nil (heap : Heap) : Makes making heap [] [] heap
  | cons {heap after : Heap} {body : Body} {block : Block} {bodies : List Body}
      {blocks : List Block} (held : making.held body block)
      (scope : block.scope = (heap.newScope body.name (some making.outer)).1)
      (later : Makes making (heap.newScope body.name (some making.outer)).2 bodies blocks after) :
      Makes making heap (body :: bodies) (block :: blocks) after

variable {making : Making} {heap middle after : Heap} {bodies later : List Body}
  {blocks blocksLater : List Block}

theorem Makes.append (first : making.Makes heap bodies blocks middle)
    (second : making.Makes middle later blocksLater after) :
    making.Makes heap (bodies ++ later) (blocks ++ blocksLater) after := by
  induction first with
  | nil => exact second
  | cons held scope _ induction => exact .cons held scope (induction second)

theorem Makes.forall₂ (makes : making.Makes heap bodies blocks after) :
    List.Forall₂ making.held bodies blocks := by
  induction makes with
  | nil => exact .nil
  | cons held _ _ induction => exact .cons held induction

/-- Which scopes are made depends on the names of the bodies only. -/
theorem Makes.same_scopes {other : Making} {otherBodies : List Body} {otherBlocks : List Block}
    {otherAfter : Heap} (makes : making.Makes heap bodies blocks after)
    (makesOther : other.Makes heap otherBodies otherBlocks otherAfter)
    (outer : other.outer = making.outer)
    (names : otherBodies.map Body.name = bodies.map Body.name) :
    otherAfter = after ∧ otherBlocks.map Block.scope = blocks.map Block.scope := by
  induction makes generalizing otherBodies otherBlocks with
  | nil =>
      obtain rfl := List.map_eq_nil_iff.mp names
      cases makesOther
      exact ⟨rfl, rfl⟩
  | cons held scope later induction =>
      cases makesOther with
      | nil => cases names
      | cons heldOther scopeOther laterOther =>
          obtain ⟨name, names⟩ := List.cons.inj names
          rw [name, outer] at scopeOther laterOther
          obtain ⟨sameAfter, scopes⟩ := induction laterOther names
          rw [List.map_cons, List.map_cons, scopeOther, scope, scopes]
          exact ⟨sameAfter, rfl⟩

end Making

namespace DirectiveParser

variable {α β : Type} {later : List Char} {making : Making} {size : Nat}

/-- In front of a text and what follows it a parser of directives consumes the text, answers and
makes a block for each of some bodies.  The blocks are numbered from the one after those before. -/
def Builds (making : Making) (rule : DirectiveParser Cursor α) (size : Nat)
    (passed text rest : List Char) (answer : α) (bodies : List Body) : Prop :=
  ∀ draft : Draft Cursor, draft.source = between passed (text ++ rest) →
    draft.blocks.size = size → ∃ made after,
      rule.run.run draft = Pure.pure (.ok answer, after) ∧
      after.source = between (text.reverse ++ passed) rest ∧
      after.blocks.toList = draft.blocks.toList ++ made ∧
      after.sources = draft.sources ∧ making.Makes draft.heap bodies made after.heap

namespace Builds

variable {text : List Char} {first : DirectiveParser Cursor α}
  {next : α → DirectiveParser Cursor β} {answer : α} {result : β} {bodies bodiesLater : List Body}

theorem pure (answer : α) (rest : List Char) :
    Builds making (Pure.pure answer) size passed [] rest answer [] :=
  fun draft here _ => ⟨[], draft, rfl, here, (List.append_nil _).symm, rfl, .nil _⟩

theorem run_bind {draft after : Draft Cursor}
    (ran : first.run.run draft = Pure.pure (.ok answer, after)) :
    (first >>= next).run.run draft = (next answer).run.run after := by
  have split : (first >>= next).run.run draft =
      (ExceptT.bindCont next (first.run.run draft).1).run (first.run.run draft).2 := rfl
  rw [split, ran]
  rfl

theorem bind (here : Builds making first size passed text (later ++ rest) answer bodies)
    (there : Builds making (next answer) (size + bodies.length) (text.reverse ++ passed) later rest
      result bodiesLater) :
    Builds making (first >>= next) size passed (text ++ later) rest result
      (bodies ++ bodiesLater) := by
  intro draft place sized
  rw [List.append_assoc] at place
  obtain ⟨made, reached, ran, placeReached, blocks, sources, makes⟩ := here draft place sized
  have size : reached.blocks.size = size + bodies.length := by
    rw [← Array.length_toList, blocks, List.length_append, Array.length_toList, sized,
      makes.forall₂.length_eq]
  obtain ⟨madeLater, after, ranLater, placeAfter, blocksAfter, sourcesAfter, makesLater⟩ :=
    there reached placeReached size
  refine ⟨made ++ madeLater, after, (run_bind ran).trans ranLater, ?_, ?_,
    sourcesAfter.trans sources, makes.append makesLater⟩
  · rw [placeAfter, List.reverse_append, List.append_assoc]
  · rw [blocksAfter, blocks, List.append_assoc]

/-- A part that makes no blocks. -/
theorem quiet_bind (here : Builds making first size passed text (later ++ rest) answer [])
    (there : Builds making (next answer) size (text.reverse ++ passed) later rest result bodies) :
    Builds making (first >>= next) size passed (text ++ later) rest result bodies :=
  bind here there

/-- A part that makes no blocks in front of one that consumes nothing. -/
theorem quiet_bind_look (here : Builds making first size passed text rest answer [])
    (there : Builds making (next answer) size (text.reverse ++ passed) [] rest result bodies) :
    Builds making (first >>= next) size passed text rest result bodies := by
  have both : Builds making (first >>= next) size passed (text ++ []) rest result bodies :=
    quiet_bind here there
  rwa [List.append_nil] at both

/-- A part at the end that consumes nothing and makes no blocks. -/
theorem bind_quiet (here : Builds making first size passed text rest answer bodies)
    (there : Builds making (next answer) (size + bodies.length) (text.reverse ++ passed) [] rest
      result []) :
    Builds making (first >>= next) size passed text rest result bodies := by
  have both : Builds making (first >>= next) size passed (text ++ []) rest result (bodies ++ []) :=
    bind here there
  rwa [List.append_nil, List.append_nil] at both

theorem parse_run {parser : Parser Cursor α}
    (ran : parser.run.run (between passed (text ++ rest)) =
      Pure.pure (.ok answer, between (text.reverse ++ passed) rest)) :
    Builds making (DirectiveParser.parse parser) size passed text rest answer [] := by
  intro draft here _
  refine ⟨[], { draft with source := between (text.reverse ++ passed) rest }, ?_, rfl,
    (List.append_nil _).symm, rfl, .nil _⟩
  have split : (DirectiveParser.parse parser).run.run draft =
      ((parser.run.run draft.source).1, { draft with source := (parser.run.run draft.source).2 }) :=
    rfl
  rw [split, here, ran]
  rfl

theorem parse {parser : Parser Cursor α} (reads : Parser.Reads parser text answer rest) :
    Builds making (DirectiveParser.parse parser) size passed text rest answer [] :=
  parse_run (reads passed)

theorem scan_run {run : StateM Cursor α}
    (ran : run.run (between passed (text ++ rest)) =
      Pure.pure (answer, between (text.reverse ++ passed) rest)) :
    Builds making (DirectiveParser.scan run) size passed text rest answer [] :=
  parse_run (Parser.run_scan ran)

theorem scan {run : StateM Cursor α} (reads : Text.Reads run text answer rest) :
    Builds making (DirectiveParser.scan run) size passed text rest answer [] :=
  scan_run (reads passed)

theorem remaining_bind {next : Nat → DirectiveParser Cursor β}
    (there : ∀ steps, text.length ≤ steps →
      Builds making (next steps) size passed text rest result bodies) :
    Builds making (DirectiveParser.scan Scan.remaining >>= next) size passed text rest result
      bodies := by
  intro draft here sized
  have enough : text.length ≤ draft.source.remaining := by
    rw [here]
    exact Text.Reads.length_le_remaining text rest
  exact there draft.source.remaining enough draft here sized

/-- The range that is found for a body. -/
theorem bodyRange {keyword : String} {index limit : Nat} {body : List Char}
    (isKeyword : form.keywords[index]? = some keyword) (isBody : IsBodyText body)
    (ends : EndsKeyword keyword rest)
    (fits : byteLength passed + byteLength (body ++ '\n' :: keyword.toList) ≤ limit) :
    Builds making (DirectiveParser.parse (bodyRange limit form.opening form.keywords)) size passed
      (body ++ '\n' :: keyword.toList) rest
      (⟨byteLength passed, byteLength body⟩, index) [] := by
  have inside : byteLength ('\n' :: body.reverse ++ passed) < limit := by
    have listed : keyword ∈ form.opening :: form.keywords :=
      List.mem_cons_of_mem _ (List.mem_of_getElem? isKeyword)
    obtain ⟨tail, text, -⟩ := exists_tail (BodyForm.isKeyword_of_mem listed)
    have mark := Char.utf8Size_pos '@'
    rw [text] at fits
    simp only [List.cons_append, byteLength, byteLength_append, byteLength_reverse] at fits ⊢
    omega
  have ran := BodyForm.bodyRange_print isKeyword isBody ends inside
  apply parse_run
  rwa [List.append_assoc]

variable {whole : List Char}

theorem isPrinted {keyword : String} {trees : List Tree}
    (text : passed.reverse ++ (printAll trees ++ '\n' :: keyword.toList) ++ rest = whole) :
    IsPrinted whole ⟨byteLength passed, byteLength (printAll trees)⟩ trees := by
  refine ⟨passed.reverse, '\n' :: (keyword.toList ++ rest), ?_, ?_, rfl⟩
  · rw [← text]
    simp
  · rw [byteLength_reverse]

/-- A body gets a scope and a block. -/
theorem newBody_bind {context : BlockContext} {name : String} {range : BodyRange}
    {role : BlockRole} {enclosingLoop : BlockRef → Option BlockRef} {trees : List Tree}
    {next : BlockRef → DirectiveParser Cursor α} (printed : IsPrinted whole range trees)
    (there : Builds (.holding whole context) (next ⟨size⟩) (size + 1) passed text rest answer
      []) :
    Builds (.holding whole context) (do
        let scope ← DirectiveParser.newScope context name
        next (← newBody context range role scope enclosingLoop)) size passed text rest answer
      [⟨enclosingLoop ⟨size⟩, name, trees⟩] := by
  rintro draft here rfl
  let heap := draft.heap.newScope name (some context.scope)
  let block : Block :=
    { source := context.source, start := range.start, length := range.length,
      finish := Source.pointer draft.source, scope := heap.1, role,
      enclosingLoop := enclosingLoop ⟨draft.blocks.size⟩ }
  obtain ⟨made, after, ran, place, blocks, sources, makes⟩ := there
    { draft with heap := heap.2, blocks := draft.blocks.push block } here (Array.size_push _)
  have holds : block.Holds whole context.source
      ⟨enclosingLoop ⟨draft.blocks.size⟩, name, trees⟩ := ⟨rfl, rfl, rfl, printed⟩
  refine ⟨block :: made, after, ran, place, ?_, sources, .cons ⟨holds, rfl⟩ rfl makes⟩
  rw [blocks, Array.toList_push, List.append_assoc]
  rfl

end Builds

end DirectiveParser

end Stencil
