import Stencil.Proofs.Session.Begin
import Stencil.Proofs.StartOffset

/-!
# Errors of parsing name real places

Parsing looks at the line and the column of a place for nothing but its errors.  So parsing a source
that knows only offsets gives the same but for the positions of errors, and the positions that
parsing gives are those of offsets at which a source can stand.
-/

namespace Stencil

open Text

variable {η : Type}

namespace Text

/-- A position is that of a place of a text. -/
def Position.IsIn (position : Position) (text : List Char) : Prop :=
  ∃ passed rest, text = passed ++ rest ∧ position = positionAt text (byteLength passed)

theorem exists_before (text : List Char) (offset : Nat) :
    ∃ rest, text = before text offset ++ rest := by
  induction text generalizing offset with
  | nil => exact ⟨[], rfl⟩
  | cons character characters induction =>
      rw [before]
      split
      · obtain ⟨rest, split⟩ := induction (offset - character.utf8Size)
        exact ⟨rest, congrArg (character :: ·) split⟩
      · exact ⟨_, rfl⟩

/-- The place of a text that ends at or before an offset. -/
def placeIn (text : List Char) (position : Position) : Position :=
  positionAt text (byteLength (before text position.offset))

theorem isIn_placeIn (text : List Char) (position : Position) :
    (placeIn text position).IsIn text := by
  obtain ⟨rest, split⟩ := exists_before text position.offset
  exact ⟨before text position.offset, rest, split, rfl⟩

theorem Position.IsIn.positionAt {position : Position} {text : List Char}
    (isIn : position.IsIn text) : positionAt text position.offset = position := by
  obtain ⟨passed, rest, -, rfl⟩ := isIn
  rfl

/-- The line is counted by the newlines in front of a place, the column by the characters after the
last of them. -/
theorem Position.IsIn.counts {position : Position} {text : List Char} (isIn : position.IsIn text) :
    ∃ passed rest, text = passed ++ rest ∧ position.offset = byteLength passed ∧
      position.line = 1 + passed.count '\n' ∧
      ∃ lines line, passed = lines ++ line ∧ (lines = [] ∨ lines.getLast? = some '\n') ∧
        '\n' ∉ line ∧ position.column = 1 + line.length := by
  obtain ⟨passed, rest, rfl, rfl⟩ := isIn
  obtain ⟨lines, line, rfl, ends, within⟩ := exists_lastLine passed
  rw [positionAt_append rest ends within]
  exact ⟨_, rest, rfl, rfl, Nat.add_comm _ _, lines, line, rfl, ends, within, Nat.add_comm _ _⟩

/-- A source that knows no lines and columns. -/
structure Unlined where
  cursor : Cursor

instance : Source Unlined where
  pointer source := source.cursor.offset
  position source := ⟨0, 0, source.cursor.offset⟩
  hasEnded source := source.cursor.rest.isEmpty
  remaining source := source.cursor.remaining
  current source := (source.cursor.rest.head?, source)
  step source := (!source.cursor.rest.isEmpty, ⟨source.cursor.advance⟩)
  seek target source :=
    ((source.cursor.seek? target).isSome, ⟨(source.cursor.seek? target).getD source.cursor⟩)

/-- A source that knows no lines and columns is read in place of its own text. -/
def Placement.unlined (text : List Char) : Placement Unlined text where
  cursor := Unlined.cursor
  shift := 0
  position := placeIn text
  pointer_eq _ := rfl
  position_eq source isText := by
    have passed : before text source.cursor.offset = source.cursor.passed.reverse := by
      rw [← isText, source.cursor.offset_eq, ← byteLength_reverse]
      exact before_append _ _
    change positionAt text (byteLength (before text source.cursor.offset)) = _
    rw [passed, byteLength_reverse, ← source.cursor.offset_eq, ← isText, ← Cursor.position_eq]
  hasEnded_eq _ := rfl
  remaining_eq _ := rfl
  current_eq _ := rfl
  cursor_current _ := rfl
  step_eq _ := rfl
  cursor_step _ := rfl
  seek_eq _ _ := rfl
  cursor_seek _ _ := rfl

end Text

/-- A block whose source knows no lines and columns is parsed like the block itself. -/
def Draft.Pairing.unlined (text : List Char) (source : SourceRef) :
    Draft.Pairing Unlined text source :=
  .unshifted (.unlined text) rfl source

/-- Nodes with an error at the end, if they have one at all, that names a place of a text. -/
def Node.PlaceErrors (text : List Char) (nodes : List Node) : Prop :=
  ∃ unplaced, Node.Relocated (placeIn text) unplaced nodes

theorem Node.PlaceErrors.isIn {text : List Char} {nodes : List Node} {problem : ParseProblem}
    {position : Position} (place : Node.PlaceErrors text nodes)
    (malformed : .malformed (.parse problem position) ∈ nodes) : position.IsIn text := by
  obtain ⟨unplaced, relocated⟩ := place
  cases relocated with
  | same nodes directs => exact absurd rfl (directs _ malformed _)
  | malformed parsed directs error expected =>
      rcases List.mem_append.mp malformed with earlier | last
      · exact absurd rfl (directs _ earlier _)
      · have same := Node.malformed.inj (List.mem_singleton.mp last)
        cases error with
        | parse problem unplaced =>
            obtain ⟨-, rfl⟩ := TemplateError.parse.inj same
            exact isIn_placeIn text unplaced
        | type problem => cases same
        | reference problem => cases same
        | arity function expected found => cases same
        | listInUse => cases same

/-- An error that names a place of a text stays where it is if it is placed in this text. -/
theorem Node.PlaceErrors.relocated {text : List Char} {nodes : List Node}
    {position : Position → Position} (place : Node.PlaceErrors text nodes)
    (fixes : ∀ place : Position, place.IsIn text → position place = place) :
    Node.Relocated position nodes nodes := by
  have ⟨unplaced, relocated⟩ := place
  cases relocated with
  | same nodes directs => exact .same nodes directs
  | malformed parsed directs error expected =>
      have stays : (error.relocate (placeIn text)).relocate position =
          error.relocate (placeIn text) := by
        cases error with
        | parse problem unplaced =>
            exact congrArg (TemplateError.parse problem) (fixes _ (isIn_placeIn text unplaced))
        | type problem => rfl
        | reference problem => rfl
        | arity function expected found => rfl
        | listInUse => rfl
      have expected : (error.relocate (placeIn text)).OtherThanSeek := by
        intro offset place same
        cases error with
        | parse problem unplaced =>
            obtain ⟨rfl, -⟩ := TemplateError.parse.inj same
            exact expected offset unplaced rfl
        | type problem => cases same
        | reference problem => cases same
        | arity function expected found => cases same
        | listInUse => cases same
      have again : Node.Relocated position (parsed ++ [.malformed _]) _ :=
        .malformed parsed directs _ expected
      rwa [stays] at again

namespace Session

variable {session before after : Session η} {policy : Policy η} {embeddings : Embeddings}
  {id : BlockRef}

/-- Every error that a block was parsed up to names a place of its text. -/
def PlacesErrors (session : Session η) : Prop :=
  ∀ (id : BlockRef) (block : Block) (nodes : List Node),
    session.blocks[id.index]? = some block → block.nodes? = some nodes →
      Node.PlaceErrors (session.text block.source) nodes

theorem placeErrors_parseBlock (session : Session η) (embeddings : Embeddings) (id : BlockRef) :
    Node.PlaceErrors (session.text (session.block id).source)
      (session.parseBlock embeddings id).1 := by
  obtain ⟨nodes, after, source, ran, cursor, eq⟩ := session.parseBlock_eq embeddings id
  let unlined : Draft Unlined :=
    { source := ⟨(session.draft id).source⟩
      blocks := session.blocks
      sources := session.sources
      heap := session.store.heap }
  have paired : unlined.Paired
      (.unlined (session.draft id).source.text (session.block id).source) (session.draft id) :=
    ⟨⟨rfl, .refl _⟩, rfl, rfl, Nat.zero_le _, rfl⟩
  obtain ⟨relocated, -⟩ := Directive.nodes_mirrors (session.blockContext embeddings id) rfl paired
  have ranHere : (Directive.nodes ((session.blockContext embeddings id).shifted
      (Draft.Pairing.unlined (session.draft id).source.text
        (session.block id).source).placement.shift)).run (session.draft id) =
          pure (nodes, after) := ran
  rw [ranHere] at relocated
  rw [eq]
  exact ⟨_, relocated⟩

theorem PlacesErrors.of_quiet (places : before.PlacesErrors) (quiet : before.Quiet after) :
    after.PlacesErrors := by
  intro id block nodes isThere parsed
  obtain ⟨earlier, isEarlier, unmarked⟩ := quiet.symm.exists_block isThere
  have source := Block.eq_of_unmarked Block.source (fun _ => rfl) unmarked
  have same := Block.eq_of_unmarked Block.nodes? (fun _ => rfl) unmarked
  rw [← source, quiet.text]
  exact places id earlier nodes isEarlier (same.trans parsed)

theorem PlacesErrors.parse (places : before.PlacesErrors) (valid : before.Valid embeddings)
    {nodes : List Node} (parsing : Parsing embeddings before id nodes after)
    (present : id.index < before.blocks.size)
    (place : Node.PlaceErrors (before.text (before.block id).source) nodes) :
    after.PlacesErrors := by
  have sameText {other : BlockRef} {block : Block}
      (isThere : before.blocks[other.index]? = some block) :
      after.text block.source = before.text block.source :=
    (parsing.toExtends.source _ (valid.source_lt isThere)).2
  intro other block listed isThere parsed
  rcases parsing.cases isThere with ⟨rfl, rfl⟩ | earlier | ⟨unparsed, child⟩
  · obtain rfl : nodes = listed := Option.some.inj parsed
    have text := sameText (getElem?_of_lt present)
    exact text ▸ place
  · rw [sameText earlier]
    exact places other block listed earlier parsed
  · have none : block.nodes? = none := congrArg Block.nodes? unparsed.symm
    rw [none] at parsed
    cases parsed

theorem Step.placesErrors (step : before.Step policy embeddings after)
    (valid : before.Valid embeddings) (places : before.PlacesErrors) : after.PlacesErrors := by
  rcases step.cases_parse with quiet | ⟨id, -, present, unparsed, atStart, rfl⟩
  · exact places.of_quiet quiet
  · have sourcePresent := valid.source_lt (getElem?_of_lt present)
    exact places.parse valid (parsing_parseBlock present sourcePresent unparsed atStart) present
      (before.placeErrors_parseBlock embeddings id)

theorem Chain.placesErrors (chain : before.Chain policy embeddings after)
    (valid : before.Valid embeddings) (places : before.PlacesErrors) : after.PlacesErrors := by
  induction chain with
  | refl => exact places
  | tail earlier step induction => exact step.placesErrors (Chain.valid earlier valid) induction

/-- A source of a session stands behind nothing. -/
def bareLead (session : Session η) (source : SourceRef) : Lead where
  source := source
  passed := []
  rest := session.text source

theorem front_bareLead (session : Session η) (source id : SourceRef) :
    (session.bareLead source).front id = [] := by
  unfold Lead.front
  split
  · rfl
  · rfl

/-- A session whose errors name places of its texts is that of the whole text if its source stands
behind nothing. -/
theorem PlacesErrors.behind_itself (places : session.PlacesErrors) {source : SourceRef}
    (present : source.index < session.sources.size) :
    session.Behind (session.bareLead source) session := by
  refine ⟨rfl, rfl, rfl, rfl, rfl, present, rfl, fun id => ?_, fun index => ?_⟩
  · rw [front_bareLead, Cursor.behind_nil]
  · cases isThere : session.blocks[index]? with
    | none => exact .none
    | some block =>
        refine .some ⟨?_, rfl, rfl, ?_⟩
        · rw [front_bareLead]
          rfl
        · cases parsed : block.nodes? with
          | none => exact .none
          | some nodes =>
              refine .some ((places ⟨index⟩ block nodes isThere parsed).relocated
                fun place isIn => ?_)
              by_cases own : block.source = source
              · have position : (session.bareLead source).position block.source =
                    (session.bareLead source).placed := if_pos own
                rw [position]
                have stays := isIn.positionAt
                rw [own] at stays
                exact stays
              · have position : (session.bareLead source).position block.source =
                    fun place => place :=
                  if_neg own
                rw [position]

/-- Whatever fails was parsed up to an error, or fails for another reason than parsing. -/
theorem StopsBehind.exists_malformed {host : Host η} {lead : Lead} {error : TemplateError}
    {other : Stop} (stops : session.StopsBehind host lead (.failed error) other) :
    (∃ source, session.Malformed source error) ∨ error.OtherThanParse ∨ host.Raises error := by
  cases stops with
  | own malformed => exact .inl ⟨_, malformed⟩
  | elsewhere different malformed => exact .inl ⟨_, malformed⟩
  | plain isPlain =>
      cases isPlain with
      | failed isPlain => exact .inr isPlain

/-- An error that a block was parsed up to names a place of the source of the block. -/
theorem PlacesErrors.isIn (places : session.PlacesErrors) (valid : session.Valid embeddings)
    {source : SourceRef} {problem : ParseProblem} {position : Position}
    (malformed : session.Malformed source (.parse problem position)) :
    source.index < session.sources.size ∧ position.IsIn (session.text source) := by
  obtain ⟨id, nodes, rfl, parsed, member⟩ := malformed
  have present : id.index < session.blocks.size := by
    refine Nat.lt_of_not_le fun absent => ?_
    rw [block_of_le absent] at parsed
    cases parsed
  have isThere := getElem?_of_lt present
  exact ⟨valid.source_lt isThere, (places id _ nodes isThere parsed).isIn member⟩

end Session

namespace Template

variable {source : AnySource} {options : Options} {host : Host η} {state : η}
  {template : Template η}

theorem placesErrors_ofSource (source : AnySource) (options : Options) (host : Host η) (state : η) :
    (ofSource source options host state).session.PlacesErrors := by
  intro id block nodes isThere parsed
  have unparsed : block.nodes? = none := by
    rcases eq_or_of_getElem?_push isThere with earlier | ⟨-, rfl⟩
    · exact (seeded_blocks options state earlier).2
    · rfl
  rw [unparsed] at parsed
  cases parsed

/-- An embedded text with an error of parsing on its second line, as an example. -/
def cellWithBreak : Embeddings := fun path =>
  if path = "cell" then some "ü\nü@breakfor" else none

/-- A template that embeds this text. -/
def embeddingBreak : Template Unit :=
  ofSource (.plain (.ofString "é@embed cell")) { embeddings := cellWithBreak } Host.none ()

end Template

end Stencil
