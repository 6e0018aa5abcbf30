import Stencil.Proofs.ParseOnce
import Stencil.Proofs.Run.Behind
import Stencil.Proofs.Template

/-!
# Templates that begin inside their text

A template begins where its source stands.  Nothing in front of that place has any effect but that
the places of the text, those of its errors among them, lie further on.
-/

namespace Stencil

open Text

variable {η : Type}

theorem Correspond.map_eq {α β γ : Type} {relation : α → β → Prop} {left : Array α}
    {right : Array β} (correspond : Correspond relation left right) {part : α → γ} {part' : β → γ}
    (same : ∀ member other, relation member other → part' other = part member) :
    right.map part' = left.map part := by
  refine Array.ext_getElem? fun index => ?_
  have related := correspond index
  rw [Array.getElem?_map, Array.getElem?_map]
  generalize left[index]? = member at related
  generalize right[index]? = other at related
  cases related with
  | none => rfl
  | some isSame => exact congrArg some (same _ _ isSame)

/-- A block from a place of a source to its end lies behind the lead of the source. -/
theorem Block.behind_ofSource {lead : Lead} {source sought : AnySource}
    (stands : sought.cursor = source.cursor.behind lead.passed) (scope : ScopeRef)
    (role : BlockRole) : (Block.ofSource source lead.source scope role).Behind lead
      (.ofSource sought lead.source scope role) := by
  have offset : sought.cursor.offset = source.cursor.offset + byteLength lead.passed := by
    rw [stands, Cursor.offset_behind]
  have size : sought.cursor.size = source.cursor.size + byteLength lead.passed := by
    rw [Cursor.size, Cursor.size, offset, stands, Cursor.remaining_behind, Nat.add_right_comm]
  refine ⟨?_, rfl, rfl, .none⟩
  have shape (source : AnySource) : (Block.ofSource source lead.source scope role).outline =
      { source := lead.source, start := source.cursor.offset,
        length := source.cursor.size - source.cursor.offset, finish := source.cursor.size, scope,
        role } := by
    rw [← Scan.toEnd_answer]
    rfl
  have front : lead.front (Block.ofSource source lead.source scope role).source = lead.passed :=
    Lead.front_self
  have finish := Block.finish_ofSource source lead.source scope role
  rw [front, shape, shape, finish, offset, size, Nat.add_sub_add_right]
  rfl

namespace Session

/-- A text that is added lies behind its lead. -/
theorem behind_addText {session : Session η} {lead : Lead} {source sought : AnySource}
    (fresh : lead.source = ⟨session.sources.size⟩)
    (known : ∀ (id : BlockRef) block, session.blocks[id.index]? = some block →
      block.source.index < session.sources.size ∧ block.nodes? = none)
    (text : source.cursor.text = lead.rest)
    (stands : sought.cursor = source.cursor.behind lead.passed) (scope : ScopeRef)
    (role : BlockRole) :
    (session.addText source scope role).2.Behind lead (session.addText sought scope role).2 := by
  have index : lead.source.index = session.sources.size := congrArg SourceRef.index fresh
  refine ⟨rfl, rfl, rfl, rfl, ?_, ?_, ?_, fun id => ?_, ?_⟩
  · exact (Array.size_push _).trans (Array.size_push _).symm
  · exact Nat.lt_of_lt_of_eq (index ▸ Nat.lt_succ_self _) (Array.size_push _).symm
  · rw [fresh, text_addText, text]
  · rw [Session.source, Session.source, addText, addText, Array.getD_eq_getD_getElem?,
      Array.getD_eq_getD_getElem?, Array.getElem?_push, Array.getElem?_push]
    by_cases isLead : id = lead.source
    · rw [isLead, Lead.front_self, if_pos index, if_pos index]
      exact stands
    · have different : id.index ≠ session.sources.size := by
        rintro same
        exact isLead (by rw [fresh, ← same])
      rw [Lead.front_of_ne isLead, if_neg different, if_neg different, Cursor.behind_nil]
  · refine Correspond.push (fun place => ?_) (fresh ▸ Block.behind_ofSource stands scope role)
    cases isThere : session.blocks[place]? with
    | none => exact .none
    | some block =>
        obtain ⟨isKnown, unparsed⟩ := known ⟨place⟩ block isThere
        refine .some (.of_ne ?_ unparsed)
        rintro same
        rw [same, index] at isKnown
        exact Nat.lt_irrefl _ isKnown

/-- As many blocks were parsed. -/
theorem Behind.parsedBlocks {session whole : Session η} {lead : Lead}
    (behind : session.Behind lead whole) : whole.parsedBlocks = session.parsedBlocks := by
  rw [parsedBlocks_eq_sum, parsedBlocks_eq_sum, ← Array.toList_map, ← Array.toList_map,
    behind.blocks.map_eq fun _ _ same => same.timesParsed]

end Session

/-- What becomes of two templates that are rendered together and whose hosts change the store in the
same way. -/
inductive Template.EvolveTogether (first first' : Template η) :
    Template η → Template η → Prop where
  | refl : EvolveTogether first first' first first'
  | render {template template' : Template η}
      (earlier : EvolveTogether first first' template template') (fuel : Nat) :
      EvolveTogether first first' (template.render fuel).2 (template'.render fuel).2
  | change {template template' : Template η}
      (earlier : EvolveTogether first first' template template') (change : Store η → Store η) :
      EvolveTogether first first' (template.withStore (change template.session.store))
        (template'.withStore (change template'.session.store))

namespace Template

theorem EvolveTogether.left {first first' template template' : Template η}
    (together : first.EvolveTogether first' template template') :
    first.Evolves (fun _ _ => True) template := by
  induction together with
  | refl => exact .refl
  | render earlier fuel induction => exact .render induction fuel
  | change earlier change induction => exact .change induction _ trivial

/-- A template and that of the whole text, in which its own source stands behind a lead. -/
structure Behind (lead : Lead) (template whole : Template η) : Prop where
  environment : whole.environment = template.environment
  root : whole.root = template.root
  session : template.session.Behind lead whole.session
  valid : template.session.Valid template.environment.embeddings
  present : template.root.index < template.session.blocks.size
  source : (template.session.block template.root).source = lead.source

variable {lead : Lead} {template whole first first' : Template η}

/-- Rendering both goes on behind the lead, writes the same and ends alike. -/
theorem Behind.render (behind : template.Behind lead whole) (fuel : Nat) :
    (template.render fuel).2.Behind lead (whole.render fuel).2 ∧
      (whole.render fuel).1.writes = (template.render fuel).1.writes ∧
      Run.Alike (Session.StopsBehind template.environment.host lead
          (template.render fuel).2.session) (fun _ _ => True)
        (template.render fuel).1.outcome (whole.render fuel).1.outcome := by
  obtain ⟨environment, session, root⟩ := whole
  obtain rfl : environment = template.environment := behind.environment
  obtain rfl : root = template.root := behind.root
  let begun : Session η := { template.session with writes := #[] }
  let begun' : Session η := { session with writes := #[] }
  have quiet : template.session.Quiet begun := ⟨rfl, rfl, fun _ => rfl, fun _ => rfl⟩
  have begunBehind : begun.Behind lead begun' := by
    have here := behind.session
    exact ⟨here.depth, here.store, here.placeholders, rfl, here.size_sources, here.present,
      here.text, here.cursor, here.blocks⟩
  have ended := Run.Lockstep.block_behind template.environment lead fuel begun template.root
    begun begun' ⟨begunBehind, quiet.valid behind.valid behind.valid.placeholders, .refl begun⟩
    behind.present
  rcases ended with ⟨_, _, nothing⟩ | ⟨⟨after, valid, ext⟩, alike⟩
  · cases nothing
  have outline : ((template.render fuel).2.session.block template.root).outline =
      (template.session.block template.root).outline := ext.outline_block behind.present
  have source := (Block.eq_of_outline Block.source (fun _ => rfl) outline).trans behind.source
  exact ⟨⟨rfl, rfl, after, valid, ext.lt behind.present, source⟩, after.writes, alike⟩

/-- Giving both the same store keeps one behind the lead. -/
theorem Behind.withStore (behind : template.Behind lead whole) (store : Store η) :
    (template.withStore store).Behind lead (whole.withStore store) := by
  have here := behind.session
  have quiet : template.session.Quiet (template.withStore store).session :=
    ⟨rfl, rfl, fun _ => rfl, fun _ => rfl⟩
  exact ⟨behind.environment, behind.root, ⟨here.depth, rfl, here.placeholders, here.writes,
    here.size_sources, here.present, here.text, here.cursor, here.blocks⟩,
    quiet.valid behind.valid behind.valid.placeholders, behind.present, behind.source⟩

/-- What both templates become together stays behind the lead. -/
theorem Behind.together (behind : first.Behind lead first')
    (together : first.EvolveTogether first' template whole) : template.Behind lead whole := by
  induction together with
  | refl => exact behind
  | render earlier fuel induction => exact (induction.render fuel).1
  | change earlier change induction =>
      rw [induction.session.store]
      exact induction.withStore _

/-- Where the source stands lies behind the lead, too. -/
theorem Behind.pointer (behind : template.Behind lead whole) :
    whole.pointer = template.pointer + byteLength lead.passed := by
  have offset (template : Template η) : template.pointer = template.source.cursor.offset := rfl
  have source : (whole.session.block whole.root).source = lead.source := by
    rw [behind.root, (behind.session.block behind.present).source, behind.source]
  rw [offset, offset, Template.source, Template.source, source, behind.source,
    behind.session.cursor, Cursor.offset_behind, Lead.front_self]

/-- A new template stands behind its lead. -/
theorem behind_ofSource {source sought : AnySource} (options : Options) (host : Host η) (state : η)
    (fresh : lead.source = ⟨(seeded options state).sources.size⟩)
    (text : source.cursor.text = lead.rest)
    (stands : sought.cursor = source.cursor.behind lead.passed) :
    (ofSource source options host state).Behind lead (ofSource sought options host state) := by
  have isRoot : (ofSource source options host state).session.blocks[
      (ofSource source options host state).root.index]? = some (.ofSource source _ .global .root) :=
    Session.block_addText
  refine ⟨rfl, rfl, Session.behind_addText fresh
    (fun _ _ => seeded_blocks options state) text stands
    _ _, valid_ofSource source options host state, Session.lt_of_getElem? isRoot, ?_⟩
  have isBlock : (ofSource source options host state).session.block
      (ofSource source options host state).root = .ofSource source _ .global .root :=
    Session.block_eq_of_getElem? isRoot
  rw [isBlock, fresh]
  rfl

/-- A source that goes to a place of its text stands behind what lies in front of that place. -/
theorem seek_behind {front back : List Char} {source : AnySource}
    (text : source.cursor.text = front ++ back) :
    (Source.seek (byteLength front) source).1 = true ∧
      (Source.seek (byteLength front) source).2.cursor =
      (Cursor.ofList back).behind front.reverse := by
  have found : source.cursor.seek? (byteLength front) =
      some ((Cursor.ofList back).behind front.reverse) := by
    refine Cursor.seek?_eq_some_iff.mpr ⟨?_, ?_⟩
    · rw [Cursor.text_behind, List.reverse_reverse, Cursor.text_ofList, text]
    · rw [Cursor.offset_behind, byteLength_reverse]
      exact Nat.zero_add _
  have answer : (Source.seek (byteLength front) source).1 =
      (source.cursor.seek? (byteLength front)).isSome := Tracked.seek_eq _ source
  have moved : (Source.seek (byteLength front) source).2.cursor =
      (source.cursor.seek? (byteLength front)).getD source.cursor := Tracked.cursor_seek _ source
  rw [answer, moved, found]
  exact ⟨rfl, rfl⟩

/-- Take a text in two pieces, and a source of it that goes to the place between them.  The template
that is made of this source and that of the second piece alone, rendered together any number of
times by hosts that change the store in the same way, have parsed the same blocks as often and write
the same.  The first stands as much further on as the first piece is long.  Both end alike, except
that an error of parsing their own text names its place in the whole text. -/
theorem start_offset {front back : String} {source : AnySource}
    (text : source.cursor.text = front.toList ++ back.toList) (options : Options) (host : Host η)
    (state : η) {part whole : Template η}
    (together : (ofString back options host state).EvolveTogether
      (ofSource (Source.seek (byteLength front.toList) source).2 options host state) part whole)
    (fuel : Nat) :
    let lead : Lead :=
      { source := (part.session.block part.root).source
        passed := front.toList.reverse
        rest := back.toList }
    (Source.seek (byteLength front.toList) source).1 = true ∧
      part.session.Behind lead whole.session ∧
      whole.parsedBlocks = part.parsedBlocks ∧
      whole.pointer = part.pointer + byteLength front.toList ∧
      (whole.render fuel).1.writes = (part.render fuel).1.writes ∧
      Run.Alike (Session.StopsBehind host lead (part.render fuel).2.session) (fun _ _ => True)
        (part.render fuel).1.outcome (whole.render fuel).1.outcome := by
  intro lead
  obtain ⟨found, stands⟩ := seek_behind text
  let first : Lead :=
    { source := ⟨(seeded options state).sources.size⟩
      passed := front.toList.reverse
      rest := back.toList }
  have begun : (ofString back options host state).Behind first _ :=
    behind_ofSource options host state rfl (Cursor.text_ofList _) stands
  have behind := begun.together together
  have same : lead = first := congrArg (Lead.mk · front.toList.reverse back.toList) behind.source
  obtain ⟨-, writes, alike⟩ := behind.render fuel
  rw [together.left.environment] at alike
  rw [same]
  refine ⟨found, behind.session, behind.session.parsedBlocks, ?_, writes, alike⟩
  rw [behind.pointer, byteLength_reverse]

/-- A text with an error of parsing, behind the beginning of a directive. -/
def straying : AnySource := .counted { inner := .ofString "é\n@if(n = @var(n)\n@breakfor" }

/-- A host puts a number into the global scope. -/
def numbered (store : Store Unit) : Store Unit :=
  { store with heap := store.heap.put .global "n" (.int 3) }

/-- A template that is rendered with nothing in the global scope, and then finds a number there. -/
def strayingPart : Template Unit :=
  let template := ofString "n = @var(n)\n@breakfor" {} Host.none ()
  (template.render 9).2.withStore (numbered (template.render 9).2.session.store)

/-- The same of the longer text, from the place behind the beginning of a directive. -/
def strayingWhole : Template Unit :=
  let template := ofSource (Source.seek (byteLength "é\n@if(".toList) straying).2 {} Host.none ()
  (template.render 9).2.withStore (numbered (template.render 9).2.session.store)

theorem start_offset_straying :
    let lead : Lead :=
      { source := (strayingPart.session.block strayingPart.root).source
        passed := "é\n@if(".toList.reverse
        rest := "n = @var(n)\n@breakfor".toList }
    straying.cursor.text = "é\n@if(".toList ++ "n = @var(n)\n@breakfor".toList ∧
      (ofString "n = @var(n)\n@breakfor" {} Host.none ()).EvolveTogether
        (ofSource (Source.seek (byteLength "é\n@if(".toList) straying).2 {} Host.none ())
        strayingPart strayingWhole ∧
      strayingPart.session.Behind lead strayingWhole.session ∧
      strayingWhole.parsedBlocks = strayingPart.parsedBlocks ∧
      strayingWhole.pointer = strayingPart.pointer + byteLength "é\n@if(".toList ∧
      (strayingWhole.render 9).1.writes = (strayingPart.render 9).1.writes ∧
      Run.Alike (Session.StopsBehind Host.none lead (strayingPart.render 9).2.session)
        (fun _ _ => True) (strayingPart.render 9).1.outcome (strayingWhole.render 9).1.outcome ∧
      (strayingPart.render 9).1.writes = #["n = ", "3", "\n"] ∧
      (strayingPart.render 9).1.outcome =
        .error (.failed (.parse .breakOutsideLoop ⟨2, 10, 21⟩)) ∧
      (strayingWhole.render 9).1.outcome =
        .error (.failed (.parse .breakOutsideLoop ⟨3, 10, 28⟩)) := by
  have text : straying.cursor.text = "é\n@if(".toList ++ "n = @var(n)\n@breakfor".toList := by
    decide +kernel
  have together : (ofString "n = @var(n)\n@breakfor" {} Host.none ()).EvolveTogether
      (ofSource (Source.seek (byteLength "é\n@if(".toList) straying).2 {} Host.none ())
      strayingPart strayingWhole := .change (.render .refl 9) numbered
  obtain ⟨-, behind, parsed, pointer, writes, alike⟩ :=
    start_offset text {} Host.none () together 9
  exact ⟨text, together, behind, parsed, pointer, writes, alike,
    by decide +kernel, by decide +kernel,
    by decide +kernel⟩

end Template

end Stencil
