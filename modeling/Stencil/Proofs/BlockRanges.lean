import Stencil.Proofs.Run.Range
import Stencil.Proofs.Session.Scopes
import Stencil.Proofs.Template

/-!
# Ranges of blocks

The ends of every block are places of its text, the body of a directive lies with its closing
keyword in the block that the directive was read from, and every reference leads somewhere.  So
seeking never fails.
-/

namespace Stencil

open Text Directive

variable {η : Type}

namespace Session

/-- The body of a directive lies in the range of the block that the directive was read from: it
begins there, and the keyword that closes it ends there. -/
structure Encloses (session : Session η) (parent id : BlockRef) : Prop where
  source : (session.block id).source = (session.block parent).source
  start : (session.block parent).start ≤ (session.block id).start
  closing : ∃ (before : List Char) (keyword : String) (after : List Char),
    session.text (session.block parent).source = before ++ (keyword.toList ++ after) ∧
      keyword ∈ (session.block id).role.closers ∧
      (session.block id).limit ≤ byteLength before ∧
      byteLength (before ++ keyword.toList) ≤ (session.block parent).limit ∧
      ((session.block id).finish = byteLength (before ++ keyword.toList) ∨
        (session.block id).finish = byteLength (before ++ keyword.toList) + 1)

/-- Every reference to a block, a source or a scope leads to one that is there. -/
structure RefersWithin (session : Session η) : Prop where
  sources : ∀ (id : BlockRef) (block : Block), session.blocks[id.index]? = some block →
    block.source.index < session.sources.size
  scopes : ∀ (id : BlockRef) (block : Block), session.blocks[id.index]? = some block →
    block.scope.index < session.store.heap.scopes.size
  loops : ∀ (id : BlockRef) (block : Block), session.blocks[id.index]? = some block →
    ∀ target, block.enclosingLoop = some target → target.index < session.blocks.size
  nodes : ∀ (id : BlockRef) (block : Block) (nodes : List Node),
    session.blocks[id.index]? = some block → block.nodes? = some nodes →
    ∀ node ∈ nodes, ∀ target ∈ node.blocks, target.index < session.blocks.size
  placeholders : ∀ key placeholder, session.placeholders.get? key = some placeholder →
    placeholder.body.index < session.blocks.size
  heap : session.store.heap.Closed

variable {session : Session η} {embeddings : Embeddings} {parent id : BlockRef} {role : BlockRole}
  {block : Block}

/-- A place inside a part of a text splits the part. -/
theorem exists_split_of_place {front middle after : List Char} {cursor : Cursor}
    (text : cursor.text = front ++ (middle ++ after)) (behind : byteLength front < cursor.offset)
    (ahead : cursor.offset < byteLength (front ++ middle)) :
    ∃ passed rest, middle = passed ++ rest ∧ passed ≠ [] ∧ rest ≠ [] ∧
      cursor.rest = rest ++ after := by
  have offset : cursor.offset = byteLength cursor.passed.reverse := by
    rw [byteLength_reverse, cursor.offset_eq]
  rw [offset] at behind ahead
  rcases List.append_eq_append_iff.mp text with ⟨missing, isFront, -⟩ | ⟨passed, isPassed, isRest⟩
  · rw [isFront, byteLength_append] at behind
    omega
  · rw [isPassed, byteLength_append] at behind ahead
    rw [byteLength_append] at ahead
    rcases List.append_eq_append_iff.mp isRest.symm with
      ⟨rest, isMiddle, isAfter⟩ | ⟨beyond, isMiddle, -⟩
    · refine ⟨passed, rest, isMiddle, ?_, ?_, isAfter⟩
      · rintro rfl
        simp [byteLength] at behind
      · rintro rfl
        rw [isMiddle, List.append_nil] at ahead
        omega
    · rw [isMiddle, byteLength_append] at ahead
      omega

/-- The keyword that closes a body cannot reach over the end of the range that it begins in, for
nothing inside of it may follow a range. -/
theorem closed_le_limit {cut : BodyCut} {context : BlockContext} {anchor : Cursor} {finish : Nat}
    (fits : block.Fits cut.text) (limit : context.limit = block.limit)
    (closes : cut.Closes context anchor role finish) : cut.closed ≤ block.limit := by
  refine Nat.le_of_not_lt fun exceeds => ?_
  obtain ⟨cursor, isText, isOffset⟩ := fits.limit
  have split : cursor.text =
      (cut.before ++ cut.body ++ cut.gap) ++ (cut.keyword.toList ++ cut.after) := by
    rw [isText, BodyCut.text]
    simp
  have behind : byteLength (cut.before ++ cut.body ++ cut.gap) < cursor.offset := by
    rw [isOffset, ← limit]
    exact closes.closing
  have ahead : cursor.offset <
      byteLength (cut.before ++ cut.body ++ cut.gap ++ cut.keyword.toList) := by
    rw [isOffset]
    exact exceeds
  obtain ⟨passed, rest, isKeyword, passedSome, restSome, isRest⟩ :=
    exists_split_of_place split behind ahead
  obtain ⟨characters, begins, plain⟩ := BodyCut.exists_of_mem_closers closes.keyword
  obtain ⟨first, passed, rfl⟩ := List.exists_cons_of_ne_nil passedSome
  obtain ⟨next, rest, rfl⟩ := List.exists_cons_of_ne_nil restSome
  rw [begins] at isKeyword
  have member : next ∈ characters := by
    rw [(List.cons.inj isKeyword).2]
    simp
  have neither := List.all_eq_true.mp plain next member
  have follows := fits.next cursor isText isOffset next (by simp [isRest])
  rcases follows with rfl | breaks
  · simp at neither
  · simp [breaks] at neither

/-- A block that was made while another one was parsed covers an embedded text, or its body lies in
that block. -/
theorem Valid.encloses (valid : session.Valid embeddings)
    (child : session.Child embeddings parent role id) :
    role = .embedded ∨ session.Encloses parent id := by
  have parentPresent := Nat.lt_trans child.lt child.lt_size
  have parentFits := valid.fits (getElem?_of_lt parentPresent)
  cases child with
  | embedded => exact .inl rfl
  | body _ _ block cut finish scope anchor later present sourcePresent anchorText anchorPlace closes
      outline =>
      have isBlock := block_eq_of_getElem? present
      have text : cut.text = session.text (session.block parent).source :=
        closes.text.trans anchorText
      have isSource : block.outline.source = _ := congrArg Block.source outline
      have isStart : block.outline.start = _ := congrArg Block.start outline
      have isLimit : block.outline.limit = _ := congrArg Block.limit outline
      have isFinish : block.outline.finish = _ := congrArg Block.finish outline
      have isRole : block.outline.role = _ := congrArg Block.role outline
      have closed := closed_le_limit (text ▸ parentFits) rfl closes
      refine .inr ⟨?_, ?_, cut.before ++ cut.body ++ cut.gap, cut.keyword, cut.after, ?_, ?_, ?_,
        closed, ?_⟩
      · rw [isBlock]
        exact isSource
      · rw [isBlock, ← anchorPlace]
        exact Nat.le_trans closes.start (Nat.le_of_eq isStart.symm)
      · rw [← text, BodyCut.text]
        simp
      · rw [isBlock]
        exact isRole ▸ closes.keyword
      · rw [isBlock]
        have order := cut.closing_eq
        have ends := cut.limit_eq
        change block.limit ≤ cut.closing
        change block.limit = _ at isLimit
        rw [isLimit]
        change cut.start + byteLength cut.body ≤ cut.closing
        omega
      · rw [isBlock]
        change block.finish = _ at isFinish
        rw [isFinish]
        rcases closes.finish with same | ⟨-, -, same⟩
        · exact .inl same
        · exact .inr same

/-- A step that adds a block is the parsing of the block that encloses it. -/
theorem Step.encloses {after : Session η} (valid : session.Valid embeddings)
    (validAfter : after.Valid embeddings) (step : session.Step Policy.inRange embeddings after)
    (isNew : session.blocks.size ≤ id.index) (isThere : after.blocks[id.index]? = some block) :
    ∃ parent : BlockRef, (session.block parent).nodes? = none ∧
      after = (session.parseBlock embeddings parent).2 ∧
      (block.role = .embedded ∨ after.Encloses parent id) := by
  have lt := lt_of_getElem? isThere
  cases step with
  | mark target left may =>
      have size : (session.modifyBlock target ({ · with wasLeft := left })).blocks.size =
          session.blocks.size := Array.size_modify ..
      omega
  | parse parent may present unparsed atStart =>
      have parsing : Parsing embeddings session parent _ _ :=
        parsing_parseBlock present (valid.source_lt (getElem?_of_lt present)) unparsed atStart
      exact ⟨parent, unparsed, rfl, validAfter.encloses (parsing.added id block isNew isThere).2⟩
  | begin => exact absurd isNew (Nat.not_le.mpr lt)
  | write text => exact absurd isNew (Nat.not_le.mpr lt)
  | depth depth => exact absurd isNew (Nat.not_le.mpr lt)
  | store store becomes => exact absurd isNew (Nat.not_le.mpr lt)
  | seek source offset found => exact absurd isNew (Nat.not_le.mpr lt)
  | define key placeholder may has => exact absurd isNew (Nat.not_le.mpr lt)

theorem refersWithin (sound : Policy.inRange.Sound embeddings session) : session.RefersWithin where
  sources _ _ present := sound.valid.source_lt present
  scopes id block present := sound.scopes id.index block present
  loops _ _ present _ encloses :=
    Nat.lt_of_le_of_lt (sound.valid.enclosingLoop_le present encloses) (lt_of_getElem? present)
  nodes _ _ _ present parsed _ member := sound.valid.node_blocks present parsed member
  placeholders key placeholder found := by
    obtain ⟨block, isThere, -⟩ := sound.valid.placeholders key placeholder found
    exact lt_of_getElem? isThere
  heap := sound.store

end Session

namespace Template

variable {template : Template η} {source : AnySource} {options : Options} {host : Host η}
  {state : η}

/-- Whatever renders do to a new template, at every moment of a further render the ends of every
block are places of its text, in order, and every reference leads somewhere.  Each block covers a
text of its own or is the body of a directive that lies, with its closing keyword, in the block it
was read from: that is so of the bodies that the nodes of a block run, and of every block that
parsing a block adds, and nothing else adds any.  So no block fails because its source cannot seek,
every block that succeeds leaves its source at its finish, and a render that succeeds leaves the
source of the template at its end. -/
theorem ranges_valid (keeps : host.KeepsRange)
    (evolves : (ofSource source options host state).Evolves Policy.inRange.Becomes template) :
    (∀ session, template.session.Chain Policy.inRange options.embeddings session →
      (∀ (id : BlockRef) (block : Block), session.blocks[id.index]? = some block →
        (IsPlace (session.text block.source) block.start ∧
          IsPlace (session.text block.source) (block.start + block.length) ∧
          IsPlace (session.text block.source) block.finish ∧
          block.start ≤ block.start + block.length ∧
          block.start + block.length ≤ block.finish ∧
          block.finish ≤ byteLength (session.text block.source)) ∧
        (session.Whole block ∨ ∃ parent : BlockRef, parent.index < id.index ∧
          (session.block parent).nodes?.isSome = true ∧
          (block.role = .embedded ∨ session.Encloses parent id))) ∧
      (∀ (parent : BlockRef) (nodes : List Node), (session.block parent).nodes? = some nodes →
        ∀ node ∈ nodes, ∀ (role : BlockRole) (id : BlockRef), node.Refers role id →
          role = .embedded ∨ session.Encloses parent id) ∧
      (∀ after, session.Step Policy.inRange options.embeddings after →
        ∀ (id : BlockRef) (block : Block), session.blocks.size ≤ id.index →
          after.blocks[id.index]? = some block →
          ∃ parent : BlockRef, (session.block parent).nodes? = none ∧
            after = (session.parseBlock options.embeddings parent).2 ∧
            (block.role = .embedded ∨ after.Encloses parent id)) ∧
      session.RefersWithin ∧
      ∀ (fuel : Nat) (id : BlockRef) (outcome : Except Stop Unit) (after : Session η),
        id.index < session.blocks.size →
        (Run.block template.environment fuel id).run session = (outcome, after) →
        (∀ offset position, outcome ≠ .error (.failed (.parse (.cannotSeek offset) position))) ∧
          (outcome = .ok () → after.AtFinish id)) ∧
    ∀ fuel,
      template.session.Chain Policy.inRange options.embeddings (template.render fuel).2.session ∧
      (∀ offset position,
        (template.render fuel).1.outcome ≠
          .error (.failed (.parse (.cannotSeek offset) position))) ∧
      ((template.render fuel).1.outcome = .ok () →
        (template.render fuel).2.pointer = byteLength source.cursor.text) := by
  have lawful : (Policy.inRange : Policy η).Lawful
      (⟨host, options.embeddings⟩ : Environment η).host := Policy.lawful_inRange keeps
  have holds := Heap.closed_ofGlobal options.globalName
  obtain ⟨environment, sound, present⟩ := evolves.sound lawful Policy.permissive_inRange holds
    Nat.one_pos
  have runs (fuel : Nat) : Policy.inRange.Runs options.embeddings
      (Run.block template.environment fuel) := by
    rw [environment]
    exact lawful.runs Policy.permissive_inRange fuel
  refine ⟨fun session chain => ?_, fun fuel => ?_⟩
  · have soundHere := chain.sound lawful sound
    refine ⟨fun id block isThere => ⟨?_, ?_⟩, ?_, ?_, Session.refersWithin soundHere, ?_⟩
    · have fits := soundHere.valid.fits isThere
      exact ⟨fits.start, fits.limit, fits.finish, Nat.le_add_right _ _, fits.limit_le_finish,
        fits.finish.le⟩
    · rcases soundHere.valid.origin id block isThere with whole | ⟨parent, parsed, child⟩
      · exact .inl whole
      · exact .inr ⟨parent, child.lt, parsed, soundHere.valid.encloses child⟩
    · intro parent nodes parsed node member role id refers
      exact soundHere.valid.encloses (soundHere.valid.child_of_refers parsed member refers)
    · intro after step id block isNew isThere
      exact step.encloses soundHere.valid (step.sound lawful soundHere).valid isNew isThere
    · intro fuel id outcome after isThere ran
      obtain ⟨-, finishes, raised⟩ := runs fuel session id isThere soundHere
      have isOutcome : ((Run.block template.environment fuel id).run.run session).1 = outcome :=
        congrArg Prod.fst ran
      have isAfter : ((Run.block template.environment fuel id).run.run session).2 = after :=
        congrArg Prod.snd ran
      rw [isAfter] at finishes
      rw [isOutcome] at finishes raised
      exact ⟨fun offset position seeks => raised _ seeks offset position rfl, finishes ()⟩
  · have begun : template.session.Step Policy.inRange options.embeddings _ := .begin
    obtain ⟨ran, finishes, raised⟩ := runs fuel { template.session with writes := #[] }
      template.root present (begun.sound lawful sound)
    have chain := (Session.Chain.single begun).trans ran
    refine ⟨chain, fun offset position seeks => raised _ seeks offset position rfl,
      fun succeeds => ?_⟩
    obtain ⟨id, outline⟩ := evolves.root_outline lawful Policy.permissive_inRange holds
      Nat.one_pos
    have later := (chain.toExtends sound.valid).outline_block present
    have finish := Block.eq_of_outline Block.finish (fun _ => rfl) later
    have isFinish : (template.session.block template.root).outline.finish = _ :=
      congrArg Block.finish outline
    rw [Block.finish_ofSource, Cursor.size_eq] at isFinish
    exact (finishes () succeeds).trans (finish.trans isFinish)

/-- Whether nodes are a text and then the branch of one condition, with its body. -/
def isTextThenBranch (body : BlockRef) : List Node → Bool
  | [.text _, .branches [(_, branch)] none] => branch = body
  | _ => false

theorem refers_of_isTextThenBranch {body : BlockRef} {nodes : List Node}
    (isBranch : isTextThenBranch body nodes = true) :
    ∃ node ∈ nodes, node.Refers .branch body := by
  unfold isTextThenBranch at isBranch
  split at isBranch
  · rename_i content condition branch
    obtain rfl := of_decide_eq_true isBranch
    exact ⟨.branches [(condition, branch)] none, by simp, .branch _ _ (condition, branch) (by simp)⟩
  · cases isBranch

/-- A template with a branch and letters of two bytes, as an example. -/
def umlauts : Template Unit := ofString "ä@if(true)ä @endif" {} Host.none ()

theorem succeeds_of_isOk {outcome : Except Stop Unit} (isOk : outcome.isOk = true) :
    outcome = .ok () := by
  cases outcome with
  | ok answer => rfl
  | error stop => cases isOk

theorem ranges_valid_umlauts :
    ((umlauts.render 3).2.render 3).1.outcome = .ok () ∧
      ((umlauts.render 3).2.render 3).2.pointer = 20 ∧
      (umlauts.render 3).2.session.Encloses umlauts.root ⟨10⟩ := by
  have evolves : umlauts.Evolves Policy.inRange.Becomes _ := .render .refl 3
  have succeeds : ((umlauts.render 3).2.render 3).1.outcome = .ok () :=
    succeeds_of_isOk (by decide +kernel)
  have length : byteLength "ä@if(true)ä @endif".toList = 20 := by decide +kernel
  have second : ((umlauts.render 3).2.session.block umlauts.root).nodes?.any
      (isTextThenBranch ⟨10⟩) = true := by decide +kernel
  obtain ⟨nodes, parsed, isBranch⟩ := (Option.any_eq_true _ _).mp second
  obtain ⟨node, member, refers⟩ := refers_of_isTextThenBranch isBranch
  obtain ⟨sessions, renders⟩ := ranges_valid Host.keepsRange_none evolves
  obtain ⟨-, inside, -⟩ := sessions _ .refl
  obtain ⟨-, -, pointer⟩ := renders 3
  refine ⟨succeeds, (pointer succeeds).trans length, ?_⟩
  rcases inside _ _ parsed node member _ _ refers with isEmbedded | encloses
  · cases isEmbedded
  · exact encloses

end Template

end Stencil
