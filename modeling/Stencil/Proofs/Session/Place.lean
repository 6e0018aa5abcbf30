import Stencil.Proofs.Session.Valid

/-!
# Places of blocks

The ends of every block are places of its text, in order, and what follows the range of a block is
a mark or a break, if there is anything.
-/

namespace Stencil

open Text Directive

namespace Text

/-- A place of a text: an offset where a character begins or the text ends. -/
def IsPlace (text : List Char) (offset : Nat) : Prop :=
  ∃ cursor : Cursor, cursor.text = text ∧ cursor.offset = offset

theorem isPlace_append (before after : List Char) : IsPlace (before ++ after) (byteLength before) :=
  ⟨.between before.reverse after, by simp, by simp [byteLength_reverse]⟩

theorem Cursor.size_eq (cursor : Cursor) : cursor.size = byteLength cursor.text := by
  rw [size, text, byteLength_append, byteLength_reverse, ← cursor.offset_eq, ← cursor.remaining_eq]

theorem IsPlace.le {text : List Char} {offset : Nat} (place : IsPlace text offset) :
    offset ≤ byteLength text := by
  obtain ⟨cursor, rfl, rfl⟩ := place
  rw [← cursor.size_eq]
  exact Nat.le_add_right _ _

theorem isPlace_zero (text : List Char) : IsPlace text 0 := isPlace_append [] text

theorem isPlace_byteLength (text : List Char) : IsPlace text (byteLength text) := by
  simpa using isPlace_append text []

theorem Scan.advanceFrom_run (fuel : Nat) (cursor : Cursor) (enough : cursor.rest.length < fuel) :
    (advanceFrom fuel).run cursor =
        pure ((), .between (cursor.rest.reverse ++ cursor.passed) []) := by
  induction fuel generalizing cursor with
  | zero => omega
  | succ fuel induction =>
      cases next : cursor.rest with
      | nil =>
          have ended : cursor = .between cursor.passed [] := by rw [← next, ← cursor.eq_between]
          have stays : (advanceFrom (fuel + 1)).run cursor = pure ((), cursor) := by
            simp [advanceFrom, next, Cursor.advance_of_rest_nil next]
          rw [stays]
          exact congrArg (fun place => ((), place)) ended
      | cons character rest =>
          have moved : cursor.advance = .between (character :: cursor.passed) rest := by
            rw [← Cursor.advance_between_cons, ← next, ← cursor.eq_between]
          rw [next, List.length_cons] at enough
          have later := induction (.between (character :: cursor.passed) rest)
            (by simpa using enough)
          simp [advanceFrom, next, moved, later]

theorem Scan.toEnd_run (cursor : Cursor) :
    toEnd.run cursor = pure (cursor.size, .between (cursor.rest.reverse ++ cursor.passed) []) := by
  have enough : cursor.rest.length < cursor.remaining + 1 := by
    have bound := length_le_byteLength cursor.rest
    rw [← cursor.remaining_eq] at bound
    omega
  have size : byteLength (cursor.rest.reverse ++ cursor.passed) = cursor.size := by
    rw [byteLength_append, byteLength_reverse, ← cursor.offset_eq, ← cursor.remaining_eq,
      Nat.add_comm, Cursor.size]
  simp [toEnd, advanceFrom_run _ _ enough, size]

theorem Scan.toEnd_answer (source : AnySource) :
    (toEnd source).1 = source.cursor.size := by
  have mirrors : MirrorsAs id source.cursor (.itself source.cursor.text)
      (toEnd : StateM AnySource Nat) toEnd := Mirrors.toEnd
  have answers := (mirrors source source.cursor ⟨rfl, .refl _⟩).1
  have whole := congrArg Prod.fst (toEnd_run source.cursor)
  exact answers.trans whole

end Text

/-- The ends of a block are places of a text, and its range is followed by nothing but a mark or a
break. -/
structure Block.Fits (block : Block) (text : List Char) : Prop where
  start : IsPlace text block.start
  limit : IsPlace text block.limit
  finish : IsPlace text block.finish
  limit_le_finish : block.limit ≤ block.finish
  next : ∀ cursor : Cursor, cursor.text = text → cursor.offset = block.limit →
    ∀ character ∈ cursor.rest.head?, character = '@' ∨ isBreak character = true

theorem Block.limit_ofSource (source : AnySource) (id : SourceRef) (scope : ScopeRef)
    (role : BlockRole) : (Block.ofSource source id scope role).limit = source.cursor.size := by
  have start : (Block.ofSource source id scope role).start = source.cursor.offset := rfl
  have length : (Block.ofSource source id scope role).length =
      source.cursor.size - source.cursor.offset := by
    rw [← Scan.toEnd_answer]
    rfl
  rw [Block.limit, start, length, Cursor.size]
  omega

theorem Block.finish_ofSource (source : AnySource) (id : SourceRef) (scope : ScopeRef)
    (role : BlockRole) : (Block.ofSource source id scope role).finish = source.cursor.size :=
  Scan.toEnd_answer source

/-- A block from a place of a text to its end fits into it. -/
theorem Block.fits_of_whole {block : Block} {cursor : Cursor} (start : cursor.offset = block.start)
    (limit : block.limit = cursor.size) (finish : block.finish = cursor.size) :
    block.Fits cursor.text := by
  have ends : IsPlace cursor.text cursor.size := by
    rw [cursor.size_eq]
    exact isPlace_byteLength _
  refine ⟨⟨cursor, rfl, start⟩, limit ▸ ends, finish ▸ ends,
    Nat.le_of_eq (limit.trans finish.symm), ?_⟩
  intro place text offset character next
  have size := place.size_eq
  rw [text, ← cursor.size_eq, ← limit, ← offset, Cursor.size] at size
  have nothing : place.rest = [] :=
    eq_nil_of_byteLength_eq_zero (by rw [← place.remaining_eq]; omega)
  rw [nothing] at next
  cases next

namespace Directive.BodyCut

variable {cut : BodyCut} {context : BlockContext} {anchor : Cursor} {role : BlockRole}
  {finish : Nat}

theorem isPlace_start (cut : BodyCut) : IsPlace cut.text cut.start := by
  simpa [text, start] using isPlace_append cut.before
    (cut.body ++ (cut.gap ++ (cut.keyword.toList ++ cut.after)))

theorem isPlace_limit (cut : BodyCut) : IsPlace cut.text cut.limit := by
  simpa [text, limit] using isPlace_append (cut.before ++ cut.body)
    (cut.gap ++ (cut.keyword.toList ++ cut.after))

theorem isPlace_closed (cut : BodyCut) : IsPlace cut.text cut.closed :=
  isPlace_append (cut.before ++ cut.body ++ cut.gap ++ cut.keyword.toList) cut.after

theorem Splits.isBreak (splits : cut.Splits) {character : Char} (member : character ∈ cut.gap) :
    isBreak character = true := by
  have gap : cut.gap = (cutBreak (cut.body ++ cut.gap)).2 := congrArg Prod.snd splits
  rw [gap] at member
  exact isBreak_of_mem_cutBreak member

/-- Every keyword that closes a body begins with a mark and has no other mark and no break. -/
theorem exists_of_mem_closers {keyword : String} (member : keyword ∈ role.closers) :
    ∃ characters, keyword.toList = '@' :: characters ∧
      characters.all (fun character => character != '@' && !Text.isBreak character) = true := by
  cases role with
  | root => cases member
  | embedded => cases member
  | loopBody =>
      obtain rfl := List.mem_singleton.mp member
      exact ⟨_, rfl, rfl⟩
  | placeholder =>
      obtain rfl := List.mem_singleton.mp member
      exact ⟨_, rfl, rfl⟩
  | branch =>
      simp only [BlockRole.closers, branchKeywords, List.mem_cons, List.not_mem_nil, or_false]
        at member
      rcases member with rfl | rfl | rfl
      · exact ⟨_, rfl, rfl⟩
      · exact ⟨_, rfl, rfl⟩
      · exact ⟨_, rfl, rfl⟩

theorem Closes.isPlace_finish (closes : cut.Closes context anchor role finish) :
    IsPlace cut.text finish := by
  rcases closes.finish with rfl | ⟨-, breaks, rfl⟩
  · exact cut.isPlace_closed
  · cases split : cut.after with
    | nil => simp [split] at breaks
    | cons next rest =>
        have one := utf8Size_of_isBreak (by simpa [split] using breaks)
        have place := isPlace_append
          (cut.before ++ cut.body ++ cut.gap ++ cut.keyword.toList ++ [next]) rest
        rw [byteLength_append, byteLength, one] at place
        simpa [BodyCut.text, split, closed, byteLength] using place

theorem Closes.fits (closes : cut.Closes context anchor role finish) (id : BlockRef)
    (scope : ScopeRef) : (cut.block context id role finish scope).Fits cut.text := by
  have limit : (cut.block context id role finish scope).limit = cut.limit := cut.limit_eq.symm
  refine ⟨cut.isPlace_start, limit ▸ cut.isPlace_limit, closes.isPlace_finish, ?_, ?_⟩
  · rw [limit]
    have order := cut.closing_eq
    have ends := cut.closed_eq
    have finishes : cut.closed ≤ finish := by
      rcases closes.finish with rfl | ⟨-, -, rfl⟩ <;> omega
    change cut.limit ≤ finish
    omega
  · intro cursor isText offset character next
    have place : cursor = .between (cut.before ++ cut.body).reverse
        (cut.gap ++ (cut.keyword.toList ++ cut.after)) := by
      apply Cursor.eq_of_text_of_offset
      · simp [isText, BodyCut.text]
      · rw [offset, limit, BodyCut.limit, Cursor.offset_between, byteLength_reverse]
    obtain ⟨characters, keyword, -⟩ := exists_of_mem_closers closes.keyword
    rw [place, Cursor.rest_between, keyword] at next
    cases gap : cut.gap with
    | nil =>
        rw [gap] at next
        exact .inl (Option.some.inj next).symm
    | cons first rest =>
        rw [gap] at next
        obtain rfl : first = character := Option.some.inj next
        exact .inr (closes.splits.isBreak (by simp [gap]))

end Directive.BodyCut

theorem Block.Fits.of_outline {left right : Block} {text : List Char} (fits : right.Fits text)
    (same : left.outline = right.outline) : left.Fits text := by
  have start := Block.eq_of_outline Block.start (fun _ => rfl) same
  have limit := Block.eq_of_outline Block.limit (fun _ => rfl) same
  have finish := Block.eq_of_outline Block.finish (fun _ => rfl) same
  refine ⟨?_, ?_, ?_, ?_, ?_⟩
  · rw [start]
    exact fits.start
  · rw [limit]
    exact fits.limit
  · rw [finish]
    exact fits.finish
  · rw [limit, finish]
    exact fits.limit_le_finish
  · rw [limit]
    exact fits.next

theorem fits_embeddedBlock (context : BlockContext) (text : String) (source : SourceRef) :
    (embeddedBlock context text source).Fits text.toList :=
  @Block.fits_of_whole _ (.ofString text) rfl
    (Block.limit_ofSource (.plain (.ofString text)) source context.scope .embedded)
    (Block.finish_ofSource (.plain (.ofString text)) source context.scope .embedded)

namespace Session

variable {η : Type} {session : Session η} {embeddings : Embeddings} {id parent : BlockRef}
  {role : BlockRole} {block : Block}

theorem Child.fits (child : session.Child embeddings parent role id)
    (present : session.blocks[id.index]? = some block) :
    block.Fits (session.text block.source) := by
  cases child with
  | body _ _ found cut finish scope anchor later isThere sourcePresent anchorText anchorPlace closes
      outline =>
      obtain rfl : block = found := Option.some.inj (present.symm.trans isThere)
      have source : block.outline.source = _ := congrArg Block.source outline
      have text : session.text block.outline.source = cut.text := by
        rw [source, closes.text, anchorText]
        rfl
      change block.Fits (session.text block.outline.source)
      rw [text]
      exact (closes.fits id scope).of_outline outline
  | embedded _ found path content source later isThere _ sourcePresent sourceText _ _ outline =>
      obtain rfl : block = found := Option.some.inj (present.symm.trans isThere)
      have isSource : block.outline.source = _ := congrArg Block.source outline
      have text : session.text block.outline.source = content.toList := by
        rw [isSource, ← sourceText]
        rfl
      change block.Fits (session.text block.outline.source)
      rw [text]
      have fits := fits_embeddedBlock (session.blockContext embeddings parent) content source
      exact fits.of_outline outline

theorem Valid.fits (valid : session.Valid embeddings)
    (present : session.blocks[id.index]? = some block) :
    block.Fits (session.text block.source) := by
  rcases valid.origin id block present with whole | ⟨parent, -, child⟩
  · obtain ⟨cursor, text, start, limit, finish⟩ := whole.place
    rw [← text]
    exact Block.fits_of_whole start limit finish
  · exact child.fits present

end Session

end Stencil
