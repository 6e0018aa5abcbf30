import Stencil.Proofs.Inlining
import Stencil.Proofs.LiteralText

/-!
# Keywords end with their words

A keyword that closes or divides bodies and ends in a word is text if the word goes on.  The search
for the end of a body passes over it, every recogniser declines it, and it is written as it stands.
The keyword of a break is taken for a break whatever follows.
-/

namespace Stencil

open Text Text.Cursor Directive

/-- Behind a keyword that closes or divides bodies its word goes on, and no branch begins with
it. -/
structure WordGoesOn (keyword : String) (character : Char) (rest : List Char) : Prop where
  isWord : keyword ∈ directiveWords
  isPart : isNamePart character = true
  apart : ¬"@elseif(".toList <+: keyword.toList ++ character :: rest

namespace WordGoesOn

variable {keyword : String} {character : Char} {rest : List Char}

theorem exists_letters (goesOn : WordGoesOn keyword character rest) : ∃ letters,
    keyword.toList = '@' :: letters ∧ isUnmarked letters = true := by
  have isWord := goesOn.isWord
  refine ⟨keyword.toList.drop 1, ?_⟩
  clear goesOn
  revert keyword
  decide

/-- No directive begins with the word. -/
theorem not_beginsDirective (goesOn : WordGoesOn keyword character rest) :
    beginsDirective (keyword.toList ++ character :: rest) = false := by
  simp only [beginsDirective, Bool.or_eq_false_iff, List.any_eq_false]
  constructor
  · intro opening listed begins
    have isPrefix := List.isPrefixOf_iff_prefix.mp begins
    by_cases branch : opening = "@elseif("
    · exact goesOn.apart (branch ▸ isPrefix)
    · have apart : isApart keyword (directiveOpenings.erase "@elseif(") = true := by
        have isWord := goesOn.isWord
        clear goesOn begins isPrefix
        revert keyword
        decide
      have among : opening ∈ directiveOpenings.erase "@elseif(" :=
        (List.mem_erase_of_ne branch).mpr listed
      exact beginsWithNone apart _ opening among isPrefix
  · intro other listed stands
    rw [Bool.and_eq_true] at stands
    have isPrefix := List.isPrefixOf_iff_prefix.mp stands.1
    by_cases same : other = keyword
    · rw [same, List.drop_left, List.head?_cons, Option.any_some, goesOn.isPart] at stands
      cases stands.2
    · have apart : isApart keyword (directiveWords.erase keyword) = true := by
        have isWord := goesOn.isWord
        clear goesOn same isPrefix stands
        revert keyword
        decide
      have among : other ∈ directiveWords.erase keyword := (List.mem_erase_of_ne same).mpr listed
      exact beginsWithNone apart _ other among isPrefix

end WordGoesOn

namespace BodyForm.Passes

variable {form : BodyForm} {least : Nat} {rest : List Char}

/-- A mark that begins no directive is passed, however deep the search is. -/
theorem mark_of_plain (plain : beginsDirective ('@' :: rest) = false) :
    form.Passes least ['@'] rest := by
  apply step
  intro fuel depth passed _
  have isOpening : form.opening ∈ directiveOpenings := by cases form <;> decide
  have areClosing : form.keywords ⊆ closingKeywords := by cases form <;> decide
  have opensNothing : form.opening.toList.isPrefixOf ('@' :: rest) = false :=
    Bool.eq_false_iff.mpr fun begins => beginsWithNone_of_not_beginsDirective plain _ isOpening
      (List.isPrefixOf_iff_prefix.mp begins)
  have none : form.keywords.findIdx? (standsAt · ('@' :: rest)) = Option.none :=
    List.findIdx?_eq_none_iff.mpr fun keyword listed =>
      standsAt_closingKeywords plain keyword (areClosing listed)
  have ran := Scan.closingKeywordFrom_run_of_mark form.opening form.keywords form.terminator fuel
    depth (rest_between passed ('@' :: rest)) opensNothing
  rw [rest_between, none, advance_between_cons] at ran
  exact ran

theorem of_goesOn {keyword : String} {character : Char}
    (goesOn : WordGoesOn keyword character rest) :
    form.Passes least keyword.toList (character :: rest) := by
  obtain ⟨letters, spelled, unmarked⟩ := goesOn.exists_letters
  have plain := goesOn.not_beginsDirective
  rw [spelled] at plain ⊢
  exact (mark_of_plain plain).append (.unmarked unmarked)

end BodyForm.Passes

theorem Node.append_append_text (nodes : List Node) (first second : String) :
    Node.append (Node.append nodes (.text first)) (.text second) =
      Node.append nodes (.text (first ++ second)) := by
  rcases nodes with _ | ⟨last, nodes⟩
  · rfl
  · cases last with
    | text before => exact congrArg (fun content => Node.text content :: nodes) String.append_assoc
    | _ => rfl

/-- A text goes on the text before it, if there is one. -/
theorem Node.exists_append_text (nodes : List Node) (content : String) : ∃ earlier before,
    Node.append nodes (.text content) = .text (earlier ++ content) :: before := by
  rcases nodes with _ | ⟨last, nodes⟩
  · exact ⟨"", [], by rw [String.empty_append]; rfl⟩
  · cases last with
    | text earlier => exact ⟨earlier, nodes, rfl⟩
    | _ => exact ⟨"", _, by rw [String.empty_append]; rfl⟩

/-- Nodes, listed last first, among them a text that begins in a given way behind given nodes. -/
def KeepsText (content : String) (before nodes : List Node) : Prop :=
  ∃ more after, nodes = after ++ .text (content ++ more) :: before

namespace KeepsText

variable {content : String} {before nodes : List Node}

theorem here (content : String) (before : List Node) :
    KeepsText content before (.text content :: before) :=
  ⟨"", [], by rw [String.append_empty]; rfl⟩

theorem cons (keeps : KeepsText content before nodes) (added : Node) :
    KeepsText content before (added :: nodes) := by
  obtain ⟨more, after, rfl⟩ := keeps
  exact ⟨more, added :: after, rfl⟩

theorem append (keeps : KeepsText content before nodes) (added : Node) :
    KeepsText content before (Node.append nodes added) := by
  obtain ⟨more, after, rfl⟩ := keeps
  unfold Node.append
  split
  · rename_i earlier rest later joined
    cases after with
    | nil =>
        cases joined
        exact ⟨more ++ later, [], by rw [← String.append_assoc]; rfl⟩
    | cons last after =>
        cases joined
        exact ⟨more, .text (earlier ++ later) :: after, rfl⟩
  · exact ⟨more, _ :: after, rfl⟩

theorem reverse (keeps : KeepsText content before nodes) : ∃ later after,
    nodes.reverse = before.reverse ++ .text (content ++ later) :: after := by
  obtain ⟨later, after, rfl⟩ := keeps
  exact ⟨later, after.reverse, by simp⟩

/-- The text stays where it is while the block is parsed further. -/
theorem nodesFrom (keeps : KeepsText content before nodes) (context : BlockContext) (fuel : Nat)
    (draft : Draft Cursor) : ∃ later after,
    ((Directive.nodesFrom context fuel nodes).run draft).1 =
      before.reverse ++ .text (content ++ later) :: after := by
  induction fuel generalizing nodes draft with
  | zero => exact keeps.reverse
  | succ fuel induction =>
      rw [nodesFrom_succ_run]
      split
      · split
        · exact induction (keeps.append _) _
        · exact (keeps.cons _).reverse
      · exact keeps.reverse

end KeepsText

/-- A text node is written as it is, unless the loop around it was left. -/
theorem Run.ran_text {η : Type} (environment : Environment η) (runBlock : BlockRef → Run η Unit)
    (fuel : Nat) (scope : ScopeRef) (loop : Option BlockRef) (content : String) (later : List Node)
    {session : Session η}
    (stays : (loop.any fun target => (session.block target).wasLeft) = false) :
    (nodes (node environment runBlock fuel scope) loop (.text content :: later)).run.run session =
      (nodes (node environment runBlock fuel scope) loop later).run.run
        { session with writes := session.writes.push content } := by
  rw [ran_nodes_cons, stays]
  rfl

/-- A piece of a block that stands between its directives and is text.  Behind it the block goes on
with some characters, and the source with others. -/
structure StaysText (context : BlockContext) (passed piece inside beyond : List Char) : Prop where
  /-- The search for the end of a body passes over it, however deep the search is. -/
  passes (form : BodyForm) : form.Passes 0 piece (inside ++ beyond)
  /-- Every recogniser declines it. -/
  declines {draft : Draft Cursor}
    (here : draft.source = between passed (piece ++ (inside ++ beyond))) :
    ∀ recogniser ∈ recognisers context, ∃ after, recogniser.run.run draft = pure (.ok none, after) ∧
      after.source = draft.source ∧ after.blocks = draft.blocks
  /-- The parse of the block goes on behind it with a longer text and nothing else. -/
  joins {draft : Draft Cursor} (here : draft.source = between passed (piece ++ (inside ++ beyond)))
    (fuel : Nat) (parsed : List Node) : ∃ more later after, inside = more ++ later ∧
      (nodesFrom context (fuel + 2) parsed).run draft =
        (nodesFrom context fuel
          (Node.append parsed (.text (String.ofList (piece ++ more))))).run after ∧
      after.source = between ((piece ++ more).reverse ++ passed) (later ++ beyond) ∧
      after.blocks = draft.blocks
  /-- The nodes of the block have a text that it is part of, which is written as it is. -/
  written {draft : Draft Cursor}
    (here : draft.source = between passed (piece ++ (inside ++ beyond)))
    (fuel : Nat) (parsed : List Node) : ∃ before content later,
      ((nodesFrom context (fuel + 2) parsed).run draft).1 = before ++ .text content :: later ∧
      piece <:+: content.toList ∧
      ∀ {η : Type} (environment : Environment η) (runBlock : BlockRef → Run η Unit) (fuel : Nat)
        (scope : ScopeRef) (loop : Option BlockRef) (session : Session η),
        (loop.any fun target => (session.block target).wasLeft) = false →
        (Run.nodes (Run.node environment runBlock fuel scope) loop
            (.text content :: later)).run.run session =
          (Run.nodes (Run.node environment runBlock fuel scope) loop later).run.run
            { session with writes := session.writes.push content }

variable {keyword : String} {character : Char} {context : BlockContext}
  {passed inside beyond : List Char}

theorem WordGoesOn.joins (goesOn : WordGoesOn keyword character (inside ++ beyond))
    (limit : context.limit =
      byteLength passed + byteLength (keyword.toList ++ character :: inside))
    {draft : Draft Cursor}
    (here : draft.source = between passed (keyword.toList ++ character :: (inside ++ beyond)))
    (fuel : Nat) (parsed : List Node) : ∃ more later after, inside = more ++ later ∧
      (nodesFrom context (fuel + 2) parsed).run draft =
        (nodesFrom context fuel (Node.append parsed
          (.text (String.ofList (keyword.toList ++ character :: more))))).run after ∧
      after.source =
        between ((keyword.toList ++ character :: more).reverse ++ passed) (later ++ beyond) ∧
      after.blocks = draft.blocks := by
  obtain ⟨letters, spelled, unmarkedLetters⟩ := goesOn.exists_letters
  have plain := goesOn.not_beginsDirective
  obtain ⟨more, later, rfl, unmarkedMore, ends⟩ := exists_unmarked inside
  rw [spelled, List.cons_append] at plain limit here
  have bytes : context.limit = byteLength passed + byteLength ['@'] +
      byteLength (letters ++ character :: more) + byteLength later := by
    simp only [limit, byteLength, byteLength_append]
    omega
  have markBytes : 0 < byteLength ['@'] := by decide
  have wordBytes : 0 < byteLength (letters ++ character :: more) := by
    have positive := character.utf8Size_pos
    simp only [byteLength, byteLength_append]
    omega
  have noMark : character ≠ '@' := by
    rintro rfl
    cases goesOn.isPart
  have unmarked : isUnmarked (letters ++ character :: more) = true := by
    simp only [isUnmarked, List.all_append, List.all_cons, Bool.and_eq_true] at *
    exact ⟨unmarkedLetters, bne_iff_ne.mpr noMark, unmarkedMore⟩
  have markFits : byteLength passed ≤ context.limit := by omega
  obtain ⟨marked, ranMark, placeMark, blocksMark⟩ :=
    (DirectiveParser.Builds.node_mark plain markFits).exists_run here
  have split : letters ++ character :: (more ++ later ++ beyond) =
      (letters ++ character :: more) ++ (later ++ beyond) := by simp
  have passedMark : byteLength (['@'].reverse ++ passed) =
      byteLength passed + byteLength ['@'] := by
    rw [byteLength_append, byteLength_reverse, Nat.add_comm]
  have endsText : EndsText context.limit (['@'].reverse ++ passed) (letters ++ character :: more)
      (later ++ beyond) := by
    rcases ends with mark | rfl
    · exact .inl (by rw [List.head?_append, mark]; rfl)
    · refine .inr (.inr ?_)
      rw [passedMark, bytes]
      exact Nat.le_refl _
  rw [split] at placeMark
  obtain ⟨after, ranText, placeText, blocksText⟩ :=
    (DirectiveParser.Builds.node_unmarked (by simp) unmarked (by omega) endsText).exists_run
      placeMark
  refine ⟨more, later, after, rfl, ?_, ?_, blocksText.trans blocksMark⟩
  · have beforeMark : draft.source.offset < context.limit := by
      rw [here, offset_between]
      omega
    have beforeText : marked.source.offset < context.limit := by
      rw [placeMark, offset_between]
      omega
    rw [nodesFrom_run_of_node (fuel + 1) parsed beforeMark
      (by rw [here]; exact List.cons_ne_nil _ _) ranMark,
      nodesFrom_run_of_node fuel _ beforeText (by rw [placeMark]; simp) ranText,
      Node.append_append_text, spelled]
    exact congrArg (fun content => (nodesFrom context fuel
      (Node.append parsed (.text content))).run after) String.ofList_append.symm
  · rw [placeText, spelled]
    simp

theorem WordGoesOn.staysText (goesOn : WordGoesOn keyword character (inside ++ beyond))
    (limit : context.limit =
      byteLength passed + byteLength (keyword.toList ++ character :: inside)) :
    StaysText context passed keyword.toList (character :: inside) beyond where
  passes _ := .of_goesOn goesOn
  declines {draft} here recogniser listed := by
    obtain ⟨letters, spelled, -⟩ := goesOn.exists_letters
    have plain := goesOn.not_beginsDirective
    rw [List.cons_append] at here
    rw [spelled, List.cons_append] at plain here
    have fits : byteLength passed ≤ context.limit := by
      rw [limit]
      exact Nat.le_add_right _ _
    have none : DirectiveParser.Builds .any recogniser draft.blocks.size passed []
        ('@' :: (letters ++ character :: (inside ++ beyond))) none [] :=
      .recogniser_none plain fits recogniser listed
    obtain ⟨after, ran, place, blocks⟩ := none.exists_run here
    exact ⟨after, ran, place.trans here.symm, blocks⟩
  joins here fuel parsed := by
    obtain ⟨more, later, after, rfl, ran, place, blocks⟩ := goesOn.joins limit here fuel parsed
    exact ⟨character :: more, later, after, rfl, ran, place, blocks⟩
  written here fuel parsed := by
    obtain ⟨more, -, after, -, ran, -, -⟩ := goesOn.joins limit here fuel parsed
    let word := String.ofList (keyword.toList ++ character :: more)
    obtain ⟨earlier, before, joined⟩ := Node.exists_append_text parsed word
    obtain ⟨later, nodes, kept⟩ :=
      (KeepsText.here (earlier ++ word) before).nodesFrom context fuel after
    rw [← joined, ← ran] at kept
    refine ⟨before.reverse, earlier ++ word ++ later, nodes, kept, ?_,
      fun environment runBlock fuel scope loop _ stays =>
        Run.ran_text environment runBlock fuel scope loop _ nodes stays⟩
    refine ⟨earlier.toList, character :: more ++ later.toList, ?_⟩
    simp [word]

namespace DirectiveParser

variable {α β : Type} {rest : List Char}

theorem run_bind_of_error {first : DirectiveParser Cursor α} {next : α → DirectiveParser Cursor β}
    {draft after : Draft Cursor} {error : TemplateError}
    (failed : first.run.run draft = pure (.error error, after)) :
    (first >>= next).run.run draft = pure (.error error, after) := by
  have split : (first >>= next).run.run draft =
      (ExceptT.bindCont next (first.run.run draft).1).run (first.run.run draft).2 := rfl
  rw [split, failed]
  rfl

/-- Recognisers that decline leave the choice to those behind them. -/
theorem firstOf?_run_of_none {recognisers : List (DirectiveParser Cursor (Option Node))}
    (decline : ∀ recogniser ∈ recognisers, ∀ size,
      Builds .any recogniser size passed [] rest none [])
    (others : List (DirectiveParser Cursor (Option Node))) {draft : Draft Cursor}
    (here : draft.source = between passed rest) : ∃ after,
    (firstOf? (recognisers ++ others)).run.run draft = (firstOf? others).run.run after ∧
      after.source = between passed rest ∧ after.blocks = draft.blocks := by
  induction recognisers generalizing draft with
  | nil => exact ⟨draft, rfl, here, rfl⟩
  | cons recogniser recognisers induction =>
      obtain ⟨declined, ran, place, blocks⟩ :=
        (decline recogniser List.mem_cons_self draft.blocks.size).exists_run here
      obtain ⟨returned, ranBack, placeBack, blocksBack⟩ :=
        (Builds.returnTo : Builds .any _ declined.blocks.size passed [] rest () [])
          |>.exists_run place
      obtain ⟨after, ranLater, placeLater, blocksLater⟩ :=
        induction (fun other listed => decline other (List.mem_cons_of_mem _ listed)) placeBack
      have pointed : (DirectiveParser.scan Scan.pointer).run.run draft =
          pure (.ok (byteLength passed), draft) := by
        rw [← offset_between passed rest, ← here]
        rfl
      refine ⟨after, ?_, placeLater, blocksLater.trans (blocksBack.trans blocks)⟩
      rw [List.cons_append, firstOf?, Builds.run_bind pointed, Builds.run_bind ran]
      exact (Builds.run_bind ranBack).trans ranLater

/-- The choice from one recogniser finds what it finds, or fails as it fails. -/
theorem firstOf?_run_of_found {recogniser : DirectiveParser Cursor (Option Node)}
    {draft after : Draft Cursor} {outcome : Except TemplateError Node}
    (ran : recogniser.run.run draft = pure (outcome.map some, after)) :
    (firstOf? [recogniser]).run.run draft = pure (outcome.map some, after) := by
  have pointed : (DirectiveParser.scan Scan.pointer).run.run draft =
      pure (.ok draft.source.offset, draft) := rfl
  rw [firstOf?, Builds.run_bind pointed]
  cases outcome with
  | error error => exact run_bind_of_error ran
  | ok node => exact Builds.run_bind ran

end DirectiveParser

/-- A break leaves the loop around it, if there is one. -/
theorem Directive.leave_run (context : BlockContext) {place : Cursor}
    (noBreak : place.rest.head?.any isBreak = false) :
    (leave context).run.run place =
      pure (match context.enclosingLoop with
        | none => .error (.parse .breakOutsideLoop place.position)
        | some target => .ok (.leave target), place) := by
  unfold leave
  cases context.enclosingLoop with
  | none => rfl
  | some target =>
      have stays := Scan.acceptBreak_run place
      rw [noBreak] at stays
      rw [Parser.run_scan_bind stays]
      rfl

theorem Directive.nested?_run_of_break {context : BlockContext} {passed rest : List Char}
    {draft : Draft Cursor} (here : draft.source = between passed ("@breakfor".toList ++ rest)) :
    ∃ after, after.source = between ("@breakfor".toList.reverse ++ passed) rest ∧
      after.blocks = draft.blocks ∧
      ∀ outcome reached,
        (DirectiveParser.parse (leave context)).run.run after = pure (outcome, reached) →
        (nested? context).run.run draft = pure (outcome.map some, reached) := by
  have accepts : DirectiveParser.Builds .any
      (DirectiveParser.scan (Scan.acceptText "@breakfor")) draft.blocks.size passed
      "@breakfor".toList rest true [] := .scan (.acceptText _ _)
  obtain ⟨after, accepted, place, blocks⟩ := accepts.exists_run here
  refine ⟨after, place, blocks, fun outcome reached left => ?_⟩
  unfold nested?
  rw [DirectiveParser.Builds.run_bind accepted]
  cases outcome with
  | error error => exact DirectiveParser.run_bind_of_error left
  | ok node => exact DirectiveParser.Builds.run_bind left

/-- The keyword of a break is taken for a break whatever follows it. -/
theorem Directive.node_run_of_break {context : BlockContext} {passed rest : List Char}
    {draft : Draft Cursor} (here : draft.source = between passed ("@breakfor".toList ++ rest))
    (fits : byteLength passed ≤ context.limit) : ∃ after,
    after.source = between ("@breakfor".toList.reverse ++ passed) rest ∧
    after.blocks = draft.blocks ∧
    (Directive.node context).run.run draft =
      (DirectiveParser.parse (leave context)).run.run after := by
  have apart {literals : List String} (isApart : isApart "@breakfor" literals = true) :
      BeginsWithNone literals ("@breakfor".toList ++ rest) := beginsWithNone isApart rest
  let before : List (DirectiveParser Cursor (Option Node)) :=
    [DirectiveParser.scan (text? context.limit), DirectiveParser.parse declaration?,
      loop? context, placeholder? context, DirectiveParser.parse read?]
  have decline : ∀ recogniser ∈ before, ∀ size, DirectiveParser.Builds .any recogniser
      size passed [] ("@breakfor".toList ++ rest) none [] := by
    simp only [before, List.forall_mem_cons]
    exact ⟨fun _ => .text?_mark fits, fun _ => .declaration?_none (apart (by decide)),
      fun _ => .loop?_none (apart (by decide)), fun _ => .placeholder?_none (apart (by decide)),
      fun _ => .read?_none (apart (by decide)), nofun⟩
  obtain ⟨declined, ran, place, blocks⟩ :=
    DirectiveParser.firstOf?_run_of_none decline [nested? context] here
  obtain ⟨after, placeAfter, blocksAfter, nested⟩ := nested?_run_of_break place
  refine ⟨after, placeAfter, blocksAfter.trans blocks, ?_⟩
  rcases left : (DirectiveParser.parse (leave context)).run.run after with ⟨outcome, reached⟩
  have found := ran.trans (DirectiveParser.firstOf?_run_of_found (nested outcome reached left))
  unfold Directive.node
  cases outcome with
  | error error => exact DirectiveParser.run_bind_of_error found
  | ok node => exact DirectiveParser.Builds.run_bind found

theorem isBreak_of_isNamePart {character : Char} (part : isNamePart character = true) :
    isBreak character = false := by
  refine Bool.eq_false_iff.mpr fun breaks => ?_
  simp only [isBreak, Bool.or_eq_true, beq_iff_eq] at breaks
  rcases breaks with rfl | rfl <;> cases part

/-- In front of a name character every keyword that closes or divides bodies is text, unless it
begins a branch: wherever it stands between the directives of a block, it is passed over, declined
and written.  The keyword of a break is a break there, inside a loop, and an error elsewhere. -/
theorem Directive.keywords_end_with_words {character : Char} (part : isNamePart character = true)
    (context : BlockContext) (passed inside beyond : List Char) :
    (∀ keyword ∈ directiveWords,
      ¬"@elseif(".toList <+: keyword.toList ++ character :: (inside ++ beyond) →
      context.limit = byteLength passed + byteLength (keyword.toList ++ character :: inside) →
      StaysText context passed keyword.toList (character :: inside) beyond) ∧
    ∀ draft : Draft Cursor,
      draft.source = between passed ("@breakfor".toList ++ character :: (inside ++ beyond)) →
      byteLength passed ≤ context.limit → ∃ after : Draft Cursor,
      after.source =
        between ("@breakfor".toList.reverse ++ passed) (character :: (inside ++ beyond)) ∧
      after.blocks = draft.blocks ∧
      (Directive.node context).run.run draft =
        pure (match context.enclosingLoop with
          | none => .error (.parse .breakOutsideLoop after.source.position)
          | some target => .ok (.leave target), after) := by
  constructor
  · intro keyword isWord apart limit
    have goesOn : WordGoesOn keyword character (inside ++ beyond) := ⟨isWord, part, apart⟩
    exact goesOn.staysText limit
  · intro draft here fits
    obtain ⟨after, place, blocks, ran⟩ := node_run_of_break here fits
    refine ⟨after, place, blocks, ran.trans ?_⟩
    have noBreak : after.source.rest.head?.any isBreak = false := by
      rw [place]
      exact isBreak_of_isNamePart part
    have split : (DirectiveParser.parse (leave context)).run.run after =
        (((leave context).run.run after.source).1,
          { after with source := ((leave context).run.run after.source).2 }) := rfl
    rw [split, leave_run context noBreak]
    rfl

/-- The end of a loop in a word of its body, in front of the end of the loop. -/
theorem Directive.keywords_end_with_words_endforth :
    isNamePart 't' = true ∧
      StaysText ⟨⟨0⟩, ⟨0⟩, 10, none, fun _ => none⟩ ['a'] "@endfor".toList ['t', 'h']
        "@endfor".toList := by
  have part : isNamePart 't' = true := by decide
  have words := (keywords_end_with_words part ⟨⟨0⟩, ⟨0⟩, 10, none, fun _ => none⟩ ['a'] ['h']
    "@endfor".toList).1
  exact ⟨part, words "@endfor" (by decide) (by decide) (by decide)⟩

/-- The end of a loop is text in front of a letter, but a break is a break there. -/
theorem Template.renderText_break_in_word :
    (renderText "a@endfortha" 4).output = "a@endfortha" ∧
    (renderText "a@breakfortha" 4).outcome =
      .error (.failed (.parse .breakOutsideLoop ⟨1, 11, 10⟩)) ∧
    (renderText "@for(i = 0; i < 2; i++)a@breakforth @endfor" 10).outcome = .ok () ∧
    (renderText "@for(i = 0; i < 2; i++)a@breakforth @endfor" 10).output = "a" := by
  decide +kernel

end Stencil
