import Mathlib.Data.List.Infix
import Stencil.Proofs.Run.Whole

/-!
# Literal text passes through

A text in which no directive begins is written as it is, in one piece.
-/

namespace Stencil

open Text Text.Cursor Directive

/-- What begins a directive wherever it stands. -/
def directiveOpenings : List String :=
  ["@var ", "@var(", "@const ", "@const(", "@set_var ", "@for(", "@define_placeholder(",
    "@placeholder(", "@use_placeholder(", "@breakfor", "@if(", "@elseif(", "@embed "]

/-- What is a keyword unless the word it ends in goes on. -/
def directiveWords : List String :=
  ["@endfor", "@else", "@endif", "@end_define_placeholder"]

/-- Whether a directive or a keyword that closes one begins a text. -/
def beginsDirective (text : List Char) : Bool :=
  directiveOpenings.any (fun opening => opening.toList.isPrefixOf text) ||
    directiveWords.any fun word => word.toList.isPrefixOf text &&
      !(text.drop word.toList.length).head?.any isNamePart

/-- No directive begins anywhere in a text. -/
def IsLiteral (text : List Char) : Prop :=
  ∀ rest, rest <:+ text → beginsDirective rest = false

instance (text : List Char) : Decidable (IsLiteral text) :=
  decidable_of_iff (∀ rest ∈ text.tails, beginsDirective rest = false) (by
    simp only [IsLiteral, List.mem_tails])

theorem beginsWithNone_of_not_beginsDirective {text : List Char}
    (plain : beginsDirective text = false) : BeginsWithNone directiveOpenings text := by
  intro opening listed begins
  simp only [beginsDirective, Bool.or_eq_false_iff, List.any_eq_false] at plain
  exact plain.1 opening listed (List.isPrefixOf_iff_prefix.mpr begins)

theorem BeginsWithNone.mono {literals more : List String} {text : List Char}
    (declines : BeginsWithNone more text) (among : literals ⊆ more) :
        BeginsWithNone literals text :=
  fun literal listed => declines literal (among listed)

/-- No keyword that closes a body stands in front of a text in which no directive begins. -/
theorem standsAt_closingKeywords {text : List Char} (plain : beginsDirective text = false) :
    ∀ keyword ∈ closingKeywords, standsAt keyword text = false := by
  intro keyword listed
  have cases : keyword = "@elseif(" ∨ keyword ∈ directiveWords := by
    revert keyword
    decide
  rcases cases with rfl | isWord
  · have declines := beginsWithNone_of_not_beginsDirective plain "@elseif(" (by decide)
    exact Bool.eq_false_iff.mpr fun stands => declines (isPrefix_of_standsAt stands)
  · have inName : endsInName keyword = true := by
      revert keyword
      decide
    simp only [beginsDirective, Bool.or_eq_false_iff, List.any_eq_false] at plain
    have apart := plain.2 keyword isWord
    rw [standsAt, inName, Bool.true_and]
    exact Bool.eq_false_iff.mpr apart

theorem stray?_run {keywords : List String} {cursor : Cursor}
    (none : ∀ keyword ∈ keywords, standsAt keyword cursor.rest = false) :
    (stray? keywords).run cursor = pure (Option.none, cursor) := by
  induction keywords with
  | nil => rfl
  | cons keyword keywords induction =>
      have first := none keyword List.mem_cons_self
      have later := induction fun other member => none other (List.mem_cons_of_mem keyword member)
      simp [stray?, Scan.looksAtKeyword_run, first, later]

namespace DirectiveParser.Builds

variable {making : Making} {size : Nat} {context : BlockContext}
  {passed rest : List Char}

theorem nested?_none (plain : beginsDirective rest = false) :
    Builds making (nested? context) size passed [] rest none [] := by
  have declines := beginsWithNone_of_not_beginsDirective plain
  have strays : Text.Reads (stray? closingKeywords) [] none rest :=
    fun _ => stray?_run (standsAt_closingKeywords plain)
  unfold nested?
  refine quiet_bind (scan (.acceptText_of_not _ (declines _ (by decide)))) ?_
  refine quiet_bind (scan (.acceptText_of_not _ (declines _ (by decide)))) ?_
  refine quiet_bind (scan (.acceptText_of_not _ (declines _ (by decide)))) ?_
  refine quiet_bind_look (scan strays) ?_
  exact pure _ _

/-- At a mark that begins no directive every recogniser declines. -/
theorem recogniser_none (plain : beginsDirective ('@' :: rest) = false)
    (fits : byteLength passed ≤ context.limit) :
    ∀ recogniser ∈ recognisers context,
      Builds making recogniser size passed [] ('@' :: rest) none [] := by
  have declines := beginsWithNone_of_not_beginsDirective plain
  simp only [recognisers, List.forall_mem_cons]
  refine ⟨text?_mark fits, ?_, ?_, ?_, ?_, nested?_none plain,
    fun _ listed => absurd listed List.not_mem_nil⟩
  · exact declaration?_none (declines.mono (by decide))
  · exact loop?_none (declines.mono (by decide))
  · exact placeholder?_none (declines.mono (by decide))
  · exact read?_none (declines.mono (by decide))

theorem firstOf?_none {recognisers : List (DirectiveParser Cursor (Option Node))}
    (decline : ∀ recogniser ∈ recognisers, Builds making recogniser size passed [] rest none []) :
    Builds making (firstOf? recognisers) size passed [] rest none [] := by
  induction recognisers with
  | nil => exact pure none rest
  | cons recogniser recognisers induction =>
      have here := decline recogniser List.mem_cons_self
      exact firstOf?_declines here
        (induction fun other listed => decline other (List.mem_cons_of_mem recogniser listed))

/-- A mark that begins no directive is text. -/
theorem node_mark (plain : beginsDirective ('@' :: rest) = false)
    (fits : byteLength passed ≤ context.limit) :
    Builds making (Directive.node context) size passed ['@'] rest (.text "@") [] := by
  have noneOf :
      Builds making (firstOf? (recognisers context)) size passed [] ('@' :: rest) none [] :=
    firstOf?_none (recogniser_none plain fits)
  have mark : Parser.Reads markText ['@'] (.text "@") rest := by
    unfold markText
    exact .look_bind (.scan (.current _)) (.bind_look (.scan (.step _ _)) (.pure _ _))
  unfold Directive.node
  change Builds making _ size passed ([] ++ ['@']) rest _ _
  refine quiet_bind noneOf ?_
  exact parse mark

end DirectiveParser.Builds

/-- The nodes of a text in which no directive begins. -/
def literalNodes (text : List Char) : List Node :=
  if text.isEmpty then [] else [.text (String.ofList text)]

theorem reverse_literalNodes (text : List Char) :
    (literalNodes text).reverse = literalNodes text := by
  unfold literalNodes
  split <;> rfl

theorem append_literalNodes (before : List Char) {text : List Char} (nonempty : text ≠ []) :
    Node.append (literalNodes before) (.text (String.ofList text)) =
      literalNodes (before ++ text) := by
  cases before with
  | nil => simp [literalNodes, Node.append, nonempty]
  | cons character before =>
      exact congrArg (fun content => [Node.text content]) String.ofList_append.symm

theorem IsLiteral.mono {text later : List Char} (literal : IsLiteral text) (ends : later <:+ text) :
    IsLiteral later :=
  fun rest isSuffix => literal rest (isSuffix.trans ends)

/-- A text begins with characters that are no marks, up to a mark or the end. -/
theorem exists_unmarked (text : List Char) : ∃ piece rest,
    text = piece ++ rest ∧ isUnmarked piece = true ∧ (rest.head? = some '@' ∨ rest = []) := by
  refine ⟨text.takeWhile (· != '@'), text.dropWhile (· != '@'), ?_, List.all_takeWhile, ?_⟩
  · rw [List.takeWhile_append_dropWhile]
  · have stops := List.head?_dropWhile_not (· != '@') text
    cases next : (text.dropWhile (· != '@')).head? with
    | none => exact .inr (List.head?_eq_none_iff.mp next)
    | some other =>
        rw [next] at stops
        simp at stops
        exact .inl (congrArg some stops)

/-- A text begins with a mark or a piece without marks that reaches to a mark or the end. -/
theorem exists_piece {text : List Char} (nonempty : text ≠ []) : ∃ piece rest,
    text = piece ++ rest ∧ piece ≠ [] ∧
      (piece = ['@'] ∨ isUnmarked piece = true ∧ (rest.head? = some '@' ∨ rest = [])) := by
  cases text with
  | nil => exact absurd rfl nonempty
  | cons character text =>
      by_cases mark : character = '@'
      · subst mark
        exact ⟨['@'], text, rfl, nofun, .inl rfl⟩
      · obtain ⟨piece, rest, rfl, unmarked, ends⟩ := exists_unmarked text
        refine ⟨character :: piece, rest, rfl, nofun, .inr ⟨?_, ends⟩⟩
        rw [isUnmarked, List.all_cons, Bool.and_eq_true]
        exact ⟨bne_iff_ne.mpr mark, unmarked⟩

namespace DirectiveParser.Builds

variable {making : Making} {size : Nat} {context : BlockContext}
  {passed piece rest : List Char}

/-- A parser that makes no blocks leaves those before as they are. -/
theorem exists_run {α : Type} {rule : DirectiveParser Cursor α} {draft : Draft Cursor} {answer : α}
    (builds : Builds ⟨fun _ _ => True, .global⟩ rule draft.blocks.size passed piece rest answer [])
    (here : draft.source = between passed (piece ++ rest)) : ∃ after,
    rule.run.run draft = Pure.pure (.ok answer, after) ∧
      after.source = between (piece.reverse ++ passed) rest ∧ after.blocks = draft.blocks := by
  obtain ⟨made, after, ran, place, blocks, -, makes⟩ := builds draft here rfl
  cases makes.forall₂
  rw [List.append_nil] at blocks
  exact ⟨after, ran, place, Array.toList_inj.mp blocks⟩

/-- Characters up to a mark or the end are one text. -/
theorem node_unmarked (nonempty : piece ≠ []) (unmarked : isUnmarked piece = true)
    (fits : byteLength passed + byteLength piece ≤ context.limit)
    (ends : EndsText context.limit passed piece rest) :
    Builds making (Directive.node context) size passed piece rest
        (.text (String.ofList piece)) [] := by
  have letters : (String.ofList piece).toList = piece := String.toList_ofList
  rw [← letters] at nonempty unmarked ends fits
  have isText : Builds making (Directive.node context) size passed (String.ofList piece).toList rest
      (.text (String.ofList piece)) [] := node_text nonempty unmarked fits ends
  rwa [letters] at isText

/-- The next piece of literal text is one text node. -/
theorem node_piece (nonempty : piece ≠ []) (literal : IsLiteral (piece ++ rest))
    (limit : context.limit = byteLength passed + byteLength (piece ++ rest))
    (cut : piece = ['@'] ∨ isUnmarked piece = true ∧ (rest.head? = some '@' ∨ rest = [])) :
    Builds making (Directive.node context) size passed piece rest
        (.text (String.ofList piece)) [] := by
  rw [byteLength_append] at limit
  rcases cut with rfl | ⟨unmarked, ends⟩
  · exact node_mark (literal _ (List.suffix_refl _)) (by omega)
  · exact node_unmarked nonempty unmarked (by omega) (ends.imp_right .inl)

end DirectiveParser.Builds

/-- From any place on, a block of literal text goes on with the text that is left. -/
theorem Directive.nodesFrom_literal {context : BlockContext} {passed rest : List Char}
    (literal : IsLiteral rest) (limit : context.limit = byteLength passed + byteLength rest)
    {fuel : Nat} (enough : rest.length ≤ fuel) {draft : Draft Cursor}
    (here : draft.source = between passed rest) : ∃ after,
    (nodesFrom context fuel (literalNodes passed.reverse)).run draft =
        pure (literalNodes (passed.reverse ++ rest), after) ∧
      after.blocks.size = draft.blocks.size := by
  induction fuel generalizing passed rest draft with
  | zero =>
      obtain rfl : rest = [] := List.eq_nil_of_length_eq_zero (Nat.le_zero.mp enough)
      refine ⟨draft, ?_, rfl⟩
      rw [List.append_nil]
      exact Prod.ext (reverse_literalNodes passed.reverse) rfl
  | succ fuel induction =>
      by_cases nothing : rest = []
      · subst nothing
        refine ⟨draft, ?_, rfl⟩
        have ended : context.limit ≤ draft.source.offset := by
          rw [limit, here]
          exact Nat.le_refl _
        rw [nodesFrom_run_of_limit _ _ ended, reverse_literalNodes, List.append_nil]
      · obtain ⟨piece, later, rfl, nonempty, cut⟩ := exists_piece nothing
        have before : draft.source.offset < context.limit := by
          have positive := List.length_pos_of_ne_nil nonempty
          have bytes := length_le_byteLength piece
          rw [limit, here, offset_between, byteLength_append]
          omega
        have isText : DirectiveParser.Builds ⟨fun _ _ => True, .global⟩ (Directive.node context)
            draft.blocks.size passed piece later (.text (String.ofList piece)) [] :=
          .node_piece nonempty literal limit cut
        obtain ⟨reached, ran, place, blocks⟩ := isText.exists_run here
        have limitLater : context.limit =
            byteLength (piece.reverse ++ passed) + byteLength later := by
          rw [limit, byteLength_append, byteLength_append, byteLength_reverse]
          omega
        have enoughLater : later.length ≤ fuel := by
          have positive := List.length_pos_of_ne_nil nonempty
          rw [List.length_append] at enough
          omega
        obtain ⟨after, ranLater, sizeLater⟩ :=
          induction (literal.mono (List.suffix_append _ _)) limitLater enoughLater place
        rw [List.reverse_append, List.reverse_reverse] at ranLater
        refine ⟨after, ?_, sizeLater.trans (congrArg Array.size blocks)⟩
        rw [nodesFrom_run_of_node fuel _ before (by rw [here]; exact nothing) ran,
          append_literalNodes _ nonempty, ranLater, List.append_assoc]

theorem parsesInto_of_isLiteral {text : List Char} (literal : IsLiteral text) :
    ParsesInto text (literalNodes text) := by
  intro context draft _ limit here
  have enough : text.length ≤ draft.source.remaining + 1 := by
    have bytes := length_le_byteLength text
    have left : draft.source.remaining = byteLength text := by
      rw [here]
      rfl
    omega
  rw [Directive.nodes_run]
  exact nodesFrom_literal literal (by rw [limit, byteLength, Nat.zero_add]) enough here

variable {η : Type}

/-- Literal text is written in one piece, and nothing is written for an empty text. -/
theorem Run.ran_literalNodes (environment : Environment η) (runBlock : BlockRef → Run η Unit)
    (fuel : Nat) (scope : ScopeRef) (text : String) (session : Session η) :
    (Run.nodes (Run.node environment runBlock fuel scope) none
        (literalNodes text.toList)).run.run session =
      pure (.ok (), { session with
        writes := if text = "" then session.writes else session.writes.push text }) := by
  by_cases nothing : text = ""
  · subst nothing
    rfl
  · have nonempty : text.toList.isEmpty = false := by
      simpa [String.toList_eq_nil_iff] using nothing
    rw [literalNodes, nonempty, if_neg nothing, String.ofList_toList]
    rfl

namespace Template

variable {text : String} {options : Options} {host : Host η} {state : η} {template : Template η}

/-- Whatever became of the template of a text in which no directive begins, a render writes the text
in one piece, and nothing if it is empty. -/
theorem render_literal (literal : IsLiteral text.toList)
    (evolves : (ofString text options host state).Evolves (fun _ _ => True) template) (fuel : Nat) :
    (template.render (fuel + 1)).1.outcome = .ok () ∧
      (template.render (fuel + 1)).1.writes = (if text = "" then #[] else #[text]) ∧
      (template.render (fuel + 1)).1.output = text := by
  have parses := parsesInto_of_isLiteral literal
  obtain ⟨valid, covers, holds⟩ := evolves.covers_root parses
  rw [← show template.environment.embeddings = options.embeddings by
    rw [evolves.environment]; rfl] at valid
  let begun : Session η := { template.session with writes := #[] }
  have begins : template.session.Step (Policy.free fun _ => True) template.environment.embeddings
      begun := .begin
  obtain ⟨after, last, ran, opens, writes⟩ := Run.ran_block_of_nodes
    (begins.valid valid) (covers.mono (begins.toExtends valid)) parses holds fuel
    (fun after => after.writes = if text = "" then #[] else #[text])
    fun opened opens =>
      ⟨_, Run.ran_literalNodes _ _ _ _ text opened,
        ⟨(Session.Extends.refl opened).block, (Session.Extends.refl opened).source⟩,
        by rw [opens.writes]; rfl⟩
  have rendered : (template.render (fuel + 1)).1 =
      (fun result => ⟨result.1, result.2.writes⟩ : Except Stop Unit × Session η → Rendering)
        ((Run.block template.environment (fuel + 1) template.root).run.run begun) := rfl
  rw [rendered, ran]
  dsimp only [pure]
  refine ⟨rfl, opens.writes.trans writes, ?_⟩
  rw [Rendering.output, opens.writes, writes]
  split
  · rename_i nothing
    rw [nothing]
    rfl
  · simp

/-- Marks that begin no directive, some of them in front of what looks like one. -/
def strayMarks : String := "@ @@elsewhere @endforth – a@b.c @va @if @(π) @"

theorem render_literal_strayMarks :
    IsLiteral strayMarks.toList ∧
      ((ofString strayMarks {} Host.none ()).render 1).1.outcome = .ok () ∧
      ((ofString strayMarks {} Host.none ()).render 1).1.writes = #[strayMarks] ∧
      ((ofString strayMarks {} Host.none ()).render 1).1.output = strayMarks := by
  have literal : IsLiteral strayMarks.toList := by decide +kernel
  have nonempty : strayMarks ≠ "" := by decide
  have rendered := @render_literal Unit strayMarks {} Host.none () _ literal .refl 0
  rw [if_neg nonempty, Nat.zero_add] at rendered
  exact ⟨literal, rendered⟩

end Template

end Stencil
