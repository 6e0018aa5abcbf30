import Stencil.Proofs.Directive.Growth
import Stencil.Proofs.RoundTrip.Directive

/-!
# Printed bodies are read back

A block whose range is the print of some trees is parsed into the nodes of these trees.
-/

namespace Stencil

open Text Text.Cursor Directive

variable {whole passed text rest : List Char}

/-- A text begins with none of some literals. -/
def BeginsWithNone (literals : List String) (text : List Char) : Prop :=
  ∀ literal ∈ literals, ¬literal.toList <+: text

/-- Whether of an opening and each of some literals neither begins the other. -/
def isApart (opening : String) (literals : List String) : Bool :=
  literals.all fun literal =>
    !literal.toList.isPrefixOf opening.toList && !opening.toList.isPrefixOf literal.toList

theorem beginsWithNone {literals : List String} {opening : String}
    (apart : isApart opening literals = true) (rest : List Char) :
    BeginsWithNone literals (opening.toList ++ rest) := by
  intro literal member begins
  have different := List.all_eq_true.mp apart literal member
  simp only [Bool.and_eq_true, Bool.not_eq_true', ← Bool.not_eq_true,
    List.isPrefixOf_iff_prefix] at different
  rcases List.prefix_or_prefix_of_prefix begins (List.prefix_append opening.toList rest) with
    shorter | longer
  · exact different.1 shorter
  · exact different.2 longer

/-- A text of a block ends at a mark, at the end of the source or at the end of the block. -/
def EndsText (limit : Nat) (passed content rest : List Char) : Prop :=
  rest.head? = some '@' ∨ rest = [] ∨ limit ≤ byteLength passed + byteLength content

theorem textFrom_run_of_ends {limit : Nat} (ends : EndsText limit passed [] rest) (fuel : Nat)
    (taken : List Char) :
    (textFrom limit fuel taken).run (between passed rest) = pure (taken, between passed rest) := by
  cases fuel with
  | zero => rfl
  | succ fuel =>
      by_cases before : byteLength passed < limit
      · rcases ends with mark | rfl | past
        · simp [textFrom, before, mark]
        · simp [textFrom, before]
        · exact absurd before (Nat.not_lt.mpr past)
      · simp [textFrom, before]

theorem textFrom_run {limit : Nat} {content : List Char} (unmarked : isUnmarked content = true)
    (fits : byteLength passed + byteLength content ≤ limit)
    (ends : EndsText limit passed content rest) {fuel : Nat} (enough : content.length ≤ fuel)
    (taken : List Char) :
    (textFrom limit fuel taken).run (between passed (content ++ rest)) =
      pure (content.reverse ++ taken, between (content.reverse ++ passed) rest) := by
  induction content generalizing fuel passed taken with
  | nil => exact textFrom_run_of_ends ends fuel taken
  | cons character content induction =>
      obtain ⟨fuel, rfl⟩ : ∃ less, fuel = less + 1 := ⟨fuel - 1, by
        rw [List.length_cons] at enough
        omega⟩
      simp only [isUnmarked, List.all_cons, Bool.and_eq_true, bne_iff_ne] at unmarked
      have positive := character.utf8Size_pos
      simp only [byteLength] at fits
      have before : byteLength passed < limit := by omega
      have fitsLater : byteLength (character :: passed) + byteLength content ≤ limit := by
        simp only [byteLength]
        omega
      have endsLater : EndsText limit (character :: passed) content rest := by
        simpa only [EndsText, byteLength, Nat.add_assoc, Nat.add_left_comm] using ends
      have later := induction unmarked.2 fitsLater endsLater (Nat.le_of_succ_le_succ enough)
        (character :: taken)
      have moved : (between passed (character :: (content ++ rest))).advance =
          between (character :: passed) (content ++ rest) := advance_between_cons _ _ _
      simp [textFrom, before, unmarked.1, moved, later]

namespace DirectiveParser.Builds

variable {making : Making} {size limit : Nat} {context : BlockContext}

theorem text?_print {content : List Char} (unmarked : isUnmarked content = true)
    (fits : byteLength passed + byteLength content ≤ limit)
    (ends : EndsText limit passed content rest) :
    Builds making (DirectiveParser.scan (text? limit)) size passed content rest
      (if content.isEmpty then none else some (.text (String.ofList content))) [] := by
  have enough := Text.Reads.length_le_remaining content rest
  have taken := textFrom_run unmarked fits ends (Nat.le_succ_of_le enough) []
  have left : (between passed (content ++ rest)).remaining = byteLength (content ++ rest) := rfl
  apply scan_run
  cases content with
  | nil => simp_all [text?]
  | cons character content => simp_all [text?]

/-- Nothing is text in front of a mark. -/
theorem text?_mark (fits : byteLength passed ≤ limit) :
    Builds making (DirectiveParser.scan (text? limit)) size passed [] ('@' :: rest) none [] :=
  text?_print rfl fits (.inl rfl)

theorem declaration?_none (declines : BeginsWithNone ["@var ", "@const ", "@set_var "] rest) :
    Builds making (DirectiveParser.parse declaration?) size passed [] rest none [] := by
  have noStart : Text.Reads declarationStart? [] none rest := by
    unfold declarationStart?
    refine Text.Reads.look_bind (.acceptText_of_not _ (declines _ (by simp))) ?_
    refine Text.Reads.look_bind (.acceptText_of_not _ (declines _ (by simp))) ?_
    exact Text.Reads.look_bind (.acceptText_of_not _ (declines _ (by simp))) (.pure _ _)
  apply parse
  unfold declaration?
  exact Parser.Reads.look_bind (.scan noStart) (.pure _ _)

theorem loop?_none (declines : BeginsWithNone ["@for("] rest) :
    Builds making (loop? context) size passed [] rest none [] := by
  unfold loop?
  exact quiet_bind (scan (.acceptText_of_not _ (declines _ (by simp)))) (pure _ _)

theorem placeholder?_none
    (declines : BeginsWithNone ["@define_placeholder(", "@placeholder(",
      "@use_placeholder("] rest) :
    Builds making (placeholder? context) size passed [] rest none [] := by
  unfold placeholder?
  refine quiet_bind (scan (.acceptText_of_not _ (declines _ (by simp)))) ?_
  refine quiet_bind (scan (.acceptText_of_not _ (declines _ (by simp)))) ?_
  exact quiet_bind (scan (.acceptText_of_not _ (declines _ (by simp)))) (pure _ _)

theorem read?_none (declines : BeginsWithNone ["@var(", "@const("] rest) :
    Builds making (DirectiveParser.parse read?) size passed [] rest none [] := by
  have noOpening : Text.Reads (Scan.acceptText "@var(" : StateM Cursor Bool) [] false rest :=
    .acceptText_of_not _ (declines _ (by simp))
  have noOther : Text.Reads (Scan.acceptText "@const(" : StateM Cursor Bool) [] false rest :=
    .acceptText_of_not _ (declines _ (by simp))
  have noReference : Parser.Reads Grammar.reference [] none rest := by
    unfold Grammar.reference Grammar.reference?
    exact .look_bind (.scan noOpening) (.look_bind (.scan noOther) (.pure _ _))
  apply parse
  unfold read?
  exact Parser.Reads.look_bind noReference (.pure _ _)

theorem pointer_bind {α : Type} {next : Nat → DirectiveParser Cursor α} {result : α}
    {bodies : List Body} (there :
      Builds making (next (byteLength passed)) size passed text rest result
      bodies) :
    Builds making (DirectiveParser.scan Scan.pointer >>= next) size passed text rest
        result bodies := by
  intro draft here sized
  have offset : draft.source.offset = byteLength passed := by rw [here, offset_between]
  have later := there draft here sized
  rwa [← offset] at later

theorem returnTo :
    Builds making (DirectiveParser.scan (Scan.returnTo (byteLength passed))) size passed [] rest ()
      [] :=
  scan_run (Text.Reads.returnTo_run passed [] rest)

variable {recogniser : DirectiveParser Cursor (Option Node)}
  {recognisers : List (DirectiveParser Cursor (Option Node))} {bodies : List Body}

theorem firstOf?_accepts {node : Node}
    (accepts : Builds making recogniser size passed text rest (some node) bodies) :
    Builds making (firstOf? (recogniser :: recognisers)) size passed text rest (some node) bodies :=
  pointer_bind (bind_quiet accepts (pure _ _))

theorem firstOf?_declines {found : Option Node}
    (declines : Builds making recogniser size passed [] (text ++ rest) none [])
    (later : Builds making (firstOf? recognisers) size passed text rest found bodies) :
    Builds making (firstOf? (recogniser :: recognisers)) size passed text rest found bodies :=
  pointer_bind (quiet_bind declines (quiet_bind returnTo later))

end DirectiveParser.Builds

/-- How the directive of a tree begins. -/
def Tree.opening : Tree → String
  | .text _ => ""
  | .read _ => "@var("
  | .declare _ _ constant => if constant then "@const " else "@var "
  | .assign .. => "@set_var "
  | .loop .. => "@for("
  | .leave => "@breakfor"
  | .branches .. => "@if("
  | .definePlaceholder .. => "@define_placeholder("
  | .usePlaceholder _ (some _) => "@placeholder("
  | .usePlaceholder _ none => "@use_placeholder("

theorem Tree.opening_isPrefix (tree : Tree) : tree.opening.toList <+: tree.print := by
  cases tree with
  | usePlaceholder key argument =>
      cases argument <;>
        simp only [Tree.print, Tree.opening, printUse, printCall, List.append_assoc,
          List.prefix_append]
  | leave => decide
  | text content => simp [Tree.opening]
  | read path => exact ⟨printPath true path ++ [')'], (List.append_assoc ..).symm⟩
  | _ =>
      simp only [Tree.print, Tree.opening, printBinding, BodyForm.enclose, BodyForm.opening,
        List.append_assoc, List.prefix_append]

theorem Tree.head?_opening (tree : Tree) (isDirective : tree.opening ≠ "") :
    tree.opening.toList.head? = some '@' := by
  cases tree with
  | text content => exact absurd rfl isDirective
  | declare name value constant => cases constant <;> simp [Tree.opening]
  | usePlaceholder key argument => cases argument <;> simp [Tree.opening]
  | _ => simp [Tree.opening]

namespace DirectiveParser.Builds

variable {making : Making} {size : Nat} {context : BlockContext}

theorem node_of_firstOf? {node : Node} {bodies : List Body}
    (found : Builds making (firstOf? (recognisers context)) size passed text rest
      (some node) bodies) :
    Builds making (Directive.node context) size passed text rest node bodies := by
  unfold Directive.node
  exact bind_quiet found (pure _ _)

theorem declarationStart?_variable (rest : List Char) :
    Text.Reads declarationStart? "@var ".toList (some .variable) rest := by
  unfold declarationStart?
  exact Text.Reads.bind_look (.acceptText _ _) (.pure _ _)

theorem declarationStart?_constant (rest : List Char) :
    Text.Reads declarationStart? "@const ".toList (some .constant) rest := by
  have declines : BeginsWithNone ["@var "] ("@const ".toList ++ rest) :=
    beginsWithNone (by decide) _
  unfold declarationStart?
  refine Text.Reads.look_bind (.acceptText_of_not _ (declines _ (by simp))) ?_
  exact Text.Reads.bind_look (.acceptText _ _) (.pure _ _)

theorem declarationStart?_assignment (rest : List Char) :
    Text.Reads declarationStart? "@set_var ".toList (some .assignment) rest := by
  have declines : BeginsWithNone ["@var ", "@const "] ("@set_var ".toList ++ rest) :=
    beginsWithNone (by decide) _
  unfold declarationStart?
  refine Text.Reads.look_bind (.acceptText_of_not _ (declines _ (by simp))) ?_
  refine Text.Reads.look_bind (.acceptText_of_not _ (declines _ (by simp))) ?_
  exact Text.Reads.bind_look (.acceptText _ _) (.pure _ _)

theorem declined_bind {α : Type} {next : Bool → DirectiveParser Cursor α} {result : α}
    {bodies : List Body} {literal : String} (declines : BeginsWithNone [literal] (text ++ rest))
    (there : Builds making (next false) size passed text rest result bodies) :
    Builds making (DirectiveParser.scan (Scan.acceptText literal) >>= next) size passed
      text rest result
      bodies :=
  quiet_bind (scan (.acceptText_of_not literal (declines literal List.mem_cons_self))) there

theorem placeholder?_define {key : Placeholder.Key} {parameter : Option String} {body : List Tree}
    (sound : (Tree.definePlaceholder key parameter body).IsSound context.enclosingLoop.isSome)
    (placed : Placed whole context.limit passed (Tree.definePlaceholder key parameter body).print
      rest) :
    Builds (.holding whole context) (placeholder? context) size passed
      (Tree.definePlaceholder key parameter body).print rest
      (some ((Tree.definePlaceholder key parameter body).node context.enclosingLoop size))
      ((Tree.definePlaceholder key parameter body).bodies context.enclosingLoop size) := by
  have text : (Tree.definePlaceholder key parameter body).print = "@define_placeholder(".toList ++
      (printNames key parameter ++ ([')'] ++ (['\n'] ++
        ((printAll body ++ '\n' :: "@end_define_placeholder".toList) ++ ['\n'])))) := by
    simp [Tree.print, BodyForm.enclose, BodyForm.opening, BodyForm.terminator, headed]
  obtain ⟨validName, validDefinition, validParameter, isBody⟩ := sound
  rw [text] at placed ⊢
  unfold placeholder?
  refine quiet_bind (scan (.acceptText _ _)) ?_
  exact bind_quiet (definition_print validName validDefinition validParameter isBody
    placed.after) (pure _ _)

theorem placeholder?_use {key : Placeholder.Key} {argument : Option Expression} {inLoop : Bool}
    (valid : (Tree.usePlaceholder key argument).isWellFormed inLoop = true) :
    Builds making (placeholder? context) size passed (printUse key argument) rest
      (some (.usePlaceholder key argument)) [] := by
  simp only [Tree.isWellFormed, Bool.and_eq_true, Bool.or_eq_true, beq_iff_eq] at valid
  obtain ⟨⟨⟨validName, validDefinition⟩, validArgument⟩, isDefault⟩ := valid
  unfold placeholder?
  cases argument with
  | some argument =>
      have text : printUse key (some argument) = "@placeholder(".toList ++
          (key.name.toList ++ ',' :: argument.print ++ [')']) := by
        simp [printUse, printCall]
      have isKey : Placeholder.Key.default key.name = key := by
        have same : key.definition = key.name := isDefault.resolve_left Bool.false_ne_true
        exact congrArg (Placeholder.Key.mk key.name) same.symm
      have uses : Parser.Reads defaultUse (key.name.toList ++ ',' :: argument.print ++ [')'])
          (.usePlaceholder (.default key.name) (some argument)) rest :=
        .defaultUse_print validName validArgument
      rw [isKey] at uses
      rw [text]
      apply declined_bind
      · rw [List.append_assoc]
        exact beginsWithNone (by decide) _
      refine quiet_bind (scan (.acceptText _ _)) ?_
      exact bind_quiet (parse uses) (pure _ _)
  | none =>
      have text : printUse key none = "@use_placeholder(".toList ++
          (key.name.toList ++ ',' :: key.definition.toList ++ [')']) := by
        simp [printUse, printCall]
      rw [text]
      apply declined_bind
      · rw [List.append_assoc]
        exact beginsWithNone (by decide) _
      apply declined_bind
      · rw [List.append_assoc]
        exact beginsWithNone (by decide) _
      refine quiet_bind (scan (.acceptText _ _)) ?_
      exact bind_quiet (parse (.definitionUse_print validName validDefinition)) (pure _ _)

theorem nested?_leave (inLoop : context.enclosingLoop.isSome = true) :
    Builds making (nested? context) size passed printLeave rest
      (some (.leave (context.enclosingLoop.getD default))) [] := by
  obtain ⟨target, around⟩ := Option.isSome_iff_exists.mp inLoop
  have text : printLeave = "@breakfor".toList ++ ['\n'] := by decide
  rw [text, around]
  unfold nested?
  refine quiet_bind (scan (.acceptText _ _)) ?_
  exact bind_quiet (parse (.leave_print around)) (pure _ _)

theorem nested?_branches {conditions : List (Condition × List Tree)}
    {otherwise : Option (List Tree)}
    (sound : (Tree.branches conditions otherwise).IsSound context.enclosingLoop.isSome)
    (ends : rest.head?.any isNamePart = false)
    (placed : Placed whole context.limit passed (Tree.branches conditions otherwise).print rest) :
    Builds (.holding whole context) (nested? context) size passed
      (Tree.branches conditions otherwise).print rest
      (some ((Tree.branches conditions otherwise).node context.enclosingLoop size))
      ((Tree.branches conditions otherwise).bodies context.enclosingLoop size) := by
  obtain ⟨nonempty, soundBranches, soundLast⟩ := sound
  have text : (Tree.branches conditions otherwise).print = "@if(".toList ++
      (printBranches [] conditions ++ (printLast otherwise ++ '\n' :: "@endif".toList)) := by
    simp [Tree.print, BodyForm.enclose, BodyForm.opening, BodyForm.terminator]
  rw [text] at placed ⊢
  unfold nested?
  apply declined_bind
  · rw [List.append_assoc]
    exact beginsWithNone (by decide) _
  refine quiet_bind (scan (.acceptText _ _)) ?_
  exact bind_quiet (branches_print nonempty soundBranches soundLast ends placed.after)
    (pure _ _)

/-- In front of the print of a directive its own recogniser is the first that accepts. -/
theorem node_print {tree : Tree} (isDirective : tree.opening ≠ "")
    (sound : tree.IsSound context.enclosingLoop.isSome) (ends : tree.EndsBefore rest)
    (placed : Placed whole context.limit passed tree.print rest) :
    Builds (.holding whole context) (Directive.node context) size passed tree.print rest
      (tree.node context.enclosingLoop size) (tree.bodies context.enclosingLoop size) := by
  obtain ⟨more, text⟩ := tree.opening_isPrefix
  have declines {literals : List String} (opening : String) (begins : tree.opening = opening)
      (apart : isApart opening literals = true) : BeginsWithNone literals (tree.print ++ rest) := by
    rw [← text, List.append_assoc, begins]
    exact beginsWithNone apart _
  have noText : Builds (.holding whole context) (DirectiveParser.scan (text? context.limit)) size
      passed [] (tree.print ++ rest) none [] := by
    obtain ⟨letters, mark⟩ := List.head?_eq_some_iff.mp (tree.head?_opening isDirective)
    rw [← text, mark]
    exact text?_mark (by have := placed.fits; omega)
  apply node_of_firstOf?
  apply firstOf?_declines noText
  cases tree with
  | text content => exact absurd rfl isDirective
  | declare name value constant =>
      simp only [Tree.IsSound, Tree.isWellFormed, Bool.and_eq_true] at sound
      apply firstOf?_accepts
      cases constant with
      | true =>
          exact parse (.declaration?_print .constant declarationStart?_constant sound.1 sound.2)
      | false =>
          exact parse (.declaration?_print .variable declarationStart?_variable sound.1 sound.2)
  | assign name value =>
      simp only [Tree.IsSound, Tree.isWellFormed, Bool.and_eq_true] at sound
      apply firstOf?_accepts
      exact parse (.declaration?_print .assignment declarationStart?_assignment sound.1 sound.2)
  | loop header body =>
      apply firstOf?_declines (declaration?_none (declines "@for(" rfl (by decide)))
      apply firstOf?_accepts
      exact loop?_print sound.1 sound.2 ends placed
  | definePlaceholder key parameter body =>
      apply firstOf?_declines (declaration?_none (declines "@define_placeholder(" rfl (by decide)))
      apply firstOf?_declines (loop?_none (declines "@define_placeholder(" rfl (by decide)))
      apply firstOf?_accepts
      exact placeholder?_define sound placed
  | usePlaceholder key argument =>
      cases argument with
      | some argument =>
          apply firstOf?_declines (declaration?_none (declines "@placeholder(" rfl (by decide)))
          apply firstOf?_declines (loop?_none (declines "@placeholder(" rfl (by decide)))
          exact firstOf?_accepts (placeholder?_use sound)
      | none =>
          apply firstOf?_declines (declaration?_none (declines "@use_placeholder(" rfl (by decide)))
          apply firstOf?_declines (loop?_none (declines "@use_placeholder(" rfl (by decide)))
          exact firstOf?_accepts (placeholder?_use sound)
  | read path =>
      apply firstOf?_declines (declaration?_none (declines "@var(" rfl (by decide)))
      apply firstOf?_declines (loop?_none (declines "@var(" rfl (by decide)))
      apply firstOf?_declines (placeholder?_none (declines "@var(" rfl (by decide)))
      apply firstOf?_accepts
      exact parse (.read?_print sound)
  | leave =>
      apply firstOf?_declines (declaration?_none (declines "@breakfor" rfl (by decide)))
      apply firstOf?_declines (loop?_none (declines "@breakfor" rfl (by decide)))
      apply firstOf?_declines (placeholder?_none (declines "@breakfor" rfl (by decide)))
      apply firstOf?_declines (read?_none (declines "@breakfor" rfl (by decide)))
      apply firstOf?_accepts
      exact nested?_leave sound
  | branches conditions otherwise =>
      apply firstOf?_declines (declaration?_none (declines "@if(" rfl (by decide)))
      apply firstOf?_declines (loop?_none (declines "@if(" rfl (by decide)))
      apply firstOf?_declines (placeholder?_none (declines "@if(" rfl (by decide)))
      apply firstOf?_declines (read?_none (declines "@if(" rfl (by decide)))
      exact firstOf?_accepts (nested?_branches sound ends placed)

end DirectiveParser.Builds

/-- The nodes of some trees, if a number is that of the first block made for their bodies. -/
def nodesFor (around : Option BlockRef) : Nat → List Tree → List Node
  | _, [] => []
  | size, tree :: trees =>
      tree.node around size :: nodesFor around (size + (tree.bodies around size).length) trees

/-- The bodies of some trees, in order. -/
def bodiesFor (around : Option BlockRef) : Nat → List Tree → List Body
  | _, [] => []
  | size, tree :: trees =>
      tree.bodies around size ++
        bodiesFor around (size + (tree.bodies around size).length) trees

/-- No text ends the nodes before, which are listed last first, if the first tree is a text. -/
def Joins (parsed : List Node) (trees : List Tree) : Prop :=
  ∀ before content, parsed.head? = some (.text before) → trees.head? ≠ some (.text content)

theorem Tree.joins {tree : Tree} {trees : List Tree} (apart : tree.goesBefore trees = true)
    (around : Option BlockRef) (size : Nat) (parsed : List Node) :
    Joins (tree.node around size :: parsed) trees := by
  intro before content isText isNext
  obtain ⟨later, rfl⟩ := List.head?_eq_some_iff.mp isNext
  cases tree with
  | text content => cases apart
  | _ => cases isText

/-- A node that is no text, or stands behind no text, is added as it is. -/
theorem Node.append_of_joins {tree : Tree} {trees : List Tree} {parsed : List Node}
    (joins : Joins parsed (tree :: trees)) (around : Option BlockRef) (size : Nat) :
    Node.append parsed (tree.node around size) = tree.node around size :: parsed := by
  cases parsed with
  | nil => rfl
  | cons last parsed =>
      cases last with
      | text before =>
          cases tree with
          | text content => exact absurd rfl (joins before content rfl)
          | _ => rfl
      | _ => rfl

theorem Tree.byteLength_print_pos {tree : Tree} {inLoop : Bool}
    (sound : tree.IsSound inLoop) : 0 < byteLength tree.print := by
  cases isEmpty : tree.print with
  | cons character text =>
      have positive := character.utf8Size_pos
      rw [byteLength]
      omega
  | nil =>
      have begins := Tree.head?_print sound []
      rw [isEmpty] at begins
      rcases begins with ⟨content, rfl, none⟩ | mark
      · simp only [Tree.IsSound, Tree.isWellFormed, Bool.and_eq_true, Bool.not_eq_true'] at sound
        rw [show content.toList = [] from isEmpty] at sound
        cases sound.1
      · cases mark

variable {context : BlockContext} {size : Nat}

/-- A text in front of a directive or the end of the block is one node. -/
theorem DirectiveParser.Builds.node_text {making : Making} {content : String}
    (nonempty : content.toList ≠ []) (unmarked : isUnmarked content.toList = true)
    (fits : byteLength passed + byteLength content.toList ≤ context.limit)
    (ends : EndsText context.limit passed content.toList rest) :
    Builds making (Directive.node context) size passed content.toList rest (.text content) [] := by
  have isText : Builds making (DirectiveParser.scan (text? context.limit)) size passed
      content.toList rest _ [] := text?_print unmarked fits ends
  rw [if_neg (by simpa using nonempty), String.ofList_toList] at isText
  exact node_of_firstOf? (firstOf?_accepts isText)

theorem Directive.nodesFrom_run_of_node (fuel : Nat) (parsed : List Node) {node : Node}
    {draft after : Draft Cursor} (before : draft.source.offset < context.limit)
    (more : draft.source.rest ≠ [])
    (ran : (Directive.node context).run.run draft = pure (.ok node, after)) :
    (nodesFrom context (fuel + 1) parsed).run draft =
      (nodesFrom context fuel (Node.append parsed node)).run after := by
  have inside : decide (context.limit ≤ draft.source.offset) = false :=
    decide_eq_false (Nat.not_le.mpr before)
  have unfinished : draft.source.rest.isEmpty = false := List.isEmpty_eq_false_iff.mpr more
  rw [Directive.nodesFrom_succ_run, scan_atLimit_run, inside, unfinished, Bool.false_or]
  dsimp only [Pure.pure]
  rw [ran]
  rfl

/-- A text ends in front of what may follow it. -/
theorem Tree.endsText_printAll {content : String} {trees : List Tree} {inLoop : Bool} {limit : Nat}
    (apart : (Tree.text content).goesBefore trees = true)
    (sound : AreSound inLoop trees)
    (reaches : limit = byteLength passed + byteLength (content.toList ++ printAll trees)) :
    EndsText limit passed content.toList (printAll trees ++ rest) := by
  cases trees with
  | nil =>
      rw [printAll, List.append_nil] at reaches
      exact .inr (.inr (Nat.le_of_eq reaches))
  | cons next trees =>
      rw [printAll, List.append_assoc]
      rcases next.head?_print sound.1 (printAll trees ++ rest) with ⟨other, rfl, -⟩ | mark
      · cases apart
      · exact .inl mark

/-- The node of a tree that stands in front of others. -/
theorem DirectiveParser.Builds.tree_print {tree : Tree} {trees : List Tree}
    (sound : AreSound context.enclosingLoop.isSome (tree :: trees))
    (ends : rest.head?.any isNamePart = false)
    (limit : context.limit = byteLength passed + byteLength (tree.print ++ printAll trees))
    (text : passed.reverse ++ (tree.print ++ printAll trees) ++ rest = whole) :
    Builds (.holding whole context) (Directive.node context) size passed tree.print
      (printAll trees ++ rest) (tree.node context.enclosingLoop size)
      (tree.bodies context.enclosingLoop size) := by
  have placed : Placed whole context.limit passed (tree.print ++ printAll trees) rest :=
    ⟨text, Nat.le_of_eq limit.symm⟩
  obtain ⟨soundTree, apart, soundLater⟩ := sound
  by_cases isDirective : tree.opening = ""
  · cases tree with
    | text content =>
        simp only [Tree.IsSound, Tree.isWellFormed, Bool.and_eq_true, Bool.not_eq_true',
          List.isEmpty_eq_false_iff] at soundTree
        exact node_text soundTree.1 soundTree.2 placed.before.fits
          (Tree.endsText_printAll apart soundLater limit)
    | declare name value constant => cases constant <;> simp [Tree.opening] at isDirective
    | usePlaceholder key argument => cases argument <;> simp [Tree.opening] at isDirective
    | _ => simp [Tree.opening] at isDirective
  · exact node_print isDirective soundTree (Tree.endsBefore_printAll apart soundLater ends)
      placed.before

/-- From a tree on, the rest of a block is read back. -/
theorem Directive.nodesFrom_print (trees : List Tree)
    (sound : AreSound context.enclosingLoop.isSome trees)
    (ends : rest.head?.any isNamePart = false)
    (limit : context.limit = byteLength passed + byteLength (printAll trees))
    (text : passed.reverse ++ printAll trees ++ rest = whole) {fuel : Nat}
    (enough : trees.length ≤ fuel) {parsed : List Node} (joins : Joins parsed trees)
    {draft : Draft Cursor} (here : draft.source = between passed (printAll trees ++ rest)) :
    ∃ made after, (nodesFrom context fuel parsed).run draft =
        pure (parsed.reverse ++ nodesFor context.enclosingLoop draft.blocks.size trees, after) ∧
      after.blocks.toList = draft.blocks.toList ++ made ∧ after.sources = draft.sources ∧
      (Making.holding whole context).Makes draft.heap
        (bodiesFor context.enclosingLoop draft.blocks.size trees) made after.heap := by
  induction trees generalizing fuel parsed passed draft with
  | nil =>
      have ended : context.limit ≤ draft.source.offset := by
        rw [limit, here]
        exact Nat.le_refl _
      refine ⟨[], draft, ?_, (List.append_nil _).symm, rfl, .nil _⟩
      rw [nodesFrom_run_of_limit fuel parsed ended, nodesFor, List.append_nil]
  | cons tree trees induction =>
      obtain ⟨fuel, rfl⟩ : ∃ less, fuel = less + 1 := ⟨fuel - 1, by
        rw [List.length_cons] at enough
        omega⟩
      rw [printAll] at limit text here
      have positive := tree.byteLength_print_pos sound.1
      have before : draft.source.offset < context.limit := by
        rw [limit, here, offset_between, byteLength_append]
        omega
      have more : draft.source.rest ≠ [] := by
        intro nothing
        rw [here, rest_between, List.append_assoc] at nothing
        rw [(List.append_eq_nil_iff.mp nothing).1] at positive
        cases positive
      rw [List.append_assoc] at here
      obtain ⟨made, reached, ran, place, blocks, sources, makes⟩ :=
        DirectiveParser.Builds.tree_print sound ends limit text draft here rfl
      have size : reached.blocks.size =
          draft.blocks.size + (tree.bodies context.enclosingLoop draft.blocks.size).length := by
        rw [← Array.length_toList, blocks, List.length_append, Array.length_toList,
          makes.forall₂.length_eq]
      have limitLater : context.limit =
          byteLength (tree.print.reverse ++ passed) + byteLength (printAll trees) := by
        rw [limit, byteLength_append, byteLength_append, byteLength_reverse]
        omega
      have textLater : (tree.print.reverse ++ passed).reverse ++ printAll trees ++
          rest = whole := by
        rw [← text]
        simp
      obtain ⟨madeLater, after, ranLater, blocksAfter, sourcesAfter, makesLater⟩ :=
        induction sound.2.2 limitLater textLater (Nat.le_of_succ_le_succ enough)
          (Tree.joins sound.2.1 context.enclosingLoop draft.blocks.size parsed) place
      rw [size] at ranLater makesLater
      refine ⟨made ++ madeLater, after, ?_, ?_, sourcesAfter.trans sources,
        makes.append makesLater⟩
      · rw [nodesFrom_run_of_node fuel parsed before more ran, Node.append_of_joins joins, ranLater,
          nodesFor, List.reverse_cons, List.append_assoc]
        rfl
      · rw [blocksAfter, blocks, List.append_assoc]

theorem length_le_byteLength_printAll {trees : List Tree} {inLoop : Bool}
    (sound : AreSound inLoop trees) : trees.length ≤ byteLength (printAll trees) := by
  induction trees with
  | nil => exact Nat.le_refl _
  | cons tree trees induction =>
      have first := tree.byteLength_print_pos sound.1
      have later := induction sound.2.2
      rw [printAll, List.length_cons, byteLength_append]
      omega

/-- A range that is the print of some trees is parsed into their nodes. -/
theorem Directive.nodes_print {trees : List Tree}
    (sound : AreSound context.enclosingLoop.isSome trees)
    (ends : rest.head?.any isNamePart = false)
    (limit : context.limit = byteLength passed + byteLength (printAll trees))
    (text : passed.reverse ++ printAll trees ++ rest = whole) {draft : Draft Cursor}
    (here : draft.source = between passed (printAll trees ++ rest)) :
    ∃ made after, (Directive.nodes context).run draft =
        pure (nodesFor context.enclosingLoop draft.blocks.size trees, after) ∧
      after.blocks.toList = draft.blocks.toList ++ made ∧ after.sources = draft.sources ∧
      (Making.holding whole context).Makes draft.heap
        (bodiesFor context.enclosingLoop draft.blocks.size trees) made after.heap := by
  have enough : trees.length ≤ draft.source.remaining + 1 := by
    have bytes := length_le_byteLength_printAll sound
    have left : draft.source.remaining = byteLength (printAll trees ++ rest) := by
      rw [here]
      rfl
    rw [left, byteLength_append]
    omega
  have joins : Joins [] trees := fun _ _ isText => by cases isText
  rw [Directive.nodes_run]
  exact Directive.nodesFrom_print trees sound ends limit text enough joins here

theorem areWellFormed_of_mem {conditions : List (Condition × List Tree)} {inLoop : Bool}
    (valid : areWellFormedBranches inLoop conditions = true) {branch : Condition × List Tree}
    (listed : branch ∈ conditions) : areWellFormed inLoop branch.2 = true := by
  induction conditions with
  | nil => cases listed
  | cons first conditions induction =>
      simp only [areWellFormedBranches, Bool.and_eq_true] at valid
      rcases List.mem_cons.mp listed with rfl | later
      · exact valid.1.2
      · exact induction valid.2 later

/-- The bodies of trees that can be written can be written. -/
theorem Tree.areWellFormed_bodies {tree : Tree} {around : Option BlockRef} {size : Nat}
    (valid : tree.isWellFormed around.isSome = true) {body : Body}
    (member : body ∈ tree.bodies around size) :
    areWellFormed body.around.isSome body.trees = true := by
  cases tree with
  | loop header trees =>
      simp only [Tree.isWellFormed, Bool.and_eq_true] at valid
      obtain rfl := List.mem_singleton.mp member
      exact valid.2
  | definePlaceholder key parameter trees =>
      simp only [Tree.isWellFormed, Bool.and_eq_true] at valid
      obtain rfl := List.mem_singleton.mp member
      exact valid.2
  | branches conditions otherwise =>
      simp only [Tree.isWellFormed, Bool.and_eq_true] at valid
      rcases List.mem_append.mp member with isBranch | isLast
      · obtain ⟨branch, listed, rfl⟩ := List.mem_map.mp isBranch
        exact areWellFormed_of_mem valid.1.2 listed
      · obtain ⟨trees, listed, rfl⟩ := List.mem_map.mp isLast
        obtain rfl := Option.mem_toList.mp listed
        exact valid.2
  | _ => cases member

theorem areWellFormed_bodiesFor {trees : List Tree} {around : Option BlockRef} {size : Nat}
    (valid : areWellFormed around.isSome trees = true) {body : Body}
    (member : body ∈ bodiesFor around size trees) :
    areWellFormed body.around.isSome body.trees = true := by
  induction trees generalizing size with
  | nil => cases member
  | cons tree trees induction =>
      simp only [areWellFormed, Bool.and_eq_true] at valid
      rcases List.mem_append.mp member with isFirst | isLater
      · exact Tree.areWellFormed_bodies valid.1.1 isFirst
      · exact induction valid.2 isLater

end Stencil
