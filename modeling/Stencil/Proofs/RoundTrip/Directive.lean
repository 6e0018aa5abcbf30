import Stencil.Proofs.RoundTrip.Body
import Stencil.Proofs.RoundTrip.Header

/-!
# Printed directives are read back

In front of the print of a directive every recogniser but its own declines, and its own answers the
node of the directive and makes the blocks of its bodies.
-/

namespace Stencil

open Text Directive

/-- The bodies of a tree, in order, if a number is that of the first block made for them. -/
def Tree.bodies (around : Option BlockRef) (size : Nat) : Tree → List Body
  | .loop _ body => [⟨some ⟨size⟩, "for", body⟩]
  | .branches conditions otherwise =>
      conditions.map (fun branch => ⟨around, "if", branch.2⟩) ++
        otherwise.toList.map fun body => ⟨around, "if", body⟩
  | .definePlaceholder key _ body => [⟨none, s!"placeholder {key.name}", body⟩]
  | _ => []

/-- Conditions and the blocks of their bodies, which are numbered from a number on. -/
def branchesFor (size : Nat) : List (Condition × List Tree) → List (Condition × BlockRef)
  | [] => []
  | (condition, _) :: conditions => (condition, ⟨size⟩) :: branchesFor (size + 1) conditions

/-- The node of a tree, if a number is that of the first block made for its bodies. -/
def Tree.node (around : Option BlockRef) (size : Nat) : Tree → Node
  | .text content => .text content
  | .read path => .read path
  | .declare name value constant => .declare name value constant
  | .assign name value => .assign name value
  | .loop header _ => .loop header ⟨size⟩
  | .leave => .leave (around.getD default)
  | .branches conditions otherwise =>
      .branches (branchesFor size conditions)
        (otherwise.map fun _ => ⟨size + conditions.length⟩)
  | .definePlaceholder key parameter _ => .definePlaceholder key parameter ⟨size⟩
  | .usePlaceholder key argument => .usePlaceholder key argument

/-- A text stands behind what was passed and in front of a rest, and it ends within a limit. -/
structure Placed (whole : List Char) (limit : Nat) (passed text rest : List Char) : Prop where
  whole : passed.reverse ++ text ++ rest = whole
  fits : byteLength passed + byteLength text ≤ limit

namespace Placed

variable {whole passed text later rest : List Char} {limit : Nat}

theorem before (placed : Placed whole limit passed (text ++ later) rest) :
    Placed whole limit passed text (later ++ rest) where
  whole := by
    rw [← placed.whole]
    simp
  fits := by
    have fits := placed.fits
    rw [byteLength_append] at fits
    omega

theorem after (placed : Placed whole limit passed (text ++ later) rest) :
    Placed whole limit (text.reverse ++ passed) later rest where
  whole := by
    rw [← placed.whole]
    simp
  fits := by
    have fits := placed.fits
    rw [byteLength_append] at fits
    rw [byteLength_append, byteLength_reverse]
    omega

end Placed

namespace Parser.Reads

variable {rest : List Char}

theorem declaration?_print {opening : String} (form : BindingForm) {name : String}
    {value : Expression}
    (begins : ∀ rest, Text.Reads declarationStart? opening.toList (some form) rest)
    (validName : isName name = true) (valid : value.isWellFormed = true) :
    Reads declaration? (printBinding opening name value) (some (form.node name value)) rest := by
  have text : printBinding opening name value =
      opening.toList ++ (name.toList ++ ([' ', '='] ++ ([' '] ++ (value.print ++ ['\n'])))) := by
    simp [printBinding]
  have noSpace := (value.begins_print valid).append ('\n' :: rest)
  rw [text]
  unfold declaration?
  refine bind (.scan (begins _)) (bind (.expectName _ validName rfl) ?_)
  refine bind (.expectSpacedSymbol '=' rfl) ?_
  refine bind (.scan (.skipSpace ?_)) ?_
  · simpa using noSpace.any_eq_false fun _ => isTokenSpace_of_begins
  refine bind (Grammar.expression_print _ valid (.cons rfl rfl rfl)) ?_
  exact bind_look (.scan (.acceptBreak rest)) (pure _ _)

theorem read?_print {path : Path} (valid : path.isWellFormed = true) :
    Reads read? (printRead path) (some (.read path)) rest := by
  have text : printRead path = "@var(".toList ++ (printPath true path ++ [')']) :=
    List.append_assoc ..
  rw [text]
  unfold read?
  exact bind_look (Grammar.reference_print valid) (pure _ _)

theorem leave_print {context : BlockContext} {target : BlockRef}
    (inside : context.enclosingLoop = some target) :
    Reads (leave context) ['\n'] (.leave target) rest := by
  unfold leave
  rw [inside]
  exact bind_look (.scan (.acceptBreak rest)) (pure _ _)

theorem defaultUse_print {name : String} {argument : Expression} (validName : isName name = true)
    (valid : argument.isWellFormed = true) :
    Reads defaultUse (name.toList ++ ',' :: argument.print ++ [')'])
      (.usePlaceholder (.default name) (some argument)) rest := by
  have text : name.toList ++ ',' :: argument.print ++ [')'] =
      name.toList ++ ([','] ++ (argument.print ++ [')'])) := by simp
  have noSpace := (argument.begins_print valid).append (')' :: rest)
  have reads : Reads (Grammar.expression "a placeholder argument") argument.print argument
      ([')'] ++ rest) :=
    Grammar.expression_print _ valid (.cons rfl rfl rfl)
  rw [text]
  unfold defaultUse
  refine bind (.expectName _ validName rfl) (look_bind (.scan (.skipSpaces rfl)) ?_)
  refine bind (.scan (.accept ',' _)) (look_bind (.scan (.skipSpaces ?_)) ?_)
  · simpa using noSpace.any_eq_false fun _ => isTokenSpace_of_begins
  refine bind reads (look_bind (pure _ _) ?_)
  exact bind_look (.expectSymbol ')' rfl) (pure _ _)

theorem definitionUse_print {key : Placeholder.Key} (validName : isName key.name = true)
    (validDefinition : isName key.definition = true) :
    Reads definitionUse (key.name.toList ++ ',' :: key.definition.toList ++ [')'])
      (.usePlaceholder key none) rest := by
  have text : key.name.toList ++ ',' :: key.definition.toList ++ [')'] =
      key.name.toList ++ ([','] ++ (key.definition.toList ++ [')'])) := by simp
  rw [text]
  unfold definitionUse
  refine bind (.expectName _ validName rfl) (look_bind (.scan (.skipSpaces rfl)) ?_)
  refine bind (.scan (.accept ',' _)) (bind (.expectName _ validDefinition rfl) ?_)
  exact bind_look (.expectSymbol ')' rfl) (pure _ _)

theorem furtherNames_nil (allowed : Nat) : Reads (furtherNames allowed) [] [] (')' :: rest) := by
  have noComma : (')' :: rest).head? ≠ some ',' := by simp
  cases allowed with
  | zero =>
      unfold furtherNames
      exact look_bind (.scan (.skipSpaces rfl))
        (look_bind (.scan (.accept_of_ne noComma)) (pure _ _))
  | succ allowed =>
      unfold furtherNames
      exact look_bind (.scan (.skipSpaces rfl))
        (look_bind (.scan (.accept_of_ne noComma)) (pure _ _))

theorem furtherNames_cons {allowed : Nat} {name : String} {names : List String} {later : List Char}
    (valid : isName name = true) (ends : (later ++ rest).head?.any isNamePart = false)
    (reads : Reads (furtherNames allowed) later names rest) :
    Reads (furtherNames (allowed + 1)) (',' :: name.toList ++ later) (name :: names) rest := by
  have text : ',' :: name.toList ++ later = [','] ++ (name.toList ++ later) := rfl
  rw [text]
  unfold furtherNames
  refine look_bind (.scan (.skipSpaces rfl)) (bind (.scan (.accept ',' _)) ?_)
  exact bind (.expectName _ valid ends) (bind_look reads (pure _ _))

theorem furtherNames_print {key : Placeholder.Key} {parameter : Option String}
    (validDefinition : isName key.definition = true)
    (validParameter : parameter.all isName = true) :
    Reads (furtherNames 2) (',' :: key.definition.toList ++ printName parameter)
      (key.definition :: parameter.toList) (')' :: rest) := by
  cases parameter with
  | none => exact furtherNames_cons validDefinition rfl (furtherNames_nil 1)
  | some name =>
      have text : printName (some name) = ',' :: name.toList ++ [] := by simp [printName]
      rw [text]
      exact furtherNames_cons validDefinition rfl
        (furtherNames_cons validParameter rfl (furtherNames_nil 0))

theorem branchCondition_print {condition : Condition} (valid : condition.isWellFormed = true) :
    Reads branchCondition (condition.print ++ [')', '\n']) condition rest := by
  have text : condition.print ++ [')', '\n'] = condition.print ++ ([')'] ++ ['\n']) := rfl
  have noSpace := (Condition.begins_print valid).append (')' :: '\n' :: rest)
  rw [text]
  unfold branchCondition
  refine look_bind (.scan (.skipSpaces ?_)) ?_
  · simpa using noSpace.any_eq_false fun _ => isTokenSpace_of_begins
  refine bind (Grammar.condition?_print valid) (look_bind (.require _ _ _) ?_)
  refine bind (.expectSymbol ')' rfl) ?_
  exact bind_look (.scan (.acceptBreak rest)) (pure _ _)

end Parser.Reads

theorem length_le_printBranches (before : List Char) (nonempty : 0 < before.length)
    (conditions : List (Condition × List Tree)) :
    conditions.length ≤ (printBranches before conditions).length := by
  induction conditions generalizing before with
  | nil => exact Nat.le_refl _
  | cons branch conditions induction =>
      have later := induction nextBranch (by decide)
      obtain ⟨condition, body⟩ := branch
      simp only [printBranches, List.length_append, List.length_cons]
      omega

namespace DirectiveParser.Builds

variable {α : Type} {whole passed rest : List Char} {size : Nat} {context : BlockContext}

theorem branchBody_print {keyword : String} {index : Nat} {trees : List Tree}
    (isKeyword : BodyForm.branch.keywords[index]? = some keyword)
    (isBody : IsBodyText (printAll trees)) (ends : EndsKeyword keyword rest)
    (placed : Placed whole context.limit passed (printAll trees ++ '\n' :: keyword.toList) rest) :
    Builds (.holding whole context) (branchBody context) size passed
      (printAll trees ++ '\n' :: keyword.toList) rest (⟨size⟩, index)
      [⟨context.enclosingLoop, "if", trees⟩] := by
  have found : Builds (.holding whole context)
      (DirectiveParser.parse (Directive.bodyRange context.limit BodyForm.branch.opening
        BodyForm.branch.keywords)) size passed
      (printAll trees ++ '\n' :: keyword.toList) rest
      (⟨byteLength passed, byteLength (printAll trees)⟩, index) [] :=
    bodyRange isKeyword isBody ends placed.fits
  unfold branchBody
  exact quiet_bind_look found (newBody_bind (isPrinted placed.whole) (pure _ _))

theorem lastBody_print {trees : List Tree}
    (isBody : IsBodyText (printAll trees)) (ends : rest.head?.any isNamePart = false)
    (placed : Placed whole context.limit passed
      (['\n'] ++ (printAll trees ++ '\n' :: "@endif".toList)) rest) :
    Builds (.holding whole context) (lastBody context) size passed
      (['\n'] ++ (printAll trees ++ '\n' :: "@endif".toList)) rest ⟨size⟩
      [⟨context.enclosingLoop, "if", trees⟩] := by
  have isLast : BodyForm.branch.keywords[2]? = some "@endif" := rfl
  unfold lastBody
  refine quiet_bind (scan (.acceptBreak _)) ?_
  exact bind_quiet (branchBody_print isLast isBody (fun _ => ends) placed.after) (pure _ _)

/-- From the body of a condition on. -/
theorem branchesFrom_print (conditions : List (Condition × List Tree))
    (otherwise : Option (List Tree)) {condition : Condition} {trees : List Tree} {fuel : Nat}
    (enough : conditions.length < fuel)
    (isBody : IsBodyText (printAll trees)) (soundLater : AreSoundBranches conditions)
    (soundLast : ∀ body ∈ otherwise, IsBodyText (printAll body))
    (ends : rest.head?.any isNamePart = false)
    (placed : Placed whole context.limit passed (printAll trees ++
      (printBranches nextBranch conditions ++ (printLast otherwise ++ '\n' :: "@endif".toList)))
      rest) :
    Builds (.holding whole context) (branchesFrom context fuel condition) size passed
      (printAll trees ++ (printBranches nextBranch conditions ++
        (printLast otherwise ++ '\n' :: "@endif".toList))) rest
      ((condition, ⟨size⟩) :: branchesFor (size + 1) conditions,
        otherwise.map fun _ => ⟨size + (conditions.length + 1)⟩)
      (⟨context.enclosingLoop, "if", trees⟩ ::
        (Tree.branches conditions otherwise).bodies context.enclosingLoop (size + 1)) := by
  induction conditions generalizing condition trees fuel size passed with
  | nil =>
      obtain ⟨fuel, rfl⟩ : ∃ less, fuel = less + 1 := ⟨fuel - 1, by omega⟩
      cases otherwise with
      | none =>
          have isLast : BodyForm.branch.keywords[2]? = some "@endif" := rfl
          exact bind_quiet (branchBody_print isLast isBody (fun _ => ends) placed) (pure _ _)
      | some last =>
          have isElse : BodyForm.branch.keywords[1]? = some "@else" := rfl
          have text : printAll trees ++ (printBranches nextBranch [] ++
              (printLast (some last) ++ '\n' :: "@endif".toList)) =
              (printAll trees ++ '\n' :: "@else".toList) ++
                (['\n'] ++ (printAll last ++ '\n' :: "@endif".toList)) := by
            simp [printBranches, printLast, lastBranch]
          rw [text] at placed ⊢
          refine bind (branchBody_print isElse isBody (fun _ => rfl) placed.before) ?_
          exact bind_quiet (lastBody_print (soundLast last rfl) ends placed.after) (pure _ _)
  | cons branch conditions induction =>
      obtain ⟨fuel, rfl⟩ : ∃ less, fuel = less + 1 := ⟨fuel - 1, by omega⟩
      obtain ⟨next, body⟩ := branch
      obtain ⟨validNext, isNext⟩ := soundLater _ List.mem_cons_self
      have soundBehind : AreSoundBranches conditions := fun other member =>
        soundLater other (List.mem_cons_of_mem _ member)
      have isElseif : BodyForm.branch.keywords[0]? = some "@elseif(" := rfl
      have text : printAll trees ++ (printBranches nextBranch ((next, body) :: conditions) ++
          (printLast otherwise ++ '\n' :: "@endif".toList)) =
          (printAll trees ++ '\n' :: "@elseif(".toList) ++ ((next.print ++ [')', '\n']) ++
            (printAll body ++ (printBranches nextBranch conditions ++
              (printLast otherwise ++ '\n' :: "@endif".toList)))) := by
        simp [printBranches, nextBranch, headed]
      rw [text] at placed ⊢
      have ended : EndsKeyword "@elseif(" ((next.print ++ [')', '\n']) ++ (printAll body ++
          (printBranches nextBranch conditions ++
            (printLast otherwise ++ '\n' :: "@endif".toList))) ++
          rest) :=
        fun inName => absurd inName (by decide)
      refine bind (branchBody_print isElseif isBody ended placed.before) ?_
      refine quiet_bind (parse (.branchCondition_print validNext)) ?_
      have counted : size + (((next, body) :: conditions).length + 1) =
          size + 1 + (conditions.length + 1) := by
        rw [List.length_cons]
        omega
      rw [counted]
      exact bind_quiet (induction (Nat.lt_of_succ_lt_succ enough) isNext soundBehind
        placed.after.after) (pure _ _)

theorem branches_print {conditions : List (Condition × List Tree)}
    {otherwise : Option (List Tree)} (nonempty : conditions ≠ [])
    (sound : AreSoundBranches conditions)
    (soundLast : ∀ body ∈ otherwise, IsBodyText (printAll body))
    (ends : rest.head?.any isNamePart = false)
    (placed : Placed whole context.limit passed
      (printBranches [] conditions ++ (printLast otherwise ++ '\n' :: "@endif".toList)) rest) :
    Builds (.holding whole context) (branches context) size passed
      (printBranches [] conditions ++ (printLast otherwise ++ '\n' :: "@endif".toList)) rest
      ((Tree.branches conditions otherwise).node context.enclosingLoop size)
      ((Tree.branches conditions otherwise).bodies context.enclosingLoop size) := by
  cases conditions with
  | nil => exact absurd rfl nonempty
  | cons branch conditions =>
      obtain ⟨condition, body⟩ := branch
      obtain ⟨valid, isBody⟩ := sound _ List.mem_cons_self
      have soundLater : AreSoundBranches conditions := fun other member =>
        sound other (List.mem_cons_of_mem _ member)
      have text : printBranches [] ((condition, body) :: conditions) ++
          (printLast otherwise ++ '\n' :: "@endif".toList) =
          (condition.print ++ [')', '\n']) ++ (printAll body ++
            (printBranches nextBranch conditions ++
              (printLast otherwise ++ '\n' :: "@endif".toList))) := by
        simp [printBranches, headed]
      rw [text] at placed ⊢
      refine quiet_bind (parse (.branchCondition_print valid))
        (remaining_bind fun steps enough => ?_)
      have length := length_le_printBranches nextBranch (by decide) conditions
      have bounded : conditions.length < steps + 1 := by
        simp only [List.length_append] at enough
        omega
      exact bind_quiet (branchesFrom_print conditions otherwise bounded isBody soundLater soundLast
        ends placed.after) (pure _ _)

theorem loop?_print {header : LoopHeader} {trees : List Tree}
    (validHeader : header.isWellFormed = true) (isBody : IsBodyText (printAll trees))
    (ends : rest.head?.any isNamePart = false)
    (placed : Placed whole context.limit passed (Tree.loop header trees).print rest) :
    Builds (.holding whole context) (loop? context) size passed
      (Tree.loop header trees).print rest
      (some ((Tree.loop header trees).node context.enclosingLoop size))
      ((Tree.loop header trees).bodies context.enclosingLoop size) := by
  have text : (Tree.loop header trees).print = "@for(".toList ++
    (header.print ++ ([')'] ++ (['\n'] ++
      (printAll trees ++ '\n' :: "@endfor".toList)))) := by
    simp [Tree.print, BodyForm.enclose, BodyForm.opening, BodyForm.terminator, headed]
  rw [text] at placed ⊢
  have inside := placed.after.after.after.after
  have isKeyword : BodyForm.loop.keywords[0]? = some "@endfor" := rfl
  have found : Builds (.holding whole context)
      (DirectiveParser.parse (Directive.bodyRange context.limit BodyForm.loop.opening
        BodyForm.loop.keywords)) size _ (printAll trees ++ '\n' :: "@endfor".toList) rest _ [] :=
    bodyRange isKeyword isBody (fun _ => ends) inside.fits
  refine quiet_bind (scan (.acceptText _ _)) ?_
  refine quiet_bind (parse (loopHeader_print validHeader)) ?_
  refine quiet_bind (parse (.expectSymbol ')' rfl)) ?_
  refine quiet_bind (scan (.acceptBreak _)) ?_
  exact quiet_bind_look found (newBody_bind (isPrinted inside.whole) (pure _ _))

theorem definition_print {key : Placeholder.Key} {parameter : Option String} {trees : List Tree}
    (validName : isName key.name = true) (validDefinition : isName key.definition = true)
    (validParameter : parameter.all isName = true) (isBody : IsBodyText (printAll trees))
    (placed : Placed whole context.limit passed
      (printNames key parameter ++ ([')'] ++ (['\n'] ++
        ((printAll trees ++ '\n' :: "@end_define_placeholder".toList) ++ ['\n'])))) rest) :
    Builds (.holding whole context) (definition context) size passed
      (printNames key parameter ++ ([')'] ++ (['\n'] ++
        ((printAll trees ++ '\n' :: "@end_define_placeholder".toList) ++ ['\n'])))) rest
      ((Tree.definePlaceholder key parameter trees).node context.enclosingLoop size)
      ((Tree.definePlaceholder key parameter trees).bodies context.enclosingLoop size) := by
  have names : printNames key parameter =
      key.name.toList ++ (',' :: key.definition.toList ++ printName parameter) := by
    simp [printNames]
  rw [names, List.append_assoc] at placed ⊢
  have inside := placed.after.after.after.after.before
  have isKeyword : BodyForm.placeholder.keywords[0]? = some "@end_define_placeholder" := rfl
  have found : Builds (.holding whole context)
      (DirectiveParser.parse (Directive.bodyRange context.limit BodyForm.placeholder.opening
        BodyForm.placeholder.keywords)) size _
      (printAll trees ++ '\n' :: "@end_define_placeholder".toList) (['\n'] ++ rest) _ [] :=
    bodyRange isKeyword isBody (fun _ => rfl) inside.fits
  have further : (key.definition :: parameter.toList)[1]? = parameter := by
    cases parameter <;> rfl
  refine quiet_bind (parse (.expectName _ validName rfl)) ?_
  refine quiet_bind (parse (.furtherNames_print validDefinition validParameter)) ?_
  refine quiet_bind (parse (.expectSymbol ')' rfl)) ?_
  refine quiet_bind (scan (.acceptBreak _)) (quiet_bind found ?_)
  rw [further]
  exact quiet_bind_look (scan (.acceptBreak _)) (newBody_bind (isPrinted inside.whole) (pure _ _))

end DirectiveParser.Builds

end Stencil
