import Stencil.Proofs.RoundTrip.Block

/-!
# Templates around a body

A body stands in a directive, between other trees that may be a body themselves.  Whatever text it
is, as long as no keyword of a body stands in it, the trees around it are read alike.
-/

namespace Stencil

open Text

/-- The keywords of all directives with bodies. -/
def bodyKeywords : List String :=
  [BodyForm.loop, .branch, .placeholder].flatMap fun form => form.opening :: form.keywords

/-- Whether no keyword of a body stands anywhere in a text that a newline follows. -/
def holdsNoKeyword : List Char → Bool
  | [] => true
  | character :: text =>
      bodyKeywords.all (!standsAt · (character :: text ++ ['\n'])) && holdsNoKeyword text

/-- What follows a newline does not matter to a keyword in front of it. -/
theorem standsAt_newline {keyword : String} (listed : keyword ∈ bodyKeywords)
    (text rest : List Char) :
    standsAt keyword (text ++ '\n' :: rest) = standsAt keyword (text ++ ['\n']) := by
  have noNewline : '\n' ∉ keyword.toList := by
    revert keyword
    decide
  have starts (later : List Char) :
      keyword.toList <+: text ++ '\n' :: later ↔ keyword.toList <+: text := by
    refine ⟨fun begins => ?_, fun begins => begins.trans (List.prefix_append _ _)⟩
    refine (List.prefix_or_prefix_of_prefix begins (List.prefix_append text _)).elim id ?_
    rintro ⟨more, isKeyword⟩
    cases more with
    | nil => exact ⟨[], by rw [← isKeyword, List.append_nil, List.append_nil]⟩
    | cons next more =>
        rw [← isKeyword, List.prefix_append_right_inj, List.cons_prefix_cons] at begins
        exact absurd (by rw [← isKeyword, ← begins.1]; simp) noNewline
  have sameStart : keyword.toList.isPrefixOf (text ++ '\n' :: rest) =
      keyword.toList.isPrefixOf (text ++ ['\n']) := by
    rw [Bool.eq_iff_iff, List.isPrefixOf_iff_prefix, List.isPrefixOf_iff_prefix, starts, starts]
  rw [standsAt, standsAt, sameStart]
  cases begins : keyword.toList.isPrefixOf (text ++ ['\n']) with
  | false => rfl
  | true =>
      obtain ⟨later, rfl⟩ := (starts []).mp (List.isPrefixOf_iff_prefix.mp begins)
      rw [List.append_assoc, List.append_assoc, List.drop_left, List.drop_left]
      cases later <;> rfl

/-- A text without keywords of bodies may be a body. -/
theorem isBodyText_of_holdsNoKeyword {text : List Char} (plain : holdsNoKeyword text = true) :
    IsBodyText text := by
  intro form rest
  induction text with
  | nil => exact .nil _ _ _
  | cons character text induction =>
      rw [holdsNoKeyword, Bool.and_eq_true] at plain
      have first : form.Passes 0 [character] (text ++ '\n' :: rest) := by
        by_cases unmarked : character = '@'
        · subst unmarked
          have noneStands {keyword : String} (listed : keyword ∈ form.opening :: form.keywords) :
              standsAt keyword ('@' :: (text ++ '\n' :: rest)) = false := by
            have isBody : keyword ∈ bodyKeywords := by
              revert keyword
              cases form <;> decide
            have none := List.all_eq_true.mp plain.1 keyword isBody
            rw [Bool.not_eq_true', ← standsAt_newline isBody _ rest] at none
            exact none
          have noOpening := noneStands List.mem_cons_self
          rw [← BodyForm.opening_isPrefix_iff] at noOpening
          have none : form.keywords.findIdx? (standsAt · ('@' :: (text ++ '\n' :: rest))) = none :=
            List.findIdx?_eq_none_iff.mpr fun _ listed => noneStands (List.mem_cons_of_mem _ listed)
          apply BodyForm.Passes.step
          intro fuel depth passed _
          have next : (Cursor.between passed ('@' :: (text ++ '\n' :: rest))).rest =
              '@' :: (text ++ '\n' :: rest) := rfl
          have ran := Scan.closingKeywordFrom_run_of_mark form.opening form.keywords form.terminator
            fuel depth next noOpening
          rw [next, none, Cursor.advance_between_cons] at ran
          exact ran
        · exact .plain unmarked
      exact first.append (induction plain.2)

theorem branchesFor_append (size : Nat) (conditions later : List (Condition × List Tree)) :
    branchesFor size (conditions ++ later) =
      branchesFor size conditions ++ branchesFor (size + conditions.length) later := by
  induction conditions generalizing size with
  | nil => rfl
  | cons branch conditions induction =>
      simp [branchesFor, induction, Nat.add_assoc, Nat.add_comm 1]

theorem length_branchesFor (size : Nat) (conditions : List (Condition × List Tree)) :
    (branchesFor size conditions).length = conditions.length := by
  induction conditions generalizing size with
  | nil => rfl
  | cons branch conditions induction => simp [branchesFor, induction]

section

variable (around : Option BlockRef) (size : Nat) (trees later : List Tree)

theorem bodiesFor_append : bodiesFor around size (trees ++ later) =
    bodiesFor around size trees ++
      bodiesFor around (size + (bodiesFor around size trees).length) later := by
  induction trees generalizing size with
  | nil => rfl
  | cons tree trees induction => simp [bodiesFor, induction, Nat.add_assoc]

theorem nodesFor_append : nodesFor around size (trees ++ later) =
    nodesFor around size trees ++
      nodesFor around (size + (bodiesFor around size trees).length) later := by
  induction trees generalizing size with
  | nil => rfl
  | cons tree trees induction => simp [nodesFor, bodiesFor, induction, Nat.add_assoc]

theorem length_nodesFor : (nodesFor around size trees).length = trees.length := by
  induction trees generalizing size with
  | nil => rfl
  | cons tree trees induction => simp [nodesFor, induction]

end

/-- A directive with one of its bodies missing. -/
inductive Frame where
  | loop (header : LoopHeader)
  | branch (earlier : List (Condition × List Tree)) (condition : Condition)
      (later : List (Condition × List Tree)) (otherwise : Option (List Tree))
  | last (conditions : List (Condition × List Tree))
  | placeholder (key : Placeholder.Key) (parameter : Option String)

namespace Frame

/-- The directive with a body in place of the missing one. -/
def fill (body : List Tree) : Frame → Tree
  | loop header => .loop header body
  | branch earlier condition later otherwise =>
      .branches (earlier ++ (condition, body) :: later) otherwise
  | last conditions => .branches conditions (some body)
  | placeholder key parameter => .definePlaceholder key parameter body

/-- Whether the missing body stands in a loop. -/
def inLoop (outside : Bool) : Frame → Bool
  | loop _ => true
  | branch .. | last _ => outside
  | placeholder .. => false

/-- The block of the missing body, given the node of the directive. -/
def body? : Frame → Node → Option BlockRef
  | loop _, .loop _ body => some body
  | branch earlier _ _ _, .branches conditions _ => conditions[earlier.length]?.map Prod.snd
  | last _, .branches _ otherwise => otherwise
  | placeholder .., .definePlaceholder _ _ body => some body
  | _, _ => none

variable (frame : Frame) {body other : List Tree} {trees : List Tree} {inside : Bool}

theorem goesBefore_fill :
    (frame.fill body).goesBefore trees = (frame.fill other).goesBefore trees := by
  cases trees with
  | nil => cases frame <;> rfl
  | cons tree trees => cases frame <;> cases tree <;> rfl

theorem goesBefore_cons_fill (tree : Tree) :
    tree.goesBefore (frame.fill body :: trees) = tree.goesBefore (frame.fill other :: trees) := by
  cases frame <;> cases tree <;> rfl

/-- Any text that may be a body can be put in place of one. -/
theorem isSound_fill (sound : (frame.fill other).IsSound inside)
    (isBody : IsBodyText (printAll body)) : (frame.fill body).IsSound inside := by
  cases frame with
  | loop header => exact ⟨sound.1, isBody⟩
  | placeholder key parameter => exact ⟨sound.1, sound.2.1, sound.2.2.1, isBody⟩
  | last conditions =>
      refine ⟨sound.1, sound.2.1, ?_⟩
      rintro _ ⟨⟩
      exact isBody
  | branch earlier condition later otherwise =>
      obtain ⟨-, soundBranches, soundLast⟩ := sound
      refine ⟨List.append_ne_nil_of_right_ne_nil _ (List.cons_ne_nil _ _), ?_, soundLast⟩
      intro branch member
      rcases List.mem_append.mp member with isEarlier | isRest
      · exact soundBranches branch (List.mem_append_left _ isEarlier)
      · rcases List.mem_cons.mp isRest with rfl | isLater
        · have validCondition := soundBranches (condition, other)
            (List.mem_append_right _ List.mem_cons_self)
          exact ⟨validCondition.1, isBody⟩
        · exact soundBranches branch (List.mem_append_right _ (List.mem_cons_of_mem _ isLater))

theorem areWellFormed_body (valid : (frame.fill body).isWellFormed inside = true) :
    areWellFormed (frame.inLoop inside) body = true := by
  cases frame with
  | branch earlier condition later otherwise =>
      simp only [fill, Tree.isWellFormed, Bool.and_eq_true] at valid
      exact areWellFormed_of_mem valid.1.2 (List.mem_append_right _ List.mem_cons_self)
  | _ =>
      simp only [fill, Tree.isWellFormed, isWellFormedLast, Bool.and_eq_true] at valid
      exact valid.2

variable {around : Option BlockRef} {size : Nat}

/-- Nodes say nothing of bodies but their blocks. -/
theorem node_fill (body other : List Tree) :
    (frame.fill body).node around size = (frame.fill other).node around size := by
  cases frame with
  | branch earlier condition later otherwise =>
      simp [fill, Tree.node, branchesFor_append, branchesFor]
  | _ => rfl

/-- The bodies of a directive are the same but for the missing one, and its node refers to the block
of that one. -/
theorem exists_bodies (around : Option BlockRef) (size : Nat) :
    ∃ (before after : List Body) (within : Option BlockRef) (name : String),
      within.isSome = frame.inLoop around.isSome ∧
      (∀ body, (frame.fill body).bodies around size = before ++ ⟨within, name, body⟩ :: after) ∧
      ∀ body, frame.body? ((frame.fill body).node around size) = some ⟨size + before.length⟩ := by
  cases frame with
  | loop header => exact ⟨[], [], some ⟨size⟩, "for", rfl, fun _ => rfl, fun _ => rfl⟩
  | placeholder key parameter =>
      exact ⟨[], [], none, s!"placeholder {key.name}", rfl, fun _ => rfl, fun _ => rfl⟩
  | last conditions =>
      refine ⟨conditions.map fun branch => ⟨around, "if", branch.2⟩, [], around, "if", rfl,
        fun _ => rfl, fun _ => ?_⟩
      simp [fill, Tree.node, body?]
  | branch earlier condition later otherwise =>
      refine ⟨earlier.map fun branch => ⟨around, "if", branch.2⟩,
        later.map (fun branch => ⟨around, "if", branch.2⟩) ++
          otherwise.toList.map fun body => ⟨around, "if", body⟩,
        around, "if", rfl, fun _ => ?_, fun _ => ?_⟩
      · simp [fill, Tree.bodies]
      · simp [fill, Tree.node, body?, branchesFor_append, branchesFor, length_branchesFor]

end Frame

/-- A directive with one of its bodies missing, between other trees. -/
structure Layer where
  before : List Tree
  frame : Frame
  after : List Tree

namespace Layer

/-- The trees with a body in place of the missing one. -/
def fill (layer : Layer) (body : List Tree) : List Tree :=
  layer.before ++ layer.frame.fill body :: layer.after

/-- A body inside layers, the outermost of which come first. -/
def enclose (layers : List Layer) (body : List Tree) : List Tree :=
  layers.foldr fill body

/-- The block of the missing body, given the nodes of the trees. -/
def body? (layer : Layer) (nodes : List Node) : Option BlockRef :=
  nodes[layer.before.length]?.bind layer.frame.body?

variable {layer : Layer} {layers : List Layer} {body other : List Tree} {inside : Bool}

theorem areSound_fill (sound : AreSound inside (layer.fill other))
    (isBody : IsBodyText (printAll body)) : AreSound inside (layer.fill body) := by
  obtain ⟨before, frame, after⟩ := layer
  change AreSound inside (before ++ frame.fill other :: after) at sound
  change AreSound inside (before ++ frame.fill body :: after)
  induction before with
  | nil =>
      obtain ⟨soundTree, goesBefore, soundAfter⟩ := sound
      have same : (frame.fill body).goesBefore after = (frame.fill other).goesBefore after :=
        frame.goesBefore_fill
      exact ⟨frame.isSound_fill soundTree isBody, same.trans goesBefore, soundAfter⟩
  | cons tree before induction =>
      obtain ⟨soundTree, goesBefore, soundAfter⟩ := sound
      refine ⟨soundTree, ?_, induction soundAfter⟩
      cases before with
      | nil => exact (frame.goesBefore_cons_fill tree).trans goesBefore
      | cons next before =>
          cases tree <;> cases next <;> exact goesBefore

theorem areWellFormed_body (valid : areWellFormed inside (layer.fill body) = true) :
    areWellFormed (layer.frame.inLoop inside) body = true := by
  obtain ⟨before, frame, after⟩ := layer
  change areWellFormed inside (before ++ frame.fill body :: after) = true at valid
  induction before with
  | nil =>
      simp only [List.nil_append, areWellFormed, Bool.and_eq_true] at valid
      exact frame.areWellFormed_body valid.1.1
  | cons tree before induction =>
      simp only [List.cons_append, areWellFormed, Bool.and_eq_true] at valid
      exact induction valid.2

/-- A text without keywords of bodies makes a body wherever well-formed trees are around it. -/
theorem isBodyText_enclose {text : List Char} (plain : holdsNoKeyword text = true)
    (valid : areWellFormed inside (enclose layers []) = true) :
    IsBodyText (printAll (enclose layers [.text (String.ofList text)])) := by
  induction layers generalizing inside with
  | nil =>
      have print : printAll [.text (String.ofList text)] = text := by simp [printAll, Tree.print]
      rw [enclose, List.foldr_nil, print]
      exact isBodyText_of_holdsNoKeyword plain
  | cons layer layers induction =>
      have isBody := induction (areWellFormed_body valid)
      exact (areSound_fill (areSound _ _ valid) isBody).isBodyText

theorem areSound_enclose {text : List Char} (plain : holdsNoKeyword text = true)
    (valid : areWellFormed inside (enclose (layer :: layers) []) = true) :
    AreSound inside (enclose (layer :: layers) [.text (String.ofList text)]) :=
  areSound_fill (areSound _ _ valid) (isBodyText_enclose plain (areWellFormed_body valid))

variable {around : Option BlockRef} {size : Nat}

theorem nodesFor_fill (layer : Layer) (body other : List Tree) :
    nodesFor around size (layer.fill body) = nodesFor around size (layer.fill other) := by
  obtain ⟨before, after, within, name, -, bodies, -⟩ := layer.frame.exists_bodies around
    (size + (bodiesFor around size layer.before).length)
  rw [fill, fill, nodesFor_append, nodesFor_append, nodesFor, nodesFor, bodies, bodies,
    layer.frame.node_fill body other]
  simp only [List.length_append, List.length_cons]

/-- The bodies of trees are the same but for the missing one, and the nodes refer to the block of
that one. -/
theorem exists_bodiesFor (layer : Layer) (around : Option BlockRef) (size : Nat) :
    ∃ (before after : List Body) (within : Option BlockRef) (name : String),
      within.isSome = layer.frame.inLoop around.isSome ∧
      (∀ body, bodiesFor around size (layer.fill body) =
        before ++ ⟨within, name, body⟩ :: after) ∧
      ∀ body, layer.body? (nodesFor around size (layer.fill body)) =
        some ⟨size + before.length⟩ := by
  let first := bodiesFor around size layer.before
  obtain ⟨before, after, within, name, inLoop, bodies, isBody⟩ :=
    layer.frame.exists_bodies around (size + first.length)
  refine ⟨first ++ before, after ++ bodiesFor around
    (size + first.length + (before.length + (after.length + 1))) layer.after, within, name, inLoop,
    fun body => ?_, fun body => ?_⟩
  · rw [fill, bodiesFor_append, bodiesFor, bodies]
    simp [first]
  · have place : (nodesFor around size (layer.fill body))[layer.before.length]? =
        some ((layer.frame.fill body).node around (size + first.length)) := by
      rw [fill, nodesFor_append, List.getElem?_append_right (Nat.le_of_eq (length_nodesFor ..)),
        length_nodesFor, Nat.sub_self]
      rfl
    rw [body?, place, Option.bind_some, isBody, List.length_append, Nat.add_assoc]

end Layer

end Stencil
