import Stencil.Proofs.Directive.BodyRange
import Stencil.Proofs.RoundTrip.Quiet

/-!
# The ends of printed bodies are found

The search for the keyword that closes a body passes over prints, however deep their own bodies are
nested, and stops at the keyword behind the print of the body.
-/

namespace Stencil

open Text Text.Cursor

namespace Text

/-- The word behind the mark of a keyword. -/
def wordOf (keyword : String) : List Char :=
  keyword.toList.tail.takeWhile isNamePart

/-- Whether a keyword is a mark and a word, perhaps with more behind them. -/
def isKeyword (keyword : String) : Bool :=
  keyword.toList.head? == some '@' && !(wordOf keyword).isEmpty

variable {keyword : String} {word rest : List Char}

/-- Behind its word a keyword ends or goes on with a character that belongs to no word. -/
theorem exists_tail (valid : isKeyword keyword = true) : ∃ tail,
    keyword.toList = '@' :: (wordOf keyword ++ tail) ∧ tail.head?.any isNamePart = false := by
  simp only [isKeyword, Bool.and_eq_true, beq_iff_eq] at valid
  cases text : keyword.toList with
  | nil =>
      rw [text] at valid
      cases valid.1
  | cons mark letters =>
      rw [text] at valid
      cases valid.1
      refine ⟨letters.dropWhile isNamePart, ?_, Reads.ends_dropWhile _ letters⟩
      rw [wordOf, text, List.tail_cons, List.takeWhile_append_dropWhile]

theorem all_wordOf (keyword : String) : (wordOf keyword).all isNamePart = true :=
  List.all_takeWhile

/-- A keyword that ends in its word ends in a name. -/
theorem endsInName_of_word (valid : isKeyword keyword = true)
    (ended : keyword.toList = '@' :: wordOf keyword) : endsInName keyword = true := by
  simp only [isKeyword, Bool.and_eq_true, Bool.not_eq_true', List.isEmpty_eq_false_iff] at valid
  obtain ⟨letters, last, split⟩ := (List.eq_nil_or_concat (wordOf keyword)).resolve_left valid.2
  have part := List.all_eq_true.mp (all_wordOf keyword) last (by simp [split])
  rw [endsInName, ended, split, List.concat_eq_append, ← List.cons_append, List.getLast?_concat]
  exact part

/-- A keyword only stands in front of its own word. -/
theorem wordOf_eq_of_standsAt (valid : isKeyword keyword = true)
    (isWord : word.all isNamePart = true) (ends : rest.head?.any isNamePart = false)
    (stands : standsAt keyword ('@' :: (word ++ rest)) = true) : wordOf keyword = word := by
  obtain ⟨tail, text, apart⟩ := exists_tail valid
  obtain ⟨more, same⟩ := isPrefix_of_standsAt stands
  rw [text, List.cons_append, List.append_assoc] at same
  have split : wordOf keyword ++ (tail ++ more) = word ++ rest := (List.cons.inj same).2
  have stops : (tail ++ more).head?.any isNamePart = false := by
    cases tail with
    | cons next tail => exact apart
    | nil =>
        rw [List.append_nil] at text
        have inName := endsInName_of_word valid text
        have dropped : ('@' :: (word ++ rest)).drop keyword.toList.length = more := by
          rw [← split, text, List.nil_append, ← List.cons_append, List.drop_left]
        simp only [standsAt, inName, dropped, Bool.true_and, Bool.and_eq_true,
          Bool.not_eq_true'] at stands
        exact stands.2
  have first := (Reads.run_split (all_wordOf keyword) stops).1
  have second := (Reads.run_split isWord ends).1
  rw [← first, split, second]

theorem standsAt_eq_false (valid : isKeyword keyword = true)
    (isWord : word.all isNamePart = true) (ends : rest.head?.any isNamePart = false)
    (other : wordOf keyword ≠ word) : standsAt keyword ('@' :: (word ++ rest)) = false :=
  Bool.eq_false_iff.mpr fun stands => other (wordOf_eq_of_standsAt valid isWord ends stands)

/-- A word that a keyword ends in ends in front of a text. -/
def EndsKeyword (keyword : String) (rest : List Char) : Prop :=
  endsInName keyword = true → rest.head?.any isNamePart = false

theorem standsAt_self (ends : EndsKeyword keyword rest) :
    standsAt keyword (keyword.toList ++ rest) = true := by
  have begins : keyword.toList.isPrefixOf (keyword.toList ++ rest) = true :=
    List.isPrefixOf_iff_prefix.mpr (List.prefix_append _ _)
  rw [standsAt, begins, List.drop_left, Bool.true_and]
  cases inName : endsInName keyword with
  | false => rfl
  | true => rw [ends inName]; rfl

/-- Where one keyword stands, no keyword with another word does. -/
theorem standsAt_other {other : String} (valid : isKeyword keyword = true)
    (validOther : isKeyword other = true) (different : wordOf other ≠ wordOf keyword)
    (ends : EndsKeyword keyword rest) : standsAt other (keyword.toList ++ rest) = false := by
  obtain ⟨tail, text, apart⟩ := exists_tail valid
  have stops : (tail ++ rest).head?.any isNamePart = false := by
    cases tail with
    | cons next tail => exact apart
    | nil => exact ends (endsInName_of_word valid (by rw [text, List.append_nil]))
  rw [text, List.cons_append, List.append_assoc]
  exact standsAt_eq_false validOther (all_wordOf keyword) stops different

/-- Of some keywords with different words the one that stands there is found. -/
theorem findIdx?_standsAt {before after : List String} (valid : isKeyword keyword = true)
    (others : ∀ other ∈ before, isKeyword other = true ∧ wordOf other ≠ wordOf keyword)
    (ends : EndsKeyword keyword rest) :
    (before ++ keyword :: after).findIdx? (standsAt · (keyword.toList ++ rest)) =
      some before.length := by
  induction before with
  | nil => simp [List.findIdx?_cons, standsAt_self ends]
  | cons other before induction =>
      obtain ⟨validOther, different⟩ := others other List.mem_cons_self
      have apart := standsAt_other valid validOther different ends
      have later := induction fun another member =>
        others another (List.mem_cons_of_mem other member)
      rw [List.cons_append, List.findIdx?_cons, apart, later]
      rfl

end Text

namespace BodyForm

/-- The keywords that a body may end at. -/
def keywords (form : BodyForm) : List String :=
  form.separators ++ [form.terminator]

/-- Whether a word belongs to no keyword of a form. -/
def ignores (form : BodyForm) (word : List Char) : Bool :=
  (form.opening :: form.keywords).all fun keyword => wordOf keyword != word

/-- Whether a word neither opens nor ends a body. -/
def stays (form : BodyForm) (word : List Char) : Bool :=
  wordOf form.opening != word && wordOf form.terminator != word

theorem isKeyword_of_mem {form : BodyForm} {keyword : String}
    (listed : keyword ∈ form.opening :: form.keywords) : isKeyword keyword = true := by
  revert keyword
  cases form <;> decide

theorem terminator_mem (form : BodyForm) : form.terminator ∈ form.opening :: form.keywords :=
  List.mem_cons_of_mem _ (List.mem_append_right _ List.mem_cons_self)

theorem opening_isPrefix_iff (form : BodyForm) (rest : List Char) :
    form.opening.toList.isPrefixOf rest = standsAt form.opening rest := by
  have noName : endsInName form.opening = false := by cases form <;> decide
  simp [standsAt, noName]

theorem ignores_of_other {form : BodyForm} {word : List Char}
    (other : bodyWords.contains (String.ofList word) = false) : form.ignores word = true := by
  refine List.all_eq_true.mpr fun keyword listed => bne_iff_ne.mpr ?_
  rintro rfl
  have isBodyWord : bodyWords.contains (String.ofList (wordOf keyword)) = true := by
    revert keyword
    cases form <;> decide
  rw [isBodyWord] at other
  cases other

/-- Forms have no words in common. -/
theorem ignores_of_ne {form other : BodyForm} (different : form ≠ other) {keyword : String}
    (listed : keyword ∈ other.opening :: other.keywords) :
    form.ignores (wordOf keyword) = true := by
  revert keyword
  cases form <;> cases other <;> first | exact absurd rfl different | decide

theorem exists_unmarked_tail {form : BodyForm} {keyword : String}
    (listed : keyword ∈ form.opening :: form.keywords) : ∃ tail,
    keyword.toList = '@' :: (wordOf keyword ++ tail) ∧ tail.head?.any isNamePart = false ∧
      isUnmarked tail = true := by
  refine ⟨keyword.toList.drop (1 + (wordOf keyword).length), ?_⟩
  revert keyword
  cases form <;> decide

theorem stays_of_ignores {form : BodyForm} {word : List Char}
    (ignores : form.ignores word = true) : form.stays word = true := by
  have each := List.all_eq_true.mp ignores
  rw [stays, each _ List.mem_cons_self, each _ form.terminator_mem]
  rfl

theorem stays_of_separator {form : BodyForm} {separator : String}
    (listed : separator ∈ form.separators) : form.stays (wordOf separator) = true := by
  revert separator
  cases form <;> decide

/-- The search at a depth. -/
def search (form : BodyForm) (fuel depth : Nat) : StateM Cursor (Option Nat) :=
  Scan.closingKeywordFrom form.opening form.keywords form.terminator fuel depth

/-- From some depth on, the search passes over a text in front of what follows and goes on at the
same depth. -/
def Passes (form : BodyForm) (least : Nat) (text rest : List Char) : Prop :=
  ∀ fuel depth, least ≤ depth → ∃ more, fuel ≤ more ∧ ∀ passed,
    (form.search (fuel + text.length) depth).run (between passed (text ++ rest)) =
      (form.search more depth).run (between (text.reverse ++ passed) rest)

variable {form : BodyForm} {least least' : Nat} {text later rest word : List Char}

namespace Passes

theorem nil (form : BodyForm) (least : Nat) (rest : List Char) : form.Passes least [] rest :=
  fun fuel _ _ => ⟨fuel, Nat.le_refl _, fun _ => rfl⟩

theorem append (first : form.Passes least text (later ++ rest))
    (second : form.Passes least later rest) : form.Passes least (text ++ later) rest := by
  intro fuel depth deep
  obtain ⟨middle, enough, ranFirst⟩ := first (fuel + later.length) depth deep
  obtain ⟨spare, rfl⟩ : ∃ spare, middle = spare + later.length :=
    ⟨middle - later.length, by omega⟩
  obtain ⟨more, enoughLater, ranSecond⟩ := second spare depth deep
  refine ⟨more, by omega, fun passed => ?_⟩
  have steps : fuel + (text ++ later).length = fuel + later.length + text.length := by
    rw [List.length_append]
    omega
  rw [steps, List.append_assoc, ranFirst, ranSecond, List.reverse_append, List.append_assoc]

theorem mono (passes : form.Passes least text rest) (deeper : least ≤ least') :
    form.Passes least' text rest :=
  fun fuel depth deep => passes fuel depth (Nat.le_trans deeper deep)

theorem step {character : Char}
    (steps : ∀ fuel depth passed, least ≤ depth →
      (form.search (fuel + 1) depth).run (between passed (character :: rest)) =
        (form.search fuel depth).run (between (character :: passed) rest)) :
    form.Passes least [character] rest :=
  fun fuel depth deep => ⟨fuel, Nat.le_refl _, fun passed => steps fuel depth passed deep⟩

theorem plain {character : Char} (unmarked : character ≠ '@') :
    form.Passes least [character] rest := by
  apply step
  intro fuel depth passed _
  have next : (between passed (character :: rest)).rest = character :: rest := rfl
  have ran := Scan.closingKeywordFrom_run_of_ne form.opening form.keywords form.terminator fuel
    depth next unmarked
  rwa [advance_between_cons] at ran

theorem unmarked (plainText : isUnmarked text = true) : form.Passes least text rest := by
  induction text with
  | nil => exact .nil _ _ _
  | cons character text induction =>
      simp only [isUnmarked, List.all_cons, Bool.and_eq_true, bne_iff_ne] at plainText
      exact (plain plainText.1).append (induction plainText.2)

/-- A mark is passed in front of a word that neither opens nor ends a body; one that divides bodies
is passed inside nested ones only. -/
theorem mark (isWord : word.all isNamePart = true) (ends : rest.head?.any isNamePart = false)
    (stays : form.stays word = true) (outside : least = 0 → form.ignores word = true) :
    form.Passes least ('@' :: word) rest := by
  have wordUnmarked := Quiet.isUnmarked_of_all isWord
  suffices here : form.Passes least ['@'] (word ++ rest) from here.append (.unmarked wordUnmarked)
  apply step
  intro fuel depth passed deep
  simp only [BodyForm.stays, Bool.and_eq_true, bne_iff_ne] at stays
  have noOpening : standsAt form.opening ('@' :: (word ++ rest)) = false :=
    standsAt_eq_false (isKeyword_of_mem List.mem_cons_self) isWord ends stays.1
  have noTerminator : standsAt form.terminator ('@' :: (word ++ rest)) = false :=
    standsAt_eq_false (isKeyword_of_mem form.terminator_mem) isWord ends stays.2
  rw [← opening_isPrefix_iff] at noOpening
  have next : (between passed ('@' :: (word ++ rest))).rest = '@' :: (word ++ rest) := rfl
  have ran := Scan.closingKeywordFrom_run_of_mark form.opening form.keywords form.terminator fuel
    depth next noOpening
  rw [advance_between_cons] at ran
  refine ran.trans ?_
  cases found : form.keywords.findIdx?
    (standsAt · (between passed ('@' :: (word ++ rest))).rest) with
  | none => rfl
  | some index =>
      obtain ⟨within, stands, -⟩ := List.findIdx?_eq_some_iff_getElem.mp found
      have inside : depth ≠ 0 := by
        rintro rfl
        have ignored := List.all_eq_true.mp (outside (Nat.le_zero.mp deep)) form.keywords[index]
          (List.mem_cons_of_mem _ (List.getElem_mem within))
        have listed : form.keywords[index] ∈ form.opening :: form.keywords :=
          List.mem_cons_of_mem _ (List.getElem_mem within)
        have same := wordOf_eq_of_standsAt (isKeyword_of_mem listed) isWord ends stands
        exact absurd same (bne_iff_ne.mp ignored)
      have divides : index + 1 ≠ form.keywords.length := by
        intro isLast
        have last : form.keywords[index] = form.terminator := by
          have place : index = form.separators.length := by
            simp only [keywords, List.length_append, List.length_singleton] at isLast
            omega
          simp [keywords, place]
        rw [last] at stands
        rw [rest_between] at stands
        rw [stands] at noTerminator
        cases noTerminator
      simp only [if_neg inside, if_neg divides]
      rfl

theorem quiet (quietText : Quiet text) : form.Passes 0 text rest := by
  induction quietText with
  | nil => exact .nil _ _ _
  | plain unmarked later induction => exact (plain unmarked).append induction
  | @mark word text next isWord other ends later induction =>
      have ignored : form.ignores word = true := ignores_of_other other
      have stops : (next :: text ++ rest).head?.any isNamePart = false := ends
      have marked : form.Passes 0 ('@' :: word) (next :: text ++ rest) :=
        mark isWord stops (stays_of_ignores ignored) fun _ => ignored
      exact marked.append induction

/-- A keyword is passed that neither opens nor ends a body. -/
theorem keyword {other : BodyForm} {keyword : String}
    (listed : keyword ∈ other.opening :: other.keywords) (ends : EndsKeyword keyword rest)
    (stays : form.stays (wordOf keyword) = true)
    (outside : least = 0 → form.ignores (wordOf keyword) = true) :
    form.Passes least keyword.toList rest := by
  obtain ⟨tail, text, apart, unmarkedTail⟩ := exists_unmarked_tail listed
  have stops : (tail ++ rest).head?.any isNamePart = false := by
    cases tail with
    | cons next tail => exact apart
    | nil =>
        exact ends (endsInName_of_word (isKeyword_of_mem listed) (by rw [text, List.append_nil]))
  rw [text]
  exact (mark (all_wordOf keyword) stops stays outside).append (unmarked unmarkedTail)

end Passes

theorem search_opening (fuel depth : Nat) (passed rest : List Char) :
    (form.search (fuel + 1) depth).run (between passed (form.opening.toList ++ rest)) =
      (form.search fuel (depth + 1)).run
      (between (form.opening.toList.reverse ++ passed) rest) := by
  obtain ⟨more, marked⟩ : ∃ more, form.opening.toList ++ rest = '@' :: more := by
    cases form <;> exact ⟨_, rfl⟩
  have opens : form.opening.toList.isPrefixOf (form.opening.toList ++ rest) = true :=
    List.isPrefixOf_iff_prefix.mpr (List.prefix_append _ _)
  have next : (between passed (form.opening.toList ++ rest)).rest = '@' :: more := marked
  have ran := Scan.closingKeywordFrom_run_of_opening form.opening form.keywords form.terminator fuel
    depth next opens
  rwa [past_between] at ran

/-- At a keyword the search looks at the depth. -/
theorem search_keyword {before after : List String} {keyword : String}
    (split : form.keywords = before ++ keyword :: after)
    (others : ∀ other ∈ form.opening :: before, wordOf other ≠ wordOf keyword)
    (ends : EndsKeyword keyword rest) (fuel depth : Nat) (passed : List Char) :
    (form.search (fuel + 1) depth).run (between passed (keyword.toList ++ rest)) =
      if depth = 0 then pure (some before.length, between passed (keyword.toList ++ rest))
      else if before.length + 1 = form.keywords.length then
        (form.search fuel (depth - 1)).run
          ((between passed (keyword.toList ++ rest)).past form.terminator)
      else (form.search fuel depth).run (between passed (keyword.toList ++ rest)).advance := by
  have listed {other : String} (member : other ∈ before ++ keyword :: after) :
      isKeyword other = true := by
    have inForm : other ∈ form.opening :: form.keywords :=
      List.mem_cons_of_mem _ (split ▸ member)
    exact isKeyword_of_mem inForm
  have valid : isKeyword keyword = true := listed (by simp)
  obtain ⟨tail, text, -⟩ := exists_tail valid
  have noOpening : form.opening.toList.isPrefixOf (keyword.toList ++ rest) = false := by
    rw [opening_isPrefix_iff]
    exact standsAt_other valid (isKeyword_of_mem List.mem_cons_self)
      (others form.opening List.mem_cons_self) ends
  have found : (before ++ keyword :: after).findIdx? (standsAt · (keyword.toList ++ rest)) =
      some before.length :=
    findIdx?_standsAt valid (fun other member =>
      ⟨listed (List.mem_append_left _ member), others other (List.mem_cons_of_mem _ member)⟩) ends
  have marked : (between passed (keyword.toList ++ rest)).rest =
      '@' :: (wordOf keyword ++ tail ++ rest) := by
    rw [rest_between, text, List.cons_append]
  have ran := Scan.closingKeywordFrom_run_of_mark form.opening form.keywords form.terminator fuel
    depth marked noOpening
  rw [rest_between, split, found] at ran
  rw [← split] at ran
  exact ran

theorem search_terminator (ends : EndsKeyword form.terminator rest) (fuel depth : Nat)
    (passed : List Char) :
    (form.search (fuel + 1) (depth + 1)).run (between passed (form.terminator.toList ++ rest)) =
      (form.search fuel depth).run (between (form.terminator.toList.reverse ++ passed) rest) := by
  have others : ∀ other ∈ form.opening :: form.separators,
      wordOf other ≠ wordOf form.terminator := by
    cases form <;> decide
  have length : form.separators.length + 1 = form.keywords.length := by simp [keywords]
  rw [search_keyword rfl others ends, if_neg (Nat.succ_ne_zero depth), if_pos length, past_between]
  rfl

/-- A nested body is passed together with its opening and its terminator. -/
theorem Passes.nested (inside : form.Passes 1 text (form.terminator.toList ++ rest))
    (ends : EndsKeyword form.terminator rest) :
    form.Passes least (form.opening.toList ++ text ++ form.terminator.toList) rest := by
  intro fuel depth _
  obtain ⟨opened, openingLength⟩ : ∃ opened, form.opening.toList.length = opened + 1 := by
    cases form <;> exact ⟨_, rfl⟩
  obtain ⟨closed, terminatorLength⟩ : ∃ closed, form.terminator.toList.length = closed + 1 := by
    cases form <;> exact ⟨_, rfl⟩
  obtain ⟨middle, enough, ran⟩ := inside (fuel + opened + closed + 1) (depth + 1)
    (Nat.succ_le_succ (Nat.zero_le depth))
  obtain ⟨more, rfl⟩ : ∃ more, middle = more + 1 := ⟨middle - 1, by omega⟩
  refine ⟨more, by omega, fun passed => ?_⟩
  have steps : fuel + (form.opening.toList ++ text ++ form.terminator.toList).length =
      (fuel + opened + closed + 1 + text.length) + 1 := by
    simp only [List.length_append, openingLength, terminatorLength]
    omega
  rw [steps, List.append_assoc, List.append_assoc, search_opening, ran,
    search_terminator ends]
  simp

/-- The depth from which on the search for the end of one form passes what stands in another. -/
def depthIn (form other : BodyForm) : Nat :=
  if form = other then 1 else 0

/-- Bodies of all forms are passed together with their openings and their terminators. -/
theorem Passes.around {other : BodyForm}
    (inside : form.Passes (form.depthIn other) text (other.terminator.toList ++ rest))
    (ends : EndsKeyword other.terminator rest) :
    form.Passes 0 (other.opening.toList ++ text ++ other.terminator.toList) rest := by
  by_cases same : form = other
  · subst same
    rw [depthIn, if_pos rfl] at inside
    exact inside.nested ends
  · rw [depthIn, if_neg same] at inside
    have noName : EndsKeyword other.opening (text ++ other.terminator.toList ++ rest) := by
      intro inName
      cases other <;> exact absurd inName (by decide)
    have ignoresOpening := ignores_of_ne same (List.mem_cons_self (a := other.opening))
    have ignoresTerminator := ignores_of_ne same other.terminator_mem
    have opening : form.Passes 0 other.opening.toList (text ++ other.terminator.toList ++ rest) :=
      .keyword List.mem_cons_self noName (stays_of_ignores ignoresOpening) fun _ => ignoresOpening
    have terminator : form.Passes 0 other.terminator.toList rest :=
      .keyword other.terminator_mem ends (stays_of_ignores ignoresTerminator)
        fun _ => ignoresTerminator
    rw [List.append_assoc]
    exact opening.append (inside.append terminator)

/-- The keywords between bodies are passed inside the directive that they belong to. -/
theorem Passes.separator {other : BodyForm} {separator : String}
    (listed : separator ∈ other.separators) (ends : EndsKeyword separator rest) :
    form.Passes (form.depthIn other) separator.toList rest := by
  have isKeyword : separator ∈ other.opening :: other.keywords :=
    List.mem_cons_of_mem _ (List.mem_append_left _ listed)
  by_cases same : form = other
  · subst same
    rw [depthIn, if_pos rfl]
    exact .keyword isKeyword ends (stays_of_separator listed) nofun
  · have ignores := ignores_of_ne same isKeyword
    exact .keyword isKeyword ends (stays_of_ignores ignores) fun _ => ignores

end BodyForm

/-- A tree that stands in front of a text ends there. -/
def Tree.EndsBefore : Tree → List Char → Prop
  | .loop .., rest | .branches .., rest => rest.head?.any isNamePart = false
  | _, _ => True

/-- A text that may be a body: the search for the end of a body of any form passes over it. -/
def IsBodyText (text : List Char) : Prop :=
  ∀ (form : BodyForm) (rest : List Char), form.Passes 0 text ('\n' :: rest)

/-- Conditions can be written, and their bodies may be bodies. -/
def AreSoundBranches (conditions : List (Condition × List Tree)) : Prop :=
  ∀ branch ∈ conditions, branch.1.isWellFormed = true ∧ IsBodyText (printAll branch.2)

/-- Whether a tree can be written, its bodies being any texts that may be bodies. -/
def Tree.IsSound (inLoop : Bool) : Tree → Prop
  | .loop header body => header.isWellFormed = true ∧ IsBodyText (printAll body)
  | .branches conditions otherwise =>
      conditions ≠ [] ∧ AreSoundBranches conditions ∧
        ∀ body ∈ otherwise, IsBodyText (printAll body)
  | .definePlaceholder key parameter body =>
      isName key.name = true ∧ isName key.definition = true ∧ parameter.all isName = true ∧
        IsBodyText (printAll body)
  | tree => tree.isWellFormed inLoop = true

def AreSound (inLoop : Bool) : List Tree → Prop
  | [] => True
  | tree :: trees =>
      tree.IsSound inLoop ∧ tree.goesBefore trees = true ∧ AreSound inLoop trees

/-- Texts are not empty, and all other trees begin with a mark. -/
theorem Tree.head?_print {tree : Tree} {inLoop : Bool} (sound : tree.IsSound inLoop)
    (rest : List Char) : (∃ content, tree = .text content ∧
      (tree.print ++ rest).head? = content.toList.head?) ∨
      (tree.print ++ rest).head? = some '@' := by
  cases tree with
  | text content =>
      refine .inl ⟨content, rfl, ?_⟩
      simp only [Tree.IsSound, Tree.isWellFormed, Bool.and_eq_true, Bool.not_eq_true',
        List.isEmpty_eq_false_iff] at sound
      change (content.toList ++ rest).head? = _
      cases letters : content.toList with
      | nil => exact absurd letters sound.1
      | cons character letters => rfl
  | declare name value constant => cases constant <;> exact .inr rfl
  | usePlaceholder key argument => cases argument <;> exact .inr rfl
  | branches conditions otherwise =>
      cases conditions with
      | nil => exact absurd rfl sound.1
      | cons branch conditions => exact .inr rfl
  | _ => exact .inr rfl

theorem Tree.endsBefore_printAll {tree : Tree} {trees : List Tree} {inLoop : Bool}
    (apart : tree.goesBefore trees = true) (sound : AreSound inLoop trees)
    {rest : List Char} (ends : rest.head?.any isNamePart = false) :
    tree.EndsBefore (printAll trees ++ rest) := by
  have stops (isText : ∀ content later, trees = .text content :: later →
      content.toList.head?.any isNamePart = false) :
      (printAll trees ++ rest).head?.any isNamePart = false := by
    cases trees with
    | nil => exact ends
    | cons next trees =>
        rw [printAll, List.append_assoc]
        rcases next.head?_print sound.1 (printAll trees ++ rest) with ⟨content, rfl, same⟩ | mark
        · rw [same]
          exact isText content trees rfl
        · rw [mark]
          rfl
  cases tree with
  | loop header body =>
      refine stops fun content later same => ?_
      subst same
      simpa [Tree.goesBefore] using apart
  | branches conditions otherwise =>
      refine stops fun content later same => ?_
      subst same
      simpa [Tree.goesBefore] using apart
  | _ => exact trivial

namespace BodyForm

variable {form : BodyForm} {header body content : List Char}

theorem Passes.headed (quiet : Quiet header)
    (passesBody : ∀ rest, form.Passes 0 body ('\n' :: rest)) (rest : List Char) :
    form.Passes 0 (headed header body) ('\n' :: rest) := by
  have closed : Quiet (header ++ [')', '\n']) := quiet.append (.of_unmarked rfl)
  exact Passes.append (.quiet closed) (passesBody rest)

/-- A directive is passed if what stands in it is. -/
theorem Passes.enclose {other : BodyForm} {rest : List Char}
    (inside : ∀ rest, form.Passes (form.depthIn other) content ('\n' :: rest))
    (ends : EndsKeyword other.terminator rest) :
    form.Passes 0 (other.enclose content) rest := by
  have broken : form.Passes (form.depthIn other) (content ++ ['\n'])
      (other.terminator.toList ++ rest) :=
    (inside _).append (.plain (by decide))
  have text : other.enclose content =
      other.opening.toList ++ (content ++ ['\n']) ++ other.terminator.toList := by
    simp [BodyForm.enclose]
  rw [text]
  exact .around broken ends

theorem passes_nextBranch (rest : List Char) :
    form.Passes (form.depthIn .branch) nextBranch rest := by
  have separator : form.Passes (form.depthIn .branch) "@elseif(".toList rest :=
    .separator (by decide) fun inName => absurd inName (by decide)
  have broken : form.Passes (form.depthIn .branch) ['\n'] ("@elseif(".toList ++ rest) :=
    .plain (by decide)
  exact broken.append separator

theorem passes_lastBranch (rest : List Char) :
    form.Passes (form.depthIn .branch) lastBranch rest := by
  have separator : form.Passes (form.depthIn .branch) "@else".toList ('\n' :: rest) :=
    .separator (by decide) fun _ => rfl
  have behind : form.Passes (form.depthIn .branch) ['\n'] rest := .plain (by decide)
  have before : form.Passes (form.depthIn .branch) ['\n'] ("@else".toList ++ ['\n'] ++ rest) :=
    .plain (by decide)
  exact before.append (separator.append behind)

/-- The body of a branch ends in front of a newline. -/
theorem exists_nextBranches (conditions : List (Condition × List Tree)) (rest : List Char) :
    ∃ later, printBranches nextBranch conditions ++ '\n' :: rest = '\n' :: later := by
  cases conditions with
  | nil => exact ⟨rest, rfl⟩
  | cons branch conditions => exact ⟨_, rfl⟩

theorem exists_printLast (otherwise : Option (List Tree)) (rest : List Char) :
    ∃ later, printLast otherwise ++ '\n' :: rest = '\n' :: later := by
  cases otherwise with
  | none => exact ⟨rest, rfl⟩
  | some body => exact ⟨_, rfl⟩

theorem passes_printBranches {conditions : List (Condition × List Tree)}
    (sound : AreSoundBranches conditions) {before : List Char}
    (passesBefore : ∀ rest, form.Passes (form.depthIn .branch) before rest) (rest : List Char) :
    form.Passes (form.depthIn .branch) (printBranches before conditions) ('\n' :: rest) := by
  induction conditions generalizing before with
  | nil => exact .nil _ _ _
  | cons branch conditions induction =>
      obtain ⟨validCondition, isBody⟩ := sound branch List.mem_cons_self
      have later := induction (fun other member => sound other (List.mem_cons_of_mem _ member))
        passes_nextBranch
      obtain ⟨behind, next⟩ := exists_nextBranches conditions rest
      have passes := Passes.headed (Condition.quiet_print validCondition) (isBody form) behind
      rw [← next] at passes
      rw [printBranches, List.append_assoc]
      exact (passesBefore _).append ((passes.mono (Nat.zero_le _)).append later)

theorem passes_printLast {otherwise : Option (List Tree)}
    (isBody : ∀ body ∈ otherwise, IsBodyText (printAll body)) (rest : List Char) :
    form.Passes (form.depthIn .branch) (printLast otherwise) ('\n' :: rest) := by
  cases otherwise with
  | none => exact .nil _ _ _
  | some body =>
      have passes := isBody body rfl form rest
      exact (passes_lastBranch _).append (passes.mono (Nat.zero_le _))

theorem passes_print {tree : Tree} {inLoop : Bool} (sound : tree.IsSound inLoop) {rest : List Char}
    (ends : tree.EndsBefore rest) : form.Passes 0 tree.print rest := by
  cases tree with
  | loop header body =>
      refine .enclose (fun rest => ?_) fun _ => ends
      exact (Passes.headed (LoopHeader.quiet_print sound.1) (sound.2 form) rest).mono
        (Nat.zero_le _)
  | branches conditions otherwise =>
      refine .enclose (fun rest => ?_) fun _ => ends
      obtain ⟨later, next⟩ := exists_printLast otherwise rest
      have first := passes_printBranches sound.2.1 (fun _ => .nil form _ _) later
      rw [← next] at first
      exact first.append (passes_printLast sound.2.2 rest)
  | definePlaceholder key parameter body =>
      obtain ⟨validName, validDefinition, validParameter, isBody⟩ := sound
      refine Passes.append (.enclose (fun rest => ?_) fun _ => rfl) (.plain (by decide))
      have quiet := quiet_printNames validName validDefinition validParameter
      exact (Passes.headed quiet (isBody form) rest).mono (Nat.zero_le _)
  | _ => exact .quiet (Tree.quiet_print sound rfl)

theorem passes_printAll {trees : List Tree} {inLoop : Bool} (sound : AreSound inLoop trees)
    {rest : List Char} (ends : rest.head?.any isNamePart = false) :
    form.Passes 0 (printAll trees) rest := by
  induction trees with
  | nil => exact .nil _ _ _
  | cons tree trees induction =>
      have first : form.Passes 0 tree.print (printAll trees ++ rest) :=
        passes_print sound.1 (Tree.endsBefore_printAll sound.2.1 sound.2.2 ends)
      exact first.append (induction sound.2.2)

end BodyForm

/-- What can be written may be a body. -/
theorem AreSound.isBodyText {trees : List Tree} {inLoop : Bool} (sound : AreSound inLoop trees) :
    IsBodyText (printAll trees) :=
  fun _ _ => BodyForm.passes_printAll sound rfl

mutual

theorem Tree.isSound : (tree : Tree) → (inLoop : Bool) → tree.isWellFormed inLoop = true →
    tree.IsSound inLoop
  | .loop header body, inLoop, valid => by
      simp only [Tree.isWellFormed, Bool.and_eq_true] at valid
      exact ⟨valid.1, (areSound body true valid.2).isBodyText⟩
  | .branches conditions otherwise, inLoop, valid => by
      simp only [Tree.isWellFormed, Bool.and_eq_true, Bool.not_eq_true',
        List.isEmpty_eq_false_iff] at valid
      exact ⟨valid.1.1, areSoundBranches conditions inLoop valid.1.2,
        isBodyText_last otherwise inLoop valid.2⟩
  | .definePlaceholder key parameter body, inLoop, valid => by
      simp only [Tree.isWellFormed, Bool.and_eq_true] at valid
      exact ⟨valid.1.1.1, valid.1.1.2, valid.1.2, (areSound body false valid.2).isBodyText⟩
  | .text content, inLoop, valid => valid
  | .read path, inLoop, valid => valid
  | .declare name value constant, inLoop, valid => valid
  | .assign name value, inLoop, valid => valid
  | .leave, inLoop, valid => valid
  | .usePlaceholder key argument, inLoop, valid => valid

theorem areSound : (trees : List Tree) → (inLoop : Bool) → areWellFormed inLoop trees = true →
    AreSound inLoop trees
  | [], _, _ => trivial
  | tree :: trees, inLoop, valid => by
      simp only [areWellFormed, Bool.and_eq_true] at valid
      exact ⟨tree.isSound inLoop valid.1.1, valid.1.2, areSound trees inLoop valid.2⟩

theorem areSoundBranches : (conditions : List (Condition × List Tree)) → (inLoop : Bool) →
    areWellFormedBranches inLoop conditions = true → AreSoundBranches conditions
  | [], _, _ => List.forall_mem_nil _
  | (condition, body) :: conditions, inLoop, valid => by
      simp only [areWellFormedBranches, Bool.and_eq_true] at valid
      intro branch member
      rcases List.mem_cons.mp member with rfl | later
      · exact ⟨valid.1.1, (areSound body inLoop valid.1.2).isBodyText⟩
      · exact areSoundBranches conditions inLoop valid.2 branch later

theorem isBodyText_last : (otherwise : Option (List Tree)) → (inLoop : Bool) →
    isWellFormedLast inLoop otherwise = true → ∀ body ∈ otherwise, IsBodyText (printAll body)
  | none, _, _ => fun _ absent => by cases absent
  | some body, inLoop, valid => by
      rintro _ ⟨⟩
      exact (areSound body inLoop valid).isBodyText

end

end Stencil
