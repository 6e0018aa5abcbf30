import Stencil.Proofs.Boundary
import Stencil.Proofs.Text.Allowance
import Stencil.Proofs.Text.Behind

/-!
# Two texts that agree up to a mark

Two texts agree up to a fence.  The first one goes on with the mark of directives there; the second
one ends there or goes on with that mark too.  Scans that do not accept the mark stop at the fence
at the latest, so they cannot tell the two texts apart.
-/

namespace Stencil.Text

/-- A cursor whose loops may go on for a given number of rounds. -/
def Roomy (_rounds : Nat) : Type := Cursor

namespace Roomy

variable {rounds : Nat}

def cursor (place : Roomy rounds) : Cursor := place

instance (rounds : Nat) : Source (Roomy rounds) :=
  Source.allowing (σ := Cursor) fun place => rounds - place.remaining

theorem pointer_eq (place : Roomy rounds) : Source.pointer place = place.cursor.offset := rfl

theorem position_eq (place : Roomy rounds) : Source.position place = place.cursor.position := rfl

theorem remaining_eq {place : Roomy rounds} (few : place.cursor.remaining ≤ rounds) :
    Source.remaining place = rounds :=
  Nat.add_sub_of_le few

theorem pointer_run (place : Roomy rounds) :
    (Scan.pointer : StateM (Roomy rounds) Nat).run place = pure (place.cursor.offset, place) := rfl

theorem current_run (place : Roomy rounds) :
    (Scan.current : StateM (Roomy rounds) (Option Char)).run place =
      pure (place.cursor.rest.head?, place) := rfl

end Roomy

/-- A text that is empty or goes on with the mark of directives. -/
def Closed (rest : List Char) : Prop := rest.head? = none ∨ rest.head? = some '@'

/-- Two texts that agree up to a fence. -/
structure Fence where
  before : List Char
  /-- What follows the mark at the fence in the first text. -/
  beyond : List Char
  /-- What follows the fence in the second text. -/
  other : List Char
  closed : Closed other

namespace Fence

/-- Offset of the fence. -/
def place (fence : Fence) : Nat := byteLength fence.before

/-- As many rounds as both texts have bytes. -/
def rounds (fence : Fence) : Nat :=
  byteLength (fence.before ++ '@' :: fence.beyond) + byteLength (fence.before ++ fence.other)

/-- Places at one offset of the two texts, in front of the fence or at it. -/
def Agree (fence : Fence) (here there : Roomy fence.rounds) : Prop :=
  ∃ passed inside, passed.reverse ++ inside = fence.before ∧
    here.cursor = .between passed (inside ++ '@' :: fence.beyond) ∧
    there.cursor = .between passed (inside ++ fence.other)

/-- The first text up to the fence and beyond it. -/
def boundary (fence : Fence) : Boundary (Roomy fence.rounds) (Roomy fence.rounds) where
  agree := fence.Agree
  beyond here := fence.place < here.cursor.offset

/-- Places at one offset of the two texts in front of the fence. -/
def Inside (fence : Fence) (here there : Roomy fence.rounds) : Prop :=
  fence.Agree here there ∧ here.cursor.offset < fence.place

variable {fence : Fence} {α β : Type} {here there place placeThere : Roomy fence.rounds}

namespace Agree

theorem pointer_eq (agree : fence.Agree here there) :
    Source.pointer there = Source.pointer here := by
  obtain ⟨passed, inside, -, isHere, isThere⟩ := agree
  rw [Roomy.pointer_eq, Roomy.pointer_eq, isHere, isThere]
  rfl

theorem position_eq (agree : fence.Agree here there) :
    Source.position there = Source.position here := by
  obtain ⟨passed, inside, -, isHere, isThere⟩ := agree
  rw [Roomy.position_eq, Roomy.position_eq, isHere, isThere]
  exact Cursor.position_of_passed rfl

theorem remaining_eq (agree : fence.Agree here there) :
    Source.remaining there = Source.remaining here := by
  obtain ⟨passed, inside, split, isHere, isThere⟩ := agree
  rw [Roomy.remaining_eq, Roomy.remaining_eq]
  · rw [isHere, Fence.rounds, ← split, Cursor.between]
    simp only [byteLength_append]
    omega
  · rw [isThere, Fence.rounds, ← split, Cursor.between]
    simp only [byteLength_append]
    omega

theorem rest_ne_nil (agree : fence.Agree here there) : here.cursor.rest ≠ [] := by
  obtain ⟨passed, inside, -, isHere, -⟩ := agree
  rw [isHere, Cursor.rest_between]
  exact List.append_ne_nil_of_right_ne_nil _ (List.cons_ne_nil _ _)

/-- Either the same character stands in both texts, and passing it they still agree; or the places
are at the fence, where the mark stands in the first text and nothing else in the second. -/
theorem cases (agree : fence.Agree here there) :
    (∃ character, here.cursor.rest.head? = some character ∧
        there.cursor.rest.head? = some character ∧ here.cursor.offset < fence.place ∧
        fence.Agree here.cursor.advance there.cursor.advance) ∨
      here.cursor.rest.head? = some '@' ∧
        (there.cursor.rest.head? = none ∨ there.cursor.rest.head? = some '@') ∧
        here.cursor.offset = fence.place ∧ fence.place < here.cursor.advance.offset := by
  obtain ⟨passed, inside, split, isHere, isThere⟩ := agree
  cases inside with
  | nil =>
      have atFence : byteLength passed = fence.place := by
        rw [Fence.place, ← split, List.append_nil, byteLength_reverse]
      refine .inr ⟨by rw [isHere]; rfl, ?_, by rw [isHere]; exact atFence, ?_⟩
      · rw [isThere]
        exact fence.closed
      · rw [isHere, List.nil_append, Cursor.advance_between_cons, Cursor.offset_between, byteLength,
          atFence]
        exact Nat.lt_add_of_pos_left ('@').utf8Size_pos
  | cons character inside =>
      refine .inl ⟨character, by rw [isHere]; rfl, by rw [isThere]; rfl, ?_, character :: passed,
        inside, ?_, ?_, ?_⟩
      · have positive := character.utf8Size_pos
        rw [isHere, Cursor.offset_between, Fence.place, ← split, byteLength_append,
          byteLength_reverse, byteLength]
        omega
      · rw [← split, List.reverse_cons, List.append_assoc]
        rfl
      · rw [isHere]
        exact Cursor.advance_between_cons _ _ _
      · rw [isThere]
        exact Cursor.advance_between_cons _ _ _

/-- Both go back to places where they agreed. -/
theorem returnTo (agreed : fence.Agree place placeThere) (agree : fence.Agree here there) :
    (Scan.returnTo (Source.pointer place)).run here = pure ((), place) ∧
      (Scan.returnTo (Source.pointer place)).run there = pure ((), placeThere) := by
  have pointer := agreed.pointer_eq
  obtain ⟨passed, inside, split, isHere, isThere⟩ := agree
  obtain ⟨passed', inside', split', isPlace, isPlaceThere⟩ := agreed
  have text (rest : List Char) : (passed'.reverse ++ (inside' ++ rest)) =
      passed.reverse ++ (inside ++ rest) := by
    rw [← List.append_assoc, split', ← split, List.append_assoc]
  have back : (Scan.returnTo place.cursor.offset).run here.cursor = pure ((), place.cursor) := by
    refine Scan.returnTo_run _ _ ?_
    rw [isHere, isPlace, Cursor.text_between, Cursor.text_between, text]
  have backThere : (Scan.returnTo placeThere.cursor.offset).run there.cursor =
      pure ((), placeThere.cursor) := by
    refine Scan.returnTo_run _ _ ?_
    rw [isThere, isPlaceThere, Cursor.text_between, Cursor.text_between, text]
  exact ⟨back, pointer ▸ backThere⟩

end Agree

/-- From places where the two texts agree a scan answers the same and comes to such places again. -/
def Follows (fence : Fence) (run : StateM (Roomy fence.rounds) α) : Prop :=
  Stencil.Follows fence.Agree id run run

namespace Follows

theorem pure (answer : α) : fence.Follows (Pure.pure answer) :=
  Stencil.Follows.pure id answer

theorem bind {first : StateM (Roomy fence.rounds) α} {next : α → StateM (Roomy fence.rounds) β}
    (here : fence.Follows first) (later : ∀ answer, fence.Follows (next answer)) :
    fence.Follows (first >>= next) :=
  Stencil.Follows.bind here later

theorem ite {condition : Prop} [Decidable condition] {yes no : StateM (Roomy fence.rounds) α}
    (holds : fence.Follows yes) (fails : fence.Follows no) :
    fence.Follows (if condition then yes else no) :=
  Stencil.Follows.ite Iff.rfl holds fails

theorem pointer_bind {next : Nat → StateM (Roomy fence.rounds) β}
    (later : ∀ place placeThere, fence.Agree place placeThere →
      fence.Follows (next (Source.pointer place))) : fence.Follows (Scan.pointer >>= next) := by
  refine Stencil.Follows.of_state fun here there agree =>
    ⟨_, _, later here there agree, rfl, ?_⟩
  rw [← agree.pointer_eq]
  rfl

theorem remaining_bind {next : Nat → StateM (Roomy fence.rounds) β}
    (later : ∀ rounds, fence.Follows (next rounds)) : fence.Follows (Scan.remaining >>= next) := by
  refine Stencil.Follows.of_state fun here there agree =>
    ⟨_, _, later (Source.remaining here), rfl, ?_⟩
  rw [← agree.remaining_eq]
  rfl

theorem returnTo (agreed : fence.Agree place placeThere) :
    fence.Follows (Scan.returnTo (Source.pointer place)) := by
  intro here there agree
  obtain ⟨back, backThere⟩ := agreed.returnTo agree
  rw [back, backThere]
  exact ⟨rfl, agreed⟩

theorem rewind (agreed : fence.Agree place placeThere) (answer : α) :
    fence.Follows (do Scan.returnTo (Source.pointer place); return answer) :=
  (returnTo agreed).bind fun _ => pure answer

/-- A look that tells the mark from nothing as little as it tells the two texts apart. -/
theorem look_bind {look : Option Char → α} {next : α → StateM (Roomy fence.rounds) β}
    (blind : look (some '@') = look none) (later : ∀ answer, fence.Follows (next answer)) :
    fence.Follows (Scan.current >>= fun found => next (look found)) := by
  refine Stencil.Follows.of_state fun here there agree =>
    ⟨_, _, later (look here.cursor.rest.head?), rfl, ?_⟩
  have same : look there.cursor.rest.head? = look here.cursor.rest.head? := by
    rcases agree.cases with ⟨character, isHere, isThere, -⟩ | ⟨isHere, isThere | isThere, -⟩
    · rw [isHere, isThere]
    · rw [isHere, isThere, blind]
    · rw [isHere, isThere]
  rw [← same]
  rfl

theorem currentIs {property : Char → Bool} (unmarked : property '@' = false) :
    fence.Follows (Scan.currentIs property) :=
  look_bind unmarked .pure

/-- A scan does the same at two places. -/
def At (run : StateM (Roomy fence.rounds) α) (here there : Roomy fence.rounds) : Prop :=
  (run.run here).1 = (run.run there).1 ∧ fence.Agree (run.run here).2 (run.run there).2

/-- The same character can be passed in both texts. -/
def Passes (character : Char) (here there : Roomy fence.rounds) : Prop :=
  here.cursor.rest.head? = some character ∧ there.cursor.rest.head? = some character ∧
    fence.Agree here.cursor.advance there.cursor.advance

/-- It is enough that the mark is treated like the end of the text. -/
theorem current_bind {next : Option Char → StateM (Roomy fence.rounds) β}
    (blind : next (some '@') = next none) (nothing : fence.Follows (next none))
    (stands : ∀ character here there, fence.Agree here there → Passes character here there →
      At (next (some character)) here there) : fence.Follows (Scan.current >>= next) := by
  intro here there agree
  have ran (place : Roomy fence.rounds) :
      (Scan.current >>= next).run place = (next place.cursor.rest.head?).run place := rfl
  rw [ran, ran]
  rcases agree.cases with ⟨character, isHere, isThere, -, advanced⟩ | ⟨isHere, isThere, -⟩
  · rw [isHere, isThere]
    exact stands character here there agree ⟨isHere, isThere, advanced⟩
  · have stops := nothing here there agree
    rcases isThere with isThere | isThere <;> rw [isHere, isThere, blind] <;> exact stops

/-- The same for a property that the mark does not have. -/
theorem currentIs_bind {property : Char → Bool} (unmarked : property '@' = false)
    {next : Bool → StateM (Roomy fence.rounds) β} (fails : fence.Follows (next false))
    (holds : ∀ character here there, Passes character here there → At (next true) here there) :
    fence.Follows (Scan.currentIs property >>= next) := by
  change fence.Follows (Scan.current >>= fun found => next (found.any property))
  refine current_bind ?_ fails fun character here there agree passes => ?_
  · rw [Option.any_some, unmarked, Option.any_none]
  · cases has : property character with
    | true =>
        rw [Option.any_some, has]
        exact holds character here there passes
    | false =>
        rw [Option.any_some, has]
        exact fails here there agree

theorem step_bind {next : StateM (Roomy fence.rounds) β} {character : Char}
    (passes : Passes character here there) (later : fence.Follows next) :
    At (do let _ ← Scan.step; next) here there :=
  later _ _ passes.2.2

theorem step {character : Char} (passes : Passes character here there) :
    At (Scan.step : StateM (Roomy fence.rounds) Bool) here there := by
  obtain ⟨isHere, isThere, advanced⟩ := passes
  have more (place : Roomy fence.rounds) (stands : place.cursor.rest.head? = some character) :
      (Scan.step : StateM (Roomy fence.rounds) Bool).run place =
        Pure.pure (true, place.cursor.advance) := by
    have nonempty : place.cursor.rest.isEmpty = false := by
      rw [List.isEmpty_eq_false_iff]
      exact Cursor.rest_ne_nil_of_head? stands
    exact congrArg (fun ended => (!ended, place.cursor.advance)) nonempty
  rw [At, more here isHere, more there isThere]
  exact ⟨rfl, advanced⟩

theorem accept {expected : Char} (unmarked : expected ≠ '@') :
    fence.Follows (Scan.accept expected) := by
  refine current_bind ?_ (pure false) fun character here there agree passes => ?_
  · simp [unmarked.symm]
  · split
    · exact step passes
    · exact ⟨rfl, agree⟩

theorem acceptAll {place placeThere : Roomy fence.rounds} (agreed : fence.Agree place placeThere)
    {literal : List Char} (unmarked : '@' ∉ literal) :
    fence.Follows (Scan.acceptAll (Source.pointer place) literal) := by
  induction literal with
  | nil => exact pure true
  | cons expected literal induction =>
      have different : expected ≠ '@' := fun same => unmarked (same ▸ List.mem_cons_self)
      have later := induction fun member => unmarked (List.mem_cons_of_mem _ member)
      exact (accept different).bind fun _ => ite later (rewind agreed false)

theorem acceptText {literal : String} (unmarked : '@' ∉ literal.toList) :
    fence.Follows (Scan.acceptText literal) :=
  pointer_bind fun _ _ agreed => acceptAll agreed unmarked

theorem takeWhileFrom {property : Char → Bool} (unmarked : property '@' = false) (fuel : Nat)
    (taken : List Char) : fence.Follows (Scan.takeWhileFrom property fuel taken) := by
  induction fuel generalizing taken with
  | zero => exact pure taken
  | succ fuel induction =>
      refine current_bind ?_ (pure taken) fun character here there agree passes => ?_
      · simp [unmarked]
      · dsimp only
        split
        · exact step_bind passes (induction (character :: taken))
        · exact ⟨rfl, agree⟩

theorem takeWhile {property : Char → Bool} (unmarked : property '@' = false) :
    fence.Follows (Scan.takeWhile property) :=
  remaining_bind fun _ => (takeWhileFrom unmarked _ []).bind fun _ => pure _

theorem skipSpacesFrom (fuel : Nat) (skipped : Bool) :
    fence.Follows (Scan.skipSpacesFrom fuel skipped) := by
  induction fuel generalizing skipped with
  | zero => exact pure skipped
  | succ fuel induction =>
      exact currentIs_bind rfl (pure skipped) fun _ _ _ passes => step_bind passes (induction true)

theorem skipSpaces : fence.Follows Scan.skipSpaces :=
  remaining_bind fun _ => skipSpacesFrom _ false

theorem acceptBreak : fence.Follows Scan.acceptBreak :=
  currentIs_bind rfl (pure false) fun _ _ _ => step

theorem orRewind {scan : StateM (Roomy fence.rounds) (Option α)} (inner : fence.Follows scan) :
    fence.Follows (Scan.orRewind scan) := by
  refine pointer_bind fun _ _ agreed => inner.bind fun found => ?_
  cases found with
  | none => exact rewind agreed none
  | some answer => exact pure (some answer)

end Follows

/-- Whether a text begins with a literal depends on the part in front of a fence only, if the
literal has no mark where the fence could be. -/
theorem isPrefixOf_closed {literal inside rest : List Char} (closed : Closed rest)
    (nonempty : inside ≠ []) (once : '@' ∉ literal.tail) :
    literal.isPrefixOf (inside ++ rest) = literal.isPrefixOf inside := by
  rw [Bool.eq_iff_iff, List.isPrefixOf_iff_prefix, List.isPrefixOf_iff_prefix]
  refine ⟨?_, fun begins => begins.trans (List.prefix_append _ _)⟩
  rintro ⟨follows, split⟩
  rcases List.append_eq_append_iff.mp split with ⟨middle, whole, -⟩ | ⟨middle, whole, isRest⟩
  · exact ⟨middle, whole.symm⟩
  · cases middle with
    | nil => exact ⟨[], by rw [whole, List.append_nil, List.append_nil]⟩
    | cons character middle =>
        obtain rfl : character = '@' := by simpa [Closed, isRest] using closed
        obtain ⟨first, front, rfl⟩ := List.exists_cons_of_ne_nil nonempty
        exact absurd (by simp [whole]) once

theorem standsAt_closed {keyword : String} {inside rest : List Char} (closed : Closed rest)
    (nonempty : inside ≠ []) (once : '@' ∉ keyword.toList.tail) :
    standsAt keyword (inside ++ rest) = standsAt keyword inside := by
  rw [standsAt, standsAt, isPrefixOf_closed closed nonempty once]
  cases begins : keyword.toList.isPrefixOf inside with
  | false => rfl
  | true =>
      obtain ⟨follows, rfl⟩ := List.isPrefixOf_iff_prefix.mp begins
      have unmarked : rest.head?.any isNamePart = false := by
        rcases closed with nothing | mark
        · rw [nothing]
          rfl
        · rw [mark]
          decide
      rw [List.append_assoc, List.drop_left, List.drop_left]
      cases follows with
      | nil => simp [unmarked]
      | cons => rfl

theorem Inside.exists_split (inside : fence.Inside here there) :
    ∃ passed ahead, ahead ≠ [] ∧ passed.reverse ++ ahead = fence.before ∧
      here.cursor = .between passed (ahead ++ '@' :: fence.beyond) ∧
      there.cursor = .between passed (ahead ++ fence.other) := by
  obtain ⟨⟨passed, ahead, split, isHere, isThere⟩, before⟩ := inside
  refine ⟨passed, ahead, fun nothing => ?_, split, isHere, isThere⟩
  rw [isHere, Cursor.offset_between, Fence.place, ← split, nothing, List.append_nil,
    byteLength_reverse] at before
  exact Nat.lt_irrefl _ before

theorem Inside.rest_ne_nil (inside : fence.Inside here there) : there.cursor.rest ≠ [] := by
  obtain ⟨passed, ahead, nonempty, -, -, isThere⟩ := inside.exists_split
  rw [isThere, Cursor.rest_between]
  exact List.append_ne_nil_of_left_ne_nil nonempty _

/-- In front of the fence a literal stands in both texts or in none, and passing it they still
agree. -/
theorem Inside.past {literal : String} (inside : fence.Inside here there)
    (once : '@' ∉ literal.toList.tail) :
    literal.toList.isPrefixOf there.cursor.rest = literal.toList.isPrefixOf here.cursor.rest ∧
      fence.Agree (here.cursor.past literal) (there.cursor.past literal) := by
  obtain ⟨passed, ahead, nonempty, split, isHere, isThere⟩ := inside.exists_split
  have begins (rest : List Char) (closed : Closed rest) :=
    isPrefixOf_closed closed nonempty once
  refine ⟨?_, ?_⟩
  · rw [isHere, isThere]
    exact (begins _ fence.closed).trans (begins ('@' :: fence.beyond) (.inr rfl)).symm
  · cases begun : literal.toList.isPrefixOf ahead with
    | true =>
        obtain ⟨ahead, rfl⟩ := List.isPrefixOf_iff_prefix.mp begun
        refine ⟨literal.toList.reverse ++ passed, ahead, ?_, ?_, ?_⟩
        · simpa using split
        · rw [isHere, List.append_assoc]
          exact Cursor.past_between literal _ _
        · rw [isThere, List.append_assoc]
          exact Cursor.past_between literal _ _
    | false =>
        have stays (rest : List Char) (closed : Closed rest) :
            (Cursor.between passed (ahead ++ rest)).past literal =
                .between passed (ahead ++ rest) :=
          if_neg (by rw [Cursor.rest_between, begins rest closed, begun]; exact Bool.false_ne_true)
        refine ⟨passed, ahead, split, ?_, ?_⟩
        · rw [isHere]
          exact stays _ (.inr rfl)
        · rw [isThere]
          exact stays _ fence.closed

theorem Inside.standsAt_eq {keyword : String} (inside : fence.Inside here there)
    (once : '@' ∉ keyword.toList.tail) :
    standsAt keyword there.cursor.rest = standsAt keyword here.cursor.rest := by
  obtain ⟨passed, ahead, nonempty, -, isHere, isThere⟩ := inside.exists_split
  rw [isHere, isThere]
  exact (standsAt_closed fence.closed nonempty once).trans
    (standsAt_closed (.inr rfl : Closed ('@' :: fence.beyond)) nonempty once).symm

theorem Inside.findIdx?_eq {keywords : List String} (inside : fence.Inside here there)
    (once : ∀ keyword ∈ keywords, '@' ∉ keyword.toList.tail) :
    keywords.findIdx? (standsAt · there.cursor.rest) =
      keywords.findIdx? (standsAt · here.cursor.rest) := by
  induction keywords with
  | nil => rfl
  | cons keyword keywords induction =>
      obtain ⟨first, others⟩ := List.forall_mem_cons.mp once
      rw [List.findIdx?_cons, List.findIdx?_cons, inside.standsAt_eq first, induction others]

end Fence

namespace Roomy

variable {rounds : Nat} (place : Roomy rounds)

theorem accept_run (expected : Char) :
    (Scan.accept expected : StateM (Roomy rounds) Bool).run place =
      if place.cursor.rest.head? = some expected then pure (true, place.cursor.advance)
      else pure (false, place) := by
  by_cases stands : place.cursor.rest.head? = some expected
  · obtain ⟨rest, isRest⟩ := List.head?_eq_some_iff.mp stands
    have accepts := Scan.accept_run_self expected place.cursor.passed rest
    rw [← isRest, ← Cursor.eq_between] at accepts
    rw [if_pos stands]
    refine Eq.trans accepts ?_
    rw [Cursor.eq_between place.cursor, isRest, Cursor.advance_between_cons]
    rfl
  · rw [if_neg stands]
    exact Scan.accept_run_of_ne expected place.cursor stands

theorem acceptText_run (literal : String) :
    (Scan.acceptText literal : StateM (Roomy rounds) Bool).run place =
      pure (literal.toList.isPrefixOf place.cursor.rest, place.cursor.past literal) :=
  (congrArg (StateT.run · place.cursor) (acceptText_allowing literal)).trans
    (Scan.acceptText_run literal place.cursor)

theorem looksAtKeyword_run (keyword : String) :
    (Scan.looksAtKeyword keyword : StateM (Roomy rounds) Bool).run place =
      pure (standsAt keyword place.cursor.rest, place) :=
  (congrArg (StateT.run · place.cursor) (looksAtKeyword_allowing keyword)).trans
    (Scan.looksAtKeyword_run keyword place.cursor)

end Roomy

theorem closingKeywordFrom_allowing {σ : Type} [Source σ] {room : σ → Nat} (opening : String)
    (keywords : List String) (terminator : String) (fuel depth : Nat) :
    @Scan.closingKeywordFrom σ (.allowing room) opening keywords terminator fuel depth =
      Scan.closingKeywordFrom opening keywords terminator fuel depth := by
  induction fuel generalizing depth with
  | zero => rfl
  | succ fuel induction =>
      simp only [Scan.closingKeywordFrom, acceptText_allowing, keywordIndex?_allowing, induction]
      rfl

/-- Behind the place where a search begins. -/
theorem offset_le_of_closingKeywordFrom {opening terminator : String} {keywords : List String}
    {fuel depth : Nat} {found : Option Nat} {here after : Cursor}
    (ran : (Scan.closingKeywordFrom opening keywords terminator fuel depth).run here =
      pure (found, after)) : here.offset ≤ after.offset := by
  have forward : here.Reaches
      ((Scan.closingKeywordFrom opening keywords terminator fuel depth).run here).2 :=
    Mirrors.reaches (Placement.simulates.closingKeywordFrom opening keywords terminator fuel depth)
  rw [ran] at forward
  exact forward.2

/-- The search on a cursor with more room is the one on the cursor with more rounds. -/
theorem Roomy.closingKeyword?_run {rounds : Nat} (place : Roomy rounds) (opening : String)
    {keywords : List String} {terminator : String} (last : keywords.getLast? = some terminator) :
    (Scan.closingKeyword? opening keywords : StateM (Roomy rounds) (Option Nat)).run place =
      (do
        match ← Scan.closingKeywordFrom opening keywords terminator
            (2 * (Source.remaining place + 1)) 0 with
        | some index => return some index
        | none =>
            Scan.returnTo place.cursor.offset
            return none : StateM Cursor (Option Nat)).run place.cursor := by
  have same := @closingKeywordFrom_allowing Cursor _ (fun place => rounds - place.remaining) opening
    keywords terminator (2 * (Source.remaining place + 1)) 0
  unfold Scan.closingKeyword?
  rw [last, ← same]
  rfl

namespace Fence

variable {fence : Fence} {here there : Roomy fence.rounds}

/-- A keyword that is found in front of the fence is found in both texts. -/
theorem Agree.closingKeywordFrom {opening terminator : String} {keywords : List String}
    (opens : '@' ∉ opening.toList.tail) (closes : '@' ∉ terminator.toList.tail)
    (once : ∀ keyword ∈ keywords, '@' ∉ keyword.toList.tail) {fuel depth index : Nat}
    {after : Cursor} (agree : fence.Agree here there)
    (ran : (Scan.closingKeywordFrom opening keywords terminator fuel depth).run here.cursor =
      pure (some index, after)) (before : after.offset < fence.place) :
    ∃ afterThere, (Scan.closingKeywordFrom opening keywords terminator fuel depth).run
      there.cursor =
      pure (some index, afterThere) ∧ fence.Agree after afterThere := by
  induction fuel generalizing here there depth with
  | zero => cases ran
  | succ fuel induction =>
      have forward := offset_le_of_closingKeywordFrom ran
      have inside : fence.Inside here there := ⟨agree, Nat.lt_of_le_of_lt forward before⟩
      rcases agree.cases with ⟨character, isHere, isThere, -, advanced⟩ | ⟨-, -, atFence, -⟩
      · obtain ⟨rest, isRest⟩ := List.head?_eq_some_iff.mp isHere
        obtain ⟨restThere, isRestThere⟩ := List.head?_eq_some_iff.mp isThere
        by_cases mark : character = '@'
        · subst mark
          obtain ⟨opensThere, pastOpening⟩ := inside.past opens
          cases begun : opening.toList.isPrefixOf here.cursor.rest with
          | true =>
              rw [Scan.closingKeywordFrom_run_of_opening _ _ _ _ _ isRest begun] at ran
              rw [Scan.closingKeywordFrom_run_of_opening _ _ _ _ _ isRestThere
                (opensThere.trans begun)]
              exact induction pastOpening ran
          | false =>
              have found : keywords.findIdx? (standsAt · there.cursor.rest) =
                  keywords.findIdx? (standsAt · here.cursor.rest) :=
                inside.findIdx?_eq once
              rw [Scan.closingKeywordFrom_run_of_mark _ _ _ _ _ isRest begun] at ran
              rw [Scan.closingKeywordFrom_run_of_mark _ _ _ _ _ isRestThere
                (opensThere.trans begun), found]
              generalize keywords.findIdx? (standsAt · here.cursor.rest) = first? at ran ⊢
              cases first? with
              | none => exact induction advanced ran
              | some first =>
                  dsimp only at ran ⊢
                  by_cases outside : depth = 0
                  · rw [if_pos outside] at ran ⊢
                    cases ran
                    exact ⟨_, rfl, agree⟩
                  · rw [if_neg outside] at ran ⊢
                    by_cases last : first + 1 = keywords.length
                    · rw [if_pos last] at ran ⊢
                      exact induction (inside.past closes).2 ran
                    · rw [if_neg last] at ran ⊢
                      exact induction advanced ran
        · rw [Scan.closingKeywordFrom_run_of_ne _ _ _ _ _ isRest mark] at ran
          rw [Scan.closingKeywordFrom_run_of_ne _ _ _ _ _ isRestThere mark]
          exact induction advanced ran
      · exact absurd inside.2 (atFence ▸ Nat.lt_irrefl _)

theorem Agree.closingKeyword? {opening : String} {keywords : List String}
    (opens : '@' ∉ opening.toList.tail)
    (once : ∀ keyword ∈ keywords, '@' ∉ keyword.toList.tail) {index : Nat}
    {after : Roomy fence.rounds} (agree : fence.Agree here there)
    (ran : (Scan.closingKeyword? opening keywords).run here = pure (some index, after))
    (before : after.cursor.offset < fence.place) :
    ∃ afterThere, (Scan.closingKeyword? opening keywords).run there =
      pure (some index, afterThere) ∧ fence.Agree after afterThere := by
  cases last : keywords.getLast? with
  | none =>
      unfold Scan.closingKeyword? at ran
      rw [last] at ran
      cases ran
  | some terminator =>
      rw [Roomy.closingKeyword?_run here opening last, StateT.run_bind] at ran
      rw [Roomy.closingKeyword?_run there opening last, StateT.run_bind, agree.remaining_eq]
      generalize searched : (Scan.closingKeywordFrom opening keywords terminator
        (2 * (Source.remaining here + 1)) 0).run here.cursor = result at ran
      obtain ⟨found?, place⟩ := result
      cases found? with
      | none => cases ran
      | some found =>
          cases ran
          obtain ⟨afterThere, ranThere, agreeAfter⟩ := agree.closingKeywordFrom opens
            (once terminator (List.mem_of_getLast? last)) once searched before
          refine ⟨afterThere, ?_, agreeAfter⟩
          rw [ranThere]
          rfl

end Fence

end Stencil.Text
