import Stencil.Proofs.Text.Brackets
import Stencil.Proofs.Text.Mirror

/-!
# Loops over a source end by themselves

A loop over a source goes on for as many rounds as characters may be left, which `Source.remaining`
bounds.  Every round passes a character or ends the loop, so a larger bound makes no difference:
with any number of rounds more a scan does what it does without them, and looks at its source just
as often.
-/

namespace Stencil.Text

open Brackets (Precedes)

/-- A source whose loops may go on for more rounds. -/
@[reducible]
def Source.allowing {σ : Type} [source : Source σ] (room : σ → Nat) : Source σ :=
  { source with remaining := fun place => source.remaining place + room place }

namespace Cursor

theorem Reaches.remaining_le {earlier later : Cursor} (reaches : earlier.Reaches later) :
    later.remaining ≤ earlier.remaining := by
  obtain ⟨middle, -, rest⟩ := exists_middle reaches.1.symm reaches.2
  rw [earlier.remaining_eq, later.remaining_eq, rest, byteLength_append]
  exact Nat.le_add_left _ _

theorem rest_ne_nil_of_head? {cursor : Cursor} {character : Char}
    (stands : cursor.rest.head? = some character) : cursor.rest ≠ [] := by
  intro ended
  rw [ended] at stands
  cases stands

end Cursor

namespace Brackets

theorem precedes_iff {earlier later : Cursor} :
    Precedes earlier later ↔ earlier.Reaches later ∧ earlier.offset < later.offset := by
  constructor
  · intro precedes
    exact ⟨⟨precedes.text_eq, Nat.le_of_lt precedes.offset_lt⟩, precedes.offset_lt⟩
  · rintro ⟨reaches, order⟩
    obtain ⟨middle, passed, rest⟩ := Cursor.exists_middle reaches.1.symm reaches.2
    refine ⟨middle.reverse, fun nothing => ?_, rest, by rw [List.reverse_reverse, passed]⟩
    rw [List.reverse_eq_nil_iff.mp nothing, List.nil_append] at passed
    rw [earlier.offset_eq, later.offset_eq, passed] at order
    exact absurd order (Nat.lt_irrefl _)

namespace Precedes

variable {earlier middle later : Cursor}

theorem reaches (precedes : Precedes earlier later) : earlier.Reaches later :=
  (precedes_iff.mp precedes).1

theorem trans_reaches (first : Precedes earlier middle) (second : middle.Reaches later) :
    Precedes earlier later :=
  precedes_iff.mpr ⟨first.reaches.trans second, Nat.lt_of_lt_of_le first.offset_lt second.2⟩

theorem remaining_lt (precedes : Precedes earlier later) : later.remaining < earlier.remaining := by
  obtain ⟨middle, nonempty, rest, -⟩ := precedes
  have longer := List.length_pos_iff.mpr nonempty
  have bytes := length_le_byteLength middle
  rw [earlier.remaining_eq, later.remaining_eq, rest, byteLength_append]
  omega

end Precedes

end Brackets

theorem Cursor.Reaches.trans_precedes {earlier middle later : Cursor}
    (first : earlier.Reaches middle) (second : Precedes middle later) : Precedes earlier later :=
  Brackets.precedes_iff.mpr
    ⟨first.trans second.reaches, Nat.lt_of_le_of_lt first.2 second.offset_lt⟩

variable {ρ α β : Type}

/-- From places with `pre` two computations do the same, and they come to places with `post`, which
may depend on what they answer. -/
def Concur (place : ρ → Cursor) (pre : Cursor → Prop) (left right : StateM ρ α)
    (post : α → Cursor → Prop) : Prop :=
  ∀ state, pre (place state) →
    left.run state = right.run state ∧ post (right.run state).1 (place (right.run state).2)

namespace Concur

variable {place : ρ → Cursor} {pre : Cursor → Prop} {post : α → Cursor → Prop}
  {postNext : β → Cursor → Prop}

theorem pure {answer : α} (holds : ∀ here, pre here → post answer here) :
    Concur place pre (Pure.pure answer) (Pure.pure answer) post :=
  fun state within => ⟨rfl, holds (place state) within⟩

theorem bind {first first' : StateM ρ α} {next next' : α → StateM ρ β}
    (here : Concur place pre first first' post)
    (later : ∀ answer, Concur place (post answer) (next answer) (next' answer) postNext) :
    Concur place pre (first >>= next) (first' >>= next') postNext := by
  intro state within
  obtain ⟨same, holds⟩ := here state within
  obtain ⟨sameRest, holdsAfter⟩ := later _ _ holds
  refine ⟨?_, holdsAfter⟩
  rw [StateT.run_bind, StateT.run_bind, same]
  exact sameRest

theorem ite {condition : Prop} [Decidable condition] {yes yes' no no' : StateM ρ α}
    (holds : Concur place pre yes yes' post) (fails : Concur place pre no no' post) :
    Concur place pre (if condition then yes else no) (if condition then yes' else no') post := by
  split
  · exact holds
  · exact fails

theorem weaken {before : Cursor → Prop} {after : α → Cursor → Prop} {left right : StateM ρ α}
    (concur : Concur place pre left right post) (weaker : ∀ here, before here → pre here)
    (stronger : ∀ answer here, post answer here → after answer here) :
    Concur place before left right after :=
  fun state within =>
    ⟨(concur state (weaker _ within)).1, stronger _ _ (concur state (weaker _ within)).2⟩

/-- What holds at all places with a property holds at each of them. -/
theorem there {here : Cursor} {left right : StateM ρ α} (concur : Concur place pre left right post)
    (within : pre here) : Concur place (· = here) left right post :=
  concur.weaken (fun _ same => same ▸ within) fun _ _ holds => holds

/-- It is enough to go out from each place. -/
theorem each {left right : StateM ρ α}
    (concur : ∀ here, pre here → Concur place (· = here) left right post) :
    Concur place pre left right post :=
  fun state within => concur (place state) within state rfl

/-- What comes after a test may rely on where it leads if it holds, and if it fails. -/
theorem test {holds fails : Cursor → Prop} {test test' : StateM ρ Bool}
    {next next' : Bool → StateM ρ β}
    (here : Concur place pre test test' fun answer => cond answer holds fails)
    (yes : Concur place holds (next true) (next' true) postNext)
    (no : Concur place fails (next false) (next' false) postNext) :
    Concur place pre (test >>= next) (test' >>= next') postNext := by
  refine here.bind fun answer => ?_
  cases answer with
  | true => exact yes
  | false => exact no

end Concur

/-- A place that is come to by passing something from a place with a property. -/
def Passed (pre : Cursor → Prop) (later : Cursor) : Prop :=
  ∃ here, pre here ∧ Precedes here later

theorem passed_reaches {anchor later : Cursor} (passed : Passed anchor.Reaches later) :
    Precedes anchor later := by
  obtain ⟨here, within, passes⟩ := passed
  exact within.trans_precedes passes

variable {σ : Type} [Source σ] [Tracked σ] {room : σ → Nat} {anchor here : Cursor}
  {pre : Cursor → Prop} {post : α → Cursor → Prop} {postNext : β → Cursor → Prop}

section

omit [Tracked σ]

theorem acceptAll_allowing (place : Nat) (literal : List Char) :
    @Scan.acceptAll σ (.allowing room) place literal = Scan.acceptAll place literal := by
  induction literal with
  | nil => rfl
  | cons expected literal induction =>
      exact bind_congr fun _ => ite_congr rfl (fun _ => induction) fun _ => rfl

theorem acceptText_allowing (literal : String) :
    @Scan.acceptText σ (.allowing room) literal = Scan.acceptText literal :=
  bind_congr fun place => acceptAll_allowing place literal.toList

theorem looksAtKeyword_allowing (keyword : String) :
    @Scan.looksAtKeyword σ (.allowing room) keyword = Scan.looksAtKeyword keyword := by
  refine bind_congr fun _ => ?_
  rw [acceptText_allowing]
  rfl

theorem keywordIndex?_allowing (keywords : List String) (index : Nat) :
    @Scan.keywordIndex? σ (.allowing room) keywords index = Scan.keywordIndex? keywords index := by
  induction keywords generalizing index with
  | nil => rfl
  | cons keyword keywords induction =>
      change (@Scan.looksAtKeyword σ (.allowing room) keyword >>= fun found =>
        if found then return some index
        else @Scan.keywordIndex? σ (.allowing room) keywords (index + 1)) = _
      rw [looksAtKeyword_allowing, induction]
      rfl

end

namespace Concur

/-- What a scan without loops answers is what it answers on the cursor of its source. -/
theorem of_mirrors {left run : StateM σ α} {runCursor : StateM Cursor α} (same : left = run)
    (mirrors : ∀ anchor, Mirrors anchor (.itself anchor.text) run runCursor) :
    Concur Tracked.cursor pre left run fun answer later =>
      ∃ here, pre here ∧ runCursor.run here = Pure.pure (answer, later) := by
  subst same
  intro source within
  obtain ⟨answers, stands, -⟩ := mirrors (Tracked.cursor source) source _ ⟨rfl, .refl _⟩
  exact ⟨rfl, _, within, Prod.ext answers.symm stands.symm⟩

/-- A scan that tells something about the place and stays there. -/
theorem look {left run : StateM σ α} {runCursor : StateM Cursor α} {look : Cursor → α}
    (same : left = run) (mirrors : ∀ anchor, Mirrors anchor (.itself anchor.text) run runCursor)
    (looks : ∀ here, runCursor.run here = Pure.pure (look here, here)) :
    Concur Tracked.cursor pre left run fun answer here => pre here ∧ answer = look here := by
  refine (of_mirrors same mirrors).weaken (fun _ within => within) ?_
  rintro answer later ⟨here, within, ran⟩
  rw [looks] at ran
  obtain ⟨rfl, rfl⟩ := Prod.mk.inj ran
  exact ⟨within, rfl⟩

theorem look_bind {left run : StateM σ α} {runCursor : StateM Cursor α} {look : Cursor → α}
    {next next' : α → StateM σ β} (same : left = run)
    (mirrors : ∀ anchor, Mirrors anchor (.itself anchor.text) run runCursor)
    (looks : ∀ here, runCursor.run here = Pure.pure (look here, here))
    (later : ∀ here, pre here →
      Concur Tracked.cursor (· = here) (next (look here)) (next' (look here)) postNext) :
    Concur Tracked.cursor pre (left >>= next) (run >>= next') postNext :=
  (Concur.look same mirrors looks).bind fun _ => .each fun here ⟨within, answers⟩ =>
    answers ▸ later here within

theorem pointer_bind {next next' : Nat → StateM σ β}
    (later : ∀ here, pre here →
      Concur Tracked.cursor (· = here) (next here.offset) (next' here.offset) postNext) :
    Concur Tracked.cursor pre (@Scan.pointer σ (.allowing room) >>= next) (Scan.pointer >>= next')
      postNext := by
  intro source within
  have rest := later _ within source rfl
  rw [← Tracked.pointer_eq] at rest
  exact rest

/-- A loop gets as many rounds as characters may be left, and perhaps some more. -/
theorem remaining_bind {next next' : Nat → StateM σ β}
    (later : ∀ here, pre here → ∀ extra, Concur Tracked.cursor (· = here)
      (next (here.remaining + extra)) (next' here.remaining) postNext) :
    Concur Tracked.cursor pre (@Scan.remaining σ (.allowing room) >>= next)
      (Scan.remaining >>= next') postNext := by
  intro source within
  have rest := later _ within (room source) source rfl
  rw [← Tracked.remaining_eq] at rest
  exact rest

theorem hasEnded_bind {next next' : Bool → StateM σ β}
    (ended : Concur Tracked.cursor pre (next true) (next' true) postNext)
    (goesOn : ∀ here, pre here → here.rest ≠ [] →
      Concur Tracked.cursor (· = here) (next false) (next' false) postNext) :
    Concur Tracked.cursor pre (@Scan.hasEnded σ (.allowing room) >>= next)
      (Scan.hasEnded >>= next') postNext := by
  refine look_bind rfl (fun _ => .hasEnded) Scan.hasEnded_run fun here within => ?_
  cases isRest : here.rest with
  | nil => exact ended.there within
  | cons character rest => exact goesOn here within (by simp [isRest])

theorem current_bind {next next' : Option Char → StateM σ β}
    (ended : Concur Tracked.cursor pre (next none) (next' none) postNext)
    (stands : ∀ here character, pre here → here.rest.head? = some character →
      Concur Tracked.cursor (· = here) (next (some character)) (next' (some character)) postNext) :
    Concur Tracked.cursor pre (@Scan.current σ (.allowing room) >>= next) (Scan.current >>= next')
      postNext := by
  refine look_bind rfl (fun _ => .current) Scan.current_run fun here within => ?_
  cases head : here.rest.head? with
  | none => exact ended.there within
  | some character => exact stands here character within head

/-- A character with a property is one that can be passed. -/
theorem currentIs_bind {property : Char → Bool} {next next' : Bool → StateM σ β}
    (holds : ∀ here, pre here → here.rest ≠ [] →
      Concur Tracked.cursor (· = here) (next true) (next' true) postNext)
    (fails : Concur Tracked.cursor pre (next false) (next' false) postNext) :
    Concur Tracked.cursor pre (@Scan.currentIs σ (.allowing room) property >>= next)
      (Scan.currentIs property >>= next') postNext := by
  refine look_bind rfl (fun _ => .currentIs property) (Scan.currentIs_run property)
    fun here within => ?_
  cases has : here.rest.head?.any property with
  | true =>
      obtain ⟨character, stands, -⟩ := (Option.any_eq_true _ _).mp has
      exact holds here within (Cursor.rest_ne_nil_of_head? stands)
  | false => exact fails.there within

theorem step_bind {next next' : StateM σ β}
    (later : Concur Tracked.cursor (· = here.advance) next next' postNext) :
    Concur Tracked.cursor (· = here) (do let _ ← @Scan.step σ (.allowing room); next)
      (do let _ ← Scan.step; next') postNext := by
  have steps : Concur Tracked.cursor (· = here) (@Scan.step σ (.allowing room)) Scan.step
      fun _ => (· = here.advance) := by
    rintro source rfl
    exact ⟨rfl, Tracked.cursor_step source⟩
  exact steps.bind fun _ => later

/-- A character that is accepted is passed. -/
theorem accept (expected : Char) :
    Concur Tracked.cursor pre (@Scan.accept σ (.allowing room) expected) (Scan.accept expected)
      fun accepted => cond accepted (Passed pre) pre := by
  refine (of_mirrors rfl fun _ => .accept expected).weaken (fun _ within => within)
    fun accepted later came => ?_
  obtain ⟨here, within, ran⟩ := came
  by_cases stands : here.rest.head? = some expected
  · have more := Cursor.rest_ne_nil_of_head? stands
    have accepts : (Scan.accept expected).run here = Pure.pure (true, here.advance) := by
      simp [Scan.accept, stands, List.isEmpty_eq_false_iff.mpr more]
    rw [accepts] at ran
    obtain ⟨rfl, rfl⟩ := Prod.mk.inj ran
    exact ⟨here, within, .advance more⟩
  · rw [Scan.accept_run_of_ne expected here stands] at ran
    obtain ⟨rfl, rfl⟩ := Prod.mk.inj ran
    exact within

/-- A literal that is accepted is passed. -/
theorem acceptText {literal : String} (nonempty : literal ≠ "") :
    Concur Tracked.cursor pre (@Scan.acceptText σ (.allowing room) literal)
      (Scan.acceptText literal) fun accepted => cond accepted (Passed pre) pre := by
  refine (of_mirrors (acceptText_allowing literal) fun _ => .acceptText literal).weaken
    (fun _ within => within) fun accepted later came => ?_
  obtain ⟨here, within, ran⟩ := came
  rw [Scan.acceptText_run] at ran
  obtain ⟨rfl, rfl⟩ := Prod.mk.inj ran
  cases begins : literal.toList.isPrefixOf here.rest with
  | true => exact ⟨here, within, .past nonempty (List.isPrefixOf_iff_prefix.mp begins)⟩
  | false =>
      have stays : here.past literal = here := if_neg (by simp [begins])
      rw [stays]
      exact within

theorem position :
    Concur Tracked.cursor pre (@Scan.position σ (.allowing room)) Scan.position fun _ => pre :=
  fun _ within => ⟨rfl, within⟩

theorem currentIs (property : Char → Bool) :
    Concur Tracked.cursor pre (@Scan.currentIs σ (.allowing room) property)
      (Scan.currentIs property) fun _ => pre :=
  (look rfl (fun _ => .currentIs property) (Scan.currentIs_run property)).weaken
    (fun _ within => within) fun _ _ stays => stays.1

theorem looksAtKeyword (keyword : String) :
    Concur Tracked.cursor pre (@Scan.looksAtKeyword σ (.allowing room) keyword)
      (Scan.looksAtKeyword keyword) fun _ => pre :=
  (look (looksAtKeyword_allowing keyword) (fun _ => .looksAtKeyword keyword)
    (Scan.looksAtKeyword_run keyword)).weaken (fun _ within => within) fun _ _ stays => stays.1

theorem returnTo {place : Cursor} (text : ∀ other, pre other → other.text = place.text) :
    Concur Tracked.cursor pre (@Scan.returnTo σ (.allowing room) place.offset)
      (Scan.returnTo place.offset) fun _ => (· = place) := by
  intro source within
  have found : (Tracked.cursor source).seek? place.offset = some place :=
    Cursor.seek?_eq_some_iff.mpr ⟨(text _ within).symm, rfl⟩
  have back := Tracked.cursor_seek place.offset source
  rw [found] at back
  exact ⟨rfl, back⟩

end Concur

/-- From an anchor on two scans do the same, and they do not go back behind it. -/
def ConcurFrom (anchor : Cursor) (left right : StateM σ α) : Prop :=
  Concur Tracked.cursor anchor.Reaches left right fun _ => anchor.Reaches

namespace ConcurFrom

/-- What is done from a place on is also done from a place behind the anchor. -/
theorem behind {left right : StateM σ α} (concur : ConcurFrom here left right)
    (within : anchor.Reaches here) :
    Concur Tracked.cursor (· = here) left right fun _ => anchor.Reaches :=
  concur.weaken (fun _ same => same ▸ .refl here) fun _ _ => within.trans

theorem of_mirrors {left run : StateM σ α} {runCursor : StateM Cursor α} (same : left = run)
    (mirrors : ∀ anchor, Mirrors anchor (.itself anchor.text) run runCursor) :
    ConcurFrom anchor left run := by
  subst same
  intro source within
  obtain ⟨-, isCursor, stands⟩ := mirrors anchor source _ ⟨rfl, within⟩
  change Tracked.cursor _ = _ at isCursor
  exact ⟨rfl, isCursor ▸ stands⟩

theorem pure (answer : α) : ConcurFrom anchor (Pure.pure answer : StateM σ α) (Pure.pure answer) :=
  Concur.pure fun _ within => within

theorem bind {first first' : StateM σ α} {next next' : α → StateM σ β}
    (here : ConcurFrom anchor first first')
    (later : ∀ answer, ConcurFrom anchor (next answer) (next' answer)) :
    ConcurFrom anchor (first >>= next) (first' >>= next') :=
  Concur.bind here later

theorem ite {condition : Prop} [Decidable condition] {yes yes' no no' : StateM σ α}
    (holds : ConcurFrom anchor yes yes') (fails : ConcurFrom anchor no no') :
    ConcurFrom anchor (if condition then yes else no) (if condition then yes' else no') :=
  Concur.ite holds fails

theorem pointer_bind {next next' : Nat → StateM σ β}
    (later : ∀ here : Cursor, anchor.Reaches here →
      ConcurFrom anchor (next here.offset) (next' here.offset)) :
    ConcurFrom anchor (@Scan.pointer σ (.allowing room) >>= next) (Scan.pointer >>= next') :=
  Concur.pointer_bind fun here within => (later here within).there within

theorem rewind (within : anchor.Reaches here) (answer : α) :
    ConcurFrom anchor (do @Scan.returnTo σ (.allowing room) here.offset; return answer)
      (do Scan.returnTo here.offset; return answer) :=
  (Concur.returnTo fun _ reaches => reaches.1.trans within.1.symm).bind fun _ =>
    .pure fun _ same => same ▸ within

theorem current : ConcurFrom anchor (@Scan.current σ (.allowing room)) Scan.current :=
  of_mirrors rfl fun _ => .current

theorem step : ConcurFrom anchor (@Scan.step σ (.allowing room)) Scan.step :=
  of_mirrors rfl fun _ => .step

theorem position : ConcurFrom anchor (@Scan.position σ (.allowing room)) Scan.position :=
  Concur.position

theorem currentIs (property : Char → Bool) :
    ConcurFrom anchor (@Scan.currentIs σ (.allowing room) property) (Scan.currentIs property) :=
  Concur.currentIs property

theorem accept (expected : Char) :
    ConcurFrom anchor (@Scan.accept σ (.allowing room) expected) (Scan.accept expected) :=
  of_mirrors rfl fun _ => .accept expected

theorem acceptBreak : ConcurFrom anchor (@Scan.acceptBreak σ (.allowing room)) Scan.acceptBreak :=
  of_mirrors rfl fun _ => .acceptBreak

theorem acceptText (literal : String) :
    ConcurFrom anchor (@Scan.acceptText σ (.allowing room) literal) (Scan.acceptText literal) :=
  of_mirrors (acceptText_allowing literal) fun _ => .acceptText literal

theorem orRewind {scan scan' : StateM σ (Option α)} (inner : ConcurFrom anchor scan scan') :
    ConcurFrom anchor (@Scan.orRewind σ (.allowing room) α scan) (Scan.orRewind scan') := by
  refine pointer_bind fun _ within => inner.bind fun found => ?_
  cases found with
  | none => exact rewind within none
  | some answer => exact pure (some answer)

/-- A round that passes a character leaves enough rounds for the rest of the loop. -/
theorem step_bind {next next' : StateM σ β} (within : anchor.Reaches here) (more : here.rest ≠ [])
    (later : ∀ after : Cursor, after.remaining < here.remaining → ConcurFrom after next next') :
    Concur Tracked.cursor (· = here) (do let _ ← @Scan.step σ (.allowing room); next)
      (do let _ ← Scan.step; next') fun _ => anchor.Reaches := by
  have passes : Precedes here here.advance := .advance more
  exact .step_bind ((later _ passes.remaining_lt).behind (within.trans passes.reaches))

theorem takeWhileFrom (property : Char → Bool) {more fuel : Nat}
    (enoughMore : anchor.remaining < more) (enough : anchor.remaining < fuel) (taken : List Char) :
    ConcurFrom anchor (@Scan.takeWhileFrom σ (.allowing room) property more taken)
      (Scan.takeWhileFrom property fuel taken) := by
  induction fuel generalizing anchor more taken with
  | zero => exact absurd enough (Nat.not_lt_zero _)
  | succ fuel induction =>
      obtain ⟨more, rfl⟩ : ∃ less, more = less + 1 := ⟨more - 1, by omega⟩
      refine Concur.current_bind (pure taken) fun here character within stands => .ite ?_ ?_
      · have left := within.remaining_le
        exact step_bind within (Cursor.rest_ne_nil_of_head? stands) fun after less =>
          induction (by omega) (by omega) _
      · exact (pure taken).behind within

theorem takeWhile (property : Char → Bool) :
    ConcurFrom anchor (@Scan.takeWhile σ (.allowing room) property) (Scan.takeWhile property) :=
  Concur.remaining_bind fun _ within _ =>
    ((takeWhileFrom property (by omega) (by omega) []).bind fun _ => pure _).behind within

theorem skipSpacesFrom {more fuel : Nat} (enoughMore : anchor.remaining < more)
    (enough : anchor.remaining < fuel) (skipped : Bool) :
    ConcurFrom anchor (@Scan.skipSpacesFrom σ (.allowing room) more skipped)
      (Scan.skipSpacesFrom fuel skipped) := by
  induction fuel generalizing anchor more skipped with
  | zero => exact absurd enough (Nat.not_lt_zero _)
  | succ fuel induction =>
      obtain ⟨more, rfl⟩ : ∃ less, more = less + 1 := ⟨more - 1, by omega⟩
      refine Concur.currentIs_bind (fun here within goesOn => ?_) (pure skipped)
      have left := within.remaining_le
      exact step_bind within goesOn fun after less => induction (by omega) (by omega) true

theorem skipSpaces : ConcurFrom anchor (@Scan.skipSpaces σ (.allowing room)) Scan.skipSpaces :=
  Concur.remaining_bind fun _ within _ =>
    (skipSpacesFrom (by omega) (by omega) false).behind within

/-- Each round passes a character, or leaves a nested body that was opened by one. -/
theorem closingKeywordFrom {opening : String} (nonempty : opening ≠ "") (keywords : List String)
    (terminator : String) {more fuel depth : Nat}
    (enoughMore : 2 * anchor.remaining + depth < more)
    (enough : 2 * anchor.remaining + depth < fuel) :
    ConcurFrom anchor
      (@Scan.closingKeywordFrom σ (.allowing room) opening keywords terminator more depth)
      (Scan.closingKeywordFrom opening keywords terminator fuel depth) := by
  induction fuel generalizing anchor more depth with
  | zero => exact absurd enough (Nat.not_lt_zero _)
  | succ fuel induction =>
      obtain ⟨more, rfl⟩ : ∃ less, more = less + 1 := ⟨more - 1, by omega⟩
      refine Concur.hasEnded_bind (pure none) fun here within goesOn => ?_
      have left := within.remaining_le
      have onward : Concur Tracked.cursor (· = here)
          (do let _ ← @Scan.step σ (.allowing room)
              @Scan.closingKeywordFrom σ (.allowing room) opening keywords terminator more depth)
          (do let _ ← Scan.step
              Scan.closingKeywordFrom opening keywords terminator fuel depth)
          fun _ => anchor.Reaches :=
        step_bind within goesOn fun after less => induction (by omega) (by omega)
      have left := within.remaining_le
      refine .look_bind rfl (fun _ => .current) Scan.current_run ?_
      rintro _ rfl
      refine .ite (.test (.acceptText nonempty) ?_ ?_) onward
      · refine .each ?_
        rintro later ⟨_, rfl, passes⟩
        have less := passes.remaining_lt
        exact (induction (by omega) (by omega)).behind (within.trans passes.reaches)
      · refine .look_bind (keywordIndex?_allowing keywords 0)
          (fun _ => Placement.simulates.keywordIndex? keywords 0) (Scan.keywordIndex?_run _ _) ?_
        rintro _ rfl
        split
        · rename_i index _
          by_cases outside : depth = 0
          · simp only [if_pos outside]
            exact (pure (some index)).behind within
          · simp only [if_neg outside]
            refine .ite ?_ onward
            exact ((acceptText terminator).bind fun _ =>
              induction (by omega) (by omega)).behind within
        · exact onward

theorem closingKeyword? {opening : String} (nonempty : opening ≠ "") (keywords : List String) :
    ConcurFrom anchor (@Scan.closingKeyword? σ (.allowing room) opening keywords)
      (Scan.closingKeyword? opening keywords) := by
  unfold Scan.closingKeyword?
  cases keywords.getLast? with
  | none => exact pure none
  | some terminator =>
      refine pointer_bind fun _ within => Concur.remaining_bind fun _ passed _ => ?_
      refine ((closingKeywordFrom nonempty keywords terminator (by omega) (by omega)).behind
        passed).bind fun found => ?_
      cases found with
      | none => exact rewind within none
      | some index => exact pure (some index)

end ConcurFrom

end Stencil.Text
