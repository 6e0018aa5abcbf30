import Mathlib.Logic.Relation
import Stencil.Proofs.Text.Keyword

/-!
# The end of a body is found as brackets match

Reading a text from a place on, every opening text at a mark opens a body inside and every last
keyword closes the innermost one.  The search for the keyword that closes a body stops at the first
keyword that stands outside all of these, or finds that there is none.
-/

namespace Stencil.Text

open Relation

/-- The text that opens a body, and the keywords that part it and, as the last one, close it. -/
structure Brackets where
  opening : String
  keywords : List String
  opening_ne : opening ≠ ""
  keywords_ne : keywords ≠ []
  keyword_ne : ∀ keyword ∈ keywords, keyword ≠ ""

namespace Brackets

variable (brackets : Brackets)

def terminator : String := brackets.keywords.getLast brackets.keywords_ne

/-- At a mark the opening text comes next. -/
def Opens (rest : List Char) : Prop :=
  rest.head? = some '@' ∧ brackets.opening.toList <+: rest

/-- At a mark that opens nothing, a keyword is the first one of the list that stands there. -/
def Names (index : Nat) (rest : List Char) : Prop :=
  rest.head? = some '@' ∧ ¬brackets.opening.toList <+: rest ∧
    ∃ keyword, brackets.keywords[index]? = some keyword ∧ standsAt keyword rest = true ∧
      ∀ earlier < index, ∀ other, brackets.keywords[earlier]? = some other →
        standsAt other rest = false

/-- The last keyword is the one that stands there. -/
def Closes (rest : List Char) : Prop :=
  ∃ index, brackets.Names index rest ∧ index + 1 = brackets.keywords.length

/-- A place in a text and how many bodies were opened and closed on the way to it. -/
structure Reading where
  place : Cursor
  opened : Nat
  closed : Nat

/-- What opens or closes a body is read at once, everything else character by character. -/
inductive Step : Reading → Reading → Prop
  | opens {place : Cursor} (opened closed : Nat) (opens : brackets.Opens place.rest) :
      Step ⟨place, opened, closed⟩ ⟨place.past brackets.opening, opened + 1, closed⟩
  | closes {place : Cursor} {opened closed : Nat} (inside : closed < opened)
      (closes : brackets.Closes place.rest) :
      Step ⟨place, opened, closed⟩ ⟨place.past brackets.terminator, opened, closed + 1⟩
  | passes {place : Cursor} {opened closed : Nat} (more : place.rest ≠ [])
      (unopened : ¬brackets.Opens place.rest)
      (unclosed : ¬(closed < opened ∧ brackets.Closes place.rest)) :
      Step ⟨place, opened, closed⟩ ⟨place.advance, opened, closed⟩

/-- Reading comes to a keyword outside all bodies that were opened. -/
def Meets (reading : Reading) (place : Cursor) (index : Nat) : Prop :=
  ∃ count, ReflTransGen brackets.Step reading ⟨place, count, count⟩ ∧
    brackets.Names index place.rest

/-- The first keyword outside all bodies that were opened. -/
def MeetsFirst (reading : Reading) (place : Cursor) (index : Nat) : Prop :=
  brackets.Meets reading place index ∧
    ∀ earlier other, brackets.Meets reading earlier other → place.offset ≤ earlier.offset

variable {brackets} {place : Cursor} {index : Nat} {rest : List Char}
  {reading later : Brackets.Reading}

theorem names_iff (mark : rest.head? = some '@') (unopened : ¬brackets.opening.toList <+: rest) :
    brackets.Names index rest ↔ brackets.keywords.findIdx? (standsAt · rest) = some index := by
  rw [List.findIdx?_eq_some_iff_getElem]
  constructor
  · rintro ⟨-, -, keyword, isKeyword, stands, first⟩
    obtain ⟨within, rfl⟩ := List.getElem?_eq_some_iff.mp isKeyword
    refine ⟨within, stands, fun earlier before => ?_⟩
    have declined := first earlier before _ (List.getElem?_eq_getElem (Nat.lt_trans before within))
    exact Bool.eq_false_iff.mp declined
  · rintro ⟨within, stands, first⟩
    refine ⟨mark, unopened, _, List.getElem?_eq_getElem within, stands, ?_⟩
    intro earlier before other isOther
    obtain ⟨-, rfl⟩ := List.getElem?_eq_some_iff.mp isOther
    exact Bool.eq_false_iff.mpr (first earlier before)

theorem Names.findIdx? (names : brackets.Names index rest) :
    brackets.keywords.findIdx? (standsAt · rest) = some index :=
  (names_iff names.1 names.2.1).mp names

theorem Names.unique {other : Nat} (here : brackets.Names index rest)
    (there : brackets.Names other rest) : other = index :=
  Option.some.inj (there.findIdx?.symm.trans here.findIdx?)

theorem Names.ne_nil (names : brackets.Names index rest) : rest ≠ [] := by
  rintro rfl
  exact nomatch names.1

theorem Names.not_opens (names : brackets.Names index rest) : ¬brackets.Opens rest :=
  fun opens => names.2.1 opens.2

theorem Closes.terminator_isPrefix (closes : brackets.Closes rest) :
    brackets.terminator.toList <+: rest := by
  obtain ⟨index, ⟨-, -, keyword, isKeyword, stands, -⟩, isLast⟩ := closes
  have isTerminator : keyword = brackets.terminator := by
    obtain ⟨within, rfl⟩ := List.getElem?_eq_some_iff.mp isKeyword
    have last : index = brackets.keywords.length - 1 := by omega
    subst last
    exact (List.getLast_eq_getElem brackets.keywords_ne).symm
  exact isTerminator ▸ isPrefix_of_standsAt stands

theorem terminator_ne : brackets.terminator ≠ "" :=
  brackets.keyword_ne _ (List.getLast_mem brackets.keywords_ne)

/-- A later place has passed more of the same text. -/
def Precedes (earlier later : Cursor) : Prop :=
  ∃ middle, middle ≠ [] ∧ earlier.rest = middle ++ later.rest ∧
    later.passed = middle.reverse ++ earlier.passed

theorem Precedes.past {literal : String} (given : literal ≠ "")
    (begins : literal.toList <+: place.rest) : Precedes place (place.past literal) := by
  obtain ⟨rest, split⟩ := begins
  have isPast : place.past literal = .between (literal.toList.reverse ++ place.passed) rest := by
    have past := Cursor.past_between literal place.passed rest
    rwa [split, ← Cursor.eq_between] at past
  refine ⟨literal.toList, fun nothing => given (String.toList_eq_nil_iff.mp nothing), ?_, ?_⟩
  · rw [isPast, Cursor.rest_between, split]
  · rw [isPast, Cursor.passed_between]

theorem Precedes.advance (more : place.rest ≠ []) : Precedes place place.advance := by
  obtain ⟨character, rest, split⟩ := List.exists_cons_of_ne_nil more
  have isNext : place.advance = .between (character :: place.passed) rest := by
    have next := Cursor.advance_between_cons place.passed rest character
    rwa [← split, ← Cursor.eq_between] at next
  refine ⟨[character], List.cons_ne_nil _ _, ?_, ?_⟩
  · rw [isNext, Cursor.rest_between, split, List.singleton_append]
  · rw [isNext, Cursor.passed_between, List.reverse_singleton, List.singleton_append]

theorem Precedes.offset_lt {earlier later : Cursor} (precedes : Precedes earlier later) :
    earlier.offset < later.offset := by
  obtain ⟨middle, some, -, passed⟩ := precedes
  have longer := List.length_pos_iff.mpr some
  have bytes := length_le_byteLength middle
  rw [earlier.offset_eq, later.offset_eq, passed, byteLength_append, byteLength_reverse]
  omega

theorem Precedes.rest_lt {earlier later : Cursor} (precedes : Precedes earlier later) :
    later.rest.length < earlier.rest.length := by
  obtain ⟨middle, some, rest, -⟩ := precedes
  have longer := List.length_pos_iff.mpr some
  rw [rest, List.length_append]
  omega

theorem Precedes.text_eq {earlier later : Cursor} (precedes : Precedes earlier later) :
    later.text = earlier.text := by
  obtain ⟨middle, -, rest, passed⟩ := precedes
  simp [Cursor.text, rest, passed]

theorem Step.precedes (step : brackets.Step reading later) :
    Precedes reading.place later.place := by
  cases step with
  | opens opened closed opens => exact .past brackets.opening_ne opens.2
  | closes inside closes => exact .past terminator_ne closes.terminator_isPrefix
  | passes more unopened unclosed => exact .advance more

theorem Step.closed_le (step : brackets.Step reading later)
    (holds : reading.closed ≤ reading.opened) :
    later.closed ≤ later.opened := by
  cases step with
  | opens opened closed opens => exact Nat.le_succ_of_le holds
  | closes inside closes => exact inside
  | passes more unopened unclosed => exact holds

theorem Step.unique {other : Brackets.Reading} (step : brackets.Step reading later)
    (also : brackets.Step reading other) : other = later := by
  have apart {rest : List Char} (opens : brackets.Opens rest) : ¬brackets.Closes rest := by
    rintro ⟨index, names, -⟩
    exact names.not_opens opens
  cases step with
  | opens opened closed opens =>
      cases also with
      | opens => rfl
      | closes inside closes => exact absurd closes (apart opens)
      | passes more unopened unclosed => exact absurd opens unopened
  | closes inside closes =>
      cases also with
      | opens opened closed opens => exact absurd closes (apart opens)
      | closes => rfl
      | passes more unopened unclosed => exact absurd ⟨inside, closes⟩ unclosed
  | passes more unopened unclosed =>
      cases also with
      | opens opened closed opens => exact absurd opens unopened
      | closes inside closes => exact absurd ⟨inside, closes⟩ unclosed
      | passes => rfl

/-- Reading goes on up to the end of the text. -/
theorem exists_step (more : reading.place.rest ≠ []) : ∃ later, brackets.Step reading later := by
  obtain ⟨place, opened, closed⟩ := reading
  by_cases opens : brackets.Opens place.rest
  · exact ⟨_, .opens opened closed opens⟩
  · by_cases closes : closed < opened ∧ brackets.Closes place.rest
    · exact ⟨_, .closes closes.1 closes.2⟩
    · exact ⟨_, .passes more opens closes⟩

theorem closed_le_of_reads (reads : ReflTransGen brackets.Step reading later)
    (holds : reading.closed ≤ reading.opened) : later.closed ≤ later.opened := by
  induction reads with
  | refl => exact holds
  | tail earlier step induction => exact step.closed_le induction

theorem offset_le_of_reads (reads : ReflTransGen brackets.Step reading later) :
    reading.place.offset ≤ later.place.offset := by
  induction reads with
  | refl => exact Nat.le_refl _
  | tail earlier step induction =>
      exact Nat.le_of_lt (Nat.lt_of_le_of_lt induction step.precedes.offset_lt)

theorem text_eq_of_reads (reads : ReflTransGen brackets.Step reading later) :
    later.place.text = reading.place.text := by
  induction reads with
  | refl => rfl
  | tail earlier step induction => exact step.precedes.text_eq.trans induction

/-- The search with a number of rounds from a reading on; its counter says how many bodies are
open. -/
def search (brackets : Brackets) (reading : Brackets.Reading) (rounds : Nat) :
    Option Nat × Cursor :=
  (Scan.closingKeywordFrom brackets.opening brackets.keywords brackets.terminator rounds
    (reading.opened - reading.closed)).run reading.place

theorem search_of_ended (ended : reading.place.rest = []) (rounds : Nat) :
    brackets.search reading rounds = (none, reading.place) :=
  Scan.closingKeywordFrom_run_of_ended _ _ _ _ _ ended

theorem search_of_names {count : Nat} (names : brackets.Names index place.rest) (rounds : Nat) :
    brackets.search ⟨place, count, count⟩ (rounds + 1) = (some index, place) := by
  have unopened : brackets.opening.toList.isPrefixOf place.rest = false :=
    Bool.eq_false_iff.mpr fun begins => names.2.1 (List.isPrefixOf_iff_prefix.mp begins)
  obtain ⟨rest, next⟩ := List.head?_eq_some_iff.mp names.1
  unfold search
  rw [Scan.closingKeywordFrom_run_of_mark _ _ _ _ _ next unopened, names.findIdx?]
  dsimp only
  rw [if_pos (Nat.sub_self count)]
  rfl

/-- A round of the search is a step of reading unless it finds something.  The counter falls only
where it is above zero. -/
theorem search_of_step (step : brackets.Step reading later)
    (holds : reading.closed ≤ reading.opened)
    (goesOn : reading.opened = reading.closed → ∀ index, ¬brackets.Names index reading.place.rest)
    (rounds : Nat) :
    brackets.search reading (rounds + 1) = brackets.search later rounds := by
  unfold search
  cases step with
  | @opens place opened closed opens =>
      obtain ⟨rest, next⟩ := List.head?_eq_some_iff.mp opens.1
      have counted : opened + 1 - closed = opened - closed + 1 := Nat.succ_sub holds
      rw [Scan.closingKeywordFrom_run_of_opening _ _ _ _ _ next
        (List.isPrefixOf_iff_prefix.mpr opens.2)]
      dsimp only
      rw [counted]
  | @closes place opened closed inside closes =>
      obtain ⟨index, names, isLast⟩ := closes
      have unopened : brackets.opening.toList.isPrefixOf place.rest = false :=
        Bool.eq_false_iff.mpr fun begins => names.2.1 (List.isPrefixOf_iff_prefix.mp begins)
      obtain ⟨rest, next⟩ := List.head?_eq_some_iff.mp names.1
      have above : opened - closed ≠ 0 := Nat.sub_ne_zero_of_lt inside
      rw [Scan.closingKeywordFrom_run_of_mark _ _ _ _ _ next unopened, names.findIdx?]
      dsimp only
      rw [if_neg above, if_pos isLast, Nat.sub_sub]
  | @passes place opened closed more unopened unclosed =>
      obtain ⟨character, rest, next⟩ := List.exists_cons_of_ne_nil more
      by_cases mark : character = '@'
      · subst mark
        have isMark : place.rest.head? = some '@' := by rw [next, List.head?_cons]
        have declined : ¬brackets.opening.toList <+: place.rest :=
          fun begins => unopened ⟨isMark, begins⟩
        have declines : brackets.opening.toList.isPrefixOf place.rest = false :=
          Bool.eq_false_iff.mpr fun begins => declined (List.isPrefixOf_iff_prefix.mp begins)
        rw [Scan.closingKeywordFrom_run_of_mark _ _ _ _ _ next declines]
        cases found : brackets.keywords.findIdx? (standsAt · place.rest) with
        | none => rfl
        | some index =>
            have names : brackets.Names index place.rest := (names_iff isMark declined).mpr found
            have inside : closed < opened := by
              refine Nat.lt_of_le_of_ne holds fun same => ?_
              exact goesOn same.symm index names
            have notLast : index + 1 ≠ brackets.keywords.length :=
              fun isLast => unclosed ⟨inside, index, names, isLast⟩
            dsimp only
            rw [if_neg (Nat.sub_ne_zero_of_lt inside), if_neg notLast]
      · rw [Scan.closingKeywordFrom_run_of_ne _ _ _ _ _ next mark]

/-- What a search may answer: the first keyword outside all bodies, or the end of the text. -/
def Ends (brackets : Brackets) (reading : Brackets.Reading) : Option Nat × Cursor → Prop
  | (some index, place) => brackets.MeetsFirst reading place index
  | (none, place) => place.rest = [] ∧ place.text = reading.place.text ∧
      ∀ other index, ¬brackets.Meets reading other index

/-- What reading meets is here or is met after the next step. -/
theorem Meets.of_step (step : brackets.Step reading later)
    (meets : brackets.Meets reading place index) :
    (∃ count, reading = ⟨place, count, count⟩ ∧ brackets.Names index place.rest) ∨
      brackets.Meets later place index := by
  obtain ⟨count, reads, names⟩ := meets
  rcases reads.cases_head with rfl | ⟨next, first, reads⟩
  · exact .inl ⟨count, rfl, names⟩
  · rw [step.unique first] at reads
    exact .inr ⟨count, reads, names⟩

theorem Meets.step (step : brackets.Step reading later) (meets : brackets.Meets later place index) :
    brackets.Meets reading place index := by
  obtain ⟨count, reads, names⟩ := meets
  exact ⟨count, reads.head step, names⟩

theorem Ends.step (step : brackets.Step reading later)
    (goesOn : reading.opened = reading.closed → ∀ index, ¬brackets.Names index reading.place.rest)
    {answer : Option Nat × Cursor} (ends : brackets.Ends later answer) :
    brackets.Ends reading answer := by
  have met {place : Cursor} {index : Nat} (meets : brackets.Meets reading place index) :
      brackets.Meets later place index := by
    refine (meets.of_step step).resolve_left ?_
    rintro ⟨count, rfl, names⟩
    exact goesOn rfl index names
  obtain ⟨answer, place⟩ := answer
  cases answer with
  | none =>
      obtain ⟨ended, text, never⟩ := ends
      exact ⟨ended, text.trans step.precedes.text_eq, fun other index meets =>
        never _ _ (met meets)⟩
  | some index =>
      obtain ⟨meets, first⟩ := ends
      exact ⟨meets.step step, fun earlier other meets => first _ _ (met meets)⟩

theorem ends_search (holds : reading.closed ≤ reading.opened) {rounds : Nat}
    (enough : reading.place.rest.length < rounds) :
    brackets.Ends reading (brackets.search reading rounds) := by
  induction rounds generalizing reading with
  | zero => exact absurd enough (Nat.not_lt_zero _)
  | succ rounds induction =>
      by_cases ended : reading.place.rest = []
      · rw [search_of_ended ended]
        refine ⟨ended, rfl, ?_⟩
        rintro other index ⟨count, reads, names⟩
        rcases reads.cases_head with rfl | ⟨next, first, -⟩
        · exact names.ne_nil ended
        · have shorter := first.precedes.rest_lt
          rw [ended] at shorter
          exact absurd shorter (Nat.not_lt_zero _)
      · by_cases stops : reading.opened = reading.closed ∧
            ∃ index, brackets.Names index reading.place.rest
        · obtain ⟨place, opened, closed⟩ := reading
          obtain ⟨isOutside, index, names⟩ := stops
          dsimp only at isOutside names
          subst isOutside
          rw [search_of_names names]
          refine ⟨⟨_, .refl, names⟩, ?_⟩
          rintro earlier other ⟨count, reads, -⟩
          exact offset_le_of_reads reads
        · obtain ⟨later, step⟩ : ∃ later, brackets.Step reading later := exists_step ended
          have goesOn (isOutside : reading.opened = reading.closed) (index : Nat) :
              ¬brackets.Names index reading.place.rest :=
            fun names => stops ⟨isOutside, index, names⟩
          rw [search_of_step step holds goesOn]
          refine (induction (step.closed_le holds) ?_).step step goesOn
          have shorter := step.precedes.rest_lt
          omega

theorem Ends.text_eq {answer : Option Nat} (ends : brackets.Ends reading (answer, place)) :
    place.text = reading.place.text := by
  cases answer with
  | none => exact ends.2.1
  | some index =>
      obtain ⟨⟨count, reads, -⟩, -⟩ := ends
      exact text_eq_of_reads reads

theorem Ends.unique {answer other : Option Nat × Cursor} (ends : brackets.Ends reading answer)
    (also : brackets.Ends reading other) : other = answer := by
  obtain ⟨answer, place⟩ := answer
  obtain ⟨other, otherPlace⟩ := other
  cases answer with
  | none =>
      obtain ⟨ended, text, never⟩ := ends
      cases other with
      | none =>
          obtain ⟨otherEnded, otherText, -⟩ := also
          have passed : otherPlace.passed = place.passed := by
            have same := otherText.trans text.symm
            rw [Cursor.text, Cursor.text, ended, otherEnded] at same
            simpa using same
          rw [Cursor.eq_of_passed_of_rest passed (otherEnded.trans ended.symm)]
      | some index => exact absurd also.1 (never _ _)
  | some index =>
      obtain ⟨meets, first⟩ := ends
      cases other with
      | none => exact absurd meets (also.2.2 _ _)
      | some otherIndex =>
          obtain ⟨otherMeets, otherFirst⟩ := also
          have offset := Nat.le_antisymm (otherFirst _ _ meets) (first _ _ otherMeets)
          obtain ⟨count, reads, names⟩ := meets
          obtain ⟨otherCount, otherReads, otherNames⟩ := otherMeets
          have text := (text_eq_of_reads otherReads).trans (text_eq_of_reads reads).symm
          have same : otherPlace = place := Cursor.eq_of_text_of_offset text offset
          subst same
          rw [names.unique otherNames]

/-- The search comes by what it reads, up to the keyword that it finds. -/
theorem search_of_reads {start : Brackets.Reading}
    (reads : ReflTransGen brackets.Step start reading)
    (holds : start.closed ≤ start.opened)
    (before : ∀ place index, brackets.Meets start place index →
      reading.place.offset ≤ place.offset) (rounds : Nat) :
    ∃ passed, brackets.search start (rounds + passed) = brackets.search reading rounds := by
  induction reads generalizing rounds with
  | refl => exact ⟨0, rfl⟩
  | @tail earlier reading reads step induction =>
      have beforeEarlier (place : Cursor) (index : Nat) (meets : brackets.Meets start place index) :
          earlier.place.offset ≤ place.offset :=
        Nat.le_trans (Nat.le_of_lt step.precedes.offset_lt) (before place index meets)
      have goesOn (isOutside : earlier.opened = earlier.closed) (index : Nat) :
          ¬brackets.Names index earlier.place.rest := by
        intro names
        obtain ⟨place, opened, closed⟩ := earlier
        dsimp only at isOutside
        subst isOutside
        have late := before place index ⟨_, reads, names⟩
        exact absurd step.precedes.offset_lt (Nat.not_lt.mpr late)
      obtain ⟨passed, same⟩ := induction beforeEarlier (rounds + 1)
      refine ⟨passed + 1, ?_⟩
      rw [← search_of_step step (closed_le_of_reads reads holds) goesOn, ← same]
      congr 1
      omega

end Brackets

theorem Scan.closingKeyword?_run (brackets : Brackets) {start place : Cursor} {answer : Option Nat}
    (searched : brackets.search ⟨start, 0, 0⟩ (2 * (start.remaining + 1)) = (answer, place))
    (text : place.text = start.text) :
    (closingKeyword? brackets.opening brackets.keywords).run start =
      pure (answer, if answer.isSome then place else start) := by
  have last : brackets.keywords.getLast? = some brackets.terminator :=
    List.getLast?_eq_some_getLast brackets.keywords_ne
  have ran : (closingKeywordFrom brackets.opening brackets.keywords brackets.terminator
      (2 * (start.remaining + 1)) 0).run start = pure (answer, place) := searched
  cases answer with
  | some index => simp [closingKeyword?, last, ran]
  | none => simp [closingKeyword?, last, ran, returnTo_run start place text.symm]

/-- The search ends at the first keyword that names the end of the body, or without one. -/
theorem Brackets.exists_ends (brackets : Brackets) (start : Cursor) : ∃ answer place,
    brackets.search ⟨start, 0, 0⟩ (2 * (start.remaining + 1)) = (answer, place) ∧
      brackets.Ends ⟨start, 0, 0⟩ (answer, place) := by
  have ends : brackets.Ends ⟨start, 0, 0⟩
      (brackets.search ⟨start, 0, 0⟩ (2 * (start.remaining + 1))) := by
    refine Brackets.ends_search (Nat.le_refl 0) ?_
    have bytes := length_le_byteLength start.rest
    rw [start.remaining_eq]
    dsimp only
    omega
  exact ⟨_, _, rfl, ends⟩

/-- The keyword that a search answers is the first one outside all bodies opened since the start. -/
theorem Scan.closingKeyword?_eq_some_iff
    (brackets : Brackets) {start place : Cursor} {index : Nat} :
    (closingKeyword? brackets.opening brackets.keywords).run start = pure (some index, place) ↔
      brackets.MeetsFirst ⟨start, 0, 0⟩ place index := by
  obtain ⟨answer, found, searched, ends⟩ := brackets.exists_ends start
  rw [closingKeyword?_run brackets searched ends.text_eq]
  constructor
  · intro same
    obtain ⟨rfl, rfl⟩ := Prod.mk.inj same
    exact ends
  · intro first
    have also : brackets.Ends ⟨start, 0, 0⟩ (some index, place) := first
    obtain ⟨rfl, rfl⟩ := Prod.mk.inj (ends.unique also)
    rfl

/-- A search answers none where it began, if no keyword is outside the bodies opened since then. -/
theorem Scan.closingKeyword?_eq_none_iff (brackets : Brackets) {start place : Cursor} :
    (closingKeyword? brackets.opening brackets.keywords).run start = pure (none, place) ↔
      place = start ∧ ∀ other index, ¬brackets.Meets ⟨start, 0, 0⟩ other index := by
  obtain ⟨answer, found, searched, ends⟩ := brackets.exists_ends start
  rw [closingKeyword?_run brackets searched ends.text_eq]
  constructor
  · intro same
    obtain ⟨rfl, rfl⟩ := Prod.mk.inj same
    exact ⟨rfl, ends.2.2⟩
  · rintro ⟨rfl, never⟩
    cases answer with
    | none => rfl
    | some index => exact absurd ends.1 (never _ _)

/-- The search for the keyword that closes a body matches openings and last keywords like brackets.
It answers the first keyword outside all bodies that were opened since the start, and stops in front
of it; or it answers that there is none, back at the start.  On its way it counts the bodies that
are open, which are never less than none, and it always ends: one round more than characters are
left is enough. -/
theorem Scan.closingKeyword_brackets (brackets : Brackets) (start : Cursor) :
    (∀ index place, (closingKeyword? brackets.opening brackets.keywords).run start =
      pure (some index, place) ↔ brackets.MeetsFirst ⟨start, 0, 0⟩ place index) ∧
    (∀ place, (closingKeyword? brackets.opening brackets.keywords).run start = pure (none, place) ↔
      place = start ∧ ∀ other index, ¬brackets.Meets ⟨start, 0, 0⟩ other index) ∧
    (∀ reading, ReflTransGen brackets.Step ⟨start, 0, 0⟩ reading →
      reading.closed ≤ reading.opened ∧
      ((∀ place index, brackets.Meets ⟨start, 0, 0⟩ place index →
        reading.place.offset ≤ place.offset) → ∀ rounds, ∃ passed,
        (closingKeywordFrom brackets.opening brackets.keywords brackets.terminator
          (rounds + passed) 0).run start =
        (closingKeywordFrom brackets.opening brackets.keywords brackets.terminator rounds
          (reading.opened - reading.closed)).run reading.place)) ∧
    ∀ rounds, start.rest.length < rounds →
      (closingKeywordFrom brackets.opening brackets.keywords brackets.terminator rounds
        0).run start =
      (closingKeywordFrom brackets.opening brackets.keywords brackets.terminator
        (2 * (start.remaining + 1)) 0).run start := by
  refine ⟨fun index place => closingKeyword?_eq_some_iff brackets,
    fun place => closingKeyword?_eq_none_iff brackets,
    fun reading reads => ⟨?_, fun before rounds => ?_⟩, fun rounds enough => ?_⟩
  · exact Brackets.closed_le_of_reads reads (Nat.le_refl 0)
  · exact Brackets.search_of_reads reads (Nat.le_refl 0) before rounds
  · obtain ⟨answer, found, searched, ends⟩ := brackets.exists_ends start
    have same := ends.unique (Brackets.ends_search (Nat.le_refl 0) enough)
    exact same.trans searched.symm

/-- The brackets of branches, as an example. -/
def Brackets.branches : Brackets where
  opening := "@if("
  keywords := ["@elseif(", "@else", "@endif"]
  opening_ne := by decide
  keywords_ne := List.cons_ne_nil _ _
  keyword_ne := by decide

example : ((Scan.closingKeyword? Brackets.branches.opening Brackets.branches.keywords).run
    (Cursor.ofString "a@if(b)c@else d@endif@elsewhere@else e@endif")).1 = some 1 ∧
    ((Scan.closingKeyword? Brackets.branches.opening Brackets.branches.keywords).run
      (Cursor.ofString "a@if(b)c@else d@endif@elsewhere@else e@endif")).2.offset = 31 := by
  decide +kernel

end Stencil.Text
