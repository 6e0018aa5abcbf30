import Stencil.Parser

/-!
# Runs of parsers

How a sequence of parsers runs, given how its first part ran, and what a parser answers.  Whatever
it is asked for behind one of the openings in a text is found by going through the text, so a
property of all those answers can be decided.
-/

namespace Stencil.Parser

variable {σ α β : Type} {source after : σ}

theorem run_scan {scan : StateM σ α} {answer : α} (ran : scan.run source = pure (answer, after)) :
    (Parser.scan scan).run.run source = pure (.ok answer, after) := by
  change (scan >>= fun answer => pure (Except.ok answer)).run source = _
  rw [StateT.run_bind, ran]
  rfl

/-- After a part that answers, the rest runs on from where that part ended. -/
theorem run_bind_of_ok {first : Parser σ α} {next : α → Parser σ β} {answer : α}
    (ran : first.run.run source = pure (.ok answer, after)) :
    (first >>= next).run.run source = (next answer).run.run after := by
  change (first.run >>= ExceptT.bindCont next).run source = _
  rw [StateT.run_bind, ran]
  rfl

theorem run_bind_of_error {first : Parser σ α} {next : α → Parser σ β} {error : TemplateError}
    (ran : first.run.run source = pure (.error error, after)) :
    (first >>= next).run.run source = pure (.error error, after) := by
  change (first.run >>= ExceptT.bindCont next).run source = _
  rw [StateT.run_bind, ran]
  rfl

theorem run_scan_bind {scan : StateM σ α} {next : α → Parser σ β} {answer : α}
    (ran : scan.run source = pure (answer, after)) :
    (Parser.scan scan >>= next).run.run source = (next answer).run.run after :=
  run_bind_of_ok (run_scan ran)

/-- What an answer of a sequence says of its parts. -/
theorem exists_of_run_bind_ok {first : Parser σ α} {next : α → Parser σ β} {answer : β}
    (ran : (first >>= next).run.run source = pure (.ok answer, after)) :
    ∃ middle place, first.run.run source = pure (.ok middle, place) ∧
      (next middle).run.run place = pure (.ok answer, after) := by
  generalize head : first.run.run source = outcome
  obtain ⟨outcome, place⟩ := outcome
  cases outcome with
  | error error =>
      rw [run_bind_of_error head] at ran
      cases ran
  | ok middle =>
      rw [run_bind_of_ok head] at ran
      exact ⟨middle, place, rfl, ran⟩

theorem exists_of_run_scan_ok {scan : StateM σ α} {answer : α}
    (ran : (Parser.scan scan).run.run source = pure (.ok answer, after)) :
    scan.run source = pure (answer, after) := by
  generalize head : scan.run source = outcome
  obtain ⟨found, place⟩ := outcome
  rw [run_scan head] at ran
  cases ran
  rfl

/-- Every answer of a parser has a property. -/
def Answers (parser : Parser σ α) (property : α → Prop) : Prop :=
  ∀ source answer after, parser.run.run source = pure (.ok answer, after) → property answer

namespace Answers

variable {property : α → Prop}

theorem pure {answer : α} (holds : property answer) :
    Answers (Pure.pure answer : Parser σ α) property := by
  rintro source found after ⟨⟩
  exact holds

theorem throw (error : TemplateError) :
    Answers (MonadExcept.throw error : Parser σ α) property := by
  rintro source found after ⟨⟩

theorem bind {first : Parser σ β} {next : β → Parser σ α}
    (later : ∀ middle, Answers (next middle) property) : Answers (first >>= next) property := by
  intro source answer after ran
  obtain ⟨middle, place, -, rest⟩ := exists_of_run_bind_ok ran
  exact later middle place answer after rest

theorem ite {condition : Prop} [Decidable condition] {yes no : Parser σ α}
    (holds : Answers yes property) (fails : Answers no property) :
    Answers (if condition then yes else no) property := by
  split
  · exact holds
  · exact fails

theorem fail [Text.Source σ] (problem : ParseProblem) :
    Answers (Parser.fail problem : Parser σ α) property :=
  bind fun _ => throw _

end Answers

section

open Text

variable {parser : Parser Cursor α} {opening : String} {text : List Char} {answer : α}

/-- A parser answers at a place of a text, right behind an opening. -/
def AnswersIn (parser : Parser Cursor α) (opening : String) (text : List Char) (answer : α) :
    Prop :=
  ∃ place : Cursor, place.text = text ∧ opening.toList.reverse <+: place.passed ∧
    (parser.run.run place).1 = .ok answer

/-- What a parser answers at a place if it is behind the opening. -/
def answersAt (parser : Parser Cursor α) (opening : String) (passed rest : List Char) : List α :=
  if opening.toList.reverse.isPrefixOf passed then
    match (parser.run.run (.between passed rest)).1 with
    | .ok answer => [answer]
    | .error _ => []
  else []

/-- What a parser answers behind any of the openings from a place on. -/
def answersFrom (parser : Parser Cursor α) (opening : String) (passed : List Char) :
    List Char → List α
  | [] => answersAt parser opening passed []
  | character :: rest =>
      answersAt parser opening passed (character :: rest) ++
        answersFrom parser opening (character :: passed) rest

theorem mem_answersFrom_of_mem {passed rest : List Char}
    (member : answer ∈ answersAt parser opening passed rest) :
    answer ∈ answersFrom parser opening passed rest := by
  cases rest with
  | nil => exact member
  | cons character rest => exact List.mem_append_left _ member

theorem mem_answersFrom_of_later {between passed rest : List Char}
    (member : answer ∈ answersAt parser opening (between.reverse ++ passed) rest) :
    answer ∈ answersFrom parser opening passed (between ++ rest) := by
  induction between generalizing passed with
  | nil => exact mem_answersFrom_of_mem member
  | cons character between induction =>
      refine List.mem_append_right _ (induction ?_)
      rwa [List.reverse_cons, List.append_assoc] at member

/-- Every answer behind an opening is found by going through the text. -/
theorem AnswersIn.mem_answersFrom (answers : parser.AnswersIn opening text answer) :
    answer ∈ answersFrom parser opening [] text := by
  obtain ⟨place, rfl, opens, ran⟩ := answers
  have member : answer ∈ answersAt parser opening place.passed place.rest := by
    rw [answersAt, if_pos (List.isPrefixOf_iff_prefix.mpr opens), ← place.eq_between, ran]
    exact List.mem_singleton_self answer
  apply mem_answersFrom_of_later
  rwa [List.reverse_reverse, List.append_nil]

/-- What holds of everything that is found in a text holds of every answer. -/
theorem AnswersIn.of_all {property : α → Bool} (answers : parser.AnswersIn opening text answer)
    (all : (answersFrom parser opening [] text).all property = true) : property answer = true :=
  List.all_eq_true.mp all answer answers.mem_answersFrom

end

end Stencil.Parser
