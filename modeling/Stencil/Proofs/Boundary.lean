import Stencil.Proofs.Follows
import Stencil.Proofs.Parser.Run

/-!
# Parsers up to a boundary

Two parsers that agree on this side of a boundary need not agree beyond it.  As long as the first
one succeeds and has not gone beyond the boundary, the second one succeeds with the same answer; and
once the first one has gone beyond, it does not come back.
-/

namespace Stencil

variable {σ τ α β : Type}

/-- Pairs of states that agree on this side of a boundary, and states of the first of two parsers
beyond it. -/
structure Boundary (σ τ : Type) where
  agree : σ → τ → Prop
  beyond : σ → Prop

/-- Every answer. -/
def Anything (_ : α) : Prop := True

/-- An answer that something was found. -/
def Found (found : Option α) : Prop := found.isSome = true

namespace Boundary

variable {boundary : Boundary σ τ} {pre middle : σ → τ → Prop} {accepted : β → Prop}

/-- With an accepted answer a parser does not come back from beyond the boundary. -/
def Stays (boundary : Boundary σ τ) (accepted : α → Prop) (left : Parser σ α) : Prop :=
  ∀ state answer after, boundary.beyond state → left.run.run state = (.ok answer, after) →
    accepted answer → boundary.beyond after

/-- From states with `pre` the first parser goes beyond the boundary with an accepted answer, or
the second one gives that answer as well. -/
def Keeps (boundary : Boundary σ τ) (pre : σ → τ → Prop) (accepted : α → Prop)
    (left : Parser σ α) (right : Parser τ α) : Prop :=
  ∀ state other answer after, pre state other → left.run.run state = (.ok answer, after) →
    accepted answer → boundary.beyond after ∨
      ∃ otherAfter, right.run.run other = (.ok answer, otherAfter) ∧ boundary.agree after otherAfter

/-- Two parsers are confined by a boundary. -/
structure Confines (boundary : Boundary σ τ) (pre : σ → τ → Prop) (accepted : α → Prop)
    (left : Parser σ α) (right : Parser τ α) : Prop where
  keeps : boundary.Keeps pre accepted left right
  stays : boundary.Stays accepted left

/-- A parser with no accepted answer. -/
abbrev Never (accepted : α → Prop) (left : Parser σ α) : Prop :=
  left.Answers fun answer => ¬accepted answer

/-- Nothing comes after a part that fails. -/
theorem Never.bind_of_fails {first : Parser σ α} {next : α → Parser σ β}
    (fails : Never Anything first) : Never accepted (first >>= next) := by
  intro state answer after ran
  obtain ⟨found, between, ranFirst, -⟩ := Parser.exists_of_run_bind_ok ran
  exact absurd trivial (fails state found between ranFirst)

namespace Stays

theorem pure (answer : β) :
    boundary.Stays accepted (Pure.pure answer : Parser σ β) := by
  rintro state _ _ beyond ⟨⟩ -
  exact beyond

theorem of_never {left : Parser σ β} (never : Never accepted left) :
    boundary.Stays accepted left :=
  fun state answer after _ ran isAccepted => absurd isAccepted (never state answer after ran)

theorem bind {first : Parser σ α} {next : α → Parser σ β}
    (here : boundary.Stays Anything first)
    (later : ∀ answer, boundary.Stays accepted (next answer)) :
    boundary.Stays accepted (first >>= next) := by
  intro state answer after beyond ran isAccepted
  obtain ⟨found, between, first, rest⟩ := Parser.exists_of_run_bind_ok ran
  exact later found between answer after
    (here state found between beyond first trivial) rest isAccepted

theorem ite {condition : Prop} [Decidable condition] {yes no : Parser σ β}
    (holds : boundary.Stays accepted yes) (fails : boundary.Stays accepted no) :
    boundary.Stays accepted (if condition then yes else no) := by
  split
  · exact holds
  · exact fails

end Stays

namespace Keeps

theorem of_never {left : Parser σ β} {right : Parser τ β}
    (never : Never accepted left) : boundary.Keeps pre accepted left right :=
  fun state _ answer after _ ran isAccepted => absurd isAccepted (never state answer after ran)

theorem pure (answer : β) : boundary.Keeps boundary.agree accepted (Pure.pure answer : Parser σ β)
    (Pure.pure answer : Parser τ β) := by
  rintro state other _ _ agree ⟨⟩ -
  exact .inr ⟨other, rfl, agree⟩

theorem ite {condition : Prop} [Decidable condition] {yes no : Parser σ β}
    {yesRight noRight : Parser τ β} (holds : boundary.Keeps pre accepted yes yesRight)
    (fails : boundary.Keeps pre accepted no noRight) :
    boundary.Keeps pre accepted (if condition then yes else no)
      (if condition then yesRight else noRight) := by
  split
  · exact holds
  · exact fails

/-- Scans that cannot go beyond the boundary. -/
theorem scan {run : StateM σ β} {runRight : StateM τ β}
    (follows : Follows boundary.agree id run runRight) :
    boundary.Keeps boundary.agree accepted (Parser.scan run) (Parser.scan runRight) := by
  intro state other answer after agree ran _
  obtain ⟨same, agreeAfter⟩ := follows state other agree
  rw [Parser.exists_of_run_scan_ok ran] at same agreeAfter
  exact .inr ⟨(runRight.run other).2, Parser.run_scan (Prod.ext same.symm rfl), agreeAfter⟩

/-- A part that cannot go beyond the boundary. -/
theorem follows_bind {run : StateM σ α} {runRight : StateM τ α} {next : α → Parser σ β}
    {nextRight : α → Parser τ β} (here : Follows boundary.agree id run runRight)
    (later : ∀ answer, boundary.Keeps boundary.agree accepted (next answer) (nextRight answer)) :
    boundary.Keeps boundary.agree accepted (Parser.scan run >>= next)
      (Parser.scan runRight >>= nextRight) := by
  intro state other answer after agree ran isAccepted
  obtain ⟨same, agreeAfter⟩ := here state other agree
  have first : run.run state = ((run.run state).1, (run.run state).2) := rfl
  have second : runRight.run other = ((run.run state).1, (runRight.run other).2) :=
    Prod.ext same.symm rfl
  rw [Parser.run_scan_bind first] at ran
  rw [Parser.run_scan_bind second]
  exact later _ _ _ answer after agreeAfter ran isAccepted

end Keeps

/-- What follows the answers of the first part that lead to an accepted one. -/
theorem Keeps.bindThrough {expected : α → Prop} {first : Parser σ α} {firstRight : Parser τ α}
    {next : α → Parser σ β} {nextRight : α → Parser τ β}
    (here : boundary.Keeps pre expected first firstRight)
    (later : ∀ answer, expected answer →
      boundary.Confines boundary.agree accepted (next answer) (nextRight answer))
    (expects : ∀ state found between answer after, first.run.run state = (.ok found, between) →
      (next found).run.run between = (.ok answer, after) → accepted answer → expected found) :
    boundary.Keeps pre accepted (first >>= next) (firstRight >>= nextRight) := by
  intro state other answer after within ran isAccepted
  obtain ⟨found, between, ranFirst, rest⟩ := Parser.exists_of_run_bind_ok ran
  have isExpected := expects _ _ _ _ _ ranFirst rest isAccepted
  rcases here state other found between within ranFirst isExpected with
    beyond | ⟨otherBetween, ranRight, agree⟩
  · exact .inl ((later found isExpected).stays between answer after beyond rest isAccepted)
  · rw [Parser.run_bind_of_ok ranRight]
    exact (later found isExpected).keeps between otherBetween answer after agree rest isAccepted

theorem Keeps.bind {first : Parser σ α} {firstRight : Parser τ α} {next : α → Parser σ β}
    {nextRight : α → Parser τ β} (here : boundary.Keeps pre Anything first firstRight)
    (later : ∀ answer, boundary.Confines boundary.agree accepted (next answer) (nextRight answer)) :
    boundary.Keeps pre accepted (first >>= next) (firstRight >>= nextRight) :=
  here.bindThrough (fun answer _ => later answer) fun _ _ _ _ _ _ _ _ => trivial

namespace Confines

variable {left : Parser σ β} {right : Parser τ β}
  {first : Parser σ α} {firstRight : Parser τ α}
  {next : α → Parser σ β} {nextRight : α → Parser τ β}

theorem of_never (never : Never accepted left) : boundary.Confines pre accepted left right :=
  ⟨.of_never never, .of_never never⟩

theorem pure (answer : β) :
    boundary.Confines boundary.agree accepted (Pure.pure answer : Parser σ β)
      (Pure.pure answer : Parser τ β) :=
  ⟨.pure answer, .pure answer⟩

theorem throw (error : TemplateError) : boundary.Confines pre accepted
    (MonadExcept.throw error : Parser σ β) right :=
  .of_never (.throw error)

theorem weaken {before : σ → τ → Prop} (confines : boundary.Confines pre accepted left right)
    (weaker : ∀ state other, before state other → pre state other) :
    boundary.Confines before accepted left right :=
  ⟨fun state other answer after within => confines.keeps state other answer after
    (weaker _ _ within),
    confines.stays⟩

/-- What follows the answers of the first part that lead to an accepted one. -/
theorem bindThrough {expected : α → Prop} (here : boundary.Confines pre expected first firstRight)
    (later : ∀ answer, expected answer →
      boundary.Confines boundary.agree accepted (next answer) (nextRight answer))
    (expects : ∀ state found between answer after, first.run.run state = (.ok found, between) →
      (next found).run.run between = (.ok answer, after) → accepted answer → expected found) :
    boundary.Confines pre accepted (first >>= next) (firstRight >>= nextRight) := by
  refine ⟨here.keeps.bindThrough later expects, ?_⟩
  intro state answer after beyond ran isAccepted
  obtain ⟨found, between, ranFirst, rest⟩ := Parser.exists_of_run_bind_ok ran
  have isExpected := expects _ _ _ _ _ ranFirst rest isAccepted
  exact (later found isExpected).stays between answer after
    (here.stays state found between beyond ranFirst isExpected) rest isAccepted

/-- What follows an answer that the first part gives only if it does not count for anything. -/
theorem bindWith {expected : α → Prop} (here : boundary.Confines pre expected first firstRight)
    (later : ∀ answer, expected answer →
      boundary.Confines boundary.agree accepted (next answer) (nextRight answer))
    (never : ∀ answer, ¬expected answer → Never accepted (next answer)) :
    boundary.Confines pre accepted (first >>= next) (firstRight >>= nextRight) :=
  here.bindThrough later fun _ found between answer after _ rest isAccepted =>
    Classical.byContradiction fun unexpected =>
      never found unexpected between answer after rest isAccepted

/-- What follows may rely on a property of all answers of the first part. -/
theorem bindOf {property : α → Prop} (here : boundary.Confines pre Anything first firstRight)
    (answers : first.Answers property)
    (later : ∀ answer, property answer →
      boundary.Confines boundary.agree accepted (next answer) (nextRight answer)) :
    boundary.Confines pre accepted (first >>= next) (firstRight >>= nextRight) :=
  bindThrough ⟨fun state other answer after within ran _ => here.keeps state other answer after
      within ran trivial, fun state answer after beyond ran _ =>
        here.stays state answer after beyond
      ran trivial⟩
    later fun state found between _ _ ranFirst _ _ => answers state found between ranFirst

theorem bind (here : boundary.Confines pre Anything first firstRight)
    (later : ∀ answer, boundary.Confines boundary.agree accepted (next answer) (nextRight answer)) :
    boundary.Confines pre accepted (first >>= next) (firstRight >>= nextRight) :=
  here.bindWith (fun answer _ => later answer) fun _ unexpected => absurd trivial unexpected

/-- What follows a part that has to find something. -/
theorem find {first : Parser σ (Option α)} {firstRight : Parser τ (Option α)}
    {next : Option α → Parser σ β} {nextRight : Option α → Parser τ β}
    (here : boundary.Confines pre Found first firstRight)
    (later : ∀ answer,
      boundary.Confines boundary.agree accepted (next (some answer)) (nextRight (some answer)))
    (never : Never accepted (next none)) :
    boundary.Confines pre accepted (first >>= next) (firstRight >>= nextRight) := by
  refine here.bindWith (fun found expects => ?_) fun found unexpected => ?_
  · obtain ⟨answer, rfl⟩ := Option.isSome_iff_exists.mp expects
    exact later answer
  · obtain rfl : found = none := Option.not_isSome_iff_eq_none.mp unexpected
    exact never

theorem ite {condition : Prop} [Decidable condition] {yes no : Parser σ β}
    {yesRight noRight : Parser τ β} (holds : boundary.Confines pre accepted yes yesRight)
    (fails : boundary.Confines pre accepted no noRight) :
    boundary.Confines pre accepted (if condition then yes else no)
      (if condition then yesRight else noRight) := by
  split
  · exact holds
  · exact fails

/-- What both parsers are told alike, where they stay. -/
theorem ask {question : StateM σ α} {questionRight : StateM τ α} {answers : σ → α}
    {answersRight : τ → α} (ran : ∀ state, question.run state = Pure.pure (answers state, state))
    (ranRight : ∀ other, questionRight.run other = Pure.pure (answersRight other, other))
    (same : ∀ state other, pre state other → answersRight other = answers state)
    (later : ∀ answer, boundary.Confines pre accepted (next answer) (nextRight answer)) :
    boundary.Confines pre accepted (Parser.scan question >>= next)
      (Parser.scan questionRight >>= nextRight) := by
  constructor
  · intro state other answer after within
    rw [Parser.run_scan_bind (ran state), Parser.run_scan_bind (ranRight other),
      same state other within]
    exact (later _).keeps state other answer after within
  · intro state answer after beyond
    rw [Parser.run_scan_bind (ran state)]
    exact (later _).stays state answer after beyond

/-- A test that both parsers make alike, and after which what was known before is known if it
failed. -/
theorem test {test : StateM σ Bool} {testRight : StateM τ Bool} {next : Bool → Parser σ β}
    {nextRight : Bool → Parser τ β}
    (tested : ∀ state other, pre state other → (testRight.run other).1 = (test.run state).1 ∧
      cond (test.run state).1 boundary.agree pre (test.run state).2 (testRight.run other).2)
    (stays : boundary.Stays Anything (Parser.scan test))
    (yes : boundary.Confines boundary.agree accepted (next true) (nextRight true))
    (no : boundary.Confines pre accepted (next false) (nextRight false)) :
    boundary.Confines pre accepted (Parser.scan test >>= next)
      (Parser.scan testRight >>= nextRight) := by
  constructor
  · intro state other answer after within ran isAccepted
    obtain ⟨same, came⟩ := tested state other within
    have first : test.run state = ((test.run state).1, (test.run state).2) := rfl
    have second : testRight.run other = ((test.run state).1, (testRight.run other).2) :=
      Prod.ext same rfl
    rw [Parser.run_scan_bind first] at ran
    rw [Parser.run_scan_bind second]
    revert ran came
    cases (test.run state).1 with
    | true => exact fun ran came => yes.keeps _ _ answer after came ran isAccepted
    | false => exact fun ran came => no.keeps _ _ answer after came ran isAccepted
  · refine .bind stays fun passed => ?_
    cases passed with
    | true => exact yes.stays
    | false => exact no.stays

end Confines

end Boundary

end Stencil
