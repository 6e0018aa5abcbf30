import Stencil.Proofs.Parser.Mirror
import Stencil.Proofs.Parser.Run

/-!
# What holds at the places that a parser comes to

A parser of a cursor leads from places where one thing holds to places where another one does, which
may depend on what it answers.  A parser that fails leads to nothing.
-/

namespace Stencil.Parser

open Text

variable {α β : Type}

/-- From a place with `pre` a parser comes to a place with `post` if it answers. -/
def Leads (pre : Cursor → Prop) (parser : Parser Cursor α) (post : α → Cursor → Prop) : Prop :=
  ∀ start answer finish, pre start → parser.run.run start = Pure.pure (.ok answer, finish) →
    post answer finish

/-- What holds at a place also holds at every later place of the text. -/
def Persists (property : Cursor → Prop) : Prop :=
  ∀ earlier later, property earlier → earlier.Reaches later → property later

/-- A parser that answers has not gone back. -/
def Moves (parser : Parser Cursor α) : Prop :=
  ∀ start answer finish, parser.run.run start = Pure.pure (.ok answer, finish) →
    start.Reaches finish

theorem Persists.and {property other : Cursor → Prop} (persists : Persists property)
    (persistsOther : Persists other) : Persists fun place => property place ∧ other place :=
  fun earlier later holds reaches =>
    ⟨persists earlier later holds.1 reaches, persistsOther earlier later holds.2 reaches⟩

namespace Leads

variable {pre : Cursor → Prop} {post : α → Cursor → Prop} {postNext : β → Cursor → Prop}

theorem pure {answer : α} (holds : ∀ place, pre place → post answer place) :
    Leads pre (Pure.pure answer) post := by
  rintro start found finish holdsThere ⟨⟩
  exact holds start holdsThere

theorem bind {first : Parser Cursor α} {next : α → Parser Cursor β} (here : Leads pre first post)
    (later : ∀ answer, Leads (post answer) (next answer) postNext) :
    Leads pre (first >>= next) postNext := by
  intro start answer finish holds ran
  obtain ⟨middle, place, head, rest⟩ := exists_of_run_bind_ok ran
  exact later middle place answer finish (here start middle place holds head) rest

theorem ite {condition : Prop} [Decidable condition] {yes no : Parser Cursor α}
    (holds : Leads pre yes post) (fails : Leads pre no post) :
    Leads pre (if condition then yes else no) post := by
  split
  · exact holds
  · exact fails

theorem weaken {before : Cursor → Prop} {parser : Parser Cursor α} (leads : Leads pre parser post)
    (weaker : ∀ place, before place → pre place) : Leads before parser post :=
  fun start answer finish holds ran => leads start answer finish (weaker start holds) ran

/-- It is enough to know what holds at the place itself. -/
theorem here {place : Cursor} {parser : Parser Cursor α} (leads : Leads pre parser post)
    (holds : pre place) : Leads (· = place) parser post :=
  leads.weaken fun _ same => same ▸ holds

/-- It is enough to go out from each place. -/
theorem each {parser : Parser Cursor α}
    (leads : ∀ place, pre place → Leads (· = place) parser post) : Leads pre parser post :=
  fun start answer finish holds ran => leads start holds start answer finish rfl ran

/-- A parser that goes forward also keeps what persists. -/
theorem frame {extra : Cursor → Prop} {parser : Parser Cursor α} (leads : Leads pre parser post)
    (moves : Moves parser) (persists : Persists extra) :
    Leads (fun place => pre place ∧ extra place) parser fun answer place =>
      post answer place ∧ extra place :=
  fun start answer finish holds ran => ⟨leads start answer finish holds.1 ran,
    persists start finish holds.2 (moves start answer finish ran)⟩

theorem throw (error : TemplateError) : Leads pre (MonadExcept.throw error) post := by
  rintro start answer finish holds ⟨⟩

theorem fail (problem : ParseProblem) : Leads pre (Parser.fail problem) post := by
  have raises (position : Position) : Leads (fun _ => True)
      (MonadExcept.throw (.parse problem position) : Parser Cursor α) post := throw _
  intro start answer finish _ ran
  obtain ⟨position, place, -, rest⟩ := exists_of_run_bind_ok ran
  exact raises position place answer finish trivial rest

theorem require_bind {what : String} {found : Option α} {next : α → Parser Cursor β}
    (later : ∀ answer, found = some answer → Leads pre (next answer) postNext) :
    Leads pre (Parser.require what found >>= next) postNext := by
  cases found with
  | none =>
      have stops : Leads pre (Parser.fail (.expected what) : Parser Cursor α) fun _ _ => False :=
        fail _
      exact stops.bind fun _ _ _ _ never => never.elim
  | some answer => exact later answer rfl

/-- A scan that answers something about the place and stays there. -/
theorem look_bind {run : StateM Cursor α} {look : Cursor → α} {next : α → Parser Cursor β}
    (looks : ∀ place, run.run place = Pure.pure (look place, place))
    (later : ∀ place, pre place → Leads (· = place) (next (look place)) postNext) :
    Leads pre (Parser.scan run >>= next) postNext := by
  intro start answer finish holds ran
  rw [run_scan_bind (looks start)] at ran
  exact later start holds start answer finish rfl ran

theorem pointer_bind {next : Nat → Parser Cursor β}
    (later : ∀ place, pre place → Leads (· = place) (next place.offset) postNext) :
    Leads pre (Parser.scan Scan.pointer >>= next) postNext :=
  look_bind Scan.pointer_run later

theorem remaining_bind {next : Nat → Parser Cursor β}
    (later : ∀ place, pre place → Leads (· = place) (next place.remaining) postNext) :
    Leads pre (Parser.scan Scan.remaining >>= next) postNext :=
  look_bind Scan.remaining_run later

/-- A scan that goes forward keeps what persists. -/
theorem scan (persists : Persists pre) {run : StateM Cursor α}
    (mirrors : ∀ anchor, Text.Mirrors anchor (.itself anchor.text) run run) :
    Leads pre (Parser.scan run) fun _ => pre := by
  intro start answer finish holds ran
  have moved := (mirrors start).reaches
  have isFinish : (run.run start).2 = finish := congrArg Prod.snd (exists_of_run_scan_ok ran)
  rw [isFinish] at moved
  exact persists start finish holds moved

theorem scan_bind (persists : Persists pre) {run : StateM Cursor α} {next : α → Parser Cursor β}
    (mirrors : ∀ anchor, Text.Mirrors anchor (.itself anchor.text) run run)
    (later : ∀ answer, Leads pre (next answer) postNext) :
    Leads pre (Parser.scan run >>= next) postNext :=
  (scan persists mirrors).bind later

/-- A parser that goes forward keeps what persists. -/
theorem keeps_bind (persists : Persists pre) {parser : Parser Cursor α} {next : α → Parser Cursor β}
    (mirrors : ∀ anchor, Mirrors anchor (.itself anchor.text) parser parser)
    (later : ∀ answer, Leads pre (next answer) postNext) :
    Leads pre (parser >>= next) postNext := by
  have keeps : Leads pre parser fun _ => pre := by
    intro start answer finish holds ran
    have moved := (mirrors start).keeps start (.refl start)
    have isFinish : (parser.run.run start).2 = finish := congrArg Prod.snd ran
    rw [isFinish] at moved
    exact persists start finish holds moved
  exact keeps.bind later

/-- A character that is accepted stands in front of the place that is come to. -/
theorem accept_bind {expected : Char} {next : Bool → Parser Cursor β}
    (accepted : ∀ place, pre place → ∀ passed, place.Reaches passed → place.offset < passed.offset →
      passed.passed.head? = some expected → Leads (· = passed) (next true) postNext)
    (declined : Leads pre (next false) postNext) :
    Leads pre (Parser.scan (Scan.accept expected) >>= next) postNext := by
  intro start answer finish holds ran
  by_cases stands : start.rest.head? = some expected
  · obtain ⟨rest, isRest⟩ : ∃ rest, start.rest = expected :: rest :=
      List.head?_eq_some_iff.mp stands
    have place : start = .between start.passed (expected :: rest) := by
      rw [← isRest, ← Cursor.eq_between]
    have accepts := Scan.accept_run_self expected start.passed rest
    rw [← place] at accepts
    rw [run_scan_bind accepts] at ran
    refine accepted start holds _ ⟨?_, ?_⟩ ?_ rfl _ answer finish rfl ran
    · rw [place]
      simp
    · rw [place]
      simp [byteLength]
    · rw [place]
      have positive := expected.utf8Size_pos
      simp only [Cursor.offset_between, Cursor.passed_between, byteLength]
      omega
  · rw [run_scan_bind (Scan.accept_run_of_ne expected start stands)] at ran
    exact declined start answer finish holds ran

/-- Going back to an earlier place of the text. -/
theorem returnTo {place : Cursor} (text : ∀ other, pre other → place.text = other.text) :
    Leads pre (Parser.scan (Scan.returnTo place.offset)) fun _ => (· = place) := by
  intro start answer finish holds ran
  have back := Scan.returnTo_run place start (text start holds)
  have same := exists_of_run_scan_ok ran
  rw [back] at same
  cases same
  rfl

end Leads

end Stencil.Parser
