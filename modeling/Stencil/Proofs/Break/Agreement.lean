import Stencil.Proofs.Break.Calm
import Stencil.Proofs.Break.Structured

/-!
# Runs that agree with structured runs

Two runs agree if from a calm session both end alike in one calm session, and change no mark of a
left loop but those that they may.
-/

namespace Stencil

open Text

variable {η : Type}

/-- Two runs that begin in a session end alike: both fail in the same way, or both succeed with
answers that are related, and then none but certain marks changed. -/
def Agrees {α β : Type} (embeddings : Embeddings) (session : Session η) (mayMark : BlockRef → Prop)
    (run : Run η α) (structured : Run η β) (answers : α → β → Session η → Prop) : Prop :=
  session.Calm embeddings → ∃ after : Session η, after.Calm embeddings ∧ session.Extends after ∧
    ((∃ stop, run.run.run session = (.error stop, after) ∧
        structured.run.run session = (.error stop, after)) ∨
      ∃ answer other, run.run.run session = (.ok answer, after) ∧
        structured.run.run session = (.ok other, after) ∧ answers answer other after ∧
        session.KeepsMarks mayMark after)

namespace Agrees

variable {embeddings : Embeddings} {session : Session η} {mayMark mayMark' : BlockRef → Prop}
  {α β γ δ : Type}

theorem of_calm {run : Run η α} {structured : Run η β} {answers : α → β → Session η → Prop}
    (agrees : session.Calm embeddings → Agrees embeddings session mayMark run structured answers) :
    Agrees embeddings session mayMark run structured answers :=
  fun calm => agrees calm calm

theorem pure {answer : α} {other : β} {answers : α → β → Session η → Prop}
    (areAnswers : answers answer other session) :
    Agrees embeddings session mayMark (Pure.pure answer) (Pure.pure other) answers :=
  fun calm => ⟨session, calm, .refl _, .inr ⟨answer, other, rfl, rfl, areAnswers, fun _ _ => rfl⟩⟩

theorem stop {reason : Stop} {answers : α → β → Session η → Prop} :
    Agrees embeddings session mayMark (throw reason : Run η α) (throw reason : Run η β) answers :=
  fun calm => ⟨session, calm, .refl _, .inl ⟨reason, rfl, rfl⟩⟩

/-- What both runs do alike and keeps marks and placeholders alone needs no further look. -/
theorem same {run : Run η α} {answers : α → Session η → Prop}
    (obeys : (Session.still η).Obeys embeddings session run answers) :
    Agrees embeddings session mayMark run run fun answer other after =>
      other = answer ∧ answers answer after ∧ session.SameMarks after := by
  intro calm
  obtain ⟨chain, isAnswer, -⟩ := obeys calm.sound
  obtain ⟨calmAfter, marks⟩ := chain.calm calm
  refine ⟨_, calmAfter, chain.toExtends calm.valid, ?_⟩
  cases outcome : (run.run.run session).1 with
  | error stop => exact .inl ⟨stop, Prod.ext outcome rfl, Prod.ext outcome rfl⟩
  | ok answer =>
      exact .inr ⟨answer, answer, Prod.ext outcome rfl, Prod.ext outcome rfl,
        ⟨rfl, isAnswer answer outcome, marks⟩, marks.all mayMark⟩

theorem weaken {run : Run η α} {structured : Run η β} {answers weaker : α → β → Session η → Prop}
    (agrees : Agrees embeddings session mayMark run structured answers)
    (covers : ∀ id, mayMark id → mayMark' id)
    (implies : ∀ answer other after, session.Extends after → session.KeepsMarks mayMark after →
      answers answer other after → weaker answer other after) :
    Agrees embeddings session mayMark' run structured weaker := by
  intro calm
  obtain ⟨after, calmAfter, ext, failed | ⟨answer, other, ran, ranOther, areAnswers, marks⟩⟩ :=
    agrees calm
  · exact ⟨after, calmAfter, ext, .inl failed⟩
  · exact ⟨after, calmAfter, ext, .inr ⟨answer, other, ran, ranOther,
      implies answer other after ext marks areAnswers, marks.mono covers⟩⟩

theorem bind {first : Run η α} {structured : Run η β} {next : α → Run η γ} {next' : β → Run η δ}
    {middle : α → β → Session η → Prop} {answers : γ → δ → Session η → Prop}
    (here : Agrees embeddings session mayMark first structured middle)
    (later : ∀ answer other after, session.Extends after → session.KeepsMarks mayMark after →
      middle answer other after →
      Agrees embeddings after mayMark (next answer) (next' other) answers) :
    Agrees embeddings session mayMark (first >>= next) (structured >>= next') answers := by
  intro calm
  have split (run : Run η α) (next : α → Run η γ) : (run >>= next).run.run session =
      (ExceptT.bindCont next (run.run.run session).1).run (run.run.run session).2 := rfl
  have split' (run : Run η β) (next : β → Run η δ) : (run >>= next).run.run session =
      (ExceptT.bindCont next (run.run.run session).1).run (run.run.run session).2 := rfl
  obtain ⟨between, calmBetween, ext, ⟨stop, ran, ranOther⟩ |
    ⟨answer, other, ran, ranOther, areMiddle, marks⟩⟩ := here calm
  · refine ⟨between, calmBetween, ext, .inl ⟨stop, ?_, ?_⟩⟩
    · rw [split, ran]
      rfl
    · rw [split', ranOther]
      rfl
  · have run : (first >>= next).run.run session = (next answer).run.run between := by
      rw [split, ran]
      rfl
    have runOther : (structured >>= next').run.run session = (next' other).run.run between := by
      rw [split', ranOther]
      rfl
    obtain ⟨after, calmAfter, extLater, ⟨stop, ranLater, ranOtherLater⟩ |
      ⟨answer, other, ranLater, ranOtherLater, areAnswers, marksLater⟩⟩ :=
      later answer other between ext marks areMiddle calmBetween
    · exact ⟨after, calmAfter, ext.trans extLater, .inl ⟨stop, run.trans ranLater,
        runOther.trans ranOtherLater⟩⟩
    · exact ⟨after, calmAfter, ext.trans extLater, .inr ⟨answer, other, run.trans ranLater,
        runOther.trans ranOtherLater, areAnswers, marks.trans marksLater⟩⟩

/-- Both runs begin alike, with something that keeps marks and placeholders alone. -/
theorem same_bind {run : Run η α} {next : α → Run η γ} {next' : α → Run η δ}
    {middle : α → Session η → Prop} {answers : γ → δ → Session η → Prop}
    (obeys : (Session.still η).Obeys embeddings session run middle)
    (later : ∀ answer after, session.Extends after → session.SameMarks after →
      middle answer after → Agrees embeddings after mayMark (next answer) (next' answer) answers) :
    Agrees embeddings session mayMark (run >>= next) (run >>= next') answers := by
  refine (same obeys).bind ?_
  rintro answer _ after ext - ⟨rfl, isAnswer, marks⟩
  exact later _ after ext marks isAnswer

/-- Runs that do the same from a session on agree with the same runs. -/
theorem of_run_eq {run run' : Run η α} {structured : Run η β} {answers : α → β → Session η → Prop}
    (same : run.run.run session = run'.run.run session)
    (agrees : Agrees embeddings session mayMark run' structured answers) :
    Agrees embeddings session mayMark run structured answers := by
  rw [Agrees, same]
  exact agrees

theorem get_bind {next : Session η → Run η α} {next' : Session η → Run η β}
    {answers : α → β → Session η → Prop}
    (later : Agrees embeddings session mayMark (next session) (next' session) answers) :
    Agrees embeddings session mayMark (get >>= next) (get >>= next') answers :=
  later

/-- What comes after both runs, however they ended, changes no mark. -/
theorem andFinally {run : Run η α} {structured : Run η β} {answers : α → β → Session η → Prop}
    {last : Session η → Session η}
    (agrees : Agrees embeddings session mayMark run structured answers)
    (step : ∀ ended : Session η, ended.Step (Session.still η) embeddings (last ended)) :
    Agrees embeddings session mayMark (Run.andFinally run last) (Run.andFinally structured last)
      fun answer other after => ∃ ended, answers answer other ended ∧ ended.SameMarks after := by
  intro calm
  have ran (run : Run η α) : (Run.andFinally run last).run.run session =
      ((run.run.run session).1, last (run.run.run session).2) := rfl
  have ran' (run : Run η β) : (Run.andFinally run last).run.run session =
      ((run.run.run session).1, last (run.run.run session).2) := rfl
  obtain ⟨ended, calmEnded, ext, ⟨stop, isRun, isOther⟩ |
    ⟨answer, other, isRun, isOther, areAnswers, marks⟩⟩ := agrees calm
  · obtain ⟨calmLast, -⟩ := (step ended).calm calmEnded
    refine ⟨last ended, calmLast, ext.trans ((step ended).toExtends calmEnded.valid),
      .inl ⟨stop, ?_, ?_⟩⟩
    · rw [ran, isRun]
    · rw [ran', isOther]
  · obtain ⟨calmLast, same⟩ := (step ended).calm calmEnded
    refine ⟨last ended, calmLast, ext.trans ((step ended).toExtends calmEnded.valid),
      .inr ⟨answer, other, ?_, ?_, ⟨ended, areAnswers, same⟩, marks.trans (same.all mayMark)⟩⟩
    · rw [ran, isRun]
    · rw [ran', isOther]

/-- Changing the answer of the structured run. -/
theorem returning {run : Run η α} {structured : Run η β} {answers : α → β → Session η → Prop}
    (agrees : Agrees embeddings session mayMark run structured answers) (change : β → γ) :
    Agrees embeddings session mayMark run (do return change (← structured))
      fun answer other after => ∃ earlier, other = change earlier ∧
          answers answer earlier after := by
  intro calm
  have ran : (do return change (← structured) : Run η γ).run.run session =
      (ExceptT.bindCont (fun answer => (return change answer : Run η γ))
        (structured.run.run session).1).run (structured.run.run session).2 := rfl
  obtain ⟨after, calmAfter, ext, ⟨stop, isRun, isOther⟩ |
    ⟨answer, other, isRun, isOther, areAnswers, marks⟩⟩ := agrees calm
  · refine ⟨after, calmAfter, ext, .inl ⟨stop, isRun, ?_⟩⟩
    rw [ran, isOther]
    rfl
  · refine ⟨after, calmAfter, ext,
      .inr ⟨answer, change other, isRun, ?_, ⟨other, rfl, areAnswers⟩, marks⟩⟩
    rw [ran, isOther]
    rfl

/-- What is no part of a loop leaves none. -/
theorem andNext {run structured : Run η Unit} {loop : Option BlockRef}
    (agrees : Agrees embeddings session mayMark run structured fun _ _ _ => True)
    (apart : ∀ target, loop = some target → ¬mayMark target)
    (stays : session.isLeft loop = false) :
    Agrees embeddings session mayMark run (do structured; return Flow.next)
      fun _ flow after => after.isLeft loop = flow.isLeft := by
  refine (agrees.returning fun _ => Flow.next).weaken (fun _ => id) ?_
  rintro _ _ after - marks ⟨_, rfl, -⟩
  exact (marks.isLeft apart).trans stays

/-- Both runs mark that a loop was left, or that it was not. -/
theorem mark (target : BlockRef) (left : Bool) (present : target.index < session.blocks.size) :
    Agrees embeddings session (· = target)
      (modify fun session => session.modifyBlock target ({ · with wasLeft := left }))
      (modify fun session => session.modifyBlock target ({ · with wasLeft := left }))
      fun _ _ after => (after.block target).wasLeft = left := by
  intro calm
  have quiet : session.Quiet (session.modifyBlock target ({ · with wasLeft := left })) :=
    session.quiet_modifyBlock target fun _ => rfl
  refine ⟨_, calm.of_quiet quiet calm.placeholders, quiet.toExtends,
    .inr ⟨(), (), rfl, rfl, ?_, ?_⟩⟩
  · dsimp only
    rw [Session.block_modifyBlock_self _ present]
  · intro other different
    rw [Session.block_modifyBlock_of_ne _ different]

end Agrees

end Stencil
