import Mathlib.Data.List.Forall2
import Stencil.Proofs.Text.Simulation
import Stencil.Proofs.Text.Tracked

/-!
# Wrapped sources

A text is read as it is, through the choice of sources that a render keeps, or through a source that
counts.  A script is any sequence of steps on a source, where a step may depend on what was answered
before and may itself run a script that is taken back.  Every script does the same with all of them.
-/

namespace Stencil.Text

/-- One step on a source, by the type of what it answers. -/
inductive Operation : Type → Type where
  | pointer : Operation Nat
  | position : Operation Position
  | hasEnded : Operation Bool
  | current : Operation (Option Char)
  | step : Operation Bool
  | seek (target : Nat) : Operation Bool
  | checkpoint : Operation Checkpoint
  | restore (saved : Checkpoint) : Operation Unit
  | accept (expected : Char) : Operation Bool
  | acceptText (literal : String) : Operation Bool
  | looksAt (literal : String) : Operation Bool
  | looksAtKeyword (keyword : String) : Operation Bool
  | skipPast (literal : String) : Operation Bool
  | skipTo (literal : String) : Operation Bool
  | skipSpaces : Operation Bool
  | acceptBreak : Operation Bool
  | takeWhile (property : Char → Bool) : Operation String
  | isAfter (character : Char) : Operation Bool
  | closingKeyword? (opening : String) (keywords : List String) : Operation (Option Nat)

/-- Steps on a source, each chosen by the answers to those before. -/
inductive Script : Type → Type 1 where
  | done {α : Type} (answer : α) : Script α
  | perform {α β : Type} (operation : Operation β) (next : β → Script α) : Script α
  /-- Runs a script and goes back if it found nothing. -/
  | orRewind {α β : Type} (inner : Script (Option β)) (next : Option β → Script α) : Script α
  /-- Runs a script that may fail and goes back if it found nothing. -/
  | attempt {α β ε : Type} (inner : Script (Except ε (Option β)))
      (next : Except ε (Option β) → Script α) : Script α

section Running

variable {σ : Type} [Source σ]

def Operation.run {β : Type} : Operation β → StateM σ β
  | .pointer => Scan.pointer
  | .position => Scan.position
  | .hasEnded => Scan.hasEnded
  | .current => Scan.current
  | .step => Scan.step
  | .seek target => Source.seek target
  | .checkpoint => Scan.checkpoint
  | .restore saved => Scan.restore saved
  | .accept expected => Scan.accept expected
  | .acceptText literal => Scan.acceptText literal
  | .looksAt literal => Scan.looksAt literal
  | .looksAtKeyword keyword => Scan.looksAtKeyword keyword
  | .skipPast literal => Scan.skipPast literal
  | .skipTo literal => Scan.skipTo literal
  | .skipSpaces => Scan.skipSpaces
  | .acceptBreak => Scan.acceptBreak
  | .takeWhile property => Scan.takeWhile property
  | .isAfter character => Scan.isAfter character
  | .closingKeyword? opening keywords => Scan.closingKeyword? opening keywords

namespace Script

def run {α : Type} : Script α → StateM σ α
  | done answer => return answer
  | perform operation next => do
      let answer ← operation.run
      (next answer).run
  | orRewind inner next => do
      let found ← Scan.orRewind inner.run
      (next found).run
  | attempt inner next => do
      let outcome ← (Scan.attempt (ExceptT.mk inner.run)).run
      (next outcome).run

/-- The source after a step, and what is noted later. -/
def noted {β : Type} (step : StateM σ β) (later : β → σ → List σ) (source : σ) : List σ :=
  (step.run source).2 :: later (step.run source).1 (step.run source).2

/-- The source after each step, the steps of scripts inside included. -/
def history {α : Type} : Script α → σ → List σ
  | done _, _ => []
  | perform operation next, source =>
      noted operation.run (fun answer => (next answer).history) source
  | orRewind inner next, source =>
      inner.history source ++
        noted (Scan.orRewind inner.run) (fun found => (next found).history) source
  | attempt inner next, source =>
      inner.history source ++
        noted (Scan.attempt (ExceptT.mk inner.run)).run
          (fun outcome => (next outcome).history) source

end Script

end Running

variable {σ τ : Type} [Source σ] [Source τ] {related : σ → τ → Prop} {α β γ : Type}

/-- Related sources answer every operation alike and stay related. -/
structure Wraps (related : σ → τ → Prop) : Prop where
  pointer_eq {source : σ} {other : τ} (stands : related source other) :
    Source.pointer source = Source.pointer other
  position_eq {source : σ} {other : τ} (stands : related source other) :
    Source.position source = Source.position other
  hasEnded_eq {source : σ} {other : τ} (stands : related source other) :
    Source.hasEnded source = Source.hasEnded other
  remaining_eq {source : σ} {other : τ} (stands : related source other) :
    Source.remaining source = Source.remaining other
  current : Follows related id Scan.current Scan.current
  step : Follows related id Scan.step Scan.step
  seek (target : Nat) : Follows related id (Source.seek target) (Source.seek target)

omit [Source σ] [Source τ] in
theorem Script.noted_related {step : StateM σ β} {stepOther : StateM τ β}
    {later : β → σ → List σ} {laterOther : β → τ → List τ} {source : σ} {other : τ}
    (follows : Follows related id step stepOther)
    (each : ∀ answer source other, related source other →
      List.Forall₂ related (later answer source) (laterOther answer other))
    (stands : related source other) :
    List.Forall₂ related (noted step later source) (noted stepOther laterOther other) := by
  obtain ⟨answers, after⟩ := follows source other stands
  have same : (step.run source).1 = (stepOther.run other).1 := answers
  rw [noted, noted, ← same]
  exact .cons after (each _ _ _ after)

namespace Wraps

variable (wraps : Wraps related)

include wraps

theorem returnTo (place : Nat) :
    Follows related id (Scan.returnTo place) (Scan.returnTo place) :=
  (wraps.seek place).bind fun _ => .pure id ()

theorem simulates : Simulates 0 related where
  pointer_eq := wraps.pointer_eq
  hasEnded_eq := wraps.hasEnded_eq
  remaining_eq := wraps.remaining_eq
  current := wraps.current
  step := wraps.step
  returnTo _ := wraps.returnTo _

theorem pointer : Follows related id Scan.pointer Scan.pointer :=
  fun _ _ stands => ⟨wraps.pointer_eq stands, stands⟩

theorem position : Follows related id Scan.position Scan.position :=
  fun _ _ stands => ⟨wraps.position_eq stands, stands⟩

theorem checkpoint : Follows related id Scan.checkpoint Scan.checkpoint :=
  wraps.pointer.bind fun _ => wraps.position.bind fun _ => .pure id _

theorem isAfter (character : Char) :
    Follows related id (Scan.isAfter character) (Scan.isAfter character) := by
  refine wraps.pointer.bind fun place => .ite Iff.rfl (.pure id false) ?_
  have back (answer : Bool) := (wraps.returnTo place).andThen (.pure id answer)
  exact (wraps.seek _).bind fun _ =>
    .ite Iff.rfl (wraps.current.bind fun _ => back _) (back false)

theorem operation (operation : Operation β) :
    Follows related id operation.run operation.run := by
  have simulates := wraps.simulates
  cases operation with
  | pointer => exact wraps.pointer
  | position => exact wraps.position
  | hasEnded => exact simulates.hasEnded
  | current => exact wraps.current
  | step => exact wraps.step
  | seek target => exact wraps.seek target
  | checkpoint => exact wraps.checkpoint
  | restore saved => exact wraps.returnTo saved.pointer
  | accept expected => exact simulates.accept expected
  | acceptText literal => exact simulates.acceptText literal
  | looksAt literal => exact simulates.looksAt literal
  | looksAtKeyword keyword => exact simulates.looksAtKeyword keyword
  | skipPast literal => exact simulates.skipPast literal
  | skipTo literal => exact simulates.skipTo literal
  | skipSpaces => exact simulates.skipSpaces
  | acceptBreak => exact simulates.acceptBreak
  | takeWhile property => exact simulates.takeWhile property
  | isAfter character => exact wraps.isAfter character
  | closingKeyword? opening keywords => exact simulates.closingKeyword? opening keywords

theorem script (script : Script α) : Follows related id script.run script.run := by
  induction script with
  | done answer => exact .pure id answer
  | perform operation next induction => exact (wraps.operation operation).bind induction
  | orRewind inner next inside induction =>
      exact (wraps.simulates.orRewind inside).bind induction
  | attempt inner next inside induction =>
      exact (wraps.simulates.attempt inside).bind induction

/-- The sources are related after every step. -/
theorem history (script : Script α) {source : σ} {other : τ} (stands : related source other) :
    List.Forall₂ related (script.history source) (script.history other) := by
  induction script generalizing source other with
  | done answer => exact .nil
  | perform operation next induction =>
      have follows := wraps.operation operation
      exact Script.noted_related follows (fun answer _ _ => induction answer) stands
  | orRewind inner next inside induction =>
      have follows := wraps.simulates.orRewind (wraps.script inner)
      exact List.rel_append (inside stands)
        (Script.noted_related follows (fun answer _ _ => induction answer) stands)
  | attempt inner next inside induction =>
      have follows := wraps.simulates.attempt (wraps.script inner)
      exact List.rel_append (inside stands)
        (Script.noted_related follows (fun answer _ _ => induction answer) stands)

end Wraps

/-- A script answers the same on a source and on one around it and leads both to the same places.
Inside the outer one is, after each step and at the end, what the inner one has come to. -/
structure Script.Agrees (script : Script α) (unwrap : τ → σ) (source : σ) (wrapped : τ) : Prop where
  answer : (script.run.run wrapped).1 = (script.run.run source).1
  pointers : (script.history wrapped).map Source.pointer =
    (script.history source).map Source.pointer
  steps : (script.history wrapped).map unwrap = script.history source
  unwrapped : unwrap (script.run.run wrapped).2 = (script.run.run source).2

theorem map_eq_of_forall₂ {holds : α → β → Prop} {left : List α} {right : List β}
    {view : α → γ} {otherView : β → γ} (all : List.Forall₂ holds left right)
    (same : ∀ item other, holds item other → otherView other = view item) :
    right.map otherView = left.map view := by
  have maps : List.Forall₂ (· = ·) (left.map view) (right.map otherView) :=
    List.forall₂_map_left_iff.mpr (List.forall₂_map_right_iff.mpr
      (all.imp fun item other stands => (same item other stands).symm))
  rw [List.forall₂_eq_eq_eq] at maps
  exact maps.symm

theorem Wraps.agrees {unwrap : τ → σ}
    (wraps : Wraps fun (source : σ) (wrapped : τ) => unwrap wrapped = source) (script : Script α)
    (wrapped : τ) : script.Agrees unwrap (unwrap wrapped) wrapped := by
  have begin : unwrap wrapped = unwrap wrapped := rfl
  obtain ⟨answers, unwrapped⟩ := wraps.script script _ _ begin
  have steps := wraps.history script begin
  refine ⟨answers.symm, ?_, ?_, unwrapped⟩
  · exact map_eq_of_forall₂ steps fun _ _ stands => (wraps.pointer_eq stands).symm
  · rw [map_eq_of_forall₂ steps fun _ _ stands => stands, List.map_id']

/-- A source that follows a cursor is around it. -/
theorem Tracked.wraps [Tracked σ] :
    Wraps fun (cursor : Cursor) (source : σ) => Tracked.cursor source = cursor where
  pointer_eq {_} source stands := stands ▸ (Tracked.pointer_eq source).symm
  position_eq {_} source stands := stands ▸ (Tracked.position_eq source).symm
  hasEnded_eq {_} source stands := stands ▸ (Tracked.hasEnded_eq source).symm
  remaining_eq {_} source stands := stands ▸ (Tracked.remaining_eq source).symm
  current := by
    rintro _ source rfl
    exact ⟨(Tracked.current_eq source).symm, Tracked.cursor_current source⟩
  step := by
    rintro _ source rfl
    exact ⟨(Tracked.step_eq source).symm, Tracked.cursor_step source⟩
  seek target := by
    rintro _ source rfl
    rw [Scan.seek_run]
    exact ⟨(Tracked.seek_eq target source).symm, Tracked.cursor_seek target source⟩

/-- A source has ended exactly if a look at it would find nothing. -/
theorem hasEnded_eq_isNone_current [Tracked σ] (source : σ) :
    Source.hasEnded source =
      ((Scan.current : StateM σ (Option Char)).run source).1.isNone := by
  have looked : ((Scan.current : StateM σ (Option Char)).run source).1 =
      (Tracked.cursor source).rest.head? := Tracked.current_eq source
  rw [looked, Tracked.hasEnded_eq]
  cases (Tracked.cursor source).rest <;> rfl

/-- What a source is told to do, besides telling its place. -/
inductive Call where
  | look
  | step
  | seek (target : Nat)
deriving DecidableEq

/-- A source together with everything it was told to do, in order. -/
structure Watched (σ : Type) where
  inner : σ
  calls : List Call := []

namespace Watched

/-- Runs an operation of the inner source and notes that it was called. -/
def call (called : Call) (operation : StateM σ α) : StateM (Watched σ) α := fun source =>
  let (answer, inner) := operation source.inner
  (answer, ⟨inner, source.calls ++ [called]⟩)

/-- How often the current character was asked for. -/
def looks (source : Watched σ) : Nat :=
  source.calls.count .look

instance : Source (Watched σ) where
  pointer source := Source.pointer source.inner
  position source := Source.position source.inner
  hasEnded source := Source.hasEnded source.inner
  remaining source := Source.remaining source.inner
  current := call .look Source.current
  step := call .step Source.step
  seek target := call (.seek target) (Source.seek target)

theorem wraps : Wraps fun (inner : σ) (source : Watched σ) => source.inner = inner where
  pointer_eq stands := stands ▸ rfl
  position_eq stands := stands ▸ rfl
  hasEnded_eq stands := stands ▸ rfl
  remaining_eq stands := stands ▸ rfl
  current := by
    rintro _ source rfl
    exact ⟨rfl, rfl⟩
  step := by
    rintro _ source rfl
    exact ⟨rfl, rfl⟩
  seek target := by
    rintro _ source rfl
    exact ⟨rfl, rfl⟩

/-- A counter that began at a number has counted the looks since then. -/
def Tallies (began : Nat) (source : Counted σ) (watched : Watched (Counted σ)) : Prop :=
  watched.inner = source ∧ source.reads = began + watched.looks

omit [Source σ] in
theorem looks_call (called : Call) (operation : StateM σ α) (watched : Watched σ) :
    ((call called operation).run watched).2.looks = watched.looks + [called].count .look :=
  List.count_append

theorem wraps_tallies (began : Nat) :
    Wraps (Tallies began : Counted σ → Watched (Counted σ) → Prop) where
  pointer_eq stands := stands.1 ▸ rfl
  position_eq stands := stands.1 ▸ rfl
  hasEnded_eq stands := stands.1 ▸ rfl
  remaining_eq stands := stands.1 ▸ rfl
  current := by
    rintro _ watched ⟨rfl, tally⟩
    have looked := looks_call .look Source.current watched
    exact ⟨rfl, rfl, (congrArg (· + 1) tally).trans (congrArg (began + ·) looked.symm)⟩
  step := by
    rintro _ watched ⟨rfl, tally⟩
    have silent := looks_call .step Source.step watched
    exact ⟨rfl, rfl, tally.trans (congrArg (began + ·) silent.symm)⟩
  seek target := by
    rintro _ watched ⟨rfl, tally⟩
    have silent := looks_call (.seek target) (Source.seek target) watched
    exact ⟨rfl, rfl, tally.trans (congrArg (began + ·) silent.symm)⟩

end Watched

/-- Whoever watches a script on a counting source from outside sees it look at the current character
as often as the source has counted, after each step and at the end. -/
structure Script.CountsLooks (script : Script α) (source : Counted σ) : Prop where
  watched : script.Agrees Watched.inner source ⟨source, []⟩
  steps : (script.history source).map Counted.reads =
    (script.history (⟨source, []⟩ : Watched (Counted σ))).map (source.reads + ·.looks)
  atEnd : (script.run.run source).2.reads =
    source.reads + (script.run.run (⟨source, []⟩ : Watched (Counted σ))).2.looks

theorem Script.countsLooks (script : Script α) (source : Counted σ) :
    script.CountsLooks source := by
  have begin : Watched.Tallies source.reads source ⟨source, []⟩ := ⟨rfl, rfl⟩
  have wraps : Wraps (Watched.Tallies source.reads : Counted σ → Watched (Counted σ) → Prop) :=
    Watched.wraps_tallies source.reads
  refine ⟨Watched.wraps.agrees script ⟨source, []⟩, ?_, (wraps.script script _ _ begin).2.2⟩
  exact (map_eq_of_forall₂ (wraps.history script begin) fun _ _ tallies => tallies.2.symm).symm

/-- An operation that leaves the counter of every counting source as it is. -/
def Operation.KeepsReads (operation : Operation β) : Prop :=
  ∀ source : Counted Cursor, (operation.run.run source).2.reads = source.reads

/-- Whatever is done with a text, step after step, is answered alike and leads to the same places on
the plain text, on the choice of sources around it and on a source that counts.  The counter says
how often the current character was asked for, and it is not moved by steps that do not look. -/
theorem wrapped_sources_agree (script : Script α) (cursor : Cursor) (reads : Nat) :
    script.Agrees AnySource.cursor cursor (.plain cursor) ∧
      script.Agrees Counted.inner cursor ⟨cursor, reads⟩ ∧
      script.Agrees AnySource.cursor cursor (.counted ⟨cursor, reads⟩) ∧
      script.CountsLooks (⟨cursor, reads⟩ : Counted Cursor) ∧
      (Operation.pointer.KeepsReads ∧ Operation.position.KeepsReads ∧
        Operation.hasEnded.KeepsReads ∧ Operation.step.KeepsReads ∧
        (∀ target, (Operation.seek target).KeepsReads) ∧ Operation.checkpoint.KeepsReads ∧
        ∀ saved, (Operation.restore saved).KeepsReads) := by
  refine ⟨Tracked.wraps.agrees script (AnySource.plain cursor),
    Tracked.wraps.agrees script (Counted.mk cursor reads),
    Tracked.wraps.agrees script (AnySource.counted ⟨cursor, reads⟩), script.countsLooks _, ?_⟩
  exact ⟨fun _ => rfl, fun _ => rfl, fun _ => rfl, fun _ => rfl, fun _ _ => rfl, fun _ => rfl,
    fun _ _ => rfl⟩

/-- Two looks with a step between them, and a way back. -/
def lookTwice : Script (Option Char × Option Char) :=
  .perform .current fun first => .perform .step fun _ => .perform .current fun second =>
    .perform (.seek 0) fun _ => .done (first, second)

example : (lookTwice.run.run (⟨.ofString "abc", 0⟩ : Counted Cursor)).1 = (some 'a', some 'b') ∧
    (lookTwice.history (⟨.ofString "abc", 0⟩ : Counted Cursor)).map Counted.reads =
      [1, 1, 2, 2] := by
  decide

end Stencil.Text
