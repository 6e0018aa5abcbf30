import Stencil.Proofs.Follows
import Stencil.Text.Scan

/-!
# Sources that move together

Every scan is made of the operations of a source.  Two sources that answer these operations alike
therefore answer every scan alike, however many operations it takes, and stay together on the way.
-/

namespace Stencil.Text

variable {σ τ : Type} [Source σ] [Source τ] {related : σ → τ → Prop} {shift : Nat} {ε α β γ : Type}

/-- What an attempt that began at a place makes of what it found. -/
def Scan.settle (place : Nat) (found : Option α) : ExceptT ε (StateM σ) (Option α) :=
  match found with
  | some found => return some found
  | none => do
      (returnTo place : StateM σ Unit)
      return none

theorem Scan.run_attempt (scan : ExceptT ε (StateM σ) (Option α)) :
    (attempt scan).run =
      (pointer >>= fun place => scan.run >>= ExceptT.bindCont (settle place)) := rfl

/-- Related sources answer alike and stay related, also where both go back to a place they have been
at together.  Places of the second one lie a fixed number of bytes after those of the first. -/
structure Simulates (shift : Nat) (related : σ → τ → Prop) : Prop where
  pointer_eq {source : σ} {other : τ} (stands : related source other) :
    Source.pointer source + shift = Source.pointer other
  hasEnded_eq {source : σ} {other : τ} (stands : related source other) :
    Source.hasEnded source = Source.hasEnded other
  remaining_eq {source : σ} {other : τ} (stands : related source other) :
    Source.remaining source = Source.remaining other
  current : Follows related id Scan.current Scan.current
  step : Follows related id Scan.step Scan.step
  returnTo {place : σ} {otherPlace : τ} (stood : related place otherPlace) :
    Follows related id (Scan.returnTo (Source.pointer place))
      (Scan.returnTo (Source.pointer place + shift))

namespace Simulates

theorem pointer_bind {change : α → β} {next : Nat → StateM σ α} {nextOther : Nat → StateM τ β}
    (simulates : Simulates shift related)
    (later : ∀ (place : σ) (otherPlace : τ), related place otherPlace →
      Follows related change (next (Source.pointer place))
        (nextOther (Source.pointer place + shift))) :
    Follows related change (Scan.pointer >>= next) (Scan.pointer >>= nextOther) := by
  refine Follows.of_state fun source other stands => ⟨_, _, later source other stands, rfl, ?_⟩
  rw [simulates.pointer_eq stands]
  rfl

variable (simulates : Simulates shift related)

include simulates

theorem rewind {place : σ} {otherPlace : τ} (stood : related place otherPlace) (answer : α) :
    Follows related id (do Scan.returnTo (Source.pointer place); return answer)
      (do Scan.returnTo (Source.pointer place + shift); return answer) :=
  (simulates.returnTo stood).bind fun _ => .pure id answer

theorem hasEnded : Follows related id Scan.hasEnded Scan.hasEnded :=
  fun _ _ stands => ⟨simulates.hasEnded_eq stands, stands⟩

theorem remaining : Follows related id Scan.remaining Scan.remaining :=
  fun _ _ stands => ⟨simulates.remaining_eq stands, stands⟩

theorem currentIs (property : Char → Bool) :
    Follows related id (Scan.currentIs property) (Scan.currentIs property) :=
  simulates.current.bind fun _ => .pure id _

theorem accept (expected : Char) :
    Follows related id (Scan.accept expected) (Scan.accept expected) :=
  simulates.current.bind fun _ => .ite Iff.rfl simulates.step (.pure id false)

theorem acceptAll {place : σ} {otherPlace : τ} (stood : related place otherPlace)
    (literal : List Char) :
    Follows related id (Scan.acceptAll (Source.pointer place) literal)
      (Scan.acceptAll (Source.pointer place + shift) literal) := by
  induction literal with
  | nil => exact .pure id true
  | cons expected literal induction =>
      exact (simulates.accept expected).bind fun _ =>
        .ite Iff.rfl induction (simulates.rewind stood false)

theorem acceptText (literal : String) :
    Follows related id (Scan.acceptText literal) (Scan.acceptText literal) :=
  simulates.pointer_bind fun _ _ stood => simulates.acceptAll stood literal.toList

theorem looksAt (literal : String) :
    Follows related id (Scan.looksAt literal) (Scan.looksAt literal) :=
  simulates.pointer_bind fun _ _ stood =>
    (simulates.acceptText literal).bind fun found => simulates.rewind stood found

theorem looksAtKeyword (keyword : String) :
    Follows related id (Scan.looksAtKeyword keyword) (Scan.looksAtKeyword keyword) := by
  refine simulates.pointer_bind fun place otherPlace stood =>
    (simulates.acceptText keyword).bind fun _ => ?_
  have back (answer : Bool) := simulates.rewind stood answer
  exact .ite Iff.rfl
    (.ite Iff.rfl
      ((simulates.currentIs isNamePart).bind fun _ => .ite Iff.rfl (back false) (back true))
      (back true))
    (back false)

theorem takeWhileFrom (property : Char → Bool) (fuel : Nat) (taken : List Char) :
    Follows related id (Scan.takeWhileFrom property fuel taken)
      (Scan.takeWhileFrom property fuel taken) := by
  induction fuel generalizing taken with
  | zero => exact .pure id taken
  | succ fuel induction =>
      refine simulates.current.bind fun found => ?_
      cases found with
      | none => exact .pure id taken
      | some character =>
          exact .ite Iff.rfl (simulates.step.andThen (induction _)) (.pure id taken)

theorem takeWhile (property : Char → Bool) :
    Follows related id (Scan.takeWhile property) (Scan.takeWhile property) :=
  simulates.remaining.bind fun _ =>
    (simulates.takeWhileFrom property _ []).bind fun _ => .pure id _

theorem skipSpacesFrom (fuel : Nat) (skipped : Bool) :
    Follows related id (Scan.skipSpacesFrom fuel skipped) (Scan.skipSpacesFrom fuel skipped) := by
  induction fuel generalizing skipped with
  | zero => exact .pure id skipped
  | succ fuel induction =>
      exact (simulates.currentIs isTokenSpace).bind fun _ =>
        .ite Iff.rfl (simulates.step.andThen (induction true)) (.pure id skipped)

theorem skipSpaces : Follows related id Scan.skipSpaces Scan.skipSpaces :=
  simulates.remaining.bind fun _ => simulates.skipSpacesFrom _ false

theorem acceptBreak : Follows related id Scan.acceptBreak Scan.acceptBreak :=
  (simulates.currentIs isBreak).bind fun _ => .ite Iff.rfl simulates.step (.pure id false)

theorem advanceFrom (fuel : Nat) :
    Follows related id (Scan.advanceFrom fuel) (Scan.advanceFrom fuel) := by
  induction fuel with
  | zero => exact .pure id ()
  | succ fuel induction =>
      exact simulates.step.bind fun _ => .ite Iff.rfl induction (.pure id ())

theorem advanceUntil {test : StateM σ Bool} {testOther : StateM τ Bool}
    (tests : Follows related id test testOther) (fuel : Nat) :
    Follows related id (Scan.advanceUntil test fuel) (Scan.advanceUntil testOther fuel) := by
  induction fuel with
  | zero => exact .pure id false
  | succ fuel induction =>
      refine simulates.hasEnded.bind fun _ => .ite Iff.rfl (.pure id false) ?_
      exact tests.bind fun _ =>
        .ite Iff.rfl (.pure id true) (simulates.step.andThen induction)

theorem search {test : StateM σ Bool} {testOther : StateM τ Bool}
    (tests : Follows related id test testOther) :
    Follows related id (Scan.search test) (Scan.search testOther) :=
  simulates.pointer_bind fun _ _ stood => simulates.remaining.bind fun _ =>
    (simulates.advanceUntil tests _).bind fun _ =>
      .ite Iff.rfl (.pure id true) (simulates.rewind stood false)

theorem skipPast (literal : String) :
    Follows related id (Scan.skipPast literal) (Scan.skipPast literal) :=
  simulates.search (simulates.acceptText literal)

theorem skipTo (literal : String) :
    Follows related id (Scan.skipTo literal) (Scan.skipTo literal) :=
  simulates.search (simulates.looksAt literal)

theorem orRewind {scan : StateM σ (Option α)} {scanOther : StateM τ (Option α)}
    (inner : Follows related id scan scanOther) :
    Follows related id (Scan.orRewind scan) (Scan.orRewind scanOther) := by
  refine simulates.pointer_bind fun _ _ stood => inner.bind fun found => ?_
  cases found with
  | none => exact simulates.rewind stood none
  | some answer => exact .pure id (some answer)

theorem attempt {scan : ExceptT ε (StateM σ) (Option α)}
    {scanOther : ExceptT ε (StateM τ) (Option α)}
    (inner : Follows related id scan.run scanOther.run) :
    Follows related id (Scan.attempt scan).run (Scan.attempt scanOther).run := by
  rw [Scan.run_attempt, Scan.run_attempt]
  refine simulates.pointer_bind fun _ _ stood => inner.bind fun outcome => ?_
  cases outcome with
  | error error => exact .pure id (Except.error error)
  | ok found =>
      cases found with
      | none => exact simulates.rewind stood (Except.ok none)
      | some answer => exact .pure id (Except.ok (some answer))

theorem keywordIndex? (keywords : List String) (index : Nat) :
    Follows related id (Scan.keywordIndex? keywords index) (Scan.keywordIndex? keywords index) := by
  induction keywords generalizing index with
  | nil => exact .pure id none
  | cons keyword keywords induction =>
      exact (simulates.looksAtKeyword keyword).bind fun _ =>
        .ite Iff.rfl (.pure id (some index)) (induction (index + 1))

theorem closingKeywordFrom (opening : String) (keywords : List String) (terminator : String)
    (fuel depth : Nat) :
    Follows related id (Scan.closingKeywordFrom opening keywords terminator fuel depth)
      (Scan.closingKeywordFrom opening keywords terminator fuel depth) := by
  induction fuel generalizing depth with
  | zero => exact .pure id none
  | succ fuel induction =>
      have onward (depth : Nat) := simulates.step.andThen (induction depth)
      refine simulates.hasEnded.bind fun _ => .ite Iff.rfl (.pure id none)
        (simulates.current.bind fun _ => .ite Iff.rfl ?_ (onward depth))
      refine (simulates.acceptText opening).bind fun _ =>
        .ite Iff.rfl (induction (depth + 1)) ?_
      refine (simulates.keywordIndex? keywords 0).bind fun found => ?_
      cases found with
      | none => exact onward depth
      | some index =>
          exact .ite Iff.rfl (.pure id (some index))
            (.ite Iff.rfl
              ((simulates.acceptText terminator).andThen (induction (depth - 1)))
              (onward depth))

theorem closingKeyword? (opening : String) (keywords : List String) :
    Follows related id (Scan.closingKeyword? opening keywords)
      (Scan.closingKeyword? opening keywords) := by
  unfold Scan.closingKeyword?
  cases keywords.getLast? with
  | none => exact .pure id none
  | some terminator =>
      refine simulates.pointer_bind fun _ _ stood => simulates.remaining.bind fun _ =>
        (simulates.closingKeywordFrom opening keywords terminator _ 0).bind fun found => ?_
      cases found with
      | none => exact simulates.rewind stood none
      | some index => exact .pure id (some index)

end Simulates

end Stencil.Text
