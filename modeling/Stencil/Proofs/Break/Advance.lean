import Mathlib.Control.Monad.Basic
import Stencil.Proofs.Run.Obeys
import Stencil.Proofs.Run.Progression
import Stencil.Template

/-!
# The counter after a break

A numbered loop looks whether it was left at the top of a pass, and counts on at the bottom of the
pass before.  So a loop that was left computes one more number, which nothing uses: all that it does
is that the loop fails if the step divides by zero.
-/

namespace Stencil

variable {η : Type}

/-- No number follows another one by an operator and a step. -/
def Operator.DividesByZero (operator : Operator) (step : Int32) : Prop :=
  (operator = .divide ∨ operator = .modulo) ∧ step = 0

instance (operator : Operator) (step : Int32) : Decidable (operator.DividesByZero step) :=
  inferInstanceAs (Decidable (_ ∧ _))

theorem Heap.clear_clear (heap : Heap) (scope : ScopeRef) :
    (heap.clear scope).clear scope = heap.clear scope := by
  refine congrArg (fun scopes => { heap with scopes }) (Array.ext_getElem? fun place => ?_)
  simp only [clear, modifyEntries, Array.getElem?_modify]
  split
  · rw [Option.map_map]
    rfl
  · rfl

namespace Run

theorem nextCounter_of_dividesByZero {operator : Operator} {step : Int32}
    (divides : operator.DividesByZero step) (name : String) (counter : Int32) :
    nextCounter name operator step counter = .error (.type .divisionByZero) := by
  obtain ⟨isDivide | isModulo, rfl⟩ := divides
  · subst isDivide
    rfl
  · subst isModulo
    rfl

theorem nextCounter_of_not_dividesByZero {operator : Operator} {step : Int32}
    (computes : ¬operator.DividesByZero step) (name : String) (counter : Int32) :
    nextCounter name operator step counter = .ok (operator.next step counter) := by
  have word : operator.onWords counter step = .ok (operator.next step counter) := by
    cases operator with
    | plus => rfl
    | minus => rfl
    | times => rfl
    | divide => exact if_neg fun isZero => computes ⟨.inl rfl, isZero⟩
    | modulo => exact if_neg fun isZero => computes ⟨.inr rfl, isZero⟩
  have computed : (Primitive.int counter).compute operator (.int step) =
      .ok (.int (operator.next step counter)) := congrArg (Except.map Primitive.int) word
  unfold nextCounter
  rw [computed]
  rfl

section

variable (runBlock : BlockRef → Run η Unit) (scope : ScopeRef) (body : BlockRef) (name : String)
  (comparison : Comparison) (bound : Int32) (operator : Operator) (step : Int32)

/-- A pass of a numbered loop takes place, and its body runs to an end. -/
structure PassesAt (counter : Int32) (session after : Session η) : Prop where
  goesOn : (session.block body).wasLeft = false
  holds : (Primitive.int counter).compares comparison (.int bound) = .ok true
  ran : (runBlock body).run.run
    (session.modifyHeap fun heap => (heap.clear scope).put scope name (.int counter)) =
      (.ok (), after)

/-- From the top of one pass on, a numbered loop comes to the top of a later one. -/
inductive ComesTo : Nat → Int32 → Session η → Nat → Int32 → Session η → Prop
  | here (fuel : Nat) (counter : Int32) (session : Session η) :
      ComesTo fuel counter session fuel counter session
  | pass {fuel later : Nat} {counter next number : Int32} {session middle begun : Session η}
      (passes : PassesAt runBlock scope body name comparison bound counter session middle)
      (isNext : nextCounter name operator step counter = .ok next)
      (comes : ComesTo fuel next middle later number begun) :
      ComesTo (fuel + 1) counter session later number begun

variable {runBlock scope body name comparison bound operator step} {fuel later : Nat}
  {counter number : Int32} {session begun after : Session η}

theorem ran_beginPass (scope : ScopeRef) (body : BlockRef) (session : Session η) :
    (beginPass scope body).run.run session =
      pure (.ok (session.block body).wasLeft, session.modifyHeap (·.clear scope)) :=
  rfl

theorem ran_onStore_of_ok {α : Type} {outcome : Except TemplateError α} {answer : α}
    (isOk : outcome = .ok answer) (session : Session η) :
    (onStore (outcome : Evaluator η α)).run.run session = pure (.ok answer, session) := by
  rw [isOk]
  rfl

/-- A loop that was left ends at the top of the next pass. -/
theorem numberedLoop_of_left (left : (session.block body).wasLeft = true) :
    (numberedLoop runBlock scope body name comparison bound operator step (fuel + 1)
      counter).run.run session = pure (.ok (), session.modifyHeap (·.clear scope)) := by
  have begins := ran_beginPass scope body session
  rw [left] at begins
  exact run_bind_of_ok begins

/-- At the end of a pass the next number is computed, whether the pass left the loop or not. -/
theorem PassesAt.numberedLoop_eq
    (passes : PassesAt runBlock scope body name comparison bound counter session after) :
    (numberedLoop runBlock scope body name comparison bound operator step (fuel + 1)
      counter).run.run session =
    (do
      let next ← onStore (nextCounter name operator step counter)
      numberedLoop runBlock scope body name comparison bound operator step fuel next).run.run
        after := by
  have begins := ran_beginPass scope body session
  rw [passes.goesOn] at begins
  refine (run_bind_of_ok begins).trans ?_
  rw [if_neg Bool.false_ne_true, run_bind_of_ok (ran_onStore_of_ok passes.holds _), if_pos rfl]
  have named : (bindName scope name (.int counter)).run.run (session.modifyHeap (·.clear scope)) =
      pure (.ok (), session.modifyHeap fun heap => (heap.clear scope).put scope name
          (.int counter)) :=
    rfl
  rw [run_bind_of_ok named, run_bind_of_ok passes.ran]

theorem ComesTo.numberedLoop_eq
    (comes : ComesTo runBlock scope body name comparison bound operator step fuel counter session
      later number begun) :
    (numberedLoop runBlock scope body name comparison bound operator step fuel counter).run.run
      session =
    (numberedLoop runBlock scope body name comparison bound operator step later number).run.run
      begun := by
  induction comes with
  | here fuel counter session => rfl
  | @pass fuel later counter next number session middle begun passes isNext comes induction =>
      rw [passes.numberedLoop_eq, run_bind_of_ok (ran_onStore_of_ok isNext middle), induction]

/-- A pass that leaves the loop is the last one, but the loop fails if no number follows. -/
theorem PassesAt.numberedLoop_of_left
    (passes : PassesAt runBlock scope body name comparison bound counter session after)
    (left : (after.block body).wasLeft = true) :
    (numberedLoop runBlock scope body name comparison bound operator step (fuel + 2)
      counter).run.run session =
    if operator.DividesByZero step then (.error (.failed (.type .divisionByZero)), after)
    else (.ok (), after.modifyHeap (·.clear scope)) := by
  rw [passes.numberedLoop_eq]
  split
  case isTrue divides =>
    rw [nextCounter_of_dividesByZero divides]
    rfl
  case isFalse computes =>
    have isNext := nextCounter_of_not_dividesByZero computes name counter
    rw [run_bind_of_ok (ran_onStore_of_ok isNext after), Run.numberedLoop_of_left left]
    rfl

/-- The numbers that a numbered loop counts with. -/
def loopNumbers (environment : Environment η) (scope : ScopeRef) (start bound step : Expression) :
    Run η (Int32 × Int32 × Int32) := do
  let counter ← loopNumber environment scope "loop start" start
  let bound ← loopNumber environment scope "loop bound" bound
  let step ← loopNumber environment scope "loop step" step
  return (counter, bound, step)

theorem passes_numbered (environment : Environment η) (outer : ScopeRef)
    (start limit increment : Expression) (session : Session η) :
    (passes environment runBlock fuel outer body
      (.numbered name start comparison limit operator increment)).run.run session =
    (do
      let (counter, bound, step) ← loopNumbers environment outer start limit increment
      numberedLoop runBlock (session.block body).scope body name comparison bound operator step fuel
        counter).run.run session := by
  have assembled : (do
        let (counter, bound, step) ← loopNumbers environment outer start limit increment
        numberedLoop runBlock (session.block body).scope body name comparison bound operator step
          fuel counter) = (do
        let counter ← loopNumber environment outer "loop start" start
        let bound ← loopNumber environment outer "loop bound" limit
        let step ← loopNumber environment outer "loop step" increment
        numberedLoop runBlock (session.block body).scope body name comparison bound operator step
          fuel counter : Run η Unit) := by
    simp only [loopNumbers, bind_assoc, pure_bind]
  have looked : (get : Run η (Session η)).run.run session = pure (.ok session, session) := rfl
  unfold passes
  rw [assembled, run_bind_of_ok looked]

/-- Leaving a numbered loop ends it right after that pass, but one more number is computed: what the
loop leaves behind depends on no operator and step, and it ends well unless they divide by zero. -/
theorem loop_of_left {environment : Environment η} {outer : ScopeRef}
    {start limit increment : Expression} {marked top : Session η}
    (isMarked : session.modifyBlock body ({ · with wasLeft := false }) = marked)
    (numbers : (loopNumbers environment outer start limit increment).run.run marked =
      (.ok (counter, bound, step), begun))
    (comes : ComesTo runBlock (marked.block body).scope body name comparison bound operator step
      fuel counter begun (later + 2) number top)
    (passesAt : PassesAt runBlock (marked.block body).scope body name comparison bound number top
      after)
    (left : (after.block body).wasLeft = true) :
    (loop environment runBlock fuel outer
      (.numbered name start comparison limit operator increment) body).run.run session =
    (if operator.DividesByZero step then .error (.failed (.type .divisionByZero)) else .ok (),
      after.modifyHeap (·.clear (marked.block body).scope)) := by
  have ran : (passes environment runBlock fuel outer body
      (.numbered name start comparison limit operator increment)).run.run marked =
      if operator.DividesByZero step then (.error (.failed (.type .divisionByZero)), after)
      else (.ok (), after.modifyHeap (·.clear (marked.block body).scope)) := by
    rw [passes_numbered, run_bind_of_ok numbers, comes.numberedLoop_eq]
    exact passesAt.numberedLoop_of_left left
  have split : (loop environment runBlock fuel outer
      (.numbered name start comparison limit operator increment) body).run.run session =
      (((passes environment runBlock fuel outer body
        (.numbered name start comparison limit operator increment)).run.run marked).1,
      ((passes environment runBlock fuel outer body
        (.numbered name start comparison limit operator increment)).run.run marked).2.modifyHeap
          (·.clear (marked.block body).scope)) := by
    rw [← isMarked]
    rfl
  rw [split, ran]
  split
  · rfl
  · refine Prod.ext rfl ?_
    exact congrArg (fun heap => { after with store := { after.store with heap } })
      (Heap.clear_clear _ _)

end

end Run

namespace Template

/-- A loop that is left in its first pass, and whose step divides by zero. -/
def leaving : Template Unit :=
  .ofString "@for(i = 1; i < 5; i / 0)x@breakfor @endfor"
    { defaultPlaceholders := false } Host.none ()

/-- The session of that template after its text was parsed. -/
def leavingParsed : Session Unit :=
  ((Run.nodesOf leaving.environment leaving.root).run.run leaving.session).2

/-- The session in which the passes of that loop begin. -/
def leavingMarked : Session Unit :=
  leavingParsed.modifyBlock ⟨1⟩ ({ · with wasLeft := false })

/-- The numbers of that loop and the session after they were evaluated. -/
def leavingNumbers : Except Stop (Int32 × Int32 × Int32) × Session Unit :=
  (Run.loopNumbers leaving.environment .global (.literal (.int 1)) (.literal (.int 5))
    (.literal (.int 0))).run.run leavingMarked

/-- How its first pass ends. -/
def leavingPass : Except Stop Unit × Session Unit :=
  (Run.block leaving.environment 2 ⟨1⟩).run.run (leavingNumbers.2.modifyHeap fun heap =>
    (heap.clear (leavingMarked.block ⟨1⟩).scope).put (leavingMarked.block ⟨1⟩).scope "i" (.int 1))

end Template

theorem Run.ended_of_outcome {α : Type} {ended : Except Stop α × Session η} {outcome :
    Except Stop α}
    (isOutcome : ended.1 = outcome) : ended = (outcome, ended.2) :=
  Prod.ext isOutcome rfl

theorem Run.loop_of_left_leaving :
    ((Run.loop Template.leaving.environment (Run.block Template.leaving.environment 2) 2 .global
      (.numbered "i" (.literal (.int 1)) .less (.literal (.int 5)) .divide (.literal (.int 0)))
        ⟨1⟩).run.run Template.leavingParsed).1 = .error (.failed (.type .divisionByZero)) := by
  have numbers : Template.leavingNumbers = (.ok (1, 5, 0), Template.leavingNumbers.2) :=
    ended_of_outcome (by decide +kernel)
  have passed : Template.leavingPass = (.ok (), Template.leavingPass.2) :=
    ended_of_outcome (by decide +kernel)
  have left : (Template.leavingPass.2.block ⟨1⟩).wasLeft = true := by decide +kernel
  have holds : (Primitive.int 1).compares .less (.int 5) = .ok true := by decide +kernel
  have comes : ComesTo (block Template.leaving.environment 2)
      (Template.leavingMarked.block ⟨1⟩).scope ⟨1⟩ "i" .less 5 .divide 0 2 1
      Template.leavingNumbers.2 (0 + 2) 1 Template.leavingNumbers.2 := .here 2 1 _
  have ended := loop_of_left (rfl : _ = Template.leavingMarked) numbers comes
    ⟨by decide +kernel, holds, passed⟩ left
  rw [ended]
  rfl

/-- Whether a render ends well depends on a number that its loop would count to after it was
left. -/
theorem Template.renderText_left_leaving :
    (renderText "@for(i = 1; i < 5; i / 1)x@breakfor @endfor" 4).outcome = .ok () ∧
    (renderText "@for(i = 1; i < 5; i / 1)x@breakfor @endfor" 4).writes = #["x"] ∧
    (renderText "@for(i = 1; i < 5; i / 0)x@breakfor @endfor" 4).outcome =
      .error (.failed (.type .divisionByZero)) ∧
    (renderText "@for(i = 1; i < 5; i / 0)x@breakfor @endfor" 4).writes = #["x"] := by
  decide +kernel

end Stencil
