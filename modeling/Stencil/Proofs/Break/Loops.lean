import Stencil.Proofs.Break.Agreement

/-!
# Loops and their structured runs

As long as blocks run as they do in a structured way, so do lists of nodes, placeholders, and the
passes of a loop: a pass begins exactly if the pass before did not leave the loop.
-/

namespace Stencil

open Text Directive

variable {η : Type}

/-- The marks that a block may change: those of the loop around it and of the loops made for it. -/
def BlockRef.mayMark (id : BlockRef) (loop : Option BlockRef) (target : BlockRef) : Prop :=
  loop = some target ∨ id.index < target.index

/-- Running a block agrees with running it in a structured way, and it answers whether the loop
around it was left.  The placeholders that kinds begin with change no mark. -/
structure BlocksAgree (embeddings : Embeddings) (runBlock : BlockRef → Run η Unit)
    (structured : BlockRef → Run η Flow) : Prop where
  block : ∀ (session : Session η) (id : BlockRef), id.index < session.blocks.size →
    session.isLeft (session.block id).enclosingLoop = false →
    Agrees embeddings session (id.mayMark (session.block id).enclosingLoop) (runBlock id)
      (structured id) fun _ flow after =>
        after.isLeft (session.block id).enclosingLoop = flow.isLeft
  placeholder : ∀ (session : Session η) (id : BlockRef), session.IsDefault id →
    Agrees embeddings session (fun _ => False) (runBlock id) (structured id) fun _ _ _ => True

namespace Agrees

variable {environment : Environment η} {session : Session η} {mayMark : BlockRef → Prop}
  {runBlock : BlockRef → Run η Unit} {structured : BlockRef → Run η Flow} {scope : ScopeRef}
  {parent body : BlockRef} {fuel : Nat} {around : Option BlockRef}

theorem nodes {runNode : Node → Run η Unit} {runStructured : Node → Run η Flow} {listed : List Node}
    (each : ∀ node ∈ listed, ∀ after, session.Extends after → after.isLeft around = false →
      Agrees environment.embeddings after mayMark (runNode node) (runStructured node)
        fun _ flow ended => ended.isLeft around = flow.isLeft)
    (stays : session.isLeft around = false) :
    Agrees environment.embeddings session mayMark (Run.nodes runNode around listed)
      (Structured.nodes runStructured listed) fun _ flow ended => ended.isLeft around =
          flow.isLeft := by
  induction listed generalizing session with
  | nil => exact .pure stays
  | cons node rest induction =>
      have goesOn : (Run.nodes runNode around (node :: rest)).run.run session =
          (do runNode node; Run.nodes runNode around rest).run.run session := by
        have looked : (Run.nodes runNode around (node :: rest)).run.run session =
            (if session.isLeft around then return ()
            else do runNode node; Run.nodes runNode around rest).run.run session := rfl
        rw [looked, stays]
        rfl
      refine .of_run_eq goesOn ?_
      unfold Structured.nodes
      refine (each node List.mem_cons_self session (.refl _) stays).bind ?_
      intro _ flow after ext _ isFlow
      cases flow with
      | next =>
          exact induction (fun later member ended extLater =>
            each later (List.mem_cons_of_mem _ member) ended (ext.trans extLater)) isFlow
      | left =>
          have ends : (Run.nodes runNode around rest).run.run after =
              (return () : Run η Unit).run.run after := by
            cases rest with
            | nil => rfl
            | cons later rest =>
                have looked : (Run.nodes runNode around (later :: rest)).run.run after =
                    (if after.isLeft around then return ()
                    else do runNode later; Run.nodes runNode around rest).run.run after := rfl
                rw [looked, isFlow]
                rfl
          exact .of_run_eq ends (.pure isFlow)

theorem nested {α β : Type} {run : BlockRef → Run η α} {runStructured : BlockRef → Run η β}
    {answers : α → β → Session η → Prop} (what : Nested)
    (each : ∀ deeper, session.Extends deeper → session.SameMarks deeper →
      Agrees environment.embeddings deeper mayMark (run body) (runStructured body) answers) :
    Agrees environment.embeddings session mayMark (Run.nested run what body)
      (Run.nested runStructured what body)
      fun answer other after => ∃ ended, answers answer other ended ∧ ended.SameMarks after := by
  unfold Run.nested
  refine get_bind ?_
  split
  · exact .stop
  · have deepens : (Session.still η).Obeys environment.embeddings session
        (modify fun session => { session with depth := session.depth + 1 }) fun _ _ => True :=
      .update (fun _ => .depth _) trivial
    refine same_bind deepens fun _ deeper ext marks _ => ?_
    exact (each deeper ext marks).andFinally fun ended => .depth _

theorem runPlaceholder {run runStructured : BlockRef → Run η Unit}
    (each : ∀ (session : Session η) (id : BlockRef), session.IsDefault id →
      Agrees environment.embeddings session (fun _ => False) (run id) (runStructured id)
        fun _ _ _ => True)
    (key : Placeholder.Key) (argument : Option Value) :
    Agrees environment.embeddings session (fun _ => False) (Run.runPlaceholder run key argument)
      (Run.runPlaceholder runStructured key argument) fun _ _ _ => True := by
  have lawful := Policy.lawful_free (fun _ => True) False environment.host
  unfold Run.runPlaceholder
  refine of_calm fun calm => get_bind ?_
  cases found : session.placeholders.get? key with
  | none => exact .stop
  | some placeholder =>
      have isDefault := calm.placeholders key placeholder found
      have body {named : Session η} (ext : session.Extends named) :
          Agrees environment.embeddings named (fun _ => False)
            (Run.nested run (.placeholder key) placeholder.body)
            (Run.nested runStructured (.placeholder key) placeholder.body) fun _ _ _ => True :=
        (nested _ fun deeper extLater _ =>
          each deeper _ (extLater.isDefault (ext.isDefault isDefault))).weaken (fun _ => id)
            fun _ _ _ _ _ _ => trivial
      refine same_bind (.clear lawful trivial) fun _ emptied ext _ _ => ?_
      cases argument with
      | none => exact body ext
      | some value =>
          refine same_bind (.bindName lawful trivial trivial) fun _ named extNamed _ _ => ?_
          exact body (ext.trans extNamed)

theorem emit {run runStructured : BlockRef → Run η Unit}
    (each : ∀ (session : Session η) (id : BlockRef), session.IsDefault id →
      Agrees environment.embeddings session (fun _ => False) (run id) (runStructured id)
        fun _ _ _ => True)
    (value : Value) :
    Agrees environment.embeddings session (fun _ => False) (Run.emit run value)
      (Run.emit runStructured value) fun _ _ _ => True := by
  have write (text : String) : Agrees environment.embeddings session (fun _ => False)
      (Run.write text) (Run.write text) fun _ _ _ => True :=
    (same (.write text)).weaken (fun _ => id) fun _ _ _ _ _ _ => trivial
  unfold Run.emit
  cases value.string? with
  | some text => exact write text
  | none =>
      refine get_bind ?_
      split
      · exact runPlaceholder each _ _
      · exact write _

/-- A pass begins unless the pass before left the loop. -/
theorem beginPass_bind {α β : Type} {next : Bool → Run η α} {runStructured : Run η β}
    {answers : α → β → Session η → Prop} {flow : Flow}
    (isFlow : session.isLeft (some body) = flow.isLeft)
    (later : ∀ after, session.Extends after → session.SameMarks after →
      Agrees environment.embeddings after mayMark (next flow.isLeft) runStructured answers) :
    Agrees environment.embeddings session mayMark (Run.beginPass scope body >>= next)
      (do Run.clear scope; runStructured) answers := by
  have lawful := Policy.lawful_free (fun _ => True) False environment.host
  have begins : (Run.beginPass scope body >>= next).run.run session =
      (do Run.clear scope; next (session.isLeft (some body))).run.run session := rfl
  rw [isFlow] at begins
  refine .of_run_eq begins ?_
  exact same_bind (.clear lawful trivial) fun _ after ext marks _ => later after ext marks

section

variable (agree : BlocksAgree environment.embeddings runBlock structured)

include agree

theorem loopBody (isBody : session.IsLoopBody body) (stays : session.isLeft (some body) = false) :
    Agrees environment.embeddings session (body.mayMark (some body)) (runBlock body)
      (structured body) fun _ flow after => after.isLeft (some body) = flow.isLeft := by
  have agrees := agree.block session body isBody.1
  rw [isBody.2] at agrees
  exact agrees stays

theorem conditionalLoop {flow : Flow} (isBody : session.IsLoopBody body)
    (isFlow : session.isLeft (some body) = flow.isLeft) (condition : Condition) :
    Agrees environment.embeddings session (body.mayMark (some body))
      (Run.conditionalLoop environment runBlock scope body condition fuel)
      (Structured.conditionalLoop environment structured scope body condition fuel flow)
      fun _ _ _ => True := by
  have lawful := Policy.lawful_free (fun _ => True) False environment.host
  induction fuel generalizing session flow with
  | zero => exact .stop
  | succ fuel induction =>
      unfold Run.conditionalLoop Structured.conditionalLoop
      refine beginPass_bind isFlow fun begun ext marks => ?_
      cases flow with
      | left => exact .pure trivial
      | next =>
          refine same_bind (.condition lawful trivial condition)
            fun isTrue asked extAsked marksAsked _ => ?_
          cases isTrue with
          | false => exact .pure trivial
          | true =>
              have isBodyAsked := (ext.trans extAsked).isLoopBody isBody
              have stays := ((marks.trans marksAsked).isLeft_eq (some body)).trans isFlow
              refine (loopBody agree isBodyAsked stays).bind
                fun _ flow passed extPassed _ isFlowPassed => ?_
              exact induction (extPassed.isLoopBody isBodyAsked) isFlowPassed

theorem numberedLoop {flow : Flow} (isBody : session.IsLoopBody body)
    (isFlow : session.isLeft (some body) = flow.isLeft) (name : String) (comparison : Comparison)
    (bound : Int32) (operator : Operator) (step counter : Int32) :
    Agrees environment.embeddings session (body.mayMark (some body))
      (Run.numberedLoop runBlock scope body name comparison bound operator step fuel counter)
      (Structured.numberedLoop structured scope body name comparison bound operator step fuel
        counter flow) fun _ _ _ => True := by
  have lawful := Policy.lawful_free (fun _ => True) False environment.host
  induction fuel generalizing session flow counter with
  | zero => exact .stop
  | succ fuel induction =>
      unfold Run.numberedLoop Structured.numberedLoop
      refine beginPass_bind isFlow fun begun ext marks => ?_
      cases flow with
      | left => exact .pure trivial
      | next =>
          have compared : (Session.still η).Obeys environment.embeddings begun _ _ :=
            .lift lawful (NeverParses.compares comparison (.int counter) (.int bound))
          refine same_bind compared fun isTrue asked extAsked marksAsked _ => ?_
          cases isTrue with
          | false => exact .pure trivial
          | true =>
              refine same_bind (.bindName lawful trivial trivial)
                fun _ named extNamed marksNamed _ => ?_
              have isBodyNamed := ((ext.trans extAsked).trans extNamed).isLoopBody isBody
              have marks := (marks.trans marksAsked).trans marksNamed
              refine (loopBody agree isBodyNamed ((marks.isLeft_eq (some body)).trans isFlow)).bind
                fun _ flow passed extPassed _ isFlowPassed => ?_
              have counted : (Session.still η).Obeys environment.embeddings passed _ _ :=
                .lift lawful (NeverParses.nextCounter name operator step counter)
              refine same_bind counted fun next later extLater marksLater _ => ?_
              exact induction ((extPassed.trans extLater).isLoopBody isBodyNamed)
                ((marksLater.isLeft_eq (some body)).trans isFlowPassed) next

theorem iterableLoop {flow : Flow} (isBody : session.IsLoopBody body)
    (isFlow : session.isLeft (some body) = flow.isLeft) (element : String) (index : Option String)
    (list : ListRef) (places : List Nat) :
    Agrees environment.embeddings session (body.mayMark (some body))
      (Run.iterableLoop runBlock scope body element index list places)
      (Structured.iterableLoop structured scope body element index list places flow)
      fun _ _ _ => True := by
  have lawful := Policy.lawful_free (fun _ => True) False environment.host
  induction places generalizing session flow with
  | nil => exact .pure trivial
  | cons place places induction =>
      unfold Run.iterableLoop Structured.iterableLoop
      refine beginPass_bind isFlow fun begun ext marks => ?_
      cases flow with
      | left => exact .pure trivial
      | next =>
          refine get_bind ?_
          cases (begun.store.heap.items list)[place]? with
          | none => exact .stop
          | some item =>
              have pass {named : Session η} (extNamed : session.Extends named)
                  (marksNamed : session.SameMarks named) :
                  Agrees environment.embeddings named (body.mayMark (some body))
                    (do
                      runBlock body
                      Run.iterableLoop runBlock scope body element index list places)
                    (do
                      let flow ← structured body
                      Structured.iterableLoop structured scope body element index list places flow)
                    fun _ _ _ => True := by
                have isBodyNamed := extNamed.isLoopBody isBody
                refine (loopBody agree isBodyNamed
                  ((marksNamed.isLeft_eq (some body)).trans isFlow)).bind
                  fun _ flow passed extPassed _ isFlowPassed => ?_
                exact induction (extPassed.isLoopBody isBodyNamed) isFlowPassed
              refine same_bind (.bindName lawful trivial trivial)
                fun _ named extNamed marksNamed _ => ?_
              cases index with
              | none => exact pass (ext.trans extNamed) (marks.trans marksNamed)
              | some name =>
                  refine same_bind (.bindName lawful trivial trivial)
                    fun _ numbered extNumbered marksNumbered _ => ?_
                  exact pass ((ext.trans extNamed).trans extNumbered)
                    ((marks.trans marksNamed).trans marksNumbered)

theorem passes (isBody : session.IsLoopBody body)
    (stays : session.isLeft (some body) = Flow.next.isLeft) (header : LoopHeader) :
    Agrees environment.embeddings session (body.mayMark (some body))
      (Run.passes environment runBlock fuel scope body header)
      (Structured.passes environment structured fuel scope body header) fun _ _ _ => True := by
  have lawful := Policy.lawful_free (fun _ => True) False environment.host
  unfold Run.passes Structured.passes
  refine get_bind ?_
  cases header with
  | conditional condition => exact conditionalLoop agree isBody stays condition
  | numbered name start comparison bound operator step =>
      refine same_bind (.loopNumber lawful trivial "loop start" start)
        fun counter started extStarted marksStarted _ => ?_
      refine same_bind (.loopNumber lawful trivial "loop bound" bound)
        fun limit bounded extBounded marksBounded _ => ?_
      refine same_bind (.loopNumber lawful trivial "loop step" step)
        fun increment stepped extStepped marksStepped _ => ?_
      have ext := (extStarted.trans extBounded).trans extStepped
      have marks := (marksStarted.trans marksBounded).trans marksStepped
      exact numberedLoop agree (ext.isLoopBody isBody)
        ((marks.isLeft_eq (some body)).trans stays) _ _ _ _ _ _
  | iterable element index iterable =>
      refine same_bind (.evaluate lawful trivial iterable) fun value asked ext marks _ => ?_
      cases value with
      | list list =>
          refine get_bind ?_
          exact iterableLoop agree (ext.isLoopBody isBody)
            ((marks.isLeft_eq (some body)).trans stays) _ _ _ _
      | primitive value => exact .stop
      | object object => exact .stop
      | function function => exact .stop

theorem loop (isBody : session.IsLoopBody body) (later : parent.index < body.index)
    (outer : ∀ target, around = some target → target.index ≤ parent.index)
    (stays : session.isLeft around = false) (header : LoopHeader) :
    Agrees environment.embeddings session (parent.mayMark around)
      (Run.loop environment runBlock fuel scope header body)
      (Structured.loop environment structured fuel scope header body)
      fun _ flow after => after.isLeft around = flow.isLeft := by
  have lawful := Policy.lawful_free (fun _ => True) False environment.host
  have covers (target : BlockRef) (may : body.mayMark (some body) target) :
      parent.mayMark around target := by
    rcases may with same | after
    · cases same
      exact .inr later
    · exact .inr (Nat.lt_trans later after)
  have notOuter (target : BlockRef) (isOuter : around = some target) :
      ¬body.mayMark (some body) target := by
    have earlier := Nat.lt_of_le_of_lt (outer target isOuter) later
    rintro (same | after)
    · cases same
      exact Nat.lt_irrefl _ earlier
    · exact Nat.lt_asymm earlier after
  have begins : Agrees environment.embeddings session (body.mayMark (some body)) _ _ _ :=
    (mark body false isBody.1).weaken (fun target same => .inl (congrArg some same.symm))
      fun _ _ _ _ _ => id
  have agrees : Agrees environment.embeddings session (body.mayMark (some body))
      (Run.loop environment runBlock fuel scope header body)
      (Structured.loop environment structured fuel scope header body)
      fun _ flow after => after.isLeft around = flow.isLeft := by
    unfold Run.loop Structured.loop
    refine begins.bind fun _ _ begun ext marks isMarked => get_bind ?_
    have ran : Agrees environment.embeddings begun (body.mayMark (some body))
        (Run.passes environment runBlock fuel scope body header)
        (Structured.passes environment structured fuel scope body header) fun _ _ _ => True :=
      passes agree (ext.isLoopBody isBody) isMarked header
    have emptied := ran.andFinally fun ended =>
      .store _ (lawful.clear ended.store (begun.block body).scope trivial trivial)
    apply andNext (emptied.weaken (fun _ => id) fun _ _ _ _ _ _ => trivial) notOuter
    rw [marks.isLeft notOuter, stays]
  exact agrees.weaken covers fun _ _ _ _ _ => id

end

end Agrees

end Stencil
