import Mathlib.Data.List.Forall2
import Stencil.Proofs.Run.Does

/-!
# Runs in lockstep

Two runs that begin in related sessions go through related sessions and end alike, unless the first
stops for a reason that excuses it.  It is enough that this holds of the blocks that they run, and
of the errors that the parsing of a block left behind.
-/

namespace Stencil

open Text

variable {η α β γ δ : Type}

/-- How two runs are compared: which sessions are related, which blocks the first run may come to,
which stops count as the same once it has ended, and which stops end the comparison. -/
structure Run.Pairing (η : Type) where
  related : Session η → Session η → Prop
  runs : Session η → BlockRef → Prop := fun _ _ => True
  stops : Session η → Stop → Stop → Prop
  excused : Stop → Prop

/-- A stop that nothing which was parsed accounts for. -/
inductive Stop.Plain (host : Host η) : Stop → Prop where
  | outOfFuel : Plain host .outOfFuel
  | failed {error : TemplateError} (isPlain : error.OtherThanParse ∨ host.Raises error) :
      Plain host (.failed error)

/-- Two outcomes are alike. -/
inductive Run.Alike (stops : Stop → Stop → Prop) (answers : α → β → Prop) :
    Except Stop α → Except Stop β → Prop where
  | ok {answer : α} {other : β} (same : answers answer other) :
      Alike stops answers (.ok answer) (.ok other)
  | error {stop other : Stop} (same : stops stop other) :
      Alike stops answers (.error stop) (.error other)

theorem Run.Alike.weaken {stops : Stop → Stop → Prop} {answers weaker : α → β → Prop}
    {outcome : Except Stop α} {outcome' : Except Stop β}
    (alike : Run.Alike stops answers outcome outcome')
    (implies : ∀ answer other, answers answer other → weaker answer other) :
    Run.Alike stops weaker outcome outcome' := by
  cases alike with
  | ok same => exact .ok (implies _ _ same)
  | error same => exact .error same

theorem Run.Alike.mono {stops weaker : Stop → Stop → Prop} {answers : α → β → Prop}
    {outcome : Except Stop α} {outcome' : Except Stop β}
    (alike : Run.Alike stops answers outcome outcome')
    (implies : ∀ stop stop', stops stop stop' → weaker stop stop') :
    Run.Alike weaker answers outcome outcome' := by
  cases alike with
  | ok same => exact .ok same
  | error same => exact .error (implies _ _ same)

theorem Run.Alike.eq {outcome outcome' : Except Stop Unit}
    (alike : Run.Alike Eq (fun _ _ => True) outcome outcome') : outcome = outcome' := by
  cases alike with
  | ok same => rfl
  | error same => rw [same]

/-- Two runs end alike in related sessions, unless the first is excused. -/
def Run.EndAlike (pairing : Run.Pairing η) (left : Run η α) (right : Run η β)
    (answers : α → β → Prop) (before before' : Session η) : Prop :=
  (∃ stop, (left.run.run before).1 = .error stop ∧ pairing.excused stop) ∨
    pairing.related (left.run.run before).2 (right.run.run before').2 ∧
      Run.Alike (pairing.stops (left.run.run before).2) answers (left.run.run before).1
        (right.run.run before').1

/-- From related sessions two runs end alike. -/
def Run.Lockstep (pairing : Run.Pairing η) (left : Run η α) (right : Run η β)
    (answers : α → β → Prop) : Prop :=
  ∀ before before', pairing.related before before' →
    Run.EndAlike pairing left right answers before before'

/-- Whether a node runs blocks one level deeper. -/
def Node.nests : Node → Bool
  | .read _ | .usePlaceholder .. | .embed _ => true
  | _ => false

namespace Run

/-- A pairing with another relation between sessions. -/
def Pairing.on (pairing : Run.Pairing η) (related : Session η → Session η → Prop) :
    Run.Pairing η :=
  { pairing with related }

/-- What runs read of a session is the same in related sessions, and changes of both keep them
related. -/
structure Pairing.Lawful (pairing : Run.Pairing η) (host : Host η) : Prop where
  plain : ∀ session stop, stop.Plain host → pairing.stops session stop stop
  stops : ∀ (session : Session η) store depth stop stop', pairing.stops session stop stop' →
    pairing.stops { session with store, depth } stop stop'
  store : ∀ before before', pairing.related before before' → before'.store = before.store
  placeholders : ∀ before before', pairing.related before before' →
    before'.placeholders = before.placeholders
  scope : ∀ before before', pairing.related before before' → ∀ id,
    (before'.block id).scope = (before.block id).scope
  wasLeft : ∀ before before', pairing.related before before' → ∀ id,
    (before'.block id).wasLeft = (before.block id).wasLeft
  withStore : ∀ before before', pairing.related before before' → ∀ store,
    pairing.related { before with store } { before' with store }
  write : ∀ before before', pairing.related before before' → ∀ text,
    pairing.related { before with writes := before.writes.push text }
      { before' with writes := before'.writes.push text }
  mark : ∀ before before', pairing.related before before' → ∀ target left,
    pairing.related (before.modifyBlock target ({ · with wasLeft := left }))
      (before'.modifyBlock target ({ · with wasLeft := left }))
  bodies : ∀ before before', pairing.related before before' → ∀ key placeholder,
    before.placeholders.get? key = some placeholder → pairing.runs before placeholder.body

/-- What has to be known of a node that both runs come to: the blocks that it refers to may be run,
the placeholder that it defines may be defined, and the error that it stands for is the same. -/
structure Pairing.Admits (pairing : Run.Pairing η) (node : Node) : Prop where
  runs : ∀ before before', pairing.related before before' → ∀ id ∈ node.blocks,
    pairing.runs before id
  defines : ∀ key parameter body, node = .definePlaceholder key parameter body →
    ∀ before before', pairing.related before before' →
      pairing.related
        { before with placeholders := before.placeholders.put key ⟨body, parameter⟩ }
        { before' with placeholders := before'.placeholders.put key ⟨body, parameter⟩ }
  fails : ∀ error, node = .malformed error → ∀ before before', pairing.related before before' →
    pairing.stops before (.failed error) (.failed error)

/-- A block runs one level deeper if the limit allows it, and then the level is left again. -/
theorem ran_nested (runBlock : BlockRef → Run η Unit) (what : Nested) (id : BlockRef)
    (session : Session η) :
    (Run.nested runBlock what id).run.run session =
      if nestingLimit ≤ session.depth then
        (.error (.failed (.reference (.nestingTooDeep what nestingLimit))), session)
      else (Run.andFinally (runBlock id) fun session =>
        { session with depth := session.depth - 1 }).run.run
          { session with depth := session.depth + 1 } := by
  change (if nestingLimit ≤ session.depth then _ else _ : Run η Unit).run.run session = _
  split <;> rfl

theorem EndAlike.get_bind {pairing : Run.Pairing η} {next : Session η → Run η α}
    {next' : Session η → Run η β} {answers : α → β → Prop} {before before' : Session η}
    (later : EndAlike pairing (next before) (next' before') answers before before') :
    EndAlike pairing (get >>= next) (get >>= next') answers before before' :=
  later

/-- What only the first run looks at is its session. -/
theorem EndAlike.get_left {pairing : Run.Pairing η} {next : Session η → Run η α} {right : Run η β}
    {answers : α → β → Prop} {before before' : Session η}
    (later : EndAlike pairing (next before) right answers before before') :
    EndAlike pairing (get >>= next) right answers before before' :=
  later

namespace Lockstep

variable {pairing : Run.Pairing η}

theorem pure {answer : α} {other : β} {answers : α → β → Prop} (same : answers answer other) :
    Lockstep pairing (Pure.pure answer) (Pure.pure other) answers :=
  fun _ _ related => .inr ⟨related, .ok same⟩

theorem stop {reason other : Stop} {answers : α → β → Prop}
    (same : ∀ before before', pairing.related before before' → pairing.stops before reason other) :
    Lockstep pairing (throw reason : Run η α) (throw other : Run η β) answers :=
  fun before before' related => .inr ⟨related, .error (same before before' related)⟩

theorem excused {reason : Stop} {answers : α → β → Prop} (right : Run η β)
    (isExcused : pairing.excused reason) :
    Lockstep pairing (throw reason : Run η α) right answers :=
  fun _ _ _ => .inl ⟨reason, rfl, isExcused⟩

theorem weaken {left : Run η α} {right : Run η β} {answers weaker : α → β → Prop}
    (lockstep : Lockstep pairing left right answers)
    (implies : ∀ answer other, answers answer other → weaker answer other) :
    Lockstep pairing left right weaker := by
  intro before before' related
  exact (lockstep before before' related).imp_right fun ended =>
    ⟨ended.1, ended.2.weaken implies⟩

theorem bind_at {left : Run η α} {right : Run η β} {next : α → Run η γ} {next' : β → Run η δ}
    {middle : α → β → Prop} {answers : γ → δ → Prop} {before before' : Session η}
    (here : EndAlike pairing left right middle before before')
    (later : ∀ answer other after after', left.run.run before = (.ok answer, after) →
      pairing.related after after' → middle answer other →
      EndAlike pairing (next answer) (next' other) answers after after') :
    EndAlike pairing (left >>= next) (right >>= next') answers before before' := by
  have split : (left >>= next).run.run before =
      (ExceptT.bindCont next (left.run.run before).1).run (left.run.run before).2 := rfl
  have split' : (right >>= next').run.run before' =
      (ExceptT.bindCont next' (right.run.run before').1).run (right.run.run before').2 := rfl
  rw [EndAlike, split, split']
  rcases here with ⟨stop, stopped, isExcused⟩ | ⟨relatedAfter, alike⟩
  · refine .inl ⟨stop, ?_, isExcused⟩
    rw [stopped]
    rfl
  · revert relatedAfter alike later
    generalize left.run.run before = ended
    generalize right.run.run before' = ended'
    obtain ⟨outcome, after⟩ := ended
    obtain ⟨outcome', after'⟩ := ended'
    intro later relatedAfter alike
    cases alike with
    | ok same => exact later _ _ after after' rfl relatedAfter same
    | error same => exact .inr ⟨relatedAfter, .error same⟩

theorem bind {left : Run η α} {right : Run η β} {next : α → Run η γ} {next' : β → Run η δ}
    {middle : α → β → Prop} {answers : γ → δ → Prop}
    (here : Lockstep pairing left right middle)
    (later : ∀ answer other, middle answer other →
      Lockstep pairing (next answer) (next' other) answers) :
    Lockstep pairing (left >>= next) (right >>= next') answers :=
  fun before before' related => bind_at (here before before' related)
    fun answer other after after' _ relatedAfter same =>
      later answer other same after after' relatedAfter

/-- What both runs look at is a pair of related sessions. -/
theorem get_bind {next : Session η → Run η α} {next' : Session η → Run η β}
    {answers : α → β → Prop}
    (later : ∀ before before', pairing.related before before' →
      Lockstep pairing (next before) (next' before') answers) :
    Lockstep pairing (get >>= next) (get >>= next') answers :=
  fun before before' related => .get_bind (later before before' related before before' related)

theorem update {change change' : Session η → Session η}
    (keeps : ∀ before before', pairing.related before before' →
      pairing.related (change before) (change' before')) :
    Lockstep pairing (modify change) (modify change') fun _ _ => True :=
  fun before before' related => .inr ⟨keeps before before' related, .ok trivial⟩

/-- Two runs of something that is followed by a change, which may lead to another relation. -/
theorem andFinally {inner : Session η → Session η → Prop} {left : Run η α} {right : Run η β}
    {answers : α → β → Prop} {last last' : Session η → Session η}
    {before before' : Session η}
    (alike : EndAlike (pairing.on inner) left right answers before before')
    (keeps : ∀ after after', inner after after' → pairing.related (last after) (last' after'))
    (stops : ∀ after stop stop', pairing.stops after stop stop' →
      pairing.stops (last after) stop stop') :
    EndAlike pairing (Run.andFinally left last) (Run.andFinally right last') answers before
      before' := by
  have ran : (Run.andFinally left last).run.run before =
      ((left.run.run before).1, last (left.run.run before).2) := rfl
  have ran' : (Run.andFinally right last').run.run before' =
      ((right.run.run before').1, last' (right.run.run before').2) := rfl
  rw [EndAlike, ran, ran']
  exact alike.imp_right fun ended =>
    ⟨keeps _ _ ended.1, ended.2.mono (stops _)⟩

section

variable {environment : Environment η} (lawful : pairing.Lawful environment.host)

include lawful

theorem wasLeft (enclosingLoop : Option BlockRef) :
    Lockstep pairing (Run.wasLeft enclosingLoop) (Run.wasLeft enclosingLoop)
      fun left left' => left = left' := by
  unfold Run.wasLeft
  refine get_bind fun before before' related => pure ?_
  cases enclosingLoop with
  | none => rfl
  | some target => exact (lawful.wasLeft before before' related target).symm

/-- Lists of nodes that are in lockstep one by one are in lockstep. -/
theorem nodes {runNode runNode' : Node → Run η Unit} (enclosingLoop : Option BlockRef)
    {listed listed' : List Node}
    (each : List.Forall₂ (fun node node' =>
      Lockstep pairing (runNode node) (runNode' node') fun _ _ => True) listed listed') :
    Lockstep pairing (Run.nodes runNode enclosingLoop listed)
      (Run.nodes runNode' enclosingLoop listed') fun _ _ => True := by
  induction each with
  | nil => exact pure trivial
  | cons first rest induction =>
      unfold Run.nodes
      refine (wasLeft lawful enclosingLoop).bind ?_
      rintro left _ rfl
      split
      · exact pure trivial
      · exact first.bind fun _ _ _ => induction

theorem failType (problem : TypeProblem) {answers : α → β → Prop} :
    Lockstep pairing (Run.fail (.type problem) : Run η α) (Run.fail (.type problem) : Run η β)
      answers :=
  stop fun before _ _ => lawful.plain before _ (.failed (.inl nofun))

theorem failReference (problem : ReferenceProblem) {answers : α → β → Prop} :
    Lockstep pairing (Run.fail (.reference problem) : Run η α)
      (Run.fail (.reference problem) : Run η β) answers :=
  stop fun before _ _ => lawful.plain before _ (.failed (.inl nofun))

theorem onStore {evaluator : Evaluator η α}
    (fails : ∀ store error, (evaluator.run.run store).1 = .error error →
      error.OtherThanParse ∨ environment.host.Raises error) :
    Lockstep pairing (Run.onStore evaluator) (Run.onStore evaluator)
      fun answer other => answer = other := by
  intro before before' related
  have ran (session : Session η) : (Run.onStore evaluator).run.run session =
      ((evaluator.run.run session.store).1.mapError .failed,
        { session with store := (evaluator.run.run session.store).2 }) := rfl
  rw [EndAlike, ran, ran, lawful.store before before' related]
  refine .inr ⟨lawful.withStore before before' related _, ?_⟩
  cases outcome : (evaluator.run.run before.store).1 with
  | error error => exact .error (lawful.plain _ _ (.failed (fails _ error outcome)))
  | ok answer => exact .ok rfl

theorem onHeap (change : Heap → α × Heap) :
    Lockstep pairing (Run.onHeap change) (Run.onHeap change) fun answer other => answer = other :=
  onStore lawful fun _ _ same => nomatch same

theorem modifyHeap (change : Heap → Heap) :
    Lockstep pairing (modify (·.modifyHeap change)) (modify (·.modifyHeap change))
      fun _ _ => True := by
  refine update fun before before' related => ?_
  have same := lawful.withStore before before' related
    { before.store with heap := change before.store.heap }
  rwa [show before'.modifyHeap change =
    { before' with store := { before.store with heap := change before.store.heap } } by
      rw [Session.modifyHeap, lawful.store before before' related]]

theorem clear (scope : ScopeRef) :
    Lockstep pairing (Run.clear scope) (Run.clear scope) fun _ _ => True :=
  modifyHeap lawful _

theorem bindName (scope : ScopeRef) (name : String) (value : Value) :
    Lockstep pairing (Run.bindName scope name value) (Run.bindName scope name value)
      fun _ _ => True :=
  modifyHeap lawful _

theorem write (text : String) :
    Lockstep pairing (Run.write text) (Run.write text) fun _ _ => True :=
  update fun before before' related => lawful.write before before' related text

theorem beginPass (scope : ScopeRef) (body : BlockRef) :
    Lockstep pairing (Run.beginPass scope body) (Run.beginPass scope body)
      fun left left' => left = left' :=
  (clear lawful scope).bind fun _ _ _ => wasLeft lawful (some body)

theorem loopNumber (scope : ScopeRef) (what : String)
    (expression : Expression) :
    Lockstep pairing (Run.loopNumber environment scope what expression)
      (Run.loopNumber environment scope what expression) fun number other => number = other := by
  unfold Run.loopNumber
  refine (onStore lawful (Evaluator.Changes.evaluate scope expression).fails).bind ?_
  rintro value _ rfl
  cases value.int? with
  | some number => exact pure rfl
  | none => exact failType lawful _

theorem declare (scope : ScopeRef) (name : String) (value : Value) :
    Lockstep pairing (Run.declare scope name value) (Run.declare scope name value)
      fun _ _ => True := by
  unfold Run.declare
  refine (onHeap lawful _).bind ?_
  rintro declared _ rfl
  split
  · exact pure trivial
  · refine get_bind fun before before' related => ?_
    rw [lawful.store before before' related]
    exact failReference lawful _

theorem assign (scope : ScopeRef) (name : String) (value : Value) :
    Lockstep pairing (Run.assign scope name value) (Run.assign scope name value)
      fun _ _ => True := by
  unfold Run.assign
  refine (onHeap lawful _).bind ?_
  rintro assigned _ rfl
  split
  · exact pure trivial
  · exact failReference lawful _

end

/-- The same fuel, or more of it if running out of fuel is excused. -/
def Enough (pairing : Run.Pairing η) (fuel fuel' : Nat) : Prop :=
  fuel = fuel' ∨ fuel ≤ fuel' ∧ pairing.excused .outOfFuel

/-- Blocks that run one level deeper end alike if they do in sessions with one more level. -/
theorem nested {host : Host η} (lawful : pairing.Lawful host) (inner : Session η → Session η → Prop)
    {runBlock runBlock' : BlockRef → Run η Unit} (what : Nested) (id : BlockRef)
    {before before' : Session η} (related : pairing.related before before')
    (limits : nestingLimit ≤ before.depth → nestingLimit ≤ before'.depth ∨
      pairing.excused (.failed (.reference (.nestingTooDeep what nestingLimit))))
    (enters : before.depth < nestingLimit → before'.depth < nestingLimit ∧
      EndAlike (pairing.on inner) (runBlock id) (runBlock' id) (fun _ _ => True)
        { before with depth := before.depth + 1 } { before' with depth := before'.depth + 1 })
    (leaves : ∀ after after', inner after after' →
      pairing.related { after with depth := after.depth - 1 }
        { after' with depth := after'.depth - 1 }) :
    EndAlike pairing (Run.nested runBlock what id) (Run.nested runBlock' what id)
      (fun _ _ => True) before before' := by
  rw [EndAlike, ran_nested, ran_nested]
  by_cases isDeep : nestingLimit ≤ before.depth
  · rw [if_pos isDeep]
    rcases limits isDeep with isDeep' | isExcused
    · rw [if_pos isDeep']
      exact .inr ⟨related, .error (lawful.plain _ _ (.failed (.inl nofun)))⟩
    · exact .inl ⟨_, rfl, isExcused⟩
  · obtain ⟨below, alike⟩ := enters (Nat.lt_of_not_le isDeep)
    rw [if_neg isDeep, if_neg (Nat.not_le.mpr below)]
    exact andFinally alike leaves fun after _ _ => lawful.stops after after.store _ _ _

section

variable {environment : Environment η} {runBlock runBlock' : BlockRef → Run η Unit}
  {fuel fuel' : Nat} (lawful : pairing.Lawful environment.host)

include lawful

section

variable (nested : ∀ what id before before', pairing.related before before' →
  pairing.runs before id → EndAlike pairing (Run.nested runBlock what id)
    (Run.nested runBlock' what id) (fun _ _ => True) before before')

include nested

theorem runPlaceholder (key : Placeholder.Key) (argument : Option Value) :
    Lockstep pairing (Run.runPlaceholder runBlock key argument)
      (Run.runPlaceholder runBlock' key argument) fun _ _ => True := by
  unfold Run.runPlaceholder
  intro before before' related
  refine .get_bind ?_
  rw [lawful.placeholders before before' related]
  cases found : before.placeholders.get? key with
  | none => exact failReference lawful _ before before' related
  | some placeholder =>
      dsimp only
      rw [lawful.scope before before' related]
      -- neither clearing the scope nor binding the argument changes the placeholders
      have enters (after after' : Session η) (same : after.placeholders = before.placeholders)
          (relatedAfter : pairing.related after after') :=
        nested (.placeholder key) placeholder.body after after' relatedAfter
          (lawful.bodies after after' relatedAfter key placeholder (same ▸ found))
      refine bind_at (clear lawful _ before before' related)
        fun _ _ cleared cleared' ran relatedCleared _ => ?_
      have kept : cleared.placeholders = before.placeholders :=
        (congrArg (fun ended => ended.2.placeholders) ran).symm
      cases argument with
      | none => exact enters cleared cleared' kept relatedCleared
      | some value =>
          refine bind_at (bindName lawful _ _ _ cleared cleared' relatedCleared)
            fun _ _ bound bound' ranBound relatedBound _ => ?_
          exact enters bound bound'
            ((congrArg (fun ended => ended.2.placeholders) ranBound).symm.trans kept) relatedBound

theorem emit (value : Value) :
    Lockstep pairing (Run.emit runBlock value) (Run.emit runBlock' value) fun _ _ => True := by
  unfold Run.emit
  cases value.string? with
  | some text => exact write lawful text
  | none =>
      refine get_bind fun before before' related => ?_
      rw [lawful.placeholders before before' related, lawful.store before before' related]
      split
      · exact runPlaceholder lawful nested _ _
      · exact write lawful _

end

section

variable {body : BlockRef}
  (passed : Lockstep pairing (runBlock body) (runBlock' body) fun _ _ => True)

include passed

theorem conditionalLoop (scope : ScopeRef) (test : Condition)
    (enough : Enough pairing fuel fuel') :
    Lockstep pairing (Run.conditionalLoop environment runBlock scope body test fuel)
      (Run.conditionalLoop environment runBlock' scope body test fuel') fun _ _ => True := by
  induction fuel generalizing fuel' with
  | zero =>
      rcases enough with rfl | ⟨-, isExcused⟩
      · exact stop fun before _ _ => lawful.plain before _ .outOfFuel
      · exact excused _ isExcused
  | succ fuel induction =>
      obtain ⟨more, rfl⟩ : ∃ more, fuel' = more + 1 :=
        Nat.exists_eq_add_one.mpr (by rcases enough with rfl | ⟨le, -⟩ <;> omega)
      have enoughLater : Enough pairing fuel more :=
        enough.imp Nat.succ.inj (And.imp_left Nat.le_of_succ_le_succ)
      unfold Run.conditionalLoop
      refine (beginPass lawful scope body).bind ?_
      rintro left _ rfl
      split
      · exact pure trivial
      · refine (onStore lawful (Evaluator.Changes.condition scope test).fails).bind ?_
        rintro holds _ rfl
        split
        · exact passed.bind fun _ _ _ => induction enoughLater
        · exact pure trivial

theorem numberedLoop (scope : ScopeRef) (name : String) (comparison : Comparison)
    (bound : Int32) (operator : Operator) (step counter : Int32)
    (enough : Enough pairing fuel fuel') :
    Lockstep pairing
      (Run.numberedLoop runBlock scope body name comparison bound operator step fuel counter)
      (Run.numberedLoop runBlock' scope body name comparison bound operator step fuel' counter)
      fun _ _ => True := by
  induction fuel generalizing fuel' counter with
  | zero =>
      rcases enough with rfl | ⟨-, isExcused⟩
      · exact stop fun before _ _ => lawful.plain before _ .outOfFuel
      · exact excused _ isExcused
  | succ fuel induction =>
      obtain ⟨more, rfl⟩ : ∃ more, fuel' = more + 1 :=
        Nat.exists_eq_add_one.mpr (by rcases enough with rfl | ⟨le, -⟩ <;> omega)
      have enoughLater : Enough pairing fuel more :=
        enough.imp Nat.succ.inj (And.imp_left Nat.le_of_succ_le_succ)
      unfold Run.numberedLoop
      refine (beginPass lawful scope body).bind ?_
      rintro left _ rfl
      split
      · exact pure trivial
      · refine (onStore lawful (Evaluator.Changes.lift (.compares _ _ _)).fails).bind ?_
        rintro holds _ rfl
        split
        · refine (bindName lawful _ _ _).bind fun _ _ _ => ?_
          refine passed.bind fun _ _ _ => ?_
          refine (onStore lawful (Evaluator.Changes.lift (.nextCounter _ _ _ _)).fails).bind ?_
          rintro next _ rfl
          exact induction next enoughLater
        · exact pure trivial

theorem iterableLoop (scope : ScopeRef) (element : String)
    (index : Option String) (list : ListRef) (places : List Nat) :
    Lockstep pairing (Run.iterableLoop runBlock scope body element index list places)
      (Run.iterableLoop runBlock' scope body element index list places) fun _ _ => True := by
  induction places with
  | nil => exact pure trivial
  | cons place places induction =>
      unfold Run.iterableLoop
      refine (beginPass lawful scope body).bind ?_
      rintro left _ rfl
      split
      · exact pure trivial
      · refine get_bind fun before before' related => ?_
        rw [lawful.store before before' related]
        cases (before.store.heap.items list)[place]? with
        | none => exact failReference lawful _
        | some item =>
            refine (bindName lawful _ _ _).bind fun _ _ _ => ?_
            cases index with
            | none => exact passed.bind fun _ _ _ => induction
            | some name =>
                exact (bindName lawful _ _ _).bind fun _ _ _ =>
                  passed.bind fun _ _ _ => induction

theorem passes (scope : ScopeRef) (header : LoopHeader)
    (enough : Enough pairing fuel fuel') :
    Lockstep pairing (Run.passes environment runBlock fuel scope body header)
      (Run.passes environment runBlock' fuel' scope body header) fun _ _ => True := by
  unfold Run.passes
  refine get_bind fun before before' related => ?_
  rw [lawful.scope before before' related]
  cases header with
  | conditional test => exact conditionalLoop lawful passed _ test enough
  | numbered name start comparison bound operator step =>
      refine (loopNumber lawful _ _ _).bind ?_
      rintro counter _ rfl
      refine (loopNumber lawful _ _ _).bind ?_
      rintro bound _ rfl
      refine (loopNumber lawful _ _ _).bind ?_
      rintro step _ rfl
      exact numberedLoop lawful passed _ name comparison bound operator step counter enough
  | iterable element index iterable =>
      refine (onStore lawful (Evaluator.Changes.evaluate scope iterable).fails).bind ?_
      rintro value _ rfl
      cases value with
      | list list =>
          refine get_bind fun before before' related => ?_
          rw [lawful.store before before' related]
          exact iterableLoop lawful passed _ element index list _
      | primitive value => exact failType lawful _
      | object object => exact failType lawful _
      | function function => exact failType lawful _

theorem loop (scope : ScopeRef) (header : LoopHeader)
    (enough : Enough pairing fuel fuel') :
    Lockstep pairing (Run.loop environment runBlock fuel scope header body)
      (Run.loop environment runBlock' fuel' scope header body) fun _ _ => True := by
  unfold Run.loop
  refine (update fun before before' related => lawful.mark before before' related body false).bind
    fun _ _ _ => ?_
  refine get_bind fun before before' related => ?_
  rw [lawful.scope before before' related]
  intro now now' relatedNow
  refine andFinally (passes lawful passed scope header enough now now' relatedNow)
    (fun after after' relatedAfter => ?_) fun after _ _ => lawful.stops after _ after.depth _ _
  have cleared := clear lawful (before.block body).scope after after' relatedAfter
  rcases cleared with ⟨stop, stopped, -⟩ | ⟨relatedCleared, -⟩
  · cases stopped
  · exact relatedCleared

theorem cleared :
    Lockstep pairing (Run.cleared runBlock body) (Run.cleared runBlock' body) fun _ _ => True := by
  unfold Run.cleared
  refine get_bind fun before before' related => ?_
  rw [lawful.scope before before' related]
  exact (clear lawful _).bind fun _ _ _ => passed

end

theorem branches (scope : ScopeRef) (otherwise : Option BlockRef)
    (conditions : List (Condition × BlockRef))
    (blocks : ∀ id ∈ conditions.map Prod.snd ++ otherwise.toList,
      Lockstep pairing (runBlock id) (runBlock' id) fun _ _ => True) :
    Lockstep pairing (Run.branches environment runBlock scope otherwise conditions)
      (Run.branches environment runBlock' scope otherwise conditions) fun _ _ => True := by
  induction conditions with
  | nil =>
      unfold Run.branches
      cases otherwise with
      | none => exact pure trivial
      | some id => exact cleared lawful (blocks id (List.mem_singleton_self id))
  | cons first conditions induction =>
      obtain ⟨here, rest⟩ := List.forall_mem_cons.mp blocks
      unfold Run.branches
      refine (onStore lawful (Evaluator.Changes.condition scope first.1).fails).bind ?_
      rintro holds _ rfl
      split
      · exact cleared lawful here
      · exact induction rest

/-- A node that runs blocks one level deeper is in lockstep with itself if they are. -/
theorem node_of_nests
    (nested : ∀ what id before before', pairing.related before before' →
      pairing.runs before id → EndAlike pairing (Run.nested runBlock what id)
        (Run.nested runBlock' what id) (fun _ _ => True) before before')
    (scope : ScopeRef) {node : Node} (admits : pairing.Admits node) (nests : node.nests = true) :
    Lockstep pairing (Run.node environment runBlock fuel scope node)
      (Run.node environment runBlock' fuel' scope node) fun _ _ => True := by
  cases node with
  | read path =>
      refine (onStore lawful (Evaluator.Changes.followFrom scope none path).fails).bind ?_
      rintro value _ rfl
      split
      · exact pure trivial
      · exact emit lawful nested value
  | usePlaceholder key argument =>
      cases argument with
      | none => exact runPlaceholder lawful nested key none
      | some expression =>
          refine ((onStore lawful (Evaluator.Changes.evaluate scope expression).fails).bind
            fun value other same => pure (congrArg some same)).bind ?_
          rintro value _ rfl
          exact runPlaceholder lawful nested key value
  | embed block =>
      exact fun before before' related => nested _ block before before' related
        (admits.runs before before' related block (List.mem_singleton_self block))
  | _ => cases nests

section

variable (blocks : ∀ id before before', pairing.related before before' →
  pairing.runs before id →
  EndAlike pairing (runBlock id) (runBlock' id) (fun _ _ => True) before before')

include blocks

/-- Any other node is in lockstep with itself if the blocks on its own level are. -/
theorem node_of_not_nests (enough : Enough pairing fuel fuel') (scope : ScopeRef) {node : Node}
    (admits : pairing.Admits node) (nests : node.nests = false) :
    Lockstep pairing (Run.node environment runBlock fuel scope node)
      (Run.node environment runBlock' fuel' scope node) fun _ _ => True := by
  have inside (id : BlockRef) (member : id ∈ node.blocks) :
      Lockstep pairing (runBlock id) (runBlock' id) fun _ _ => True :=
    fun before before' related => blocks id before before' related
      (admits.runs before before' related id member)
  cases node with
  | text content => exact write lawful content
  | declare name value constant =>
      refine (onStore lawful (Evaluator.Changes.evaluate scope value).fails).bind ?_
      rintro value _ rfl
      exact declare lawful scope name value
  | assign name value =>
      refine (onStore lawful (Evaluator.Changes.evaluate scope value).fails).bind ?_
      rintro value _ rfl
      exact assign lawful scope name value
  | loop header body =>
      exact loop lawful (inside body (List.mem_singleton_self body)) scope header enough
  | leave target =>
      exact update fun before before' related => lawful.mark before before' related _ _
  | branches conditions otherwise => exact branches lawful scope otherwise conditions inside
  | definePlaceholder key parameter body => exact update (admits.defines key parameter body rfl)
  | malformed error => exact stop (admits.fails error rfl)
  | _ => cases nests

theorem node
    (nested : ∀ what id before before', pairing.related before before' →
      pairing.runs before id → EndAlike pairing (Run.nested runBlock what id)
        (Run.nested runBlock' what id) (fun _ _ => True) before before')
    (enough : Enough pairing fuel fuel') (scope : ScopeRef) {node : Node}
    (admits : pairing.Admits node) :
    Lockstep pairing (Run.node environment runBlock fuel scope node)
      (Run.node environment runBlock' fuel' scope node) fun _ _ => True := by
  cases nests : node.nests with
  | true => exact node_of_nests lawful nested scope admits nests
  | false => exact node_of_not_nests lawful blocks enough scope admits nests

end

end

end Lockstep

end Run

end Stencil
