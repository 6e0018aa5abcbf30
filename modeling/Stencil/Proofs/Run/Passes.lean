import Stencil.Proofs.Heap.Revised
import Stencil.Proofs.Run.Does

/-!
# Where the passes of a loop start

A loop runs its body in sessions only where its scope holds the names that the loop itself binds:
any other way to run the body that does the same there makes the same loop.
-/

namespace Stencil

variable {η : Type}

/-- The names that a loop itself binds in its scope. -/
def LoopHeader.names : LoopHeader → List String
  | .conditional _ => []
  | .numbered name _ _ _ _ _ => [name]
  | .iterable element index _ => element :: index.toList

/-- A scope has no other names than certain ones, and all of these. -/
def Heap.HoldsOnly (heap : Heap) (scope : ScopeRef) (names : List String) : Prop :=
  ∀ name, name ∈ (heap.entries scope).keys ↔ name ∈ names

namespace Heap

variable {heap before after : Heap} {scope : ScopeRef} {names : List String} {name : String}
  {value : Value}

theorem holdsOnly_clear (present : scope.index < heap.scopes.size) :
    (heap.clear scope).HoldsOnly scope [] := by
  intro name
  rw [entries_clear scope present]
  exact Iff.rfl

theorem HoldsOnly.put (only : heap.HoldsOnly scope names)
    (present : scope.index < heap.scopes.size) :
    (heap.put scope name value).HoldsOnly scope (names ++ [name]) := by
  intro other
  rw [entries_put_self present, List.mem_append, List.mem_singleton, ← only other]
  cases known : (heap.entries scope).contains name with
  | true =>
      rw [Dictionary.keys_put_of_contains known]
      have isKey := Dictionary.contains_eq_true_iff.mp known
      exact ⟨.inl, fun either => either.elim id fun same => same ▸ isKey⟩
  | false => rw [Dictionary.keys_put_of_not_contains known, List.mem_append, List.mem_singleton]

theorem HoldsOnly.of_entries (only : before.HoldsOnly scope names)
    (same : after.entries scope = before.entries scope) : after.HoldsOnly scope names := by
  intro name
  rw [same]
  exact only name

end Heap

namespace Run

/-- Two runs are the same if their first pieces are and, where those end, the rest is. -/
theorem bind_eq {α β : Type} {first first' : Run η α} {next next' : α → Run η β}
    {session : Session η} (same : first'.run.run session = first.run.run session)
    (later : ∀ answer middle, first.run.run session = (.ok answer, middle) →
      (next' answer).run.run middle = (next answer).run.run middle) :
    (first' >>= next').run.run session = (first >>= next).run.run session := by
  have split (run : Run η α) (next : α → Run η β) : (run >>= next).run.run session =
      (ExceptT.bindCont next (run.run.run session).1).run (run.run.run session).2 := rfl
  rw [split, split, same]
  cases outcome : (first.run.run session).1 with
  | error stop => rfl
  | ok answer => exact later answer _ (Prod.ext outcome rfl)

/-- What happens in a session in which a pass of a loop is about to start. -/
structure Starts (environment : Environment η) (rules : Run.Rules η) (scope : ScopeRef)
    (body : BlockRef) (names : List String) (start : Session η) : Prop where
  holds : rules.holds start
  owns : rules.Owns start scope body
  only : start.store.heap.HoldsOnly scope names

variable {environment : Environment η} {rules : Run.Rules η} {scope outer : ScopeRef}
  {body : BlockRef} {names : List String} {session start middle : Session η}
  {runBlock runBlock' : BlockRef → Run η Unit} {fuel : Nat}

theorem Does.deeds {α : Type} {run : Run η α} {answers : α → Session η → Prop} {answer : α}
    (does : Run.Does environment rules session run answers) (begun : rules.holds session)
    (ran : run.run.run session = (.ok answer, middle)) :
    session.Deeds environment rules middle := by
  obtain ⟨deeds, -⟩ := does begun (.inr ⟨answer, congrArg Prod.fst ran⟩)
  rw [ran] at deeds
  exact deeds

theorem Rules.Owns.present (owns : rules.Owns session scope body)
    (lawful : rules.Lawful environment) (begun : rules.holds session) :
    scope.index < session.store.heap.scopes.size := by
  have inRange := (lawful.nested session begun).inRange body (lawful.lt begun owns.comes)
  rw [owns.isScope] at inRange
  exact inRange

namespace Starts

variable (lawful : rules.Lawful environment)
    (starts : Starts environment rules scope body names start)

include lawful starts

theorem onStore (spares : environment.host.Spares scope) {α : Type} {evaluator : Evaluator η α}
    {answer : α} (changes : evaluator.Changes environment.host)
    (ran : (Run.onStore evaluator).run.run start = (.ok answer, middle)) :
    Starts environment rules scope body names middle := by
  have deeds := Does.deeds (.onStore changes) starts.holds ran
  refine ⟨deeds.holds lawful starts.holds, starts.owns.mono lawful deeds starts.holds, ?_⟩
  have isMiddle : _ = middle := congrArg Prod.snd ran
  subst isMiddle
  exact starts.only.of_entries ((changes.store start.store).entries lawful.keeps spares
    (starts.owns.present lawful starts.holds))

theorem bindName (name : String) (value : Value) :
    Starts environment rules scope body (names ++ [name])
      (start.modifyHeap (·.put scope name value)) := by
  have deeds : start.Deeds environment rules (start.modifyHeap (·.put scope name value)) :=
    Does.deeds (.bindName starts.owns name value) starts.holds rfl
  refine ⟨deeds.holds lawful starts.holds, starts.owns.mono lawful deeds starts.holds, ?_⟩
  exact starts.only.put (starts.owns.present lawful starts.holds)

end Starts

section

variable (lawful : rules.Lawful environment) (begun : rules.holds session)
  (owns : rules.Owns session scope body)

include lawful begun owns

/-- A pass begins with an empty scope. -/
theorem starts_beginPass {left : Bool}
    (ran : (Run.beginPass scope body).run.run session = (.ok left, middle)) :
    Starts environment rules scope body [] middle := by
  have deeds := Does.deeds (.beginPass lawful owns) begun ran
  refine ⟨deeds.holds lawful begun, owns.mono lawful deeds begun, ?_⟩
  have isMiddle : _ = middle := congrArg Prod.snd ran
  subst isMiddle
  exact Heap.holdsOnly_clear (owns.present lawful begun)

end

section

variable (lawful : rules.Lawful environment) (spares : environment.host.Spares scope)
  (performs : Run.Performs environment rules runBlock)
  (same : ∀ start : Session η, start.store.heap.HoldsOnly scope names →
    (runBlock' body).run.run start = (runBlock body).run.run start)

include lawful performs same

theorem Starts.pass_eq (starts : Starts environment rules scope body names start)
    {next next' : Run η Unit}
    (later : ∀ passed, rules.holds passed → rules.Owns passed scope body →
      next'.run.run passed = next.run.run passed) :
    (do runBlock' body; next').run.run start = (do runBlock body; next).run.run start := by
  refine bind_eq (same start starts.only) fun _ passed ran => ?_
  have deeds := (performs.does start body starts.owns.comes).deeds starts.holds ran
  exact later passed (deeds.holds lawful starts.holds) (starts.owns.mono lawful deeds starts.holds)

include spares

theorem conditionalLoop_eq (noNames : names = []) (begun : rules.holds session)
    (owns : rules.Owns session scope body) (condition : Condition) :
    (Run.conditionalLoop environment runBlock' scope body condition fuel).run.run session =
      (Run.conditionalLoop environment runBlock scope body condition fuel).run.run session := by
  subst noNames
  induction fuel generalizing session with
  | zero => rw [Run.conditionalLoop, Run.conditionalLoop]
  | succ fuel induction =>
      unfold Run.conditionalLoop
      refine bind_eq rfl fun left pass ran => ?_
      have starts := starts_beginPass lawful begun owns ran
      cases left with
      | true => rw [if_pos rfl, if_pos rfl]
      | false =>
          refine bind_eq rfl fun isTrue asked ranAsked => ?_
          have startsAsked := starts.onStore lawful spares (.condition scope condition) ranAsked
          cases isTrue with
          | false => rw [if_neg Bool.false_ne_true, if_neg Bool.false_ne_true]
          | true => exact startsAsked.pass_eq lawful performs same fun passed => induction

theorem numberedLoop_eq {name : String} (isName : names = [name]) (begun : rules.holds session)
    (owns : rules.Owns session scope body) (comparison : Comparison) (bound : Int32)
    (operator : Operator) (step counter : Int32) :
    (Run.numberedLoop runBlock' scope body name comparison bound operator step fuel
        counter).run.run session =
      (Run.numberedLoop runBlock scope body name comparison bound operator step fuel
        counter).run.run session := by
  subst isName
  induction fuel generalizing session counter with
  | zero => rw [Run.numberedLoop, Run.numberedLoop]
  | succ fuel induction =>
      unfold Run.numberedLoop
      refine bind_eq rfl fun left pass ran => ?_
      have starts := starts_beginPass lawful begun owns ran
      cases left with
      | true => rw [if_pos rfl, if_pos rfl]
      | false =>
          refine bind_eq rfl fun isTrue asked ranAsked => ?_
          have startsAsked := starts.onStore lawful spares (.lift (.compares _ _ _)) ranAsked
          cases isTrue with
          | false => rw [if_neg Bool.false_ne_true, if_neg Bool.false_ne_true]
          | true =>
              have startsNamed := startsAsked.bindName lawful name (.int counter)
              refine startsNamed.pass_eq lawful performs same fun passed holds ownsPassed => ?_
              refine bind_eq rfl fun next later ranLater => ?_
              have deeds : passed.Deeds environment rules later :=
                Does.deeds (.onStore (.lift (.nextCounter _ _ _ _))) holds ranLater
              exact induction (deeds.holds lawful holds) (ownsPassed.mono lawful deeds holds) next

omit spares in
theorem iterableLoop_eq {element : String} {index : Option String}
    (areNames : names = element :: index.toList) (begun : rules.holds session)
    (owns : rules.Owns session scope body) (list : ListRef) (places : List Nat) :
    (Run.iterableLoop runBlock' scope body element index list places).run.run session =
      (Run.iterableLoop runBlock scope body element index list places).run.run session := by
  subst areNames
  induction places generalizing session with
  | nil => rw [Run.iterableLoop, Run.iterableLoop]
  | cons place places induction =>
      unfold Run.iterableLoop
      refine bind_eq rfl fun left pass ran => ?_
      have starts := starts_beginPass lawful begun owns ran
      cases left with
      | true => rw [if_pos rfl, if_pos rfl]
      | false =>
          refine bind_eq rfl fun current _ ranGet => ?_
          cases ranGet
          dsimp only
          cases (pass.store.heap.items list)[place]? with
          | none => rfl
          | some item =>
              refine bind_eq rfl fun _ named ranName => ?_
              cases ranName
              have startsNamed := starts.bindName lawful element item
              cases index with
              | none => exact startsNamed.pass_eq lawful performs same fun passed => induction
              | some name =>
                  refine bind_eq rfl fun _ both ranBoth => ?_
                  cases ranBoth
                  have startsBoth := startsNamed.bindName lawful name (.int (Int32.ofNat place))
                  exact startsBoth.pass_eq lawful performs same fun passed => induction

/-- A loop is the same whatever would become of its body where its scope held other names. -/
theorem loop_eq {header : LoopHeader} (areNames : names = header.names)
    (begun : rules.holds session) (owns : rules.Owns session scope body) :
    (Run.loop environment runBlock' fuel outer header body).run.run session =
      (Run.loop environment runBlock fuel outer header body).run.run session := by
  subst areNames
  have passesEq (begun : Session η) (holds : rules.holds begun)
      (owns : rules.Owns begun scope body) :
      (Run.passes environment runBlock' fuel outer body header).run.run begun =
        (Run.passes environment runBlock fuel outer body header).run.run begun := by
    unfold Run.passes
    refine bind_eq rfl fun current _ ran => ?_
    cases ran
    dsimp only
    rw [owns.isScope]
    cases header with
    | conditional condition =>
        exact conditionalLoop_eq lawful spares performs same rfl holds owns condition
    | numbered name start comparison bound operator step =>
        refine bind_eq rfl fun counter started ranStart => ?_
        refine bind_eq rfl fun limit bounded ranBound => ?_
        refine bind_eq rfl fun increment stepped ranStep => ?_
        have first := Does.deeds (.loopNumber lawful outer _ start) holds ranStart
        have holdsFirst := first.holds lawful holds
        have second := Does.deeds (.loopNumber lawful outer _ bound) holdsFirst ranBound
        have holdsSecond := second.holds lawful holdsFirst
        have third := Does.deeds (.loopNumber lawful outer _ step) holdsSecond ranStep
        have deeds := (first.trans second).trans third
        exact numberedLoop_eq lawful spares performs same rfl (deeds.holds lawful holds)
          (owns.mono lawful deeds holds) _ _ _ _ _
    | iterable element index iterable =>
        refine bind_eq rfl fun value asked ranValue => ?_
        have deeds : begun.Deeds environment rules asked :=
          Does.deeds (.onStore (.evaluate outer iterable)) holds ranValue
        cases value with
        | list list =>
            exact iterableLoop_eq lawful performs same rfl (deeds.holds lawful holds)
              (owns.mono lawful deeds holds) _ _
        | primitive value => rfl
        | object object => rfl
        | function function => rfl
  unfold Run.loop
  refine bind_eq rfl fun _ unmarked ranMark => bind_eq rfl fun current _ ran => ?_
  have deeds : session.Deeds environment rules unmarked :=
    Does.deeds (.update (.mark body false)) begun ranMark
  cases ran
  have ended := passesEq unmarked (deeds.holds lawful begun) (owns.mono lawful deeds begun)
  have split (runBlock : BlockRef → Run η Unit) :
      (Run.andFinally (Run.passes environment runBlock fuel outer body header) fun session =>
        session.modifyHeap (·.clear (unmarked.block body).scope)).run.run unmarked =
      (((Run.passes environment runBlock fuel outer body header).run.run unmarked).1,
        ((Run.passes environment runBlock fuel outer body header).run.run unmarked).2.modifyHeap
          (·.clear (unmarked.block body).scope)) := rfl
  rw [split, split, ended]

end

end Run

end Stencil
