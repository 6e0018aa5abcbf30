import Mathlib.Logic.Relation
import Stencil.Proofs.Expression.Run
import Stencil.Proofs.Member

/-!
# What evaluation changes

Evaluating an expression adds lists and functions, changes the elements of mutable lists, and calls
functions of the host.  Nothing else becomes of the store, so whatever those four leave alone every
evaluation leaves alone.  An error of parsing comes out of an evaluation only if the host raises it.
-/

namespace Stencil

variable {η : Type} {host : Host η} {store before middle after : Store η}

/-- What one step of an evaluation does to a store. -/
inductive Store.Change (host : Host η) (store : Store η) : Store η → Prop where
  | newList (isMutable : Bool) (items : List Value) :
      Change host store { store with heap := (store.heap.newList isMutable items).2 }
  | newFunction (callable : Callable) :
      Change host store { store with heap := (store.heap.newFunction callable).2 }
  | changeList (index : Nat) (change : List Value → List Value) :
      Change host store { store with heap := store.heap.modifyItems index change }
  | call (code : Nat) (receiver : Option Value) (arguments : List Value) :
      Change host store (host.call code receiver arguments store).2

/-- Any number of changes. -/
def Store.Changes (host : Host η) : Store η → Store η → Prop :=
  Relation.ReflTransGen (Store.Change host)

theorem Store.Changes.refl : Store.Changes host store store := Relation.ReflTransGen.refl

theorem Store.Changes.trans (first : Store.Changes host before middle)
    (second : Store.Changes host middle after) : Store.Changes host before after :=
  Relation.ReflTransGen.trans first second

theorem Store.Changes.single (change : Store.Change host before after) :
    Store.Changes host before after :=
  Relation.ReflTransGen.single change

/-- A function of the host fails with an error. -/
def Host.Raises (host : Host η) (error : TemplateError) : Prop :=
  ∃ code receiver arguments store, (host.call code receiver arguments store).1 = .error error

/-- A computation only changes stores as evaluation does, and fails as evaluation does. -/
structure Evaluator.Changes {α : Type} (host : Host η) (evaluator : Evaluator η α) : Prop where
  store : ∀ store, Store.Changes host store (evaluator.run.run store).2
  fails : ∀ store error, (evaluator.run.run store).1 = .error error →
    error.OtherThanParse ∨ host.Raises error

namespace Evaluator.Changes

variable {α β : Type}

theorem pure (answer : α) : Changes host (Pure.pure answer : Evaluator η α) :=
  ⟨fun _ => .refl, fun _ _ same => nomatch same⟩

theorem throw {error : TemplateError} (other : error.OtherThanParse) :
    Changes host (MonadExcept.throw error : Evaluator η α) :=
  ⟨fun _ => .refl, fun _ _ same => .inl (Except.error.inj same ▸ other)⟩

theorem lift {outcome : Except TemplateError α} (never : NeverParses outcome) :
    Changes host (liftM outcome : Evaluator η α) := by
  cases outcome with
  | ok answer => exact pure answer
  | error error => exact throw (never error rfl)

theorem bind {first : Evaluator η α} {next : α → Evaluator η β} (here : Changes host first)
    (later : ∀ answer, Changes host (next answer)) : Changes host (first >>= next) := by
  have split (store : Store η) : (first >>= next).run.run store =
      (ExceptT.bindCont next (first.run.run store).1).run (first.run.run store).2 := rfl
  refine ⟨fun store => ?_, fun store error failed => ?_⟩
  · rw [split]
    cases outcome : (first.run.run store).1 with
    | error error => exact here.store store
    | ok answer => exact (here.store store).trans ((later answer).store _)
  · rw [split] at failed
    cases outcome : (first.run.run store).1 with
    | error other =>
        rw [outcome] at failed
        obtain rfl : other = error := Except.error.inj failed
        exact here.fails store other outcome
    | ok answer =>
        rw [outcome] at failed
        exact (later answer).fails _ error failed

theorem heap_bind {next : Heap → Evaluator η β} (later : ∀ heap, Changes host (next heap)) :
    Changes host (Evaluator.heap >>= next) :=
  ⟨fun store => (later store.heap).store store, fun store => (later store.heap).fails store⟩

theorem readName (scope : ScopeRef) (receiver : Option Value) (name : String) :
    Changes host (readName scope receiver name : Evaluator η Value) := by
  unfold Stencil.readName
  refine heap_bind fun heap => ?_
  cases heap.find? scope receiver name with
  | none => exact throw (undefinedIn_otherThanParse receiver name)
  | some binding =>
      cases binding with
      | entry value => exact ⟨fun store => .refl, fun _ _ same => nomatch same⟩
      | member receiver method =>
          exact ⟨fun store => .single (.newFunction _), fun _ _ same => nomatch same⟩

theorem callTarget (scope : ScopeRef) (receiver : Option Value) (name : String) (indexed : Bool) :
    Changes host (callTarget scope receiver name indexed : Evaluator η Callable) := by
  unfold Stencil.callTarget
  refine heap_bind fun heap => ?_
  split
  · exact pure _
  · exact throw nofun
  · exact pure _
  · split
    · exact throw nofun
    · exact throw (undefinedIn_otherThanParse receiver name)

end Evaluator.Changes

namespace Heap

/-- A heap may differ from another in the elements of one mutable list. -/
def ChangesList (before after : Heap) : Prop :=
  after = before ∨ ∃ index change, after = before.modifyItems index change

variable {heap changed : Heap} {list : ListRef} {value : Value}

theorem changesList_push (added : heap.push list value = .ok changed) :
    heap.ChangesList changed := by
  unfold push at added
  split at added
  · cases added
    exact .inr ⟨_, _, rfl⟩
  · cases added

theorem changesList_removeItem {found : Bool}
    (removed : heap.removeItem list value = .ok (found, changed)) : heap.ChangesList changed := by
  cases found with
  | true =>
      obtain ⟨-, place, -, same⟩ := of_removeItem_true removed
      exact .inr ⟨_, _, same⟩
  | false =>
      obtain ⟨-, -, same⟩ := of_removeItem_false removed
      exact .inl same

end Heap

/-- A member changes the elements of one mutable list or nothing. -/
theorem Member.changesList_invoke {method : Member} {receiver value : Value}
    {arguments : List Value} {heap changed : Heap}
    (ran : method.invoke receiver arguments heap = .ok (value, changed)) :
    heap.ChangesList changed := by
  have unchanged (ran : (do return (← method.answer receiver arguments heap, heap)) =
      (.ok (value, changed) : Except TemplateError (Value × Heap))) : heap.ChangesList changed := by
    obtain ⟨answer, -, same⟩ := ok_of_bind ran
    cases same
    exact .inl rfl
  cases method with
  | add =>
      obtain ⟨argument, -, ran⟩ := ok_of_bind ran
      obtain ⟨list, -, ran⟩ := ok_of_bind ran
      obtain ⟨after, added, same⟩ := ok_of_bind ran
      cases same
      exact Heap.changesList_push added
  | remove =>
      obtain ⟨argument, -, ran⟩ := ok_of_bind ran
      obtain ⟨list, -, ran⟩ := ok_of_bind ran
      obtain ⟨⟨found, after⟩, removed, same⟩ := ok_of_bind ran
      cases same
      exact Heap.changesList_removeItem removed
  | _ => exact unchanged ran

theorem Store.Changes.of_changesList {heap : Heap} (changes : store.heap.ChangesList heap) :
    Store.Changes host store { store with heap } := by
  rcases changes with rfl | ⟨index, change, rfl⟩
  · exact .refl
  · exact .single (.changeList index change)

namespace Evaluator.Changes

theorem invoke (callable : Callable) (receiver : Option Value) (arguments : List Value) :
    Changes host (callable.invoke host receiver arguments) := by
  cases callable with
  | host function =>
      refine (lift (.accepts function arguments.length)).bind fun _ => ?_
      exact ⟨fun store => .single (.call function.code receiver arguments),
        fun store error failed =>
        .inr ⟨function.code, receiver, arguments, store, failed⟩⟩
  | member owner method =>
      refine ⟨fun store => ?_, fun store error failed => ?_⟩
      · rw [Callable.run_invoke_member]
        cases ran : method.invoke owner arguments store.heap with
        | error error => exact .refl
        | ok found => exact .of_changesList (Member.changesList_invoke ran)
      · rw [Callable.run_invoke_member] at failed
        have never := (Member.gives_invoke method owner arguments store.heap).neverParses
        cases ran : method.invoke owner arguments store.heap with
        | error other =>
            rw [ran] at failed
            exact .inl (never error (ran.trans (congrArg Except.error (Except.error.inj failed))))
        | ok found =>
            rw [ran] at failed
            cases failed

mutual

theorem evaluate (scope : ScopeRef) : (expression : Expression) →
    Changes host (expression.evaluate host scope)
  | .literal value => by
      unfold Expression.evaluate
      exact pure _
  | .reference path => by
      unfold Expression.evaluate
      exact followFrom scope none path
  | .list isMutable items => by
      unfold Expression.evaluate
      exact (evaluateAll scope items).bind fun values =>
        ⟨fun store => .single (.newList isMutable values), fun _ _ same => nomatch same⟩
  | .binary left operator right => by
      unfold Expression.evaluate
      refine (evaluate scope left).bind fun _ => (lift (.operand _ _)).bind fun _ => ?_
      refine (evaluate scope right).bind fun _ => (lift (.operand _ _)).bind fun _ => ?_
      exact (lift (.compute _ _ _)).bind fun _ => pure _

theorem evaluateAll (scope : ScopeRef) : (expressions : List Expression) →
    Changes host (evaluateAll host scope expressions)
  | [] => by
      unfold Stencil.evaluateAll
      exact pure _
  | expression :: expressions => by
      unfold Stencil.evaluateAll
      exact (evaluate scope expression).bind fun _ => (evaluateAll scope expressions).bind
        fun _ => pure _

theorem followFrom (scope : ScopeRef) (reached : Option Value) : (path : List Segment) →
    Changes host (followFrom host scope reached path)
  | [] => by
      unfold Stencil.followFrom
      cases reached with
      | none => exact throw nofun
      | some value => exact pure _
  | segment :: path => by
      unfold Stencil.followFrom
      exact (follow scope reached segment).bind fun value => followFrom scope (some value) path

theorem follow (scope : ScopeRef) (reached : Option Value) : (segment : Segment) →
    Changes host (segment.follow host scope reached)
  | .property name => by
      unfold Segment.follow
      exact readName scope reached name
  | .call name arguments silent indexed => by
      unfold Segment.follow
      exact (callTarget scope reached name indexed).bind fun target =>
        (evaluateAll scope arguments).bind fun values => invoke target reached values

end

theorem condition (scope : ScopeRef) (condition : Condition) :
    Changes host (condition.evaluate host scope) := by
  unfold Condition.evaluate
  cases condition with
  | compare left comparison right =>
      exact (evaluate scope left).bind fun _ => (evaluate scope right).bind fun _ =>
        heap_bind fun _ => lift (.compareValues _ _ _ _)
  | value expression =>
      refine (evaluate scope expression).bind fun value => ?_
      cases value.boolean? with
      | some truth => exact pure _
      | none => exact throw nofun

end Evaluator.Changes

end Stencil
