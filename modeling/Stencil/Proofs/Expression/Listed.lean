import Stencil.Proofs.Expression.Changes
import Stencil.Proofs.Member.Table

/-!
# Calls of listed members

A path comes to a member only through the table, so every member that it calls is one that the table
lists for the receiver.  That goes for members that were taken as values before, too: function
values are made of nothing else.
-/

namespace Stencil

open TemplateError (Ordinary)

variable {η : Type}

/-- A callable is a function of the host, or a member that the table lists for its receiver. -/
def Callable.Listed : Callable → Prop
  | .host _ => True
  | .member receiver method => receiver.kind ∈ method.kinds

/-- Every function value runs a function of the host or a member that the table lists. -/
def Heap.Tabled (heap : Heap) : Prop :=
  ∀ function, (heap.callable function).Listed

/-- A call of a function of the host makes function values only of functions of the host and of
members that the table lists: a host can take a member as a value in no other way than a
template. -/
def Host.KeepsTable (host : Host η) : Prop :=
  ∀ (code : Nat) (receiver : Option Value) (arguments : List Value) (store : Store η),
    store.heap.Tabled → (host.call code receiver arguments store).2.heap.Tabled

theorem Host.keepsTable_none : Host.none.KeepsTable :=
  fun _ _ _ _ tabled => tabled

namespace Heap

variable {heap after : Heap} {scope : ScopeRef} {receiver : Option Value} {owner value : Value}
  {name : String} {indexed : Bool} {method : Member} {callable : Callable}

theorem tabled_ofGlobal (name : String) : (ofGlobal name).Tabled := by
  intro function
  rw [Heap.callable, ofGlobal, Array.getD_eq_getD_getElem?]
  trivial

theorem Tabled.of_functions (tabled : heap.Tabled) (same : after.functions = heap.functions) :
    after.Tabled := by
  intro function
  rw [Heap.callable, same]
  exact tabled function

theorem Tabled.newFunction (tabled : heap.Tabled) (listed : callable.Listed) :
    (heap.newFunction callable).2.Tabled := by
  intro function
  rw [Heap.callable, Array.getD_eq_getD_getElem?]
  simp only [Heap.newFunction, Array.getElem?_push]
  split
  · exact listed
  · have earlier := tabled function
    rwa [Heap.callable, Array.getD_eq_getD_getElem?] at earlier

theorem ChangesList.functions (changes : heap.ChangesList after) :
    after.functions = heap.functions := by
  rcases changes with rfl | ⟨index, change, rfl⟩
  · rfl
  · rfl

/-- Own entries of an object come before its members, and those are in the table. -/
theorem of_memberOf?_member (found : heap.memberOf? value name = some (.member owner method)) :
    method.name = name ∧ owner.kind ∈ method.kinds ∧
      ∀ object, owner = .object object → heap.get? object name = none := by
  have isMember {kind : Kind}
      (named : (Member.lookup? kind name).map (Binding.member value) =
        some (.member owner method)) :
      owner = value ∧ Member.lookup? kind name = some method := by
    obtain ⟨_, isListed, ⟨⟩⟩ := Option.map_eq_some_iff.mp named
    exact ⟨rfl, isListed⟩
  unfold memberOf? at found
  cases value with
  | object object =>
      dsimp only at found
      cases own : heap.get? object name with
      | none =>
          rw [own] at found
          obtain ⟨rfl, isListed⟩ := isMember found
          obtain ⟨isName, listed⟩ := Member.lookup?_eq_some_iff.mp isListed
          refine ⟨isName, listed, ?_⟩
          rintro _ ⟨⟩
          exact own
      | some entry =>
          rw [own] at found
          cases found
  | primitive | list | function =>
      obtain ⟨rfl, isListed⟩ := isMember found
      obtain ⟨isName, listed⟩ := Member.lookup?_eq_some_iff.mp isListed
      exact ⟨isName, listed, nofun⟩

theorem of_find?_member (found : heap.find? scope receiver name = some (.member owner method)) :
    method.name = name ∧ owner.kind ∈ method.kinds ∧
      ∀ object, owner = .object object → heap.get? object name = none := by
  cases receiver with
  | none =>
      obtain ⟨around, -, isFound⟩ := List.exists_of_findSome?_eq_some found
      exact of_memberOf?_member isFound
  | some value => exact of_memberOf?_member found

theorem ordinary_of_target {error : TemplateError}
    (failed : heap.target scope receiver name indexed = .error error) : error.Ordinary := by
  unfold Heap.target at failed
  split at failed
  · cases failed
  · cases failed
    exact ⟨nofun, nofun⟩
  · cases failed
  · split at failed
    · cases failed
      exact ⟨nofun, nofun⟩
    · cases failed
      exact ordinary_undefinedIn receiver name

theorem Tabled.target (tabled : heap.Tabled)
    (found : heap.target scope receiver name indexed = .ok callable) : callable.Listed := by
  unfold Heap.target at found
  split at found
  · cases found
    exact tabled _
  · cases found
  · rename_i isMember
    cases found
    exact (of_find?_member isMember).2.1
  · split at found
    · cases found
    · cases found

end Heap

variable {host : Host η} {store : Store η} {α β : Type}

/-- A listed member never complains that it is not defined. -/
theorem Callable.ordinary_of_listed {receiver : Value} {method : Member} {reached : Option Value}
    {arguments : List Value} {error : TemplateError} (listed : receiver.kind ∈ method.kinds)
    (failed : (((Callable.member receiver method).invoke host reached arguments).run.run store).1 =
      .error error) : error.Ordinary := by
  have fails := (method.checks_invoke receiver arguments store.heap).ordinary listed
  rw [run_invoke_member] at failed
  cases ran : method.invoke receiver arguments store.heap with
  | error other =>
      rw [ran] at failed
      obtain rfl : other = error := Except.error.inj failed
      exact fails other ran
  | ok answer =>
      rw [ran] at failed
      cases failed

/-- A computation answers what it should, or fails.  It complains of a member that is not defined
only if a function of the host does. -/
def Host.Ends (host : Host η) (answers : α → Prop) : Except TemplateError α → Prop
  | .ok answer => answers answer
  | .error error => error.Ordinary ∨ host.Raises error

/-- A computation on a store makes function values as the table asks, and ends as it should. -/
def Evaluator.KeepsTable (host : Host η) (evaluator : Evaluator η α) (answers : α → Prop) : Prop :=
  ∀ store, store.heap.Tabled →
    (evaluator.run.run store).2.heap.Tabled ∧ host.Ends answers (evaluator.run.run store).1

namespace Evaluator.KeepsTable

variable {answers : α → Prop} {later : β → Prop}

theorem pure {answer : α} (right : answers answer) :
    KeepsTable host (Pure.pure answer : Evaluator η α) answers :=
  fun _ tabled => ⟨tabled, right⟩

theorem throw {error : TemplateError} (ordinary : error.Ordinary) :
    KeepsTable host (MonadExcept.throw error : Evaluator η α) answers :=
  fun _ tabled => ⟨tabled, .inl ordinary⟩

theorem lift {outcome : Except TemplateError α} (fails : FailsOnly Ordinary outcome) :
    KeepsTable host (liftM outcome : Evaluator η α) fun _ => True := by
  cases outcome with
  | ok answer => exact pure trivial
  | error error => exact throw (fails error rfl)

theorem bind {first : Evaluator η α} {next : α → Evaluator η β}
    (here : KeepsTable host first answers)
    (continues : ∀ answer, answers answer → KeepsTable host (next answer) later) :
    KeepsTable host (first >>= next) later := by
  intro store tabled
  have split : (first >>= next).run.run store =
      (ExceptT.bindCont next (first.run.run store).1).run (first.run.run store).2 := rfl
  obtain ⟨kept, ends⟩ := here store tabled
  rw [split]
  cases outcome : (first.run.run store).1 with
  | error error =>
      rw [outcome] at ends
      exact ⟨kept, ends⟩
  | ok answer =>
      rw [outcome] at ends
      exact continues answer ends _ kept

theorem onHeap {change : Heap → α × Heap}
    (tables : ∀ heap : Heap, heap.Tabled → (change heap).2.Tabled) :
    KeepsTable host (Evaluator.onHeap change : Evaluator η α) fun _ => True :=
  fun store tabled => ⟨tables store.heap tabled, trivial⟩

theorem readName (scope : ScopeRef) (receiver : Option Value) (name : String) :
    KeepsTable host (readName scope receiver name : Evaluator η Value) fun _ => True := by
  intro store tabled
  cases found : store.heap.find? scope receiver name with
  | none =>
      rw [run_readName_of_absent found]
      exact ⟨tabled, .inl (ordinary_undefinedIn receiver name)⟩
  | some binding =>
      rw [run_readName_of_found found]
      cases binding with
      | entry value => exact ⟨tabled, trivial⟩
      | member owner method =>
          exact ⟨tabled.newFunction (Heap.of_find?_member found).2.1, trivial⟩

theorem callTarget (scope : ScopeRef) (receiver : Option Value) (name : String) (indexed : Bool) :
    KeepsTable host (callTarget scope receiver name indexed : Evaluator η Callable)
      Callable.Listed := by
  intro store tabled
  rw [run_callTarget]
  refine ⟨tabled, ?_⟩
  cases found : store.heap.target scope receiver name indexed with
  | ok target => exact tabled.target found
  | error error => exact .inl (Heap.ordinary_of_target found)

theorem member {receiver : Value} {method : Member} (listed : receiver.kind ∈ method.kinds)
    (reached : Option Value) (arguments : List Value) :
    KeepsTable host ((Callable.member receiver method).invoke host reached arguments)
      fun _ => True := by
  intro store tabled
  constructor
  · rw [Callable.run_invoke_member]
    cases ran : method.invoke receiver arguments store.heap with
    | error error => exact tabled
    | ok answer => exact tabled.of_functions (Member.changesList_invoke ran).functions
  · cases outcome : (((Callable.member receiver method).invoke host reached arguments).run.run
        store).1 with
    | error error => exact .inl (Callable.ordinary_of_listed listed outcome)
    | ok value => trivial

theorem call (keeps : host.KeepsTable) (code : Nat) (receiver : Option Value)
    (arguments : List Value) :
    KeepsTable host (ExceptT.mk (host.call code receiver arguments)) fun _ => True := by
  intro store tabled
  refine ⟨keeps code receiver arguments store tabled, ?_⟩
  cases ran : (host.call code receiver arguments store).1 with
  | ok value => exact ran ▸ trivial
  | error error => exact ran ▸ .inr ⟨code, receiver, arguments, store, ran⟩

theorem invoke (keeps : host.KeepsTable) {callable : Callable} (listed : callable.Listed)
    (receiver : Option Value) (arguments : List Value) :
    KeepsTable host (callable.invoke host receiver arguments) fun _ => True := by
  cases callable with
  | host function =>
      exact (lift (.accepts function arguments.length)).bind fun _ _ =>
        call keeps function.code receiver arguments
  | member owner method => exact member listed receiver arguments

mutual

theorem evaluate (keeps : host.KeepsTable) (scope : ScopeRef) : (expression : Expression) →
    KeepsTable host (expression.evaluate host scope) fun _ => True
  | .literal value => by
      unfold Expression.evaluate
      exact pure trivial
  | .reference path => by
      unfold Expression.evaluate
      exact followFrom keeps scope none path
  | .list isMutable items => by
      unfold Expression.evaluate
      refine (evaluateAll keeps scope items).bind fun values _ => ?_
      refine (onHeap fun heap tabled => ?_).bind fun _ _ => pure trivial
      cases isMutable <;> exact tabled.of_functions rfl
  | .binary left operator right => by
      unfold Expression.evaluate
      refine (evaluate keeps scope left).bind fun _ _ => (lift (.operand _ _)).bind fun _ _ => ?_
      refine (evaluate keeps scope right).bind fun _ _ => (lift (.operand _ _)).bind fun _ _ => ?_
      exact (lift (.compute _ _ _)).bind fun _ _ => pure trivial

theorem evaluateAll (keeps : host.KeepsTable) (scope : ScopeRef) : (expressions : List Expression) →
    KeepsTable host (evaluateAll host scope expressions) fun _ => True
  | [] => by
      unfold Stencil.evaluateAll
      exact pure trivial
  | expression :: expressions => by
      unfold Stencil.evaluateAll
      refine (evaluate keeps scope expression).bind fun _ _ => ?_
      exact (evaluateAll keeps scope expressions).bind fun _ _ => pure trivial

theorem followFrom (keeps : host.KeepsTable) (scope : ScopeRef) (reached : Option Value) :
    (path : List Segment) → KeepsTable host (followFrom host scope reached path) fun _ => True
  | [] => by
      unfold Stencil.followFrom
      cases reached with
      | none => exact throw ⟨nofun, nofun⟩
      | some value => exact pure trivial
  | segment :: path => by
      unfold Stencil.followFrom
      exact (follow keeps scope reached segment).bind fun value _ =>
        followFrom keeps scope (some value) path

theorem follow (keeps : host.KeepsTable) (scope : ScopeRef) (reached : Option Value) :
    (segment : Segment) → KeepsTable host (segment.follow host scope reached) fun _ => True
  | .property name => by
      unfold Segment.follow
      exact readName scope reached name
  | .call name arguments silent indexed => by
      unfold Segment.follow
      refine (callTarget scope reached name indexed).bind fun target listed => ?_
      exact (evaluateAll keeps scope arguments).bind fun values _ =>
        invoke keeps listed reached values

end

end Evaluator.KeepsTable

/-- A call: what is called, the value that it was reached through, the arguments, and the store that
the call begins with. -/
structure Call (η : Type) where
  callable : Callable
  receiver : Option Value
  arguments : List Value
  store : Store η

/-- What comes of a call. -/
def Call.run (host : Host η) (call : Call η) : Except TemplateError Value × Store η :=
  (call.callable.invoke host call.receiver call.arguments).run.run call.store

mutual

/-- The evaluation of an expression makes a call. -/
inductive Expression.Makes (host : Host η) (scope : ScopeRef) (call : Call η) :
    Expression → Store η → Prop where
  | path (path : List Segment) (store : Store η)
      (inside : Path.Makes host scope call none path store) :
      Expression.Makes host scope call (.reference path) store
  | items (isMutable : Bool) (items : List Expression) (store : Store η)
      (inside : Expression.SomeMakes host scope call items store) :
      Expression.Makes host scope call (.list isMutable items) store
  | left (left right : Expression) (operator : Operator) (store : Store η)
      (inside : Expression.Makes host scope call left store) :
      Expression.Makes host scope call (.binary left operator right) store
  | right (left right : Expression) (operator : Operator) (store after : Store η)
      (value : Primitive)
      (ran : (left.evaluate host scope).run.run store = (.ok (.primitive value), after))
      (inside : Expression.Makes host scope call right after) :
      Expression.Makes host scope call (.binary left operator right) store

/-- The evaluation of expressions one after the other makes a call. -/
inductive Expression.SomeMakes (host : Host η) (scope : ScopeRef) (call : Call η) :
    List Expression → Store η → Prop where
  | here (expression : Expression) (expressions : List Expression) (store : Store η)
      (inside : Expression.Makes host scope call expression store) :
      Expression.SomeMakes host scope call (expression :: expressions) store
  | later (expression : Expression) (expressions : List Expression) (store after : Store η)
      (value : Value) (ran : (expression.evaluate host scope).run.run store = (.ok value, after))
      (inside : Expression.SomeMakes host scope call expressions after) :
      Expression.SomeMakes host scope call (expression :: expressions) store

/-- Following a path from the value reached so far makes a call. -/
inductive Path.Makes (host : Host η) (scope : ScopeRef) (call : Call η) :
    Option Value → List Segment → Store η → Prop where
  | here (reached : Option Value) (segment : Segment) (path : List Segment) (store : Store η)
      (inside : Segment.Makes host scope call reached segment store) :
      Path.Makes host scope call reached (segment :: path) store
  | later (reached : Option Value) (segment : Segment) (path : List Segment)
      (store after : Store η) (value : Value)
      (ran : (segment.follow host scope reached).run.run store = (.ok value, after))
      (inside : Path.Makes host scope call (some value) path after) :
      Path.Makes host scope call reached (segment :: path) store

/-- A step of a path makes a call: one that its arguments make, or its own once they are
evaluated. -/
inductive Segment.Makes (host : Host η) (scope : ScopeRef) (call : Call η) :
    Option Value → Segment → Store η → Prop where
  | argument (reached : Option Value) (name : String) (arguments : List Expression)
      (silent indexed : Bool) (store : Store η) (target : Callable)
      (found : store.heap.target scope reached name indexed = .ok target)
      (inside : Expression.SomeMakes host scope call arguments store) :
      Segment.Makes host scope call reached (.call name arguments silent indexed) store
  | itself (reached : Option Value) (name : String) (arguments : List Expression)
      (silent indexed : Bool) (store after : Store η) (target : Callable) (values : List Value)
      (found : store.heap.target scope reached name indexed = .ok target)
      (ran : (evaluateAll host scope arguments).run.run store = (.ok values, after))
      (isCall : call = ⟨target, reached, values, after⟩) :
      Segment.Makes host scope call reached (.call name arguments silent indexed) store

end

/-- What is called is listed, and so are the members among the function values at that moment. -/
def Call.Listed (call : Call η) : Prop :=
  call.callable.Listed ∧ call.store.heap.Tabled

variable {scope : ScopeRef} {call : Call η}

theorem Evaluator.KeepsTable.after {evaluator : Evaluator η α} {answers : α → Prop}
    {outcome : Except TemplateError α} {after : Store η} (here : KeepsTable host evaluator answers)
    (tabled : store.heap.Tabled) (ran : evaluator.run.run store = (outcome, after)) :
    after.heap.Tabled := by
  have kept := (here store tabled).1
  rwa [ran] at kept

open Evaluator in
mutual

theorem Expression.Makes.listed (keeps : host.KeepsTable) {expression : Expression}
    {store : Store η} (tabled : store.heap.Tabled)
    (makes : Expression.Makes host scope call expression store) : call.Listed := by
  cases makes with
  | path path _ inside => exact Path.Makes.listed keeps tabled inside
  | items isMutable items _ inside => exact Expression.SomeMakes.listed keeps tabled inside
  | left left right operator _ inside => exact Expression.Makes.listed keeps tabled inside
  | right left right operator _ after value ran inside =>
      have between := (KeepsTable.evaluate keeps scope left).after tabled ran
      exact Expression.Makes.listed keeps between inside

theorem Expression.SomeMakes.listed (keeps : host.KeepsTable) {expressions : List Expression}
    {store : Store η} (tabled : store.heap.Tabled)
    (makes : Expression.SomeMakes host scope call expressions store) : call.Listed := by
  cases makes with
  | here expression expressions _ inside => exact Expression.Makes.listed keeps tabled inside
  | later expression expressions _ after value ran inside =>
      have between := (KeepsTable.evaluate keeps scope expression).after tabled ran
      exact Expression.SomeMakes.listed keeps between inside

theorem Path.Makes.listed (keeps : host.KeepsTable) {reached : Option Value} {path : List Segment}
    {store : Store η} (tabled : store.heap.Tabled)
    (makes : Path.Makes host scope call reached path store) : call.Listed := by
  cases makes with
  | here _ segment path _ inside => exact Segment.Makes.listed keeps tabled inside
  | later _ segment path _ after value ran inside =>
      have between := (KeepsTable.follow keeps scope reached segment).after tabled ran
      exact Path.Makes.listed keeps between inside

theorem Segment.Makes.listed (keeps : host.KeepsTable) {reached : Option Value} {segment : Segment}
    {store : Store η} (tabled : store.heap.Tabled)
    (makes : Segment.Makes host scope call reached segment store) : call.Listed := by
  cases makes with
  | argument _ name arguments silent indexed _ target found inside =>
      exact Expression.SomeMakes.listed keeps tabled inside
  | itself _ name arguments silent indexed _ after target values found ran isCall =>
      -- The target was looked up before the arguments were evaluated.
      subst isCall
      exact ⟨tabled.target found, (KeepsTable.evaluateAll keeps scope arguments).after tabled ran⟩

end

end Stencil
