import Stencil.Expression.Evaluation

/-!
# Runs of evaluations

How a sequence of evaluations runs, given how its first part ran, and what the pieces of a path do
to a store.
-/

namespace Stencil

variable {η : Type} {store : Store η} {scope : ScopeRef} {receiver : Option Value} {name : String}

/-- After a part that answers, the rest runs on in the store that that part left. -/
theorem Evaluator.run_bind_of_ok {α β : Type} {first : Evaluator η α} {next : α → Evaluator η β}
    {answer : α} {store after : Store η} (ran : first.run.run store = (.ok answer, after)) :
    (first >>= next).run.run store = (next answer).run.run after := by
  have split : (first >>= next).run.run store =
      (ExceptT.bindCont next (first.run.run store).1).run (first.run.run store).2 := rfl
  rw [split, ran]
  rfl

theorem Evaluator.run_heap (store : Store η) :
    (Evaluator.heap : Evaluator η Heap).run.run store = (.ok store.heap, store) := rfl

theorem run_readName_of_found {binding : Binding}
    (found : store.heap.find? scope receiver name = some binding) :
    (readName scope receiver name : Evaluator η Value).run.run store =
      (Evaluator.onHeap fun heap => heap.valueOf binding : Evaluator η Value).run.run store := by
  rw [readName, Evaluator.run_bind_of_ok (Evaluator.run_heap store), found]

theorem run_readName_of_absent (absent : store.heap.find? scope receiver name = none) :
    (readName scope receiver name : Evaluator η Value).run.run store =
      (.error (undefinedIn receiver name), store) := by
  rw [readName, Evaluator.run_bind_of_ok (Evaluator.run_heap store), absent]
  rfl

/-- The function that a name stands for. -/
def Heap.target (heap : Heap) (scope : ScopeRef) (receiver : Option Value) (name : String)
    (indexed : Bool) : Except TemplateError Callable :=
  match heap.find? scope receiver name with
  | some (.entry (.function function)) => .ok (heap.callable function)
  | some (.entry other) => .error (.type (.notFunction name other.kind))
  | some (.member owner method) => .ok (.member owner method)
  | none =>
      if indexed then .error (.type (.cannotIndex (receiver.map Value.kind)))
      else .error (undefinedIn receiver name)

theorem run_callTarget (scope : ScopeRef) (receiver : Option Value) (name : String) (indexed : Bool)
    (store : Store η) :
    (callTarget scope receiver name indexed : Evaluator η Callable).run.run store =
      (store.heap.target scope receiver name indexed, store) := by
  rw [callTarget, Evaluator.run_bind_of_ok (Evaluator.run_heap store)]
  unfold Heap.target
  cases store.heap.find? scope receiver name with
  | none => cases indexed <;> rfl
  | some binding =>
      cases binding with
      | entry value => cases value <;> rfl
      | member owner method => rfl

/-- A call of a member runs the member on the heap. -/
theorem Callable.run_invoke_member (host : Host η) (owner : Value) (method : Member)
    (receiver : Option Value) (arguments : List Value) (store : Store η) :
    ((Callable.member owner method).invoke host receiver arguments).run.run store =
      match method.invoke owner arguments store.heap with
      | .error error => (.error error, store)
      | .ok (value, heap) => (.ok value, { store with heap }) := by
  change (liftM (method.invoke owner arguments store.heap) >>= fun found => do
    modify fun store => { store with heap := found.2 }
    return found.1 : Evaluator η Value).run.run store = _
  cases method.invoke owner arguments store.heap with
  | error error => rfl
  | ok found => rfl

end Stencil
