import Stencil.Member.Invocation

/-!
# Functions of the host

A host gives a template functions to call.  Such a function sees the value it was reached through,
its arguments and the whole store, and may change the store: the heap and whatever else the host
keeps there.
-/

namespace Stencil

/-- The heap and the state that the functions of the host keep. -/
structure Store (η : Type) where
  heap : Heap
  state : η

/-- The functions of a host, by the number that a `HostFunction` carries. -/
structure Host (η : Type) where
  call : Nat → Option Value → List Value → Store η → Except TemplateError Value × Store η

/-- The host without functions. -/
def Host.none : Host Unit where
  call _ _ _ store := (.error (.reference (.reported "")), store)

/-- A computation on the store that may fail; what it did before failing stays done. -/
abbrev Evaluator (η : Type) := ExceptT TemplateError (StateM (Store η))

namespace Evaluator

variable {η : Type}

/-- The heap. -/
def heap : Evaluator η Heap := return (← get).heap

/-- Changes the heap and answers something. -/
def onHeap {α : Type} (change : Heap → α × Heap) : Evaluator η α :=
  modifyGet fun store =>
    let (answer, heap) := change store.heap
    (answer, { store with heap })

end Evaluator

/-- Whether a host function accepts a number of arguments. -/
def HostFunction.accepts (function : HostFunction) (count : Nat) : Except TemplateError Unit :=
  match function.parameters with
  | .exactly expected =>
      if count = expected then .ok ()
      else .error (.arity function.name (.exactly expected) count)
  | .variadic | .unstated => .ok ()

/-- Calls a function.  A member that was taken as a value keeps its own receiver. -/
def Callable.invoke {η : Type} (host : Host η) (callable : Callable) (receiver : Option Value)
    (arguments : List Value) : Evaluator η Value := do
  match callable with
  | .host function =>
      function.accepts arguments.length
      ExceptT.mk (host.call function.code receiver arguments)
  | .member owner method =>
      let (value, heap) ← method.invoke owner arguments (← Evaluator.heap)
      modify fun store => { store with heap }
      return value

end Stencil
