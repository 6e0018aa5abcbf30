import Stencil.Dictionary
import Stencil.Member.Basic
import Stencil.Value

/-!
# The heap

Scopes, lists and functions live in arrays that only grow, so a reference stays good for ever.
Objects are scopes.  A scope that loops and placeholders use is cleared and used again.
-/

namespace Stencil

/-- A named dictionary with a parent that names not found in it are looked up in. -/
structure Scope where
  name : String
  entries : Dictionary String Value := .empty
  parent : Option ScopeRef := none

instance : Inhabited Scope := ⟨⟨"", .empty, none⟩⟩

/-- How a host function states its parameters. -/
inductive Parameters where
  /-- Exactly so many arguments. -/
  | exactly (count : Nat)
  /-- Any number of arguments. -/
  | variadic
  /-- Nothing is stated and nothing is checked. -/
  | unstated
deriving DecidableEq, Repr

/-- A function that the host provides; the host knows its work by a number. -/
structure HostFunction where
  name : String
  parameters : Parameters
  code : Nat
deriving DecidableEq, Repr

/-- What a call runs. -/
inductive Callable where
  | host (function : HostFunction)
  /-- A member that was taken from its receiver without being called. -/
  | member (receiver : Value) (method : Member)
deriving DecidableEq

instance : Inhabited Callable := ⟨.host ⟨"", .unstated, 0⟩⟩

/-- The text that a function value is written as. -/
def Callable.render : Callable → String
  | host function =>
      match function.parameters with
      | .exactly count => s!"{function.name}({count})"
      | .variadic => s!"{function.name}(...)"
      | .unstated => s!"{function.name}()"
  | member _ method => s!"{method.name}()"

/-- The elements of a list.  Every reference to the list says by itself whether it may change them;
how the list was created is only kept to be compared with that. -/
structure ListStorage where
  items : List Value := []
  createdMutable : Bool := false
deriving DecidableEq, Inhabited

@[simp]
theorem ListStorage.items_default : (default : ListStorage).items = [] := rfl

/-- Everything that values refer to. -/
structure Heap where
  scopes : Array Scope
  lists : Array ListStorage := #[]
  functions : Array Callable := #[]

namespace Heap

/-- A heap with the global scope only. -/
def ofGlobal (name : String) : Heap where
  scopes := #[{ name }]

instance : Inhabited Heap := ⟨ofGlobal ""⟩

/-- The scope of an id. -/
def scope (heap : Heap) (id : ScopeRef) : Scope :=
  heap.scopes.getD id.index default

/-- The elements of a list. -/
def items (heap : Heap) (list : ListRef) : List Value :=
  (heap.lists.getD list.index default).items

/-- How a list was created. -/
def createdMutable (heap : Heap) (list : ListRef) : Bool :=
  (heap.lists.getD list.index default).createdMutable

/-- What a function value runs. -/
def callable (heap : Heap) (id : FunctionRef) : Callable :=
  heap.functions.getD id.index default

/-- Adds a list. -/
def newList (heap : Heap) (isMutable : Bool) (items : List Value) : ListRef × Heap :=
  (⟨isMutable, heap.lists.size⟩, { heap with lists := heap.lists.push ⟨items, isMutable⟩ })

/-- Adds a function. -/
def newFunction (heap : Heap) (callable : Callable) : FunctionRef × Heap :=
  (⟨heap.functions.size⟩, { heap with functions := heap.functions.push callable })

/-- Adds a scope. -/
def newScope (heap : Heap) (name : String) (parent : Option ScopeRef) : ScopeRef × Heap :=
  (⟨heap.scopes.size⟩, { heap with scopes := heap.scopes.push { name, parent } })

/-- A bound on how deep values can be nested when none contains itself; a list may be referred to as
one that may change and as one that may not. -/
def depthBound (heap : Heap) : Nat :=
  heap.scopes.size + 2 * heap.lists.size + 1

/-- Whether a list is on the heap. -/
def hasList (heap : Heap) (list : ListRef) : Prop :=
  list.index < heap.lists.size

instance (heap : Heap) (list : ListRef) : Decidable (heap.hasList list) :=
  inferInstanceAs (Decidable (list.index < heap.lists.size))

theorem scope_newScope_self (heap : Heap) (name : String) (parent : Option ScopeRef) :
    (heap.newScope name parent).2.scope (heap.newScope name parent).1 = { name, parent } := by
  simp [newScope, scope]

theorem scope_newScope_of_lt {heap : Heap} {id : ScopeRef} (name : String)
    (parent : Option ScopeRef) (present : id.index < heap.scopes.size) :
    (heap.newScope name parent).2.scope id = heap.scope id := by
  simp [newScope, scope, Array.getElem?_push_lt, present]

theorem items_newList_self (heap : Heap) (isMutable : Bool) (items : List Value) :
    (heap.newList isMutable items).2.items (heap.newList isMutable items).1 = items := by
  simp [newList, Heap.items]

/-- The elements of a list are the same through every reference to it. -/
theorem items_eq_of_index (heap : Heap) {left right : ListRef} (same : left.index = right.index) :
    heap.items left = heap.items right := by
  rw [items, items, same]

theorem callable_newFunction_self (heap : Heap) (callable : Callable) :
    (heap.newFunction callable).2.callable (heap.newFunction callable).1 = callable := by
  simp [newFunction, Heap.callable]

theorem items_newList_of_hasList {heap : Heap} {list : ListRef} (isMutable : Bool)
    (items : List Value) (present : heap.hasList list) :
    (heap.newList isMutable items).2.items list = heap.items list := by
  unfold hasList at present
  simp [newList, Heap.items, present, Array.getElem?_push_lt]

end Heap

end Stencil
