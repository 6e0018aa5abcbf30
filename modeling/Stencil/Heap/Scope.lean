import Stencil.Heap.Basic

/-!
# Names in scopes

Own entries are read and written in one scope.  A bare name means the entry of the nearest scope of
the parent chain; the members of objects come after the own entries of each scope and before its
parent.
-/

namespace Stencil

/-- What a name stands for. -/
inductive Binding where
  | entry (value : Value)
  /-- A member of the receiver that the name was looked up in. -/
  | member (receiver : Value) (method : Member)
deriving DecidableEq

namespace Heap

/-- Changes the entries of a scope. -/
def modifyEntries (heap : Heap) (id : ScopeRef)
    (change : Dictionary String Value → Dictionary String Value) : Heap :=
  { heap with
    scopes := heap.scopes.modify id.index fun scope =>
      { scope with entries := change scope.entries } }

/-- The own entries of a scope. -/
def entries (heap : Heap) (id : ScopeRef) : Dictionary String Value :=
  (heap.scope id).entries

/-- The own entry of a key. -/
def get? (heap : Heap) (id : ScopeRef) (key : String) : Option Value :=
  (heap.entries id).get? key

/-- Whether a scope itself has a key. -/
def contains (heap : Heap) (id : ScopeRef) (key : String) : Bool :=
  (heap.entries id).contains key

/-- Writes a key whether or not it is there. -/
def put (heap : Heap) (id : ScopeRef) (key : String) (value : Value) : Heap :=
  heap.modifyEntries id (·.put key value)

/-- Adds a key; a key that is there is left alone and the answer is false. -/
def insert (heap : Heap) (id : ScopeRef) (key : String) (value : Value) : Bool × Heap :=
  if heap.contains id key then (false, heap) else (true, heap.put id key value)

/-- Writes a key that is there; otherwise the answer is false. -/
def set (heap : Heap) (id : ScopeRef) (key : String) (value : Value) : Bool × Heap :=
  if heap.contains id key then (true, heap.put id key value) else (false, heap)

/-- Removes a key and answers its value. -/
def remove (heap : Heap) (id : ScopeRef) (key : String) : Option Value × Heap :=
  match heap.get? id key with
  | some value => (some value, heap.modifyEntries id (·.erase key))
  | none => (none, heap)

/-- Removes every own entry. -/
def clear (heap : Heap) (id : ScopeRef) : Heap :=
  heap.modifyEntries id fun _ => .empty

/-- Gives a scope another name. -/
def setName (heap : Heap) (id : ScopeRef) (name : String) : Heap :=
  { heap with scopes := heap.scopes.modify id.index fun scope => { scope with name } }

/-- Moves a value to the end of its scope under a new key, which must be free.  An object takes the
key as its name. -/
def rename (heap : Heap) (id : ScopeRef) (old new : String) : Bool × Heap :=
  if heap.contains id new then (false, heap)
  else
    match heap.get? id old with
    | none => (false, heap)
    | some value =>
        let erased := heap.modifyEntries id (·.erase old)
        let named :=
          match value with
          | .object object => erased.setName object new
          | _ => erased
        (true, named.put id new value)

/-- Adds an object under a key and names it after the key. -/
def addObject (heap : Heap) (id : ScopeRef) (key : String) : ScopeRef × Heap :=
  let (object, heap) := heap.newScope key (some id)
  (object, heap.put id key (.object object))

/-- A scope and those around it, nearest first, at most `fuel` of them. -/
def chainFrom (heap : Heap) : Nat → Option ScopeRef → List ScopeRef
  | 0, _ => []
  | _ + 1, none => []
  | fuel + 1, some id => id :: chainFrom heap fuel (heap.scope id).parent

/-- A scope and those around it, nearest first. -/
def chain (heap : Heap) (id : ScopeRef) : List ScopeRef :=
  heap.chainFrom heap.scopes.size (some id)

/-- What a name stands for in a value: an entry of an object, or a member. -/
def memberOf? (heap : Heap) (receiver : Value) (name : String) : Option Binding :=
  let own? :=
    match receiver with
    | .object object => heap.get? object name
    | _ => none
  match own? with
  | some value => some (.entry value)
  | none => (Member.lookup? receiver.kind name).map (.member receiver)

/-- What a bare name stands for in a scope. -/
def lookup? (heap : Heap) (id : ScopeRef) (name : String) : Option Binding :=
  (heap.chain id).findSome? fun scope => heap.memberOf? (.object scope) name

/-- Writes a key in the nearest scope that has it; if none has, the answer is false. -/
def assign (heap : Heap) (id : ScopeRef) (key : String) (value : Value) : Bool × Heap :=
  match (heap.chain id).find? fun scope => heap.contains scope key with
  | some scope => (true, heap.put scope key value)
  | none => (false, heap)

/-- The value of a name.  A member that is taken as a value is a new function each time. -/
def valueOf (heap : Heap) : Binding → Value × Heap
  | .entry value => (value, heap)
  | .member receiver method =>
      let (function, heap) := heap.newFunction (.member receiver method)
      (.function function, heap)

theorem scope_modifyEntries_self {heap : Heap} {id : ScopeRef}
    (change : Dictionary String Value → Dictionary String Value)
    (present : id.index < heap.scopes.size) :
    (heap.modifyEntries id change).scope id =
      { heap.scope id with entries := change (heap.entries id) } := by
  simp [modifyEntries, scope, entries, present, Array.getElem_modify]

theorem scope_modifyEntries_of_ne {heap : Heap} {id other : ScopeRef}
    (change : Dictionary String Value → Dictionary String Value) (different : other ≠ id) :
    (heap.modifyEntries id change).scope other = heap.scope other := by
  have indexes : id.index ≠ other.index := fun same =>
    different (congrArg ScopeRef.mk same.symm)
  simp [modifyEntries, scope, Array.getElem?_modify, indexes]

theorem get?_put_self {heap : Heap} {id : ScopeRef} (key : String) (value : Value)
    (present : id.index < heap.scopes.size) : (heap.put id key value).get? id key = some value := by
  simp [put, get?, entries, scope_modifyEntries_self _ present, Dictionary.get?_put_self]

theorem get?_put_of_ne {heap : Heap} {id : ScopeRef} {key other : String} (value : Value)
    (different : other ≠ key) : (heap.put id key value).get? id other = heap.get? id other := by
  by_cases present : id.index < heap.scopes.size
  · simp [put, get?, entries, scope_modifyEntries_self _ present,
      Dictionary.get?_put_of_ne _ _ different]
  · simp [put, get?, entries, modifyEntries, scope, present]

theorem entries_put_of_ne {heap : Heap} {id other : ScopeRef} (key : String) (value : Value)
    (different : other ≠ id) : (heap.put id key value).entries other = heap.entries other := by
  simp [put, entries, scope_modifyEntries_of_ne _ different]

theorem parent_modifyEntries (heap : Heap) (id other : ScopeRef)
    (change : Dictionary String Value → Dictionary String Value) :
    ((heap.modifyEntries id change).scope other).parent = (heap.scope other).parent := by
  simp only [modifyEntries, scope, Array.getD_eq_getD_getElem?, Array.getElem?_modify]
  split
  · cases heap.scopes[other.index]? <;> rfl
  · rfl

theorem entries_clear {heap : Heap} (id : ScopeRef) (present : id.index < heap.scopes.size) :
    (heap.clear id).entries id = .empty := by
  simp [clear, entries, scope_modifyEntries_self _ present]

end Heap

end Stencil
