import Stencil.Heap.List

/-!
# What a heap stores

A property of values that everything stored on a heap has stays one of everything stored there if
whatever is added has it, and then it is one of everything that is read.
-/

namespace Stencil

/-- The value that a callable was taken from has a property. -/
def Callable.Fits (fits : Value → Prop) : Callable → Prop
  | .host _ => True
  | .member receiver _ => fits receiver

/-- The value of a binding has a property. -/
def Binding.Fits (fits : Value → Prop) : Binding → Prop
  | .entry value => fits value
  | .member receiver _ => fits receiver

/-- Every value that is stored anywhere on the heap has a property. -/
structure Heap.Stores (heap : Heap) (fits : Value → Prop) : Prop where
  entries : ∀ (index : Nat) (scope : Scope), heap.scopes[index]? = some scope →
    ∀ value ∈ scope.entries.values, fits value
  lists : ∀ (index : Nat) (list : ListStorage), heap.lists[index]? = some list →
    ∀ value ∈ list.items, fits value
  functions : ∀ (index : Nat) (callable : Callable), heap.functions[index]? = some callable →
    callable.Fits fits

theorem Callable.Fits.mono {fits weaker : Value → Prop} {callable : Callable}
    (here : callable.Fits fits) (implies : ∀ value, fits value → weaker value) :
    callable.Fits weaker := by
  cases callable with
  | host function => trivial
  | member receiver method => exact implies receiver here

namespace Dictionary

variable {dictionary : Dictionary String Value} {key : String} {value added : Value}

theorem mem_values_of_get? (found : dictionary.get? key = some value) :
    value ∈ dictionary.values := by
  obtain ⟨entry, isEntry, rfl⟩ := Option.map_eq_some_iff.mp found
  exact List.mem_map_of_mem (List.mem_of_find?_eq_some isEntry)

theorem mem_values_put (member : value ∈ (dictionary.put key added).values) :
    value = added ∨ value ∈ dictionary.values := by
  obtain ⟨entry, isEntry, rfl⟩ := List.mem_map.mp member
  unfold put at isEntry
  split at isEntry
  · obtain ⟨earlier, isEarlier, rfl⟩ := List.mem_map.mp isEntry
    unfold replaceEntry
    split
    · exact .inl rfl
    · exact .inr (List.mem_map_of_mem isEarlier)
  · rcases List.mem_append.mp isEntry with earlier | last
    · exact .inr (List.mem_map_of_mem earlier)
    · rw [List.mem_singleton.mp last]
      exact .inl rfl

end Dictionary

namespace Heap.Stores

variable {heap : Heap} {fits weaker : Value → Prop} {value receiver : Value} {name : String}

theorem mono (stores : heap.Stores fits) (implies : ∀ value, fits value → weaker value) :
    heap.Stores weaker where
  entries index scope there value member :=
    implies value (stores.entries index scope there value member)
  lists index list there value member :=
    implies value (stores.lists index list there value member)
  functions index callable there := (stores.functions index callable there).mono implies

theorem ofGlobal (fits : Value → Prop) (name : String) : (ofGlobal name).Stores fits := by
  constructor
  · intro index scope there value member
    have only : scope = { name } := by
      cases index with
      | zero => exact (Option.some.inj there).symm
      | succ index => cases there
    rw [only] at member
    cases member
  · intro index list there
    cases there
  · intro index callable there
    cases there

theorem newScope (stores : heap.Stores fits) (name : String) (parent : Option ScopeRef) :
    (heap.newScope name parent).2.Stores fits := by
  refine ⟨?_, stores.lists, stores.functions⟩
  intro index scope there value member
  simp only [Heap.newScope, Array.getElem?_push] at there
  split at there
  · obtain rfl := Option.some.inj there
    cases member
  · exact stores.entries index scope there value member

/-- Entries may change as long as the property holds of what they get. -/
theorem modifyEntries (stores : heap.Stores fits) (id : ScopeRef)
    {change : Dictionary String Value → Dictionary String Value}
    (keeps : ∀ entries value, value ∈ (change entries).values →
      fits value ∨ value ∈ entries.values) : (heap.modifyEntries id change).Stores fits := by
  refine ⟨?_, stores.lists, stores.functions⟩
  intro index scope there value member
  simp only [Heap.modifyEntries, Array.getElem?_modify] at there
  split at there
  · obtain ⟨earlier, isEarlier, rfl⟩ := Option.map_eq_some_iff.mp there
    rcases keeps _ value member with here | before
    · exact here
    · exact stores.entries index earlier isEarlier value before
  · exact stores.entries index scope there value member

theorem put (stores : heap.Stores fits) (id : ScopeRef) (key : String) (here : fits value) :
    (heap.put id key value).Stores fits := by
  apply stores.modifyEntries
  intro entries other member
  rcases Dictionary.mem_values_put member with rfl | earlier
  · exact .inl here
  · exact .inr earlier

theorem clear (stores : heap.Stores fits) (id : ScopeRef) : (heap.clear id).Stores fits := by
  apply stores.modifyEntries
  intro entries value member
  cases member

theorem newList (stores : heap.Stores fits) (isMutable : Bool) {items : List Value}
    (all : ∀ value ∈ items, fits value) : (heap.newList isMutable items).2.Stores fits := by
  refine ⟨stores.entries, ?_, stores.functions⟩
  intro index list there
  simp only [Heap.newList, Array.getElem?_push] at there
  split at there
  · obtain rfl := Option.some.inj there
    exact all
  · exact stores.lists index list there

theorem newFunction (stores : heap.Stores fits) {callable : Callable}
    (here : callable.Fits fits) : (heap.newFunction callable).2.Stores fits := by
  refine ⟨stores.entries, stores.lists, ?_⟩
  intro index other there
  simp only [Heap.newFunction, Array.getElem?_push] at there
  split at there
  · cases there
    exact here
  · exact stores.functions index other there

theorem modifyItems (stores : heap.Stores fits) (index : Nat) {change : List Value → List Value}
    (keeps : ∀ items value, value ∈ change items → fits value ∨ value ∈ items) :
    (heap.modifyItems index change).Stores fits := by
  refine ⟨stores.entries, ?_, stores.functions⟩
  intro place list there value member
  simp only [Heap.modifyItems, Array.getElem?_modify] at there
  split at there
  · obtain ⟨earlier, isEarlier, rfl⟩ := Option.map_eq_some_iff.mp there
    rcases keeps earlier.items value member with here | before
    · exact here
    · exact stores.lists place earlier isEarlier value before
  · exact stores.lists place list there value member

theorem items (stores : heap.Stores fits) (list : ListRef) :
    ∀ value ∈ heap.items list, fits value := by
  rw [Heap.items, Array.getD_eq_getD_getElem?]
  cases there : heap.lists[list.index]? with
  | none =>
      intro value member
      cases member
  | some storage => exact stores.lists list.index storage there

theorem callable (stores : heap.Stores fits) (id : FunctionRef) :
    (heap.callable id).Fits fits := by
  rw [Heap.callable, Array.getD_eq_getD_getElem?]
  cases there : heap.functions[id.index]? with
  | none => trivial
  | some callable => exact stores.functions id.index callable there

theorem values (stores : heap.Stores fits) (id : ScopeRef) :
    ∀ value ∈ (heap.entries id).values, fits value := by
  rw [Heap.entries, Heap.scope, Array.getD_eq_getD_getElem?]
  cases there : heap.scopes[id.index]? with
  | none =>
      intro value member
      cases member
  | some scope => exact stores.entries id.index scope there

theorem memberOf? (stores : heap.Stores fits) (here : fits receiver) {binding : Binding}
    (found : heap.memberOf? receiver name = some binding) : binding.Fits fits := by
  have isMember {kind : Kind}
      (named : (Member.lookup? kind name).map (Binding.member receiver) = some binding) :
      binding.Fits fits := by
    obtain ⟨member, -, rfl⟩ := Option.map_eq_some_iff.mp named
    exact here
  unfold Heap.memberOf? at found
  cases receiver with
  | object object =>
      dsimp only at found
      cases own : heap.get? object name with
      | none =>
          rw [own] at found
          exact isMember found
      | some value =>
          rw [own] at found
          cases found
          exact stores.values object value (Dictionary.mem_values_of_get? own)
  | primitive value => exact isMember found
  | list list => exact isMember found
  | function function => exact isMember found

theorem lookup? (stores : heap.Stores fits) {id : ScopeRef}
    (objects : ∀ scope ∈ heap.chain id, fits (.object scope)) {binding : Binding}
    (found : heap.lookup? id name = some binding) : binding.Fits fits := by
  obtain ⟨scope, member, isFound⟩ := List.exists_of_findSome?_eq_some found
  exact stores.memberOf? (objects scope member) isFound

theorem valueOf (stores : heap.Stores fits) {binding : Binding} (here : binding.Fits fits)
    (function : ∀ id, fits (.function id)) :
    (heap.valueOf binding).2.Stores fits ∧ fits (heap.valueOf binding).1 := by
  cases binding with
  | entry value => exact ⟨stores, here⟩
  | member receiver method =>
      have callable : (Callable.member receiver method).Fits fits := here
      exact ⟨stores.newFunction callable, function _⟩

end Heap.Stores

end Stencil
