import Stencil.Proofs.Heap.Stored

/-!
# Closed heaps

On a closed heap every scope that something refers to is there.  Scopes are only added, so what is
in range stays in range.
-/

namespace Stencil

/-- A value refers to none but the first scopes. -/
def Value.InRange (scopes : Nat) : Value → Prop
  | .object scope => scope.index < scopes
  | .primitive _ | .list _ | .function _ => True

def Callable.InRange (scopes : Nat) : Callable → Prop
  | .host _ => True
  | .member receiver _ => receiver.InRange scopes

def Binding.InRange (scopes : Nat) : Binding → Prop
  | .entry value => value.InRange scopes
  | .member receiver _ => receiver.InRange scopes

/-- Every scope that is stored anywhere on the heap is there. -/
structure Heap.Closed (heap : Heap) : Prop where
  entries : ∀ (index : Nat) (scope : Scope), heap.scopes[index]? = some scope →
    ∀ value ∈ scope.entries.values, value.InRange heap.scopes.size
  parents : ∀ (index : Nat) (scope : Scope), heap.scopes[index]? = some scope →
    ∀ parent, scope.parent = some parent → parent.index < heap.scopes.size
  lists : ∀ (index : Nat) (list : ListStorage), heap.lists[index]? = some list →
    ∀ value ∈ list.items, value.InRange heap.scopes.size
  functions : ∀ (index : Nat) (callable : Callable), heap.functions[index]? = some callable →
    callable.InRange heap.scopes.size

theorem Value.InRange.mono {fewer more : Nat} {value : Value} (range : value.InRange fewer)
    (order : fewer ≤ more) : value.InRange more := by
  cases value with
  | object scope => exact Nat.lt_of_lt_of_le range order
  | primitive value => trivial
  | list list => trivial
  | function function => trivial

theorem Callable.inRange_iff {scopes : Nat} {callable : Callable} :
    callable.InRange scopes ↔ callable.Fits (Value.InRange scopes) := by
  cases callable with
  | host function => exact Iff.rfl
  | member receiver method => exact Iff.rfl

theorem Binding.inRange_iff {scopes : Nat} {binding : Binding} :
    binding.InRange scopes ↔ binding.Fits (Value.InRange scopes) := by
  cases binding with
  | entry value => exact Iff.rfl
  | member receiver method => exact Iff.rfl

namespace Heap

variable {heap : Heap} {value receiver : Value} {id : ScopeRef} {name : String}

/-- On a closed heap everything stored is in range, and so is every parent. -/
theorem closed_iff : heap.Closed ↔ heap.Stores (Value.InRange heap.scopes.size) ∧
    ∀ (index : Nat) (scope : Scope), heap.scopes[index]? = some scope →
      ∀ parent, scope.parent = some parent → parent.index < heap.scopes.size := by
  constructor
  · intro closed
    refine ⟨⟨closed.entries, closed.lists, ?_⟩, closed.parents⟩
    intro index callable there
    exact Callable.inRange_iff.mp (closed.functions index callable there)
  · rintro ⟨stores, parents⟩
    refine ⟨stores.entries, parents, stores.lists, ?_⟩
    intro index callable there
    exact Callable.inRange_iff.mpr (stores.functions index callable there)

theorem Closed.stores (closed : heap.Closed) : heap.Stores (Value.InRange heap.scopes.size) :=
  (closed_iff.mp closed).1

theorem closed_ofGlobal (name : String) : (ofGlobal name).Closed := by
  apply closed_iff.mpr
  refine ⟨.ofGlobal _ name, ?_⟩
  intro index scope there parent isParent
  cases index with
  | zero =>
      cases there
      cases isParent
  | succ index => cases there

theorem Closed.newScope (closed : heap.Closed) (name : String) {parent : ScopeRef}
    (present : parent.index < heap.scopes.size) :
    (heap.newScope name (some parent)).2.Closed := by
  have size : (heap.newScope name (some parent)).2.scopes.size = heap.scopes.size + 1 := by
    simp [Heap.newScope]
  have grown : heap.scopes.size ≤ (heap.newScope name (some parent)).2.scopes.size := by omega
  apply closed_iff.mpr
  refine ⟨(closed.stores.newScope name _).mono fun value range => range.mono grown, ?_⟩
  intro index scope there other isParent
  simp only [Heap.newScope, Array.getElem?_push] at there
  split at there
  · obtain rfl := Option.some.inj there
    cases isParent
    exact Nat.lt_of_lt_of_le present grown
  · exact Nat.lt_of_lt_of_le (closed.parents index scope there other isParent) grown

theorem size_modifyEntries (heap : Heap) (id : ScopeRef)
    (change : Dictionary String Value → Dictionary String Value) :
    (heap.modifyEntries id change).scopes.size = heap.scopes.size := by
  simp [modifyEntries]

/-- Entries may change as long as their values stay in range. -/
theorem Closed.modifyEntries (closed : heap.Closed) (id : ScopeRef)
    {change : Dictionary String Value → Dictionary String Value}
    (keeps : ∀ entries value, value ∈ (change entries).values →
      value.InRange heap.scopes.size ∨ value ∈ entries.values) :
    (heap.modifyEntries id change).Closed := by
  have size := heap.size_modifyEntries id change
  apply closed_iff.mpr
  rw [size]
  refine ⟨closed.stores.modifyEntries id keeps, ?_⟩
  intro index scope there parent isParent
  simp only [Heap.modifyEntries, Array.getElem?_modify] at there
  split at there
  · obtain ⟨earlier, isEarlier, rfl⟩ := Option.map_eq_some_iff.mp there
    exact closed.parents index earlier isEarlier parent isParent
  · exact closed.parents index scope there parent isParent

theorem Closed.put (closed : heap.Closed) (id : ScopeRef) (key : String)
    (range : value.InRange heap.scopes.size) : (heap.put id key value).Closed := by
  apply closed.modifyEntries
  intro entries other member
  rcases Dictionary.mem_values_put member with rfl | earlier
  · exact .inl range
  · exact .inr earlier

theorem Closed.clear (closed : heap.Closed) (id : ScopeRef) : (heap.clear id).Closed := by
  apply closed.modifyEntries
  intro entries value member
  cases member

theorem Closed.newList (closed : heap.Closed) (isMutable : Bool) {items : List Value}
    (range : ∀ value ∈ items, value.InRange heap.scopes.size) :
    (heap.newList isMutable items).2.Closed := by
  have stores := closed.stores.newList isMutable range
  cases isMutable with
  | true => exact closed_iff.mpr ⟨stores, closed.parents⟩
  | false => exact closed_iff.mpr ⟨stores, closed.parents⟩

theorem Closed.newFunction (closed : heap.Closed) {callable : Callable}
    (range : callable.InRange heap.scopes.size) : (heap.newFunction callable).2.Closed :=
  closed_iff.mpr ⟨closed.stores.newFunction (Callable.inRange_iff.mp range), closed.parents⟩

theorem Closed.modifyItems (closed : heap.Closed) (index : Nat)
    {change : List Value → List Value}
    (keeps : ∀ items value, value ∈ change items →
      value.InRange heap.scopes.size ∨ value ∈ items) : (heap.modifyItems index change).Closed :=
  closed_iff.mpr ⟨closed.stores.modifyItems index keeps, closed.parents⟩

theorem Closed.items (closed : heap.Closed) (list : ListRef) :
    ∀ value ∈ heap.items list, value.InRange heap.scopes.size :=
  closed.stores.items list

theorem Closed.scope (closed : heap.Closed) (id : ScopeRef) :
    (∀ value ∈ (heap.scope id).entries.values, value.InRange heap.scopes.size) ∧
      ∀ parent, (heap.scope id).parent = some parent → parent.index < heap.scopes.size := by
  refine ⟨closed.stores.values id, ?_⟩
  rw [Heap.scope, Array.getD_eq_getD_getElem?]
  cases there : heap.scopes[id.index]? with
  | none =>
      intro parent same
      cases same
  | some scope => exact closed.parents id.index scope there

theorem Closed.chainFrom (closed : heap.Closed) (fuel : Nat) {start : Option ScopeRef}
    (present : ∀ id, start = some id → id.index < heap.scopes.size) :
    ∀ scope ∈ heap.chainFrom fuel start, scope.index < heap.scopes.size := by
  induction fuel generalizing start with
  | zero => exact fun _ member => nomatch member
  | succ fuel induction =>
      cases start with
      | none => exact fun _ member => nomatch member
      | some id =>
          intro scope member
          rcases List.mem_cons.mp member with rfl | later
          · exact present scope rfl
          · exact induction (closed.scope id).2 scope later

theorem Closed.memberOf? (closed : heap.Closed) (range : receiver.InRange heap.scopes.size)
    {binding : Binding} (found : heap.memberOf? receiver name = some binding) :
    binding.InRange heap.scopes.size :=
  Binding.inRange_iff.mpr (closed.stores.memberOf? range found)

theorem Closed.lookup? (closed : heap.Closed) (present : id.index < heap.scopes.size)
    {binding : Binding} (found : heap.lookup? id name = some binding) :
    binding.InRange heap.scopes.size :=
  Binding.inRange_iff.mpr (closed.stores.lookup?
    (closed.chainFrom heap.scopes.size fun _ same => Option.some.inj same ▸ present) found)

theorem Closed.assign (closed : heap.Closed) (id : ScopeRef) (key : String)
    (range : value.InRange heap.scopes.size) : (heap.assign id key value).2.Closed := by
  unfold Heap.assign
  split
  · exact closed.put _ _ range
  · exact closed

theorem size_assign (heap : Heap) (id : ScopeRef) (key : String) (value : Value) :
    (heap.assign id key value).2.scopes.size = heap.scopes.size := by
  unfold assign
  split
  · exact size_modifyEntries _ _ _
  · rfl

theorem Closed.valueOf (closed : heap.Closed) {binding : Binding}
    (range : binding.InRange heap.scopes.size) :
    (heap.valueOf binding).2.Closed ∧ (heap.valueOf binding).2.scopes.size = heap.scopes.size ∧
      (heap.valueOf binding).1.InRange heap.scopes.size := by
  cases binding with
  | entry value => exact ⟨closed, rfl, range⟩
  | member receiver method =>
      have inRange : (Callable.member receiver method).InRange heap.scopes.size := range
      exact ⟨closed.newFunction inRange, rfl, trivial⟩

end Heap

end Stencil
