import Stencil.Proofs.Reading.Names

/-!
# Heaps that change alike

Heaps that look alike still do after both get the same new list or function, and after the same
entry is put into a scope or a scope is cleared on both.
-/

namespace Stencil

/-- A heap has at least the lists and functions of another one. -/
def Heap.Covers (after before : Heap) : Prop :=
  before.lists.size ≤ after.lists.size ∧ before.functions.size ≤ after.functions.size

namespace View

variable {view : View} {heap after other : Heap} {value : Value}

theorem Knows.mono (known : view.Knows heap value) (covers : after.Covers heap) :
    view.Knows after value := by
  cases value with
  | primitive value => trivial
  | object object => exact known
  | function function => exact ⟨Nat.lt_of_lt_of_le known.1 covers.2, known.2⟩
  | list list => exact ⟨Nat.lt_of_lt_of_le known.1 covers.1, known.2⟩

theorem KnowsCallable.mono {callable : Callable} (known : view.KnowsCallable heap callable)
    (covers : after.Covers heap) : view.KnowsCallable after callable := by
  cases callable with
  | host function => trivial
  | member receiver method => exact Knows.mono known covers

namespace Alike

theorem covers_newList (heap : Heap) (isMutable : Bool) (items : List Value) :
    (heap.newList isMutable items).2.Covers heap := by
  refine ⟨?_, Nat.le_refl _⟩
  simp [Heap.newList]

theorem covers_newFunction (heap : Heap) (callable : Callable) :
    (heap.newFunction callable).2.Covers heap := by
  refine ⟨Nat.le_refl _, ?_⟩
  simp [Heap.newFunction]

theorem covers_of_scopes (heap : Heap) (scopes : Array Scope) :
    ({ heap with scopes } : Heap).Covers heap :=
  ⟨Nat.le_refl _, Nat.le_refl _⟩

variable (alike : view.Alike heap other)

include alike

theorem hasList {list : ListRef} (present : heap.hasList list) :
    other.hasList (view.shift.list list) := by
  obtain ⟨first, counts⟩ := alike.listCounts
  unfold Heap.hasList at present
  change Shift.place _ _ list.index < other.lists.size
  unfold Shift.place
  split <;> omega

theorem functionPresent {function : FunctionRef} (present : function.index < heap.functions.size) :
    (view.shift.function function).index < other.functions.size := by
  obtain ⟨first, counts⟩ := alike.functionCounts
  change Shift.place _ _ function.index < other.functions.size
  unfold Shift.place
  split <;> omega

theorem newList (isMutable : Bool) {items : List Value}
    (areKnown : ∀ item ∈ items, view.Knows heap item) :
    (other.newList isMutable (items.map view.shift.value)).1 =
        view.shift.list (heap.newList isMutable items).1 ∧
      view.Alike (heap.newList isMutable items).2
        (other.newList isMutable (items.map view.shift.value)).2 ∧
      view.Knows (heap.newList isMutable items).2 (.list (heap.newList isMutable items).1) := by
  have covers := covers_newList heap isMutable items
  have size (heap : Heap) (items : List Value) :
      (heap.newList isMutable items).2.lists.size = heap.lists.size + 1 := Array.size_push _
  obtain ⟨first, count⟩ := alike.listCounts
  have place : view.shift.list (heap.newList isMutable items).1 =
      (other.newList isMutable (items.map view.shift.value)).1 := by
    have moves : Shift.place view.shift.first.lists.size view.shift.last.lists.size
        heap.lists.size = other.lists.size := by
      rw [Shift.place, if_neg (Nat.not_lt.mpr first), count]
    exact congrArg (ListRef.mk isMutable) moves
  refine ⟨place.symm, ⟨?_, alike.functionCounts, alike.scopeCounts, ?_, ?_, ?_⟩, ?_⟩
  · rw [size, size]
    omega
  · intro list known
    by_cases isNew : list.index = heap.lists.size
    · -- The new list holds the same through every reference to it.
      have here : (heap.newList isMutable items).2.items list = items :=
        (Heap.items_eq_of_index _ isNew).trans (Heap.items_newList_self heap isMutable items)
      have isNewOther : (view.shift.list list).index = other.lists.size :=
        (Shift.index_list_inj.mpr isNew).trans (congrArg ListRef.index place)
      have there : (other.newList isMutable (items.map view.shift.value)).2.items
          (view.shift.list list) = items.map view.shift.value :=
        (Heap.items_eq_of_index _ isNewOther).trans (Heap.items_newList_self other isMutable _)
      rw [here, there]
      exact ⟨rfl, fun item member => (areKnown item member).mono covers⟩
    · have present : heap.hasList list := by
        have present := known.1
        unfold Heap.hasList at present ⊢
        rw [size] at present
        omega
      have presentOther := alike.hasList present
      rw [Heap.items_newList_of_hasList isMutable items present,
        Heap.items_newList_of_hasList isMutable _ presentOther]
      obtain ⟨same, itemsKnown⟩ := alike.items list ⟨present, known.2⟩
      exact ⟨same, fun item member => (itemsKnown item member).mono covers⟩
  · intro function known
    obtain ⟨same, isKnown⟩ := alike.callables function known
    exact ⟨same, isKnown.mono covers⟩
  · intro scope known
    obtain ⟨present, parent, entries, valuesKnown⟩ := alike.scopes scope known
    exact ⟨present, parent, entries, fun value member => (valuesKnown value member).mono covers⟩
  · refine ⟨?_, fun early => absurd early (Nat.not_lt.mpr first)⟩
    change heap.lists.size < (heap.newList isMutable items).2.lists.size
    rw [size]
    exact Nat.lt_succ_self _

theorem newFunction {callable : Callable} (known : view.KnowsCallable heap callable) :
    (other.newFunction (view.shift.callable callable)).1 =
        view.shift.function (heap.newFunction callable).1 ∧
      view.Alike (heap.newFunction callable).2
        (other.newFunction (view.shift.callable callable)).2 ∧
      view.Knows (heap.newFunction callable).2 (.function (heap.newFunction callable).1) := by
  have covers := covers_newFunction heap callable
  have size (heap : Heap) (callable : Callable) :
      (heap.newFunction callable).2.functions.size = heap.functions.size + 1 := by
    simp [Heap.newFunction]
  have kept {heap : Heap} {function : FunctionRef} (callable : Callable)
      (present : function.index < heap.functions.size) :
      (heap.newFunction callable).2.callable function = heap.callable function := by
    simp [Heap.newFunction, Heap.callable, Array.getElem?_push_lt, present]
  obtain ⟨first, count⟩ := alike.functionCounts
  have place : view.shift.function ⟨heap.functions.size⟩ = ⟨other.functions.size⟩ := by
    simp only [Shift.function, Shift.place, FunctionRef.mk.injEq]
    rw [if_neg (by omega), count]
  refine ⟨place.symm, ⟨alike.listCounts, ?_, alike.scopeCounts, ?_, ?_, ?_⟩, ?_⟩
  · rw [size, size]
    omega
  · intro list known
    obtain ⟨same, itemsKnown⟩ := alike.items list known
    exact ⟨same, fun item member => (itemsKnown item member).mono covers⟩
  · intro function knownFunction
    by_cases isNew : function = ⟨heap.functions.size⟩
    · subst isNew
      rw [place]
      refine ⟨?_, ?_⟩
      · exact (Heap.callable_newFunction_self other _).trans
          (congrArg view.shift.callable (Heap.callable_newFunction_self heap callable).symm)
      · have self : (heap.newFunction callable).2.callable ⟨heap.functions.size⟩ = callable :=
          Heap.callable_newFunction_self heap callable
        rw [self]
        exact known.mono covers
    · have present : function.index < heap.functions.size := by
        have present := knownFunction.1
        rw [size] at present
        have different : function.index ≠ heap.functions.size := fun same =>
          isNew (congrArg FunctionRef.mk same)
        omega
      rw [kept callable present, kept _ (alike.functionPresent present)]
      obtain ⟨same, isKnown⟩ := alike.callables function ⟨present, knownFunction.2⟩
      exact ⟨same, isKnown.mono covers⟩
  · intro scope known
    obtain ⟨present, parent, entries, valuesKnown⟩ := alike.scopes scope known
    exact ⟨present, parent, entries, fun value member => (valuesKnown value member).mono covers⟩
  · refine ⟨?_, fun early => absurd early (Nat.not_lt.mpr first)⟩
    rw [size]
    exact Nat.lt_succ_self _

theorem valueOf {binding : Binding} (known : view.KnowsBinding heap binding) :
    (other.valueOf (view.shift.binding binding)).1 = view.shift.value (heap.valueOf binding).1 ∧
      view.Alike (heap.valueOf binding).2 (other.valueOf (view.shift.binding binding)).2 ∧
      view.Knows (heap.valueOf binding).2 (heap.valueOf binding).1 := by
  cases binding with
  | entry value => exact ⟨rfl, alike, known⟩
  | member receiver method =>
      have isKnown : view.KnowsCallable heap (.member receiver method) := known
      obtain ⟨same, alikeLater, knownLater⟩ := alike.newFunction isKnown
      exact ⟨congrArg Value.function same, alikeLater, knownLater⟩

end Alike

/-- A run has got to know more scopes and blocks. -/
structure Grows (earlier later : View) : Prop where
  shift : later.shift = earlier.shift
  lists : later.lists = earlier.lists
  functions : later.functions = earlier.functions
  scopes : ∀ scope, earlier.scopes scope → later.scopes scope
  marks : ∀ id, earlier.marks id → later.marks id

namespace Grows

variable {earlier middle later : View}

theorem refl (view : View) : view.Grows view :=
  ⟨rfl, rfl, rfl, fun _ known => known, fun _ known => known⟩

theorem trans (first : earlier.Grows middle) (second : middle.Grows later) : earlier.Grows later :=
  ⟨second.shift.trans first.shift, second.lists.trans first.lists,
    second.functions.trans first.functions,
    fun scope known => second.scopes scope (first.scopes scope known),
    fun id known => second.marks id (first.marks id known)⟩

theorem knows (grows : earlier.Grows later) (known : earlier.Knows heap value) :
    later.Knows heap value := by
  cases value with
  | primitive value => trivial
  | object object => exact grows.scopes object known
  | list list =>
      refine ⟨known.1, fun early => ?_⟩
      rw [grows.lists]
      rw [grows.shift] at early
      exact known.2 early
  | function function =>
      refine ⟨known.1, fun early => ?_⟩
      rw [grows.functions]
      rw [grows.shift] at early
      exact known.2 early

theorem knowsCallable (grows : earlier.Grows later) {callable : Callable}
    (known : earlier.KnowsCallable heap callable) : later.KnowsCallable heap callable := by
  cases callable with
  | host function => trivial
  | member receiver method => exact grows.knows known

end Grows

/-- A run gets to know the entries of a scope. -/
def opening (view : View) (scope : ScopeRef) : View :=
  { view with scopes := fun other => other = scope ∨ view.scopes other }

/-- A run gets to know whether a block was left. -/
def marking (view : View) (id : BlockRef) : View :=
  { view with marks := fun other => other = id ∨ view.marks other }

theorem grows_opening (view : View) (scope : ScopeRef) : view.Grows (view.opening scope) :=
  ⟨rfl, rfl, rfl, fun _ => .inr, fun _ known => known⟩

theorem grows_marking (view : View) (id : BlockRef) : view.Grows (view.marking id) :=
  ⟨rfl, rfl, rfl, fun _ known => known, fun _ => .inr⟩

theorem opening_eq {scope : ScopeRef} (known : view.scopes scope) : view.opening scope = view := by
  have same : (fun other => other = scope ∨ view.scopes other) = view.scopes := by
    funext other
    apply propext
    constructor
    · rintro (rfl | isKnown)
      · exact known
      · exact isKnown
    · exact .inr
  unfold opening
  rw [same]

namespace Alike

variable (alike : view.Alike heap other)

include alike

/-- Heaps on which the entries of one scope change alike are alike, also in that scope. -/
theorem modifyEntries {scope : ScopeRef} (present : scope.index < heap.scopes.size)
    (parent : (other.scope scope).parent = (heap.scope scope).parent)
    {change change' : Dictionary String Value → Dictionary String Value}
    (same : change' (other.entries scope) =
      (change (heap.entries scope)).mapValues view.shift.value)
    (areKnown : ∀ value ∈ (change (heap.entries scope)).values,
      (view.opening scope).Knows heap value) :
    (view.opening scope).Alike (heap.modifyEntries scope change)
      (other.modifyEntries scope change') := by
  have grows := view.grows_opening scope
  have presentOther := Nat.lt_of_lt_of_le present alike.scopeCounts
  refine ⟨alike.listCounts, alike.functionCounts, ?_, ?_, ?_, ?_⟩
  · rw [Heap.size_modifyEntries, Heap.size_modifyEntries]
    exact alike.scopeCounts
  · intro list known
    obtain ⟨same, itemsKnown⟩ := alike.items list known
    exact ⟨same, fun item member => (grows.knows (itemsKnown item member)).mono
      (covers_of_scopes heap _)⟩
  · intro function known
    obtain ⟨same, isKnown⟩ := alike.callables function known
    exact ⟨same, (grows.knowsCallable isKnown).mono (covers_of_scopes heap _)⟩
  · intro around known
    rw [Heap.size_modifyEntries, Heap.parent_modifyEntries, Heap.parent_modifyEntries]
    by_cases isSelf : around = scope
    · subst isSelf
      refine ⟨present, parent, ?_, fun value member => ?_⟩
      · rw [Heap.entries, Heap.entries, Heap.scope_modifyEntries_self _ present,
          Heap.scope_modifyEntries_self _ presentOther]
        exact same
      · rw [Heap.entries, Heap.scope_modifyEntries_self _ present] at member
        exact (areKnown value member).mono (covers_of_scopes heap _)
    · obtain ⟨presentAround, parentAround, entries, valuesKnown⟩ :=
        alike.scopes around (known.resolve_left isSelf)
      refine ⟨presentAround, parentAround, ?_, fun value member => ?_⟩
      · rw [Heap.entries, Heap.entries, Heap.scope_modifyEntries_of_ne _ isSelf,
          Heap.scope_modifyEntries_of_ne _ isSelf]
        exact entries
      · rw [Heap.entries, Heap.scope_modifyEntries_of_ne _ isSelf] at member
        exact (grows.knows (valuesKnown value member)).mono (covers_of_scopes heap _)

theorem clear {scope : ScopeRef} (present : scope.index < heap.scopes.size)
    (parent : (other.scope scope).parent = (heap.scope scope).parent) :
    (view.opening scope).Alike (heap.clear scope) (other.clear scope) :=
  alike.modifyEntries present parent rfl fun _ member => nomatch member

theorem put {scope : ScopeRef} (known : view.scopes scope) (name : String)
    (knownValue : view.Knows heap value) :
    view.Alike (heap.put scope name value) (other.put scope name (view.shift.value value)) := by
  obtain ⟨present, parent, entries, valuesKnown⟩ := alike.scopes scope known
  have same : (other.entries scope).put name (view.shift.value value) =
      ((heap.entries scope).put name value).mapValues view.shift.value := by
    rw [entries, Dictionary.mapValues_put]
  have areKnown : ∀ found ∈ ((heap.entries scope).put name value).values,
      (view.opening scope).Knows heap found := by
    rw [opening_eq known]
    intro found member
    rcases Dictionary.mem_values_put member with rfl | earlier
    · exact knownValue
    · exact valuesKnown found earlier
  have changed : (view.opening scope).Alike (heap.put scope name value)
      (other.put scope name (view.shift.value value)) :=
    alike.modifyEntries present parent same areKnown
  rw [opening_eq known] at changed
  exact changed

end Alike

end View

end Stencil
