import Stencil.Proofs.Expression.Changes
import Stencil.Proofs.Heap.Closed
import Stencil.Proofs.Run.Policy

/-!
# Parents of scopes

Scopes are added and their entries change, but the scope around a scope stays what it was when the
scope was made, unless a function of the host says otherwise.
-/

namespace Stencil

variable {η : Type}

namespace Heap

/-- Every scope that was there is there and has the same parent. -/
def KeepsParents (before after : Heap) : Prop :=
  ∀ id : ScopeRef, id.index < before.scopes.size →
    id.index < after.scopes.size ∧ (after.scope id).parent = (before.scope id).parent

variable {before middle after heap : Heap} {id : ScopeRef}

namespace KeepsParents

theorem refl (heap : Heap) : heap.KeepsParents heap := fun _ present => ⟨present, rfl⟩

theorem trans (first : before.KeepsParents middle) (second : middle.KeepsParents after) :
    before.KeepsParents after := by
  intro id present
  obtain ⟨between, same⟩ := first id present
  obtain ⟨later, again⟩ := second id between
  exact ⟨later, again.trans same⟩

theorem of_scopes (same : after.scopes = before.scopes) : before.KeepsParents after := by
  intro id present
  rw [scope, scope, same]
  exact ⟨present, rfl⟩

theorem newScope (heap : Heap) (name : String) (parent : Option ScopeRef) :
    heap.KeepsParents (heap.newScope name parent).2 := by
  intro id present
  have size : (heap.newScope name parent).2.scopes.size = heap.scopes.size + 1 :=
    Array.size_push _
  refine ⟨by omega, ?_⟩
  rw [scope_newScope_of_lt name parent present]

theorem modifyEntries (heap : Heap) (scope : ScopeRef)
    (change : Dictionary String Value → Dictionary String Value) :
    heap.KeepsParents (heap.modifyEntries scope change) := by
  intro id present
  rw [size_modifyEntries, parent_modifyEntries]
  exact ⟨present, rfl⟩

theorem insert (heap : Heap) (scope : ScopeRef) (name : String) (value : Value) :
    heap.KeepsParents (heap.insert scope name value).2 := by
  unfold Heap.insert
  split
  · exact .refl _
  · exact modifyEntries _ _ _

theorem assign (heap : Heap) (scope : ScopeRef) (name : String) (value : Value) :
    heap.KeepsParents (heap.assign scope name value).2 := by
  unfold Heap.assign
  split
  · exact modifyEntries _ _ _
  · exact .refl _

end KeepsParents

theorem entries_modifyEntries_of_ne {other : ScopeRef}
    (change : Dictionary String Value → Dictionary String Value) (different : other ≠ id) :
    (heap.modifyEntries id change).entries other = heap.entries other := by
  rw [entries, entries, scope_modifyEntries_of_ne change different]

theorem entries_of_scopes (same : after.scopes = before.scopes) (id : ScopeRef) :
    after.entries id = before.entries id := by
  rw [entries, entries, scope, scope, same]

/-- A name that a scope has itself means that entry there. -/
theorem lookup?_of_get? {name : String} {value : Value} (present : id.index < heap.scopes.size)
    (found : heap.get? id name = some value) : heap.lookup? id name = some (.entry value) := by
  obtain ⟨fuel, fuels⟩ := Nat.exists_eq_succ_of_ne_zero (Nat.ne_of_gt (Nat.zero_lt_of_lt present))
  rw [lookup?, chain, fuels, Nat.succ_eq_add_one, chainFrom, List.findSome?_cons, memberOf?]
  simp only [found]

theorem get?_insert_of_get? {scope : ScopeRef} {key name : String} {added value : Value}
    (found : heap.get? id name = some value) :
    (heap.insert scope key added).2.get? id name = some value := by
  unfold insert
  split
  · exact found
  · rename_i isNew
    by_cases same : id = scope
    · subst same
      have other : name ≠ key := by
        rintro rfl
        have isKey := Dictionary.get?_isSome_iff.mp (Option.isSome_of_mem found)
        exact isNew (Dictionary.contains_eq_true_iff.mpr isKey)
      exact (get?_put_of_ne added other).trans found
    · rw [get?, put, entries_modifyEntries_of_ne _ same]
      exact found

end Heap

/-- A store may become another one as far as the parents of scopes are concerned. -/
def Store.KeepsParents (before after : Store η) : Prop :=
  before.heap.KeepsParents after.heap

/-- No function of the host changes the parent of a scope. -/
def Host.KeepsParents (host : Host η) : Prop :=
  ∀ code receiver arguments (store : Store η),
    store.KeepsParents (host.call code receiver arguments store).2

/-- No function of the host changes the entries of a scope. -/
def Host.Spares (host : Host η) (scope : ScopeRef) : Prop :=
  ∀ code receiver arguments (store : Store η), scope.index < store.heap.scopes.size →
    (host.call code receiver arguments store).2.heap.entries scope = store.heap.entries scope

theorem Host.keepsParents_none : Host.none.KeepsParents := fun _ _ _ store =>
    Heap.KeepsParents.refl store.heap

theorem Host.spares_none (scope : ScopeRef) : Host.none.Spares scope := fun _ _ _ _ _ => rfl

namespace Store

variable {host : Host η} {before after : Store η} {scope : ScopeRef}

theorem Change.keepsParents (keeps : host.KeepsParents) (change : Change host before after) :
    before.KeepsParents after := by
  cases change with
  | newList isMutable items =>
      refine .of_scopes ?_
      cases isMutable <;> rfl
  | newFunction callable => exact .of_scopes rfl
  | changeList index change => exact .of_scopes rfl
  | call code receiver arguments => exact keeps code receiver arguments before

theorem Change.entries (spares : host.Spares scope) (change : Change host before after)
    (present : scope.index < before.heap.scopes.size) :
    after.heap.entries scope = before.heap.entries scope := by
  cases change with
  | newList isMutable items => cases isMutable <;> rfl
  | newFunction callable => rfl
  | changeList index change => rfl
  | call code receiver arguments => exact spares code receiver arguments before present

theorem Changes.keepsParents (keeps : host.KeepsParents) (changes : Changes host before after) :
    before.KeepsParents after := by
  induction changes with
  | refl => exact .refl _
  | tail _ change induction => exact induction.trans (change.keepsParents keeps)

theorem Changes.entries (keeps : host.KeepsParents) (spares : host.Spares scope)
    (changes : Changes host before after) (present : scope.index < before.heap.scopes.size) :
    after.heap.entries scope = before.heap.entries scope := by
  induction changes with
  | refl => rfl
  | tail earlier change induction =>
      have between := (Changes.keepsParents keeps earlier scope present).1
      exact (change.entries spares between).trans induction

end Store

namespace Policy

/-- The policy that scopes keep their parents. -/
def parents : Policy η where
  holds _ := True
  grows := Store.KeepsParents
  hasScope _ _ := True
  hasValue _ _ := True
  raises _ := True
  mayParse _ := True
  mayMark := True
  mayDefine := True

theorem permissive_parents : (parents : Policy η).Permissive :=
  ⟨fun _ => trivial, trivial, trivial⟩

theorem Works.of_changes {α : Type} {host : Host η} (keeps : host.KeepsParents) (store : Store η)
    {evaluator : Evaluator η α} (changes : evaluator.Changes host) :
    parents.Works store evaluator fun _ _ => True :=
  ⟨⟨trivial, (changes.store store).keepsParents keeps⟩, fun _ _ => trivial, fun _ _ => trivial⟩

theorem lawful_parents {host : Host η} (keeps : host.KeepsParents) :
    (parents : Policy η).Lawful host where
  refl store := Heap.KeepsParents.refl store.heap
  trans _ _ _ first second := Heap.KeepsParents.trans first second
  hasScope_mono _ _ _ _ _ := trivial
  hasValue_mono _ _ _ _ _ := trivial
  raises _ _ := trivial
  primitive _ _ := trivial
  item _ _ _ _ _ := trivial
  newScope store name parent _ _ :=
    ⟨⟨trivial, Heap.KeepsParents.newScope store.heap name parent⟩, trivial⟩
  clear store scope _ _ := ⟨trivial, Heap.KeepsParents.modifyEntries store.heap scope _⟩
  put store scope _ _ _ _ _ := ⟨trivial, Heap.KeepsParents.modifyEntries store.heap scope _⟩
  assign store scope name value _ _ _ :=
    ⟨trivial, Heap.KeepsParents.assign store.heap scope name value⟩
  evaluate store scope expression _ _ := .of_changes keeps store (.evaluate scope expression)
  follow store scope path _ _ := .of_changes keeps store (.followFrom scope none path)

end Policy

end Stencil
