import Stencil.Proofs.Heap.Parents

/-!
# Scopes that are left alone, and scopes that are revised

Functions of the host that write to no scope leave every scope that is there as it is.  A scope is
revised if its keys stay in place, and only certain ones get other values or are added at the end.
-/

namespace Stencil

/-- What becomes of a dictionary whose keys stay in place, if only certain keys get other values and
only certain keys are added, after all others. -/
structure Dictionary.Revised {κ υ : Type} [DecidableEq κ] (mayReplace mayAdd : κ → Prop)
    (before after : Dictionary κ υ) : Prop where
  keys : ∃ added, after.keys = before.keys ++ added ∧ ∀ key ∈ added, mayAdd key
  values : ∀ key value, before.get? key = some value →
    after.get? key = some value ∨ mayReplace key

namespace Dictionary.Revised

variable {κ υ : Type} [DecidableEq κ] {mayReplace mayAdd : κ → Prop}
  {dictionary before middle after : Dictionary κ υ} {key : κ} {value : υ}

theorem refl (dictionary : Dictionary κ υ) : Revised mayReplace mayAdd dictionary dictionary :=
  ⟨⟨[], (List.append_nil _).symm, fun _ member => nomatch member⟩, fun _ _ found => .inl found⟩

theorem trans (first : Revised mayReplace mayAdd before middle)
    (second : Revised mayReplace mayAdd middle after) : Revised mayReplace mayAdd before after := by
  constructor
  · obtain ⟨added, keys, may⟩ := first.keys
    obtain ⟨later, keysLater, mayLater⟩ := second.keys
    refine ⟨added ++ later, ?_, fun key member => ?_⟩
    · rw [keysLater, keys, List.append_assoc]
    · rcases List.mem_append.mp member with inFirst | inSecond
      · exact may key inFirst
      · exact mayLater key inSecond
  · intro key value found
    rcases first.values key value found with kept | may
    · exact second.values key value kept
    · exact .inr may

theorem mono {mayReplace' mayAdd' : κ → Prop} (revised : Revised mayReplace mayAdd before after)
    (replaces : ∀ key, mayReplace key → mayReplace' key)
    (adds : ∀ key, mayAdd key → mayAdd' key) : Revised mayReplace' mayAdd' before after := by
  obtain ⟨⟨added, keys, may⟩, values⟩ := revised
  refine ⟨⟨added, keys, fun key member => adds key (may key member)⟩, fun key value found => ?_⟩
  exact (values key value found).imp_right (replaces key)

theorem put_of_contains (present : dictionary.contains key = true) (may : mayReplace key) :
    Revised mayReplace mayAdd dictionary (dictionary.put key value) := by
  refine ⟨⟨[], ?_, fun _ member => nomatch member⟩, fun other found isFound => ?_⟩
  · rw [keys_put_of_contains present, List.append_nil]
  · by_cases same : other = key
    · exact .inr (same ▸ may)
    · rw [get?_put_of_ne _ _ same]
      exact .inl isFound

theorem put_of_not_contains (absent : dictionary.contains key = false) (may : mayAdd key) :
    Revised mayReplace mayAdd dictionary (dictionary.put key value) := by
  refine ⟨⟨[key], keys_put_of_not_contains absent, ?_⟩, fun other found isFound => ?_⟩
  · intro other member
    exact (List.mem_singleton.mp member) ▸ may
  · have different : other ≠ key := by
      rintro rfl
      have member := get?_isSome_iff.mp (Option.isSome_of_mem isFound)
      rw [contains_eq_true_iff.mpr member] at absent
      cases absent
    rw [get?_put_of_ne _ _ different]
    exact .inl isFound

/-- A dictionary to which nothing may be added keeps its keys. -/
theorem keys_eq (revised : Revised mayReplace (fun _ => False) before after) :
    after.keys = before.keys := by
  obtain ⟨added, keys, may⟩ := revised.keys
  cases added with
  | nil => rw [keys, List.append_nil]
  | cons key added => exact (may key List.mem_cons_self).elim

end Dictionary.Revised

namespace Heap

variable {before middle after heap : Heap} {mayReplace mayAdd : String → Prop} {id scope : ScopeRef}
  {name : String} {value : Value}

/-- Every scope that was there is there, as it was. -/
def KeepsScopes (before after : Heap) : Prop :=
  ∀ id : ScopeRef, id.index < before.scopes.size →
    id.index < after.scopes.size ∧ after.scope id = before.scope id

namespace KeepsScopes

theorem refl (heap : Heap) : heap.KeepsScopes heap := fun _ present => ⟨present, rfl⟩

theorem trans (first : before.KeepsScopes middle) (second : middle.KeepsScopes after) :
    before.KeepsScopes after := by
  intro id present
  obtain ⟨between, same⟩ := first id present
  obtain ⟨later, again⟩ := second id between
  exact ⟨later, again.trans same⟩

theorem of_scopes (same : after.scopes = before.scopes) : before.KeepsScopes after := by
  intro id present
  rw [Heap.scope, Heap.scope, same]
  exact ⟨present, rfl⟩

theorem keepsParents (keeps : before.KeepsScopes after) : before.KeepsParents after := by
  intro id present
  obtain ⟨later, same⟩ := keeps id present
  exact ⟨later, congrArg Scope.parent same⟩

end KeepsScopes

theorem entries_put_self (present : id.index < heap.scopes.size) :
    (heap.put id name value).entries id = (heap.entries id).put name value := by
  rw [put, entries, scope_modifyEntries_self _ present]

/-- An assignment revises each scope by the assigned name. -/
theorem revised_assign (heap : Heap) (id scope : ScopeRef) (may : mayReplace name)
    (present : scope.index < heap.scopes.size) :
    Dictionary.Revised mayReplace mayAdd (heap.entries scope)
      ((heap.assign id name value).2.entries scope) := by
  unfold assign
  split
  · rename_i target found
    by_cases same : scope = target
    · subst same
      have has : heap.contains scope name = true := by simpa using List.find?_some found
      change Dictionary.Revised _ _ _ ((heap.put scope name value).entries scope)
      rw [entries_put_self present]
      exact .put_of_contains has may
    · rw [put, entries_modifyEntries_of_ne _ same]
      exact .refl _
  · exact .refl _

/-- A declaration revises its own scope by the declared name. -/
theorem revised_insert (heap : Heap) (id : ScopeRef) (may : mayAdd name)
    (present : id.index < heap.scopes.size) :
    Dictionary.Revised mayReplace mayAdd (heap.entries id)
      ((heap.insert id name value).2.entries id) := by
  unfold insert
  split
  · exact .refl _
  · rename_i isNew
    change Dictionary.Revised _ _ _ ((heap.put id name value).entries id)
    rw [entries_put_self present]
    exact .put_of_not_contains (Bool.eq_false_iff.mpr isNew) may

theorem scope_assign_of_not_mem (away : scope ∉ heap.chain id) :
    (heap.assign id name value).2.scope scope = heap.scope scope := by
  unfold assign
  split
  · rename_i target found
    have different : scope ≠ target := fun same => away (same ▸ List.mem_of_find?_eq_some found)
    exact scope_modifyEntries_of_ne _ different
  · rfl

theorem scope_insert_of_ne (different : scope ≠ id) :
    (heap.insert id name value).2.scope scope = heap.scope scope := by
  unfold insert
  split
  · rfl
  · exact scope_modifyEntries_of_ne _ different

end Heap

variable {η : Type}

/-- The functions of the host write to no scope that is there. -/
def Host.KeepsScopes (host : Host η) : Prop :=
  ∀ code receiver arguments (store : Store η),
    store.heap.KeepsScopes (host.call code receiver arguments store).2.heap

namespace Host

variable {host : Host η}

theorem KeepsScopes.keepsParents (keeps : host.KeepsScopes) : host.KeepsParents :=
  fun code receiver arguments store => (keeps code receiver arguments store).keepsParents

theorem KeepsScopes.spares (keeps : host.KeepsScopes) (scope : ScopeRef) : host.Spares scope :=
  fun code receiver arguments store present =>
    congrArg Scope.entries (keeps code receiver arguments store scope present).2

theorem keepsScopes_none : Host.none.KeepsScopes :=
  fun _ _ _ store => Heap.KeepsScopes.refl store.heap

end Host

namespace Store

variable {host : Host η} {before after : Store η}

theorem Change.keepsScopes (keeps : host.KeepsScopes) (change : Change host before after) :
    before.heap.KeepsScopes after.heap := by
  cases change with
  | newList isMutable items =>
      refine .of_scopes ?_
      cases isMutable <;> rfl
  | newFunction callable => exact .of_scopes rfl
  | changeList index change => exact .of_scopes rfl
  | call code receiver arguments => exact keeps code receiver arguments before

theorem Changes.keepsScopes (keeps : host.KeepsScopes) (changes : Changes host before after) :
    before.heap.KeepsScopes after.heap := by
  induction changes with
  | refl => exact .refl _
  | tail _ change induction => exact induction.trans (change.keepsScopes keeps)

end Store

end Stencil
