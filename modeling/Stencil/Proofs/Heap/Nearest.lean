import Stencil.Proofs.Heap.Operations

/-!
# The nearest binding of a name

A name is searched for from scope to scope outwards, and it is assigned to where the same way
outwards first leads to it.  The way ends, since every scope is newer than the one around it.
Members that all objects have stand in the way of entries further out: a look-up stops at the scope
that it begins in, while an assignment goes on.
-/

namespace Stencil

namespace Heap

/-- A scope, the one around it, and so on, up to one that is in no other. -/
inductive Trail (heap : Heap) : ScopeRef → List ScopeRef → Prop where
  | outermost (id : ScopeRef) (last : (heap.scope id).parent = none) : Trail heap id [id]
  | inner (id parent : ScopeRef) (trail : List ScopeRef)
      (around : (heap.scope id).parent = some parent) (rest : Trail heap parent trail) :
      Trail heap id (id :: trail)

/-- The search for a name, from a scope outwards, ends with what it has found. -/
inductive Finds (heap : Heap) (name : String) : ScopeRef → Option Binding → Prop where
  | entry (id : ScopeRef) (value : Value) (own : heap.get? id name = some value) :
      Finds heap name id (some (.entry value))
  | member (id : ScopeRef) (method : Member) (free : heap.get? id name = none)
      (listed : Member.lookup? .object name = some method) :
      Finds heap name id (some (.member (.object id) method))
  | nowhere (id : ScopeRef) (free : heap.get? id name = none)
      (unlisted : Member.lookup? .object name = none) (last : (heap.scope id).parent = none) :
      Finds heap name id none
  | outwards (id parent : ScopeRef) (found : Option Binding) (free : heap.get? id name = none)
      (unlisted : Member.lookup? .object name = none)
      (around : (heap.scope id).parent = some parent) (rest : Finds heap name parent found) :
      Finds heap name id found

/-- The first scope on a way outwards that has a key. -/
def Nearest (heap : Heap) (trail : List ScopeRef) (key : String) (scope : ScopeRef) : Prop :=
  ∃ inner outer, trail = inner ++ scope :: outer ∧
    (∀ other ∈ inner, heap.get? other key = none) ∧ (heap.get? scope key).isSome = true

variable {heap after : Heap} {id scope : ScopeRef} {trail : List ScopeRef} {key : String}
  {value : Value} {found other : Option Binding}

theorem Rooted.trail_chainFrom (rooted : heap.Rooted) (fuel : Nat)
    (present : id.index < heap.scopes.size) (enough : id.index < fuel) :
    heap.Trail id (heap.chainFrom fuel (some id)) := by
  induction fuel generalizing id with
  | zero => cases enough
  | succ fuel induction =>
      rw [chainFrom]
      cases around : (heap.scope id).parent with
      | none =>
          have ended : heap.chainFrom fuel none = [] := by cases fuel <;> rfl
          rw [ended]
          exact .outermost id around
      | some parent =>
          have older := rooted id parent present around
          exact .inner id parent _ around (induction (by omega) (by omega))

theorem Rooted.trail_chain (rooted : heap.Rooted) (present : id.index < heap.scopes.size) :
    heap.Trail id (heap.chain id) :=
  rooted.trail_chainFrom heap.scopes.size present present

theorem Rooted.of_parents (rooted : heap.Rooted) (size : after.scopes.size = heap.scopes.size)
    (same : ∀ scope, (after.scope scope).parent = (heap.scope scope).parent) : after.Rooted := by
  intro id parent
  rw [size, same]
  exact rooted id parent

theorem Trail.unique {others : List ScopeRef} (first : heap.Trail id trail)
    (second : heap.Trail id others) : trail = others := by
  induction first generalizing others with
  | outermost id last =>
      cases second with
      | outermost => rfl
      | inner _ parent _ around => cases last.symm.trans around
  | inner id parent trail around rest induction =>
      cases second with
      | outermost _ last => cases around.symm.trans last
      | inner _ parent' _ around' rest' =>
          obtain rfl := Option.some.inj (around.symm.trans around')
          rw [induction rest']

theorem Trail.of_parents (leads : heap.Trail id trail)
    (same : ∀ scope, (after.scope scope).parent = (heap.scope scope).parent) :
    after.Trail id trail := by
  induction leads with
  | outermost id last => exact .outermost id ((same id).trans last)
  | inner id parent trail around _ induction =>
      exact .inner id parent trail ((same id).trans around) induction

theorem Trail.head? (leads : heap.Trail id trail) : trail.head? = some id := by
  cases leads <;> rfl

theorem memberOf?_of_some (own : heap.get? id key = some value) :
    heap.memberOf? (.object id) key = some (.entry value) := by
  simp only [memberOf?, own]

theorem memberOf?_of_none (free : heap.get? id key = none) :
    heap.memberOf? (.object id) key = (Member.lookup? .object key).map (.member (.object id)) := by
  simp only [memberOf?, free, Value.kind]

/-- Along the whole way, the search finds what the first scope with such a name has. -/
theorem Trail.finds (leads : heap.Trail id trail) (name : String) :
    heap.Finds name id (trail.findSome? fun scope => heap.memberOf? (.object scope) name) := by
  induction leads with
  | outermost id last =>
      rw [List.findSome?_cons]
      cases own : heap.get? id name with
      | some value =>
          rw [memberOf?_of_some own]
          exact .entry id value own
      | none =>
          rw [memberOf?_of_none own]
          cases listed : Member.lookup? .object name with
          | some method => exact .member id method own listed
          | none => exact .nowhere id own listed last
  | inner id parent trail around rest induction =>
      rw [List.findSome?_cons]
      cases own : heap.get? id name with
      | some value =>
          rw [memberOf?_of_some own]
          exact .entry id value own
      | none =>
          rw [memberOf?_of_none own]
          cases listed : Member.lookup? .object name with
          | some method => exact .member id method own listed
          | none => exact .outwards id parent _ own listed around induction

theorem Finds.eq_findSome? (finds : heap.Finds key id found) (leads : heap.Trail id trail) :
    found = trail.findSome? fun scope => heap.memberOf? (.object scope) key := by
  induction finds generalizing trail with
  | entry id value own =>
      cases leads <;> rw [List.findSome?_cons, memberOf?_of_some own]
  | member id method free listed =>
      cases leads <;> rw [List.findSome?_cons, memberOf?_of_none free, listed] <;> rfl
  | nowhere id free unlisted last =>
      cases leads with
      | outermost => rw [List.findSome?_cons, memberOf?_of_none free, unlisted]; rfl
      | inner _ parent _ around => cases last.symm.trans around
  | outwards id parent found free unlisted around rest induction =>
      cases leads with
      | outermost _ last => cases around.symm.trans last
      | inner _ parent' trail around' rest' =>
          obtain rfl := Option.some.inj (around.symm.trans around')
          rw [List.findSome?_cons, memberOf?_of_none free, unlisted]
          exact induction rest'

theorem Rooted.finds_iff (rooted : heap.Rooted) (present : id.index < heap.scopes.size) :
    heap.Finds key id found ↔ found = heap.lookup? id key := by
  have leads := rooted.trail_chain present
  constructor
  · exact fun finds => finds.eq_findSome? leads
  · rintro rfl
    exact leads.finds key

/-- An assignment goes to the nearest scope that has the key. -/
theorem find?_contains_iff :
    (trail.find? fun scope => heap.contains scope key) = some scope ↔
      heap.Nearest trail key scope := by
  simp only [List.find?_eq_some_iff_append, contains_eq_isSome, Nearest, Bool.not_eq_true',
    Option.isSome_eq_false_iff, Option.isNone_iff_eq_none]
  constructor
  · rintro ⟨own, inner, outer, split, free⟩
    exact ⟨inner, outer, split, free, own⟩
  · rintro ⟨inner, outer, split, free, own⟩
    exact ⟨own, inner, outer, split, free⟩

theorem exists_nearest_iff :
    (∃ scope, heap.Nearest trail key scope) ↔
        ∃ scope ∈ trail, (heap.get? scope key).isSome = true := by
  simp only [← find?_contains_iff, ← Option.isSome_iff_exists, List.find?_isSome,
    contains_eq_isSome]

theorem Nearest.isSome_get? (nearest : heap.Nearest trail key scope) :
    (heap.get? scope key).isSome = true := by
  obtain ⟨_, _, _, _, own⟩ := nearest
  exact own

theorem Nearest.of_get? (nearest : heap.Nearest trail key scope)
    (same : ∀ other ∈ trail, other ≠ scope → after.get? other key = heap.get? other key)
    (own : after.get? scope key = some value) : after.Nearest trail key scope := by
  obtain ⟨inner, outer, rfl, free, isThere⟩ := nearest
  refine ⟨inner, outer, rfl, fun other member => ?_, Option.isSome_of_mem own⟩
  rw [same other (List.mem_append_left _ member), free other member]
  rintro rfl
  rw [free other member] at isThere
  cases isThere

/-- The scope that the way begins in is passed by if the nearest one is another. -/
theorem Nearest.get?_start (nearest : heap.Nearest trail key scope) (leads : heap.Trail id trail)
    (further : scope ≠ id) : heap.get? id key = none := by
  obtain ⟨inner, outer, rfl, free, -⟩ := nearest
  have begins := leads.head?
  cases inner with
  | nil => exact absurd (Option.some.inj begins) further
  | cons first inner =>
      obtain rfl : first = id := Option.some.inj begins
      exact free first List.mem_cons_self

/-- The names of the members that all objects have. -/
def objectNames : List String := ["getType", "toString", "contains"]

theorem lookup?_object_isSome_iff :
    (Member.lookup? .object key).isSome = true ↔ key ∈ objectNames := by
  constructor
  · intro found
    obtain ⟨method, listed⟩ := Option.isSome_iff_exists.mp found
    obtain ⟨rfl, isKind⟩ := Member.lookup?_eq_some_iff.mp listed
    revert isKind
    cases method <;> decide
  · intro member
    simp only [objectNames, List.mem_cons, List.not_mem_nil, or_false] at member
    rcases member with rfl | rfl | rfl <;> rfl

theorem lookup?_object_of_not_mem (ordinary : key ∉ objectNames) :
    Member.lookup? .object key = none := by
  rw [← Option.not_isSome_iff_eq_none, lookup?_object_isSome_iff]
  exact ordinary

theorem lookup?_object_of_mem {method : Member} (isName : method.name = key)
    (special : key ∈ objectNames) : Member.lookup? .object key = some method := by
  obtain ⟨other, listed⟩ := Option.isSome_iff_exists.mp (lookup?_object_isSome_iff.mpr special)
  have same := (Member.lookup?_eq_some_iff.mp listed).1
  rw [listed, Option.some.inj ((Member.ofName?_eq_some_iff.mpr same).symm.trans
    (Member.ofName?_eq_some_iff.mpr isName))]

section

variable (rooted : heap.Rooted) (present : id.index < heap.scopes.size)
  (leads : heap.Trail id trail)

include rooted present leads

theorem lookup?_eq_findSome? :
    heap.lookup? id key = trail.findSome? fun scope => heap.memberOf? (.object scope) key := by
  rw [leads.unique (rooted.trail_chain present)]
  rfl

theorem lookup?_of_nearest (ordinary : key ∉ objectNames) (nearest : heap.Nearest trail key scope)
    (own : heap.get? scope key = some value) : heap.lookup? id key = some (.entry value) := by
  obtain ⟨inner, outer, split, free, -⟩ := nearest
  rw [lookup?_eq_findSome? rooted present leads]
  refine List.findSome?_eq_some_iff.mpr ⟨inner, scope, outer, split, memberOf?_of_some own, ?_⟩
  intro other member
  rw [memberOf?_of_none (free other member), lookup?_object_of_not_mem ordinary]
  rfl

theorem lookup?_of_missing (ordinary : key ∉ objectNames)
    (missing : ∀ scope ∈ trail, heap.get? scope key = none) : heap.lookup? id key = none := by
  rw [lookup?_eq_findSome? rooted present leads]
  refine List.findSome?_eq_none_iff.mpr fun other member => ?_
  rw [memberOf?_of_none (missing other member), lookup?_object_of_not_mem ordinary]
  rfl

theorem lookup?_of_member {method : Member} (isName : method.name = key)
    (special : key ∈ objectNames) (free : heap.get? id key = none) :
    heap.lookup? id key = some (.member (.object id) method) := by
  have here := memberOf?_of_none free
  rw [lookup?_object_of_mem isName special] at here
  rw [lookup?_eq_findSome? rooted present leads]
  cases leads <;> rw [List.findSome?_cons, here] <;> rfl

end

theorem assign_of_nearest (rooted : heap.Rooted) (present : id.index < heap.scopes.size)
    (leads : heap.Trail id trail) (nearest : heap.Nearest trail key scope) (value : Value) :
    heap.assign id key value = (true, heap.put scope key value) := by
  have found := find?_contains_iff.mpr nearest
  rw [leads.unique (rooted.trail_chain present)] at found
  rw [assign, found]

theorem assign_eq_true_iff (rooted : heap.Rooted) (present : id.index < heap.scopes.size)
    (leads : heap.Trail id trail) : (heap.assign id key value).1 = true ↔
      ∃ scope ∈ trail, (heap.get? scope key).isSome = true := by
  rw [← exists_nearest_iff]
  constructor
  · intro assigned
    unfold assign at assigned
    split at assigned
    · rename_i scope found
      rw [← leads.unique (rooted.trail_chain present), find?_contains_iff] at found
      exact ⟨scope, found⟩
    · cases assigned
  · rintro ⟨scope, nearest⟩
    rw [assign_of_nearest rooted present leads nearest]

/-- What a look-up from where an assignment began finds afterwards. -/
theorem lookup?_assign (rooted : heap.Rooted) (present : id.index < heap.scopes.size)
    (leads : heap.Trail id trail) (nearest : heap.Nearest trail key scope) (value : Value) :
    (key ∉ objectNames ∨ scope = id →
      (heap.put scope key value).lookup? id key = some (.entry value)) ∧
    ∀ method : Member, method.name = key → key ∈ objectNames → scope ≠ id →
      (heap.put scope key value).lookup? id key = some (.member (.object id) method) := by
  obtain ⟨old, isOld⟩ := Option.isSome_iff_exists.mp nearest.isSome_get?
  have isThere := lt_of_get? isOld
  have alters := AltersEntries.put isThere key value
  have own : (heap.put scope key value).get? scope key = some value :=
    get?_put_self key value isThere
  have same (other : ScopeRef) (different : other ≠ scope) :
      (heap.put scope key value).get? other key = heap.get? other key := by
    rw [get?, entries_put_of_ne key value different]
    rfl
  have presentAfter : id.index < (heap.put scope key value).scopes.size := by
    rw [alters.size]
    exact present
  have leadsAfter := leads.of_parents (alters.part_eq Scope.parent fun _ _ => rfl)
  have rootedAfter := rooted.of_parents alters.size (alters.part_eq Scope.parent fun _ _ => rfl)
  refine ⟨?_, fun method isName special further => ?_⟩
  · rintro (ordinary | rfl)
    · have nearestAfter := nearest.of_get? (fun other _ => same other) own
      exact lookup?_of_nearest rootedAfter presentAfter leadsAfter ordinary nearestAfter own
    · exact lookup?_of_get? presentAfter own
  · apply lookup?_of_member rootedAfter presentAfter leadsAfter isName special
    rw [same id (Ne.symm further)]
    exact nearest.get?_start leads further

/-- A look-up and an assignment of a key go the same way outwards, which ends. -/
theorem lookups_see_assignments {name : String} {operations : List ScopeOperation}
    (history : (ofGlobal name).Performs operations heap) (present : id.index < heap.scopes.size)
    (key : String) :
    ∃ trail, heap.Trail id trail ∧
      (∀ found, heap.Finds key id found ↔ found = heap.lookup? id key) ∧
      (key ∉ objectNames →
        (∀ scope value, heap.Nearest trail key scope → heap.get? scope key = some value →
          heap.lookup? id key = some (.entry value)) ∧
        ((∀ scope ∈ trail, heap.get? scope key = none) → heap.lookup? id key = none)) ∧
      (∀ method : Member, method.name = key → key ∈ objectNames →
        (∀ value, heap.get? id key = some value → heap.lookup? id key = some (.entry value)) ∧
        (heap.get? id key = none →
          heap.lookup? id key = some (.member (.object id) method))) ∧
      ∀ value, let assigned := heap.assign id key value
        (assigned.1 = true ↔ ∃ scope ∈ trail, (heap.get? scope key).isSome = true) ∧
        (assigned.1 = false → assigned.2 = heap) ∧
        ∀ scope, heap.Nearest trail key scope →
          heap.AltersEntries scope assigned.2 ∧
          (∃ front back old, (heap.entries scope).entries = front ++ (key, old) :: back ∧
            (assigned.2.entries scope).entries = front ++ (key, value) :: back) ∧
          (key ∉ objectNames ∨ scope = id →
            assigned.2.lookup? id key = some (.entry value)) ∧
          ∀ method : Member, method.name = key → key ∈ objectNames → scope ≠ id →
            assigned.2.lookup? id key = some (.member (.object id) method) := by
  have rooted := history.rooted (rooted_ofGlobal name)
  have leads := rooted.trail_chain present
  refine ⟨_, leads, fun found => rooted.finds_iff present, fun ordinary => ⟨?_, ?_⟩,
    fun method isName special => ⟨?_, ?_⟩, fun value => ?_⟩
  · exact fun scope value => lookup?_of_nearest rooted present leads ordinary
  · exact lookup?_of_missing rooted present leads ordinary
  · exact fun value => lookup?_of_get? present
  · exact lookup?_of_member rooted present leads isName special
  · refine ⟨assign_eq_true_iff rooted present leads, fun refuses => ?_, fun scope nearest => ?_⟩
    · exact (ScopeOperation.does_assign id key value).refused (.inl (congrArg _ refuses))
    · obtain ⟨old, isOld⟩ := Option.isSome_iff_exists.mp nearest.isSome_get?
      obtain ⟨front, back, split⟩ := Dictionary.exists_split isOld
      have isThere := lt_of_get? isOld
      rw [assign_of_nearest rooted present leads nearest]
      exact ⟨.put isThere key value, ⟨front, back, old, split, entries_put_of_split isThere split⟩,
        lookup?_assign rooted present leads nearest value⟩

/-- A scope in a scope that counts, in a global scope with an entry called as a member. -/
def nestedScopes : Heap :=
  (((((ofGlobal "Global").put .global "toString" (.int 0)).newScope "outer"
    (some .global)).2.put ⟨1⟩
    "count" (.int 1)).newScope "inner" (some ⟨1⟩)).2

theorem lookups_see_assignments_nestedScopes :
    (nestedScopes.assign ⟨2⟩ "count" (.int 5)).2.lookup? ⟨2⟩ "count" = some (.entry (.int 5)) ∧
    (nestedScopes.assign ⟨2⟩ "toString" (.int 5)).1 = true ∧
    (nestedScopes.assign ⟨2⟩ "toString" (.int 5)).2.lookup? ⟨2⟩ "toString" =
      some (.member (.object ⟨2⟩) .toString) := by
  have history : (ofGlobal "Global").Performs
      [.put .global "toString" (.int 0), .create "outer" (some .global), .put ⟨1⟩ "count" (.int 1),
        .create "inner" (some ⟨1⟩)] nestedScopes :=
    .step (.step (.step (.step .refl (.put .global "toString" (.int 0)) (by decide))
      (.create "outer" (some .global)) (by decide)) (.put ⟨1⟩ "count" (.int 1)) (by decide))
      (.create "inner" (some ⟨1⟩)) (by decide)
  have outwards : nestedScopes.Trail ⟨2⟩ [⟨2⟩, ⟨1⟩, .global] :=
    .inner _ _ _ rfl (.inner _ _ _ rfl (.outermost _ rfl))
  have present : (⟨2⟩ : ScopeRef).index < nestedScopes.scopes.size := by decide
  constructor
  · obtain ⟨trail, leads, -, -, -, assigns⟩ := lookups_see_assignments history present "count"
    obtain rfl := leads.unique outwards
    have nearest : nestedScopes.Nearest [⟨2⟩, ⟨1⟩, .global] "count" ⟨1⟩ :=
      ⟨[⟨2⟩], [.global], rfl, by decide, by decide⟩
    obtain ⟨-, -, seen, -⟩ := (assigns (.int 5)).2.2 ⟨1⟩ nearest
    exact seen (.inl (by decide))
  · obtain ⟨trail, leads, -, -, -, assigns⟩ := lookups_see_assignments history present "toString"
    obtain rfl := leads.unique outwards
    have nearest : nestedScopes.Nearest [⟨2⟩, ⟨1⟩, .global] "toString" .global :=
      ⟨[⟨2⟩, ⟨1⟩], [], rfl, by decide, by decide⟩
    obtain ⟨-, -, -, hidden⟩ := (assigns (.int 5)).2.2 .global nearest
    exact ⟨(assigns (.int 5)).1.mpr ⟨.global, by decide, by decide⟩,
      hidden .toString rfl (by decide) (by decide)⟩

end Heap

end Stencil
