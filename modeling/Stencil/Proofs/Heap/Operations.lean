import Stencil.Proofs.Heap.Objects
import Stencil.Proofs.Heap.Parents

/-!
# Operations on scopes

All that is ever done to scopes is done by nine operations.  Each is about the entries of one scope,
which it keeps in the order in which their keys came; an operation that refuses leaves everything as
it was; and a scope stays inside the one that it was made in, which is an older one.
-/

namespace Stencil

/-- Something that is done to scopes. -/
inductive ScopeOperation where
  | create (name : String) (parent : Option ScopeRef)
  | put (scope : ScopeRef) (key : String) (value : Value)
  | insert (scope : ScopeRef) (key : String) (value : Value)
  | set (scope : ScopeRef) (key : String) (value : Value)
  | assign (scope : ScopeRef) (key : String) (value : Value)
  | rename (scope : ScopeRef) (old new : String)
  | remove (scope : ScopeRef) (key : String)
  | clear (scope : ScopeRef)
  | addObject (scope : ScopeRef) (key : String)

/-- What an operation answers. -/
inductive ScopeAnswer where
  | done
  | whether (succeeded : Bool)
  | removed (value : Option Value)
  | made (scope : ScopeRef)
deriving DecidableEq

/-- The answers of operations that do nothing. -/
def ScopeAnswer.Refuses (answer : ScopeAnswer) : Prop :=
  answer = .whether false ∨ answer = .removed none

/-- A key is written into entries: in place if it is there, and after all others if not. -/
inductive Dictionary.Puts {κ υ : Type} (key : κ) (value : υ) :
    List (κ × υ) → List (κ × υ) → Prop where
  | inPlace (front back : List (κ × υ)) (old : υ) :
      Puts key value (front ++ (key, old) :: back) (front ++ (key, value) :: back)
  | last (entries : List (κ × υ)) (absent : key ∉ entries.map Prod.fst) :
      Puts key value entries (entries ++ [(key, value)])

namespace ScopeOperation

/-- Carries out an operation. -/
def perform (operation : ScopeOperation) (heap : Heap) : ScopeAnswer × Heap :=
  match operation with
  | create name parent => Prod.map .made id (heap.newScope name parent)
  | put scope key value => (.done, heap.put scope key value)
  | insert scope key value => Prod.map .whether id (heap.insert scope key value)
  | set scope key value => Prod.map .whether id (heap.set scope key value)
  | assign scope key value => Prod.map .whether id (heap.assign scope key value)
  | rename scope old new => Prod.map .whether id (heap.rename scope old new)
  | remove scope key => Prod.map .removed id (heap.remove scope key)
  | clear scope => (.done, heap.clear scope)
  | addObject scope key => Prod.map .made id (heap.addObject scope key)

/-- The scopes that an operation is given. -/
def scopes : ScopeOperation → List ScopeRef
  | create _ parent => parent.toList
  | put scope _ _ | insert scope _ _ | set scope _ _ | assign scope _ _ | rename scope _ _
  | remove scope _ | clear scope | addObject scope _ => [scope]

/-- The scopes that an operation is given are there. -/
def Valid (operation : ScopeOperation) (heap : Heap) : Prop :=
  ∀ scope ∈ operation.scopes, scope.index < heap.scopes.size

instance (operation : ScopeOperation) (heap : Heap) : Decidable (operation.Valid heap) :=
  inferInstanceAs (Decidable (∀ scope ∈ operation.scopes, scope.index < heap.scopes.size))

/-- The scope whose entries an operation is about. -/
def place (operation : ScopeOperation) (heap : Heap) : ScopeRef :=
  match operation with
  | create _ _ => ⟨heap.scopes.size⟩
  | assign scope key _ => ((heap.chain scope).find? (heap.contains · key)).getD scope
  | put scope _ _ | insert scope _ _ | set scope _ _ | rename scope _ _ | remove scope _
  | clear scope | addObject scope _ => scope

/-- What an operation makes of the entries that it is about, and what it answers. -/
inductive Turns : ScopeOperation → List (String × Value) → ScopeAnswer → List (String × Value) →
    Prop where
  | create (name : String) (parent : Option ScopeRef) (made : ScopeRef) :
      Turns (create name parent) [] (.made made) []
  | put (scope : ScopeRef) (key : String) (value : Value) (before after : List (String × Value))
      (puts : Dictionary.Puts key value before after) :
        Turns (put scope key value) before .done after
  | insert (scope : ScopeRef) (key : String) (value : Value) (entries : List (String × Value))
      (absent : key ∉ entries.map Prod.fst) :
      Turns (insert scope key value) entries (.whether true) (entries ++ [(key, value)])
  | notInserted (scope : ScopeRef) (key : String) (value : Value) (entries : List (String × Value))
      (present : key ∈ entries.map Prod.fst) :
      Turns (insert scope key value) entries (.whether false) entries
  | set (scope : ScopeRef) (key : String) (value old : Value) (front back : List (String × Value)) :
      Turns (set scope key value) (front ++ (key, old) :: back) (.whether true)
        (front ++ (key, value) :: back)
  | notSet (scope : ScopeRef) (key : String) (value : Value) (entries : List (String × Value))
      (absent : key ∉ entries.map Prod.fst) :
      Turns (set scope key value) entries (.whether false) entries
  | assign (scope : ScopeRef) (key : String) (value old : Value)
      (front back : List (String × Value)) :
      Turns (assign scope key value) (front ++ (key, old) :: back) (.whether true)
        (front ++ (key, value) :: back)
  | notAssigned (scope : ScopeRef) (key : String) (value : Value) (entries : List (String × Value))
      (absent : key ∉ entries.map Prod.fst) :
      Turns (assign scope key value) entries (.whether false) entries
  | rename (scope : ScopeRef) (old new : String) (value : Value)
      (front back : List (String × Value))
      (absent : new ∉ (front ++ (old, value) :: back).map Prod.fst) :
      Turns (rename scope old new) (front ++ (old, value) :: back) (.whether true)
        (front ++ back ++ [(new, value)])
  | notRenamed (scope : ScopeRef) (old new : String) (entries : List (String × Value))
      (either : new ∈ entries.map Prod.fst ∨ old ∉ entries.map Prod.fst) :
      Turns (rename scope old new) entries (.whether false) entries
  | remove (scope : ScopeRef) (key : String) (value : Value) (front back : List (String × Value)) :
      Turns (remove scope key) (front ++ (key, value) :: back) (.removed (some value))
        (front ++ back)
  | notRemoved (scope : ScopeRef) (key : String) (entries : List (String × Value))
      (absent : key ∉ entries.map Prod.fst) :
      Turns (remove scope key) entries (.removed none) entries
  | clear (scope : ScopeRef) (entries : List (String × Value)) :
      Turns (clear scope) entries .done []
  | addObject (scope object : ScopeRef) (key : String) (before after : List (String × Value))
      (puts : Dictionary.Puts key (.object object) before after) :
      Turns (addObject scope key) before (.made object) after

/-- An operation makes a scope with a name and a parent. -/
inductive Makes : ScopeOperation → String → Option ScopeRef → Prop where
  | create (name : String) (parent : Option ScopeRef) : Makes (create name parent) name parent
  | addObject (scope : ScopeRef) (key : String) : Makes (addObject scope key) key (some scope)

/-- An operation is to move an object under another key. -/
def Moves (operation : ScopeOperation) (heap : Heap) (object : ScopeRef) (new : String) : Prop :=
  ∃ scope old, operation = .rename scope old new ∧ heap.get? scope old = some (.object object)

/-- What an operation does to a heap. -/
structure Does (operation : ScopeOperation) (heap : Heap) (answer : ScopeAnswer) (after : Heap) :
    Prop where
  entries : operation.Turns (heap.entries (operation.place heap)).entries answer
    (after.entries (operation.place heap)).entries
  others : ∀ other, other ≠ operation.place heap → after.entries other = heap.entries other
  refused : answer.Refuses → after = heap
  names : ∀ other : ScopeRef, other.index < heap.scopes.size →
    (after.scope other).name = (heap.scope other).name ∨
      answer = .whether true ∧ operation.Moves heap other (after.scope other).name
  moved : ∀ (object : ScopeRef) new, answer = .whether true → operation.Moves heap object new →
    object.index < heap.scopes.size → (after.scope object).name = new
  parents : heap.KeepsParents after
  scopes : after.scopes.size = heap.scopes.size ∨
    after.scopes.size = heap.scopes.size + 1 ∧ answer = .made ⟨heap.scopes.size⟩ ∧
      ∃ name parent, operation.Makes name parent ∧ after.scope ⟨heap.scopes.size⟩ = { name, parent }
  rest : after.lists = heap.lists ∧ after.functions = heap.functions

end ScopeOperation

/-- Operations are carried out one after the other, on scopes that are there.  What becomes of lists
and functions in between is left open. -/
inductive Heap.Performs (heap : Heap) : List ScopeOperation → Heap → Prop where
  | refl : Performs heap [] heap
  | step {operations : List ScopeOperation} {middle : Heap}
      (earlier : Performs heap operations middle)
      (operation : ScopeOperation) (valid : operation.Valid middle) :
      Performs heap (operations ++ [operation]) (operation.perform middle).2
  | aside {operations : List ScopeOperation} {middle after : Heap}
      (earlier : Performs heap operations middle) (same : after.scopes = middle.scopes) :
      Performs heap operations after

namespace Dictionary

variable {κ υ : Type} {dictionary : Dictionary κ υ} {key : κ} {value old : υ}
  {front back : List (κ × υ)}

/-- What stands before and behind the entry of a key has other keys. -/
theorem not_mem_of_split (split : dictionary.entries = front ++ (key, old) :: back) :
    key ∉ front.map Prod.fst ∧ key ∉ back.map Prod.fst := by
  have distinct := dictionary.nodup
  rw [split, List.map_append, List.map_cons] at distinct
  obtain ⟨-, behind, apart⟩ := List.nodup_append.mp distinct
  constructor
  · intro member
    exact apart key member key List.mem_cons_self rfl
  · exact (List.nodup_cons.mp behind).1

variable [DecidableEq κ]

theorem exists_split (found : dictionary.get? key = some value) :
    ∃ front back, dictionary.entries = front ++ (key, value) :: back :=
  List.append_of_mem (get?_eq_some_iff.mp found)

theorem map_replaceEntry_of_not_mem {entries : List (κ × υ)} (absent : key ∉ entries.map Prod.fst) :
    entries.map (replaceEntry key value) = entries := by
  have each : ∀ entry ∈ entries, replaceEntry key value entry = entry := by
    intro entry member
    rw [replaceEntry, if_neg]
    rintro rfl
    exact absent (List.mem_map_of_mem member)
  exact (List.map_congr_left each).trans (List.map_id entries)

theorem filter_key_of_not_mem {entries : List (κ × υ)} (absent : key ∉ entries.map Prod.fst) :
    entries.filter (fun entry => entry.1 ≠ key) = entries := by
  apply List.filter_eq_self.mpr
  intro entry member
  apply decide_eq_true
  rintro rfl
  exact absent (List.mem_map_of_mem member)

/-- A key that is there gets another value in place. -/
theorem entries_put_of_split (split : dictionary.entries = front ++ (key, old) :: back) :
    (dictionary.put key value).entries = front ++ (key, value) :: back := by
  obtain ⟨before, behind⟩ := not_mem_of_split split
  have present : dictionary.contains key = true := by
    simp [contains_eq_true_iff, keys, split]
  have here : replaceEntry key value (key, old) = (key, value) := if_pos rfl
  rw [put, dif_pos present]
  change dictionary.entries.map (replaceEntry key value) = _
  rw [split, List.map_append, List.map_cons, here, map_replaceEntry_of_not_mem before,
    map_replaceEntry_of_not_mem behind]

/-- A key that is not there is added after all others. -/
theorem entries_put_of_not_mem (absent : key ∉ dictionary.keys) :
    (dictionary.put key value).entries = dictionary.entries ++ [(key, value)] := by
  rw [put, dif_neg (mt contains_eq_true_iff.mp absent)]
  rfl

/-- Without one key the others keep their order. -/
theorem entries_erase_of_split (split : dictionary.entries = front ++ (key, old) :: back) :
    (dictionary.erase key).entries = front ++ back := by
  obtain ⟨before, behind⟩ := not_mem_of_split split
  change dictionary.entries.filter _ = _
  rw [split, List.filter_append, List.filter_cons, filter_key_of_not_mem before,
    filter_key_of_not_mem behind]
  simp

theorem puts_put (dictionary : Dictionary κ υ) (key : κ) (value : υ) :
    Puts key value dictionary.entries (dictionary.put key value).entries := by
  cases found : dictionary.get? key with
  | some old =>
      obtain ⟨front, back, split⟩ := exists_split found
      rw [entries_put_of_split split, split]
      exact .inPlace front back old
  | none =>
      have absent := get?_eq_none_iff.mp found
      rw [entries_put_of_not_mem absent]
      exact .last _ absent

end Dictionary

namespace Heap

variable {heap after : Heap} {place : ScopeRef}

/-- Nothing changes but the entries of one scope. -/
structure AltersEntries (heap : Heap) (place : ScopeRef) (after : Heap) : Prop where
  others : ∀ other, other ≠ place → after.scope other = heap.scope other
  here : after.scope place = { heap.scope place with entries := after.entries place }
  size : after.scopes.size = heap.scopes.size
  rest : after.lists = heap.lists ∧ after.functions = heap.functions

namespace AltersEntries

theorem modifyEntries (present : place.index < heap.scopes.size)
    (change : Dictionary String Value → Dictionary String Value) :
    heap.AltersEntries place (heap.modifyEntries place change) := by
  refine ⟨fun other => scope_modifyEntries_of_ne change, ?_, size_modifyEntries _ _ _, rfl, rfl⟩
  rw [entries, scope_modifyEntries_self change present]

theorem put (present : place.index < heap.scopes.size) (key : String) (value : Value) :
    heap.AltersEntries place (heap.put place key value) :=
  modifyEntries present _

/-- Whatever is no entry of the scope stays as it is. -/
theorem part_eq {α : Type} (alters : heap.AltersEntries place after) (part : Scope → α)
    (noEntry : ∀ scope entries, part { scope with entries } = part scope) (other : ScopeRef) :
    part (after.scope other) = part (heap.scope other) := by
  by_cases same : other = place
  · rw [same, alters.here, noEntry]
  · rw [alters.others other same]

theorem name_eq (alters : heap.AltersEntries place after) (other : ScopeRef) :
    (after.scope other).name = (heap.scope other).name :=
  alters.part_eq Scope.name (fun _ _ => rfl) other

theorem keepsParents (alters : heap.AltersEntries place after) : heap.KeepsParents after := by
  intro other present
  rw [alters.size]
  exact ⟨present, alters.part_eq Scope.parent (fun _ _ => rfl) other⟩

end AltersEntries

variable {id : ScopeRef} {key : String} {value old : Value} {front back : List (String × Value)}

theorem entries_modifyEntries_self (change : Dictionary String Value → Dictionary String Value)
    (present : id.index < heap.scopes.size) :
    (heap.modifyEntries id change).entries id = change (heap.entries id) := by
  rw [entries, scope_modifyEntries_self change present]

theorem puts_put (present : id.index < heap.scopes.size) (key : String) (value : Value) :
    Dictionary.Puts key value (heap.entries id).entries
      ((heap.put id key value).entries id).entries := by
  rw [put, entries_modifyEntries_self _ present]
  exact Dictionary.puts_put _ _ _

theorem entries_put_of_split (present : id.index < heap.scopes.size)
    (split : (heap.entries id).entries = front ++ (key, old) :: back) :
    ((heap.put id key value).entries id).entries = front ++ (key, value) :: back := by
  rw [put, entries_modifyEntries_self _ present, Dictionary.entries_put_of_split split]

theorem entries_put_of_not_mem (present : id.index < heap.scopes.size)
    (absent : key ∉ (heap.entries id).keys) :
    ((heap.put id key value).entries id).entries = (heap.entries id).entries ++ [(key, value)] := by
  rw [put, entries_modifyEntries_self _ present, Dictionary.entries_put_of_not_mem absent]

theorem entries_erase_of_split (present : id.index < heap.scopes.size)
    (split : (heap.entries id).entries = front ++ (key, old) :: back) :
    ((heap.modifyEntries id (·.erase key)).entries id).entries = front ++ back := by
  rw [entries_modifyEntries_self _ present, Dictionary.entries_erase_of_split split]

theorem entries_newScope (heap : Heap) (name : String) (parent : Option ScopeRef)
    (other : ScopeRef) : (heap.newScope name parent).2.entries other = heap.entries other := by
  simp only [entries, scope, newScope, Array.getD_eq_getD_getElem?, Array.getElem?_push]
  split
  · rename_i isNew
    rw [isNew, Array.getElem?_eq_none (Nat.le_refl _)]
    rfl
  · rfl

/-- A value that is an object gets a name. -/
def entitle (heap : Heap) (value : Value) (name : String) : Heap :=
  match value with
  | .object object => heap.setName object name
  | _ => heap

theorem scope_setName (heap : Heap) (object : ScopeRef) (name : String) (other : ScopeRef) :
    (heap.setName object name).scope other =
      if object = other ∧ other.index < heap.scopes.size then { heap.scope other with name }
      else heap.scope other := by
  obtain ⟨index⟩ := object
  obtain ⟨place⟩ := other
  simp only [setName, scope, Array.getD_eq_getD_getElem?, Array.getElem?_modify, ScopeRef.mk.injEq]
  by_cases same : index = place
  · by_cases present : place < heap.scopes.size
    · simp [same, present]
    · simp [same, present]
  · simp [same]

theorem scope_entitle (heap : Heap) (value : Value) (name : String) (other : ScopeRef) :
    (heap.entitle value name).scope other =
      if value = .object other ∧ other.index < heap.scopes.size then { heap.scope other with name }
      else heap.scope other := by
  cases value with
  | object object =>
      rw [entitle, scope_setName]
      simp only [Value.object.injEq]
  | primitive value => exact (if_neg fun both => nomatch both.1).symm
  | list list => exact (if_neg fun both => nomatch both.1).symm
  | function function => exact (if_neg fun both => nomatch both.1).symm

theorem size_entitle (heap : Heap) (value : Value) (name : String) :
    (heap.entitle value name).scopes.size = heap.scopes.size := by
  cases value with
  | object object => simp [entitle, setName]
  | _ => rfl

theorem entries_entitle (heap : Heap) (value : Value) (name : String) (other : ScopeRef) :
    (heap.entitle value name).entries other = heap.entries other := by
  rw [entries, scope_entitle]
  split <;> rfl

theorem keepsParents_entitle (heap : Heap) (value : Value) (name : String) :
    heap.KeepsParents (heap.entitle value name) := by
  intro other present
  rw [size_entitle, scope_entitle]
  refine ⟨present, ?_⟩
  split <;> rfl

/-- A successful rename takes the old key away, names an object after the new key, and puts the
value there. -/
theorem rename_eq {new : String} (taken : ¬heap.contains id new = true)
    (found : heap.get? id key = some value) : heap.rename id key new =
      (true, ((heap.modifyEntries id (·.erase key)).entitle value new).put id new value) := by
  rw [rename, if_neg taken, found]
  cases value <;> rfl

theorem lt_of_get? (found : heap.get? id key = some value) : id.index < heap.scopes.size := by
  apply Decidable.of_not_not
  intro absent
  have nothing : heap.scope id = default := by
    simp [scope, Array.getElem?_eq_none (Nat.le_of_not_lt absent)]
  rw [get?, entries, nothing] at found
  cases found

theorem exists_get?_of_contains (contains : heap.contains id key = true) :
    ∃ value, heap.get? id key = some value := by
  rw [contains_eq_isSome] at contains
  exact Option.isSome_iff_exists.mp contains

theorem mem_keys_of_contains (contains : heap.contains id key = true) :
    key ∈ (heap.entries id).keys :=
  Dictionary.contains_eq_true_iff.mp contains

theorem not_mem_keys_of_not_contains (absent : ¬heap.contains id key = true) :
    key ∉ (heap.entries id).keys :=
  mt Dictionary.contains_eq_true_iff.mpr absent

theorem not_mem_keys_of_get? (absent : heap.get? id key = none) :
    key ∉ (heap.entries id).keys :=
  Dictionary.get?_eq_none_iff.mp absent

/-- A key that no scope of a chain has is not in the scope where the chain begins. -/
theorem not_mem_keys_of_find? (absent : (heap.chain id).find? (heap.contains · key) = none) :
    key ∉ (heap.entries id).keys := by
  apply not_mem_keys_of_not_contains
  intro contains
  obtain ⟨value, found⟩ := exists_get?_of_contains contains
  obtain ⟨others, isSize⟩ := Nat.exists_eq_add_one.mpr (Nat.zero_lt_of_lt (lt_of_get? found))
  have isFirst : id ∈ heap.chain id := by
    rw [chain, isSize, chainFrom]
    exact List.mem_cons_self
  exact List.find?_eq_none.mp absent id isFirst contains

end Heap

namespace ScopeAnswer

theorem not_refuses_done : ¬done.Refuses := by
  simp [Refuses]

theorem not_refuses_true : ¬(whether true).Refuses := by
  simp [Refuses]

theorem not_refuses_removed (value : Value) : ¬(removed (some value)).Refuses := by
  simp [Refuses]

theorem not_refuses_made (scope : ScopeRef) : ¬(made scope).Refuses := by
  simp [Refuses]

end ScopeAnswer

namespace ScopeOperation

variable {heap after : Heap} {operation : ScopeOperation} {answer : ScopeAnswer} {scope : ScopeRef}

namespace Does

/-- An operation that changes entries of its scope only, and moves no object. -/
theorem of_alters (alters : heap.AltersEntries (operation.place heap) after)
    (turns : operation.Turns (heap.entries (operation.place heap)).entries answer
      (after.entries (operation.place heap)).entries)
    (succeeds : ¬answer.Refuses) (still : ∀ scope old new, operation ≠ .rename scope old new) :
    operation.Does heap answer after where
  entries := turns
  others other different := congrArg Scope.entries (alters.others other different)
  refused refuses := absurd refuses succeeds
  names other _ := .inl (alters.name_eq other)
  moved object new _ moves := by
    obtain ⟨scope, old, isRename, -⟩ := moves
    exact absurd isRename (still scope old new)
  parents := alters.keepsParents
  scopes := .inl alters.size
  rest := alters.rest

/-- An operation that refuses. -/
theorem of_refuses (refuses : answer.Refuses)
    (turns : operation.Turns (heap.entries (operation.place heap)).entries answer
      (heap.entries (operation.place heap)).entries) : operation.Does heap answer heap where
  entries := turns
  others _ _ := rfl
  refused _ := rfl
  names _ _ := .inl rfl
  moved object new succeeded := by
    rcases refuses with same | same <;> cases same.symm.trans succeeded
  parents := .refl heap
  scopes := .inl rfl
  rest := ⟨rfl, rfl⟩

end Does

variable (present : scope.index < heap.scopes.size)

include present

theorem does_put (key : String) (value : Value) :
    (put scope key value).Does heap .done (heap.put scope key value) := by
  refine .of_alters (.put present key value) ?_ ScopeAnswer.not_refuses_done
    fun _ _ _ => ScopeOperation.noConfusion
  exact .put _ _ _ _ _ (Heap.puts_put present key value)

theorem does_insert (key : String) (value : Value) :
    (insert scope key value).Does heap (.whether (heap.insert scope key value).1)
      (heap.insert scope key value).2 := by
  by_cases taken : heap.contains scope key = true
  · rw [Heap.insert, if_pos taken]
    exact .of_refuses (.inl rfl) (.notInserted _ _ _ _ (Heap.mem_keys_of_contains taken))
  · have absent := Heap.not_mem_keys_of_not_contains taken
    rw [Heap.insert, if_neg taken]
    refine .of_alters (.put present key value) ?_ ScopeAnswer.not_refuses_true
      fun _ _ _ => ScopeOperation.noConfusion
    rw [place, Heap.entries_put_of_not_mem present absent]
    exact .insert _ _ _ _ absent

theorem does_set (key : String) (value : Value) :
    (set scope key value).Does heap (.whether (heap.set scope key value).1)
      (heap.set scope key value).2 := by
  by_cases there : heap.contains scope key = true
  · obtain ⟨old, found⟩ := Heap.exists_get?_of_contains there
    obtain ⟨front, back, split⟩ := Dictionary.exists_split found
    rw [Heap.set, if_pos there]
    refine .of_alters (.put present key value) ?_ ScopeAnswer.not_refuses_true
      fun _ _ _ => ScopeOperation.noConfusion
    rw [place, Heap.entries_put_of_split present split, split]
    exact .set _ _ _ _ _ _
  · rw [Heap.set, if_neg there]
    exact .of_refuses (.inl rfl) (.notSet _ _ _ _ (Heap.not_mem_keys_of_not_contains there))

theorem does_remove (key : String) :
    (remove scope key).Does heap (.removed (heap.remove scope key).1)
      (heap.remove scope key).2 := by
  unfold Heap.remove
  cases found : heap.get? scope key with
  | none => exact .of_refuses (.inr rfl) (.notRemoved _ _ _ (Heap.not_mem_keys_of_get? found))
  | some value =>
      obtain ⟨front, back, split⟩ := Dictionary.exists_split found
      change (remove scope key).Does heap (.removed (some value))
        (heap.modifyEntries scope (·.erase key))
      refine .of_alters (.modifyEntries present _) ?_ (ScopeAnswer.not_refuses_removed value)
        fun _ _ _ => ScopeOperation.noConfusion
      rw [place, Heap.entries_erase_of_split present split, split]
      exact .remove _ _ _ _ _

theorem does_clear : (clear scope).Does heap .done (heap.clear scope) := by
  refine .of_alters (.modifyEntries present _) ?_ ScopeAnswer.not_refuses_done
    fun _ _ _ => ScopeOperation.noConfusion
  rw [place, Heap.entries_clear scope present]
  exact .clear _ _

omit present

theorem does_assign (scope : ScopeRef) (key : String) (value : Value) :
    (assign scope key value).Does heap (.whether (heap.assign scope key value).1)
      (heap.assign scope key value).2 := by
  unfold Heap.assign
  cases found : (heap.chain scope).find? (heap.contains · key) with
  | none =>
      have isScope : (assign scope key value).place heap = scope := by
        rw [place, found, Option.getD_none]
      refine .of_refuses (.inl rfl) (.notAssigned _ _ _ _ ?_)
      rw [isScope]
      exact Heap.not_mem_keys_of_find? found
  | some nearest =>
      have isNearest : (assign scope key value).place heap = nearest := by
        rw [place, found, Option.getD_some]
      have there : heap.contains nearest key = true := by simpa using List.find?_some found
      obtain ⟨old, isOld⟩ := Heap.exists_get?_of_contains there
      obtain ⟨front, back, split⟩ := Dictionary.exists_split isOld
      have present := Heap.lt_of_get? isOld
      refine .of_alters ?_ ?_ ScopeAnswer.not_refuses_true
        fun _ _ _ => ScopeOperation.noConfusion
      · rw [isNearest]
        exact .put present key value
      · rw [isNearest, Heap.entries_put_of_split present split, split]
        exact .assign _ _ _ _ _ _

theorem does_create (name : String) (parent : Option ScopeRef) :
    (create name parent).Does heap (.made (heap.newScope name parent).1)
      (heap.newScope name parent).2 where
  entries := by
    have nothing : (heap.entries ⟨heap.scopes.size⟩).entries = [] := by
      rw [Heap.entries, Heap.scope, Array.getD_eq_getD_getElem?,
        Array.getElem?_eq_none (Nat.le_refl _)]
      rfl
    rw [place, Heap.entries_newScope, nothing]
    exact .create _ _ _
  others other _ := heap.entries_newScope name parent other
  refused refuses := absurd refuses (ScopeAnswer.not_refuses_made _)
  names other present := .inl (congrArg Scope.name (Heap.scope_newScope_of_lt _ _ present))
  moved _ _ succeeded := ScopeAnswer.noConfusion succeeded
  parents := .newScope heap name parent
  scopes := .inr ⟨Array.size_push _, rfl, name, parent, .create _ _,
    heap.scope_newScope_self name parent⟩
  rest := ⟨rfl, rfl⟩

variable (present : scope.index < heap.scopes.size)

include present

theorem does_addObject (key : String) :
    (addObject scope key).Does heap (.made (heap.addObject scope key).1)
      (heap.addObject scope key).2 := by
  have size : (heap.newScope key (some scope)).2.scopes.size = heap.scopes.size + 1 :=
    Array.size_push _
  have later : scope.index < (heap.newScope key (some scope)).2.scopes.size := by omega
  have alters := Heap.AltersEntries.put later key (.object ⟨heap.scopes.size⟩)
  constructor
  · have puts := Heap.puts_put later key (.object ⟨heap.scopes.size⟩)
    rw [Heap.entries_newScope] at puts
    exact .addObject _ _ _ _ _ puts
  · intro other different
    exact (congrArg Scope.entries (alters.others other different)).trans
      (heap.entries_newScope _ _ _)
  · exact fun refuses => absurd refuses (ScopeAnswer.not_refuses_made _)
  · intro other isThere
    refine .inl ((alters.name_eq other).trans ?_)
    rw [Heap.scope_newScope_of_lt _ _ isThere]
  · exact fun _ _ succeeded => ScopeAnswer.noConfusion succeeded
  · exact (Heap.KeepsParents.newScope heap key (some scope)).trans alters.keepsParents
  · refine .inr ⟨alters.size.trans size, rfl, key, some scope, .addObject _ _, ?_⟩
    rw [← heap.scope_newScope_self key (some scope)]
    apply alters.others
    rintro rfl
    exact Nat.lt_irrefl _ present
  · exact ⟨rfl, rfl⟩

/-- A value that is there moves to the end under a new key. -/
theorem does_rename_of_free {old new : String} {value : Value}
    (taken : ¬heap.contains scope new = true) (found : heap.get? scope old = some value) :
    (rename scope old new).Does heap (.whether true)
      (((heap.modifyEntries scope (·.erase old)).entitle value new).put scope new value) := by
  obtain ⟨front, back, split⟩ := Dictionary.exists_split found
  have absent := Heap.not_mem_keys_of_not_contains taken
  rw [Dictionary.keys, split] at absent
  let erased := heap.modifyEntries scope (·.erase old)
  let named := erased.entitle value new
  have erases : heap.AltersEntries scope erased := .modifyEntries present _
  have size : named.scopes.size = heap.scopes.size :=
    (Heap.size_entitle erased value new).trans erases.size
  have later : scope.index < named.scopes.size := by omega
  have puts : named.AltersEntries scope (named.put scope new value) := .put later new value
  have name (other : ScopeRef) : ((named.put scope new value).scope other).name =
      if value = .object other ∧ other.index < heap.scopes.size then new
      else (heap.scope other).name := by
    rw [puts.name_eq, Heap.scope_entitle, ← erases.name_eq other, erases.size]
    split <;> rfl
  constructor
  · have remain : (named.entries scope).entries = front ++ back := by
      rw [Heap.entries_entitle, Heap.entries_erase_of_split present split]
    rw [place, split, Heap.entries_put_of_not_mem later, remain]
    · exact .rename _ _ _ _ _ _ absent
    · rw [Dictionary.keys, remain]
      intro member
      apply absent
      simp only [List.map_append, List.map_cons, List.mem_append, List.mem_cons] at member ⊢
      exact member.imp_right .inr
  · intro other different
    have kept := congrArg Scope.entries (puts.others other different)
    exact (kept.trans (Heap.entries_entitle erased value new other)).trans
      (congrArg Scope.entries (erases.others other different))
  · exact fun refuses => absurd refuses ScopeAnswer.not_refuses_true
  · intro other isThere
    by_cases isObject : value = .object other
    · refine .inr ⟨rfl, scope, old, ?_, isObject ▸ found⟩
      rw [name other, if_pos ⟨isObject, isThere⟩]
    · exact .inl ((name other).trans (if_neg fun both => isObject both.1))
  · rintro object _ - ⟨_, _, ⟨⟩, isObject⟩ isThere
    rw [found] at isObject
    exact (name object).trans (if_pos ⟨Option.some.inj isObject, isThere⟩)
  · exact (erases.keepsParents.trans (Heap.keepsParents_entitle erased value new)).trans
      puts.keepsParents
  · exact .inl (puts.size.trans size)
  · have rest : named.lists = heap.lists ∧ named.functions = heap.functions := by
      cases value <;> exact ⟨rfl, rfl⟩
    exact rest

theorem does_rename (old new : String) :
    (rename scope old new).Does heap (.whether (heap.rename scope old new).1)
      (heap.rename scope old new).2 := by
  by_cases taken : heap.contains scope new = true
  · rw [Heap.rename, if_pos taken]
    exact .of_refuses (.inl rfl) (.notRenamed _ _ _ _ (.inl (Heap.mem_keys_of_contains taken)))
  · cases found : heap.get? scope old with
    | none =>
        rw [Heap.rename, if_neg taken, found]
        exact .of_refuses (.inl rfl) (.notRenamed _ _ _ _ (.inr (Heap.not_mem_keys_of_get? found)))
    | some value =>
        rw [Heap.rename_eq taken found]
        exact does_rename_of_free present taken found

omit present

theorem does_perform (valid : operation.Valid heap) :
    operation.Does heap (operation.perform heap).1 (operation.perform heap).2 := by
  cases operation with
  | create name parent => exact does_create name parent
  | put scope key value => exact does_put (valid scope List.mem_cons_self) key value
  | insert scope key value => exact does_insert (valid scope List.mem_cons_self) key value
  | set scope key value => exact does_set (valid scope List.mem_cons_self) key value
  | assign scope key value => exact does_assign scope key value
  | rename scope old new => exact does_rename (valid scope List.mem_cons_self) old new
  | remove scope key => exact does_remove (valid scope List.mem_cons_self) key
  | clear scope => exact does_clear (valid scope List.mem_cons_self)
  | addObject scope key => exact does_addObject (valid scope List.mem_cons_self) key

/-- The parent that an operation gives to a new scope is one that it was given. -/
theorem Makes.lt {name : String} {parent : ScopeRef} (makes : operation.Makes name (some parent))
    (valid : operation.Valid heap) : parent.index < heap.scopes.size := by
  cases makes with
  | create => exact valid parent List.mem_cons_self
  | addObject => exact valid parent List.mem_cons_self

end ScopeOperation

namespace Heap

variable {heap middle after later : Heap} {operations more : List ScopeOperation}

/-- Every scope that has a parent is newer than it. -/
def Rooted (heap : Heap) : Prop :=
  ∀ id parent : ScopeRef, id.index < heap.scopes.size → (heap.scope id).parent = some parent →
    parent.index < id.index

theorem rooted_ofGlobal (name : String) : (ofGlobal name).Rooted := by
  rintro ⟨index⟩ parent present isParent
  have only : index = 0 := Nat.lt_one_iff.mp present
  rw [only] at isParent
  cases isParent

theorem Rooted.perform (rooted : heap.Rooted) {operation : ScopeOperation}
    (valid : operation.Valid heap) : (operation.perform heap).2.Rooted := by
  have does := ScopeOperation.does_perform valid
  intro id parent present isParent
  by_cases isThere : id.index < heap.scopes.size
  · exact rooted id parent isThere ((does.parents id isThere).2.symm.trans isParent)
  · rcases does.scopes with same | ⟨grown, -, name, around, makes, isNew⟩
    · omega
    · -- The only scope that was not there is the one that the operation made.
      obtain rfl : id = ⟨heap.scopes.size⟩ := by
        obtain ⟨index⟩ := id
        congr 1
        dsimp only at isThere present
        omega
      rw [isNew] at isParent
      obtain rfl : around = some parent := isParent
      exact makes.lt valid

namespace Performs

theorem rooted (history : heap.Performs operations after) (begins : heap.Rooted) :
    after.Rooted := by
  induction history with
  | refl => exact begins
  | step earlier operation valid induction => exact induction.perform valid
  | aside earlier same induction =>
      intro id parent
      rw [scope, same]
      exact induction id parent

theorem keepsParents (history : heap.Performs operations after) : heap.KeepsParents after := by
  induction history with
  | refl => exact .refl _
  | step earlier operation valid induction =>
      exact induction.trans (ScopeOperation.does_perform valid).parents
  | aside earlier same induction => exact induction.trans (.of_scopes same)

end Performs

/-- Whatever is done to scopes, their keys stay distinct and in their order, scopes stay inside
older ones, and each operation does what it says to the entries of one scope. -/
theorem scopes_stay_ordered {name : String}
    (history : (ofGlobal name).Performs operations heap) :
    (∀ id, (heap.entries id).keys.Nodup) ∧ heap.Rooted ∧
    (∀ more later, heap.Performs more later → heap.KeepsParents later) ∧
    ∀ operation : ScopeOperation, operation.Valid heap →
      operation.Does heap (operation.perform heap).1 (operation.perform heap).2 :=
  ⟨fun id => (heap.entries id).nodup_keys, history.rooted (rooted_ofGlobal name),
    fun _ _ continues => continues.keepsParents, fun _ => ScopeOperation.does_perform⟩

/-- An object that has an entry for itself, and one more. -/
def selfHolding : Heap :=
  (((ofGlobal "Global").addObject .global "node").2.put ⟨1⟩ "self" (.object ⟨1⟩)).put ⟨1⟩ "size"
    (.int 1)

theorem scopes_stay_ordered_selfHolding :
    (selfHolding.entries ⟨1⟩).keys = ["self", "size"] ∧
    ((selfHolding.rename ⟨1⟩ "self" "me").2.entries ⟨1⟩).keys = ["size", "me"] ∧
    ((selfHolding.rename ⟨1⟩ "self" "me").2.scope ⟨1⟩).name = "me" ∧
    (selfHolding.rename ⟨1⟩ "self" "size").2 = selfHolding := by
  have history : (ofGlobal "Global").Performs
      [.addObject .global "node", .put ⟨1⟩ "self" (.object ⟨1⟩), .put ⟨1⟩ "size" (.int 1)]
      selfHolding :=
    .step (.step (.step .refl (.addObject .global "node") (by decide))
      (.put ⟨1⟩ "self" (.object ⟨1⟩)) (by decide)) (.put ⟨1⟩ "size" (.int 1)) (by decide)
  obtain ⟨-, -, -, does⟩ := scopes_stay_ordered history
  have renames := does (.rename ⟨1⟩ "self" "me") (by decide)
  have refuses := does (.rename ⟨1⟩ "self" "size") (by decide)
  refine ⟨by decide, by decide, ?_, refuses.refused (.inl (by decide))⟩
  have isObject : selfHolding.get? ⟨1⟩ "self" = some (.object ⟨1⟩) := by decide
  exact renames.moved ⟨1⟩ "me" (by decide) ⟨⟨1⟩, "self", rfl, isObject⟩ (by decide)

end Heap

end Stencil
