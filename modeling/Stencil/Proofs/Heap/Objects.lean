import Mathlib.Data.List.Basic
import Mathlib.Logic.Function.Basic
import Stencil.Proofs.Heap.Closed
import Stencil.Proofs.Heap.Equality

/-!
# Which objects are equal

Two objects compare as equal if both have entries, the same keys, and under each key values that
are equal.  The order of the keys has no part in it: of all that was done to the entries of an
object, only the values that the keys have in the end matter.
-/

namespace Stencil

namespace Dictionary

variable {κ υ : Type} [DecidableEq κ] {dictionary : Dictionary κ υ} {key : κ} {value : υ}

theorem get?_eq_some_iff :
    dictionary.get? key = some value ↔ (key, value) ∈ dictionary.entries := by
  constructor
  · intro found
    obtain ⟨entry, isEntry, rfl⟩ := Option.map_eq_some_iff.mp found
    have isKey : entry.1 = key := by simpa using List.find?_some isEntry
    rw [← isKey]
    exact List.mem_of_find?_eq_some isEntry
  · intro member
    have present : key ∈ dictionary.keys := List.mem_map_of_mem member
    obtain ⟨other, found⟩ := Option.isSome_iff_exists.mp (get?_isSome_iff.mpr present)
    obtain ⟨entry, isEntry, rfl⟩ := Option.map_eq_some_iff.mp found
    have isKey : entry.1 = key := by simpa using List.find?_some isEntry
    have same : entry = (key, value) :=
      List.inj_on_of_nodup_map dictionary.nodup (List.mem_of_find?_eq_some isEntry) member isKey
    rw [found, same]

theorem get?_eq_none_iff : dictionary.get? key = none ↔ key ∉ dictionary.keys := by
  rw [← get?_isSome_iff, Option.not_isSome_iff_eq_none]

theorem isEmpty_eq_false_iff :
    dictionary.isEmpty = false ↔ ∃ key, (dictionary.get? key).isSome = true := by
  simp only [get?_isSome_iff]
  rw [← List.isEmpty_eq_false_iff_exists_mem, keys, List.isEmpty_map]
  rfl

end Dictionary

namespace Heap

variable {heap : Heap} {left middle right : ScopeRef}

/-- The same keys have values, and the values under one key have one content. -/
def SameValues (heap : Heap) (left right : String → Option Value) : Prop :=
  ∀ key, Option.Rel heap.Same (left key) (right key)

theorem SameValues.symm {left right : String → Option Value} (same : heap.SameValues left right) :
    heap.SameValues right left := by
  intro key
  have here := same key
  generalize left key = first at here ⊢
  generalize right key = second at here ⊢
  cases here with
  | some values => exact .some values.symm
  | none => exact .none

theorem SameValues.trans {left middle right : String → Option Value}
    (first : heap.SameValues left middle) (second : heap.SameValues middle right) :
    heap.SameValues left right := by
  intro key
  have here := first key
  have next := second key
  generalize left key = start at here ⊢
  generalize middle key = between at here next
  generalize right key = final at next ⊢
  cases here with
  | none => exact next
  | some values =>
      cases next with
      | some nextValues => exact .some (values.trans nextValues)

/-- Some key has a value. -/
def HasValues (values : String → Option Value) : Prop :=
  ∃ key, (values key).isSome = true

theorem SameValues.hasValues {left right : String → Option Value}
    (same : heap.SameValues left right) (some : HasValues left) : HasValues right := by
  obtain ⟨key, found⟩ := some
  have here := same key
  apply Exists.intro key
  generalize left key = first at here found
  generalize right key = second at here ⊢
  cases here with
  | some _ => rfl
  | none => contradiction

theorem entriesWithin_iff {left right : Dictionary String Value} :
    heap.entriesWithin left right = true ↔
      ∀ key value, left.get? key = some value →
        ∃ other, right.get? key = some other ∧ heap.Same value other := by
  simp only [entriesWithin, List.all_eq_true, Option.any_eq_true, equal_iff_same,
    Dictionary.get?_eq_some_iff, Prod.forall]

theorem sameValues_iff {left right : Dictionary String Value} :
    heap.SameValues left.get? right.get? ↔
      left.size = right.size ∧ heap.entriesWithin left right = true := by
  rw [entriesWithin_iff]
  constructor
  · intro same
    have keys (key : String) : key ∈ left.keys ↔ key ∈ right.keys := by
      rw [← Dictionary.get?_isSome_iff, ← Dictionary.get?_isSome_iff]
      have here := same key
      generalize left.get? key = first at here ⊢
      generalize right.get? key = second at here ⊢
      cases here <;> simp
    have permuted := (List.perm_ext_iff_of_nodup left.nodup_keys right.nodup_keys).mpr keys
    constructor
    · simpa [Dictionary.keys, Dictionary.size] using permuted.length_eq
    · intro key value found
      have here := same key
      rw [found] at here
      generalize right.get? key = answer at here ⊢
      cases here with
      | some values => exact ⟨_, rfl, values⟩
  · rintro ⟨sizes, within⟩ key
    have included : left.keys ⊆ right.keys := by
      intro key member
      obtain ⟨value, found⟩ := Option.isSome_iff_exists.mp (Dictionary.get?_isSome_iff.mpr member)
      obtain ⟨other, isOther, -⟩ := within key value found
      exact Dictionary.get?_isSome_iff.mp (Option.isSome_of_mem isOther)
    have lengths : right.keys.length ≤ left.keys.length := by
      simpa [Dictionary.keys, Dictionary.size] using Nat.le_of_eq sizes.symm
    -- As many distinct keys as on the right, all among those: they are all of them.
    have permuted := (left.nodup_keys.subperm included).perm_of_length_le lengths
    cases found : left.get? key with
    | some value =>
        obtain ⟨other, isOther, values⟩ := within key value found
        rw [isOther]
        exact .some values
    | none =>
        rw [Dictionary.get?_eq_none_iff, permuted.mem_iff, ← Dictionary.get?_eq_none_iff] at found
        rw [found]
        exact .none

theorem objectOrder_eq_iff :
    heap.objectOrder left right = .eq ↔
      (HasValues (heap.get? left) ∧ HasValues (heap.get? right)) ∧
        heap.SameValues (heap.get? left) (heap.get? right) := by
  have same : heap.SameValues (heap.get? left) (heap.get? right) ↔
      (heap.entries left).size = (heap.entries right).size ∧
        heap.entriesWithin (heap.entries left) (heap.entries right) = true := sameValues_iff
  have isLeft : (heap.entries left).isEmpty = false ↔ HasValues (heap.get? left) :=
    Dictionary.isEmpty_eq_false_iff
  have isRight : (heap.entries right).isEmpty = false ↔ HasValues (heap.get? right) :=
    Dictionary.isEmpty_eq_false_iff
  rw [same, ← isLeft, ← isRight]
  unfold objectOrder
  dsimp only
  split
  · rename_i empty
    simp_all
  · rename_i filled
    split
    · rename_i equal
      simp only [Bool.and_eq_true, decide_eq_true_iff] at equal
      have values := same.mpr equal
      simp only [equal, and_self, and_true, true_iff]
      -- Not both are empty, and values on one side are values on the other.
      simp only [Bool.and_eq_true, not_and_or, Bool.not_eq_true] at filled
      rcases filled with filled | filled
      · exact ⟨filled, isRight.mpr (values.hasValues (isLeft.mp filled))⟩
      · exact ⟨isLeft.mpr (values.symm.hasValues (isRight.mp filled)), filled⟩
    · rename_i different
      simp_all

theorem objectOrder_eq_or_lt (heap : Heap) (left right : ScopeRef) :
    heap.objectOrder left right = .eq ∨ heap.objectOrder left right = .lt := by
  unfold objectOrder
  dsimp only
  split
  · exact .inr rfl
  · split
    · exact .inl rfl
    · exact .inr rfl

theorem objectOrder_symm (equal : heap.objectOrder left right = .eq) :
    heap.objectOrder right left = .eq := by
  obtain ⟨⟨isLeft, isRight⟩, same⟩ := objectOrder_eq_iff.mp equal
  exact objectOrder_eq_iff.mpr ⟨⟨isRight, isLeft⟩, same.symm⟩

theorem objectOrder_trans (first : heap.objectOrder left middle = .eq)
    (second : heap.objectOrder middle right = .eq) : heap.objectOrder left right = .eq := by
  obtain ⟨⟨isLeft, -⟩, same⟩ := objectOrder_eq_iff.mp first
  obtain ⟨⟨-, isRight⟩, next⟩ := objectOrder_eq_iff.mp second
  exact objectOrder_eq_iff.mpr ⟨⟨isLeft, isRight⟩, same.trans next⟩

theorem objectOrder_comm (heap : Heap) (left right : ScopeRef) :
    heap.objectOrder left right = heap.objectOrder right left := by
  rcases objectOrder_eq_or_lt heap left right with equal | less
  · rw [equal, objectOrder_symm equal]
  · rcases objectOrder_eq_or_lt heap right left with equal | notEqual
    · rw [equal, objectOrder_symm equal]
    · rw [less, notEqual]

end Heap

/-- A change of the entries of a scope. -/
inductive EntryChange where
  | put (key : String) (value : Value)
  | insert (key : String) (value : Value)
  | set (key : String) (value : Value)
  | remove (key : String)
  | rename (old new : String)

namespace EntryChange

/-- Carries out a change. -/
def apply (change : EntryChange) (heap : Heap) (id : ScopeRef) : Heap :=
  match change with
  | put key value => heap.put id key value
  | insert key value => (heap.insert id key value).2
  | set key value => (heap.set id key value).2
  | remove key => (heap.remove id key).2
  | rename old new => (heap.rename id old new).2

/-- What a change makes of the values that keys have. -/
def onValues (change : EntryChange) (values : String → Option Value) : String → Option Value :=
  match change with
  | put key value => Function.update values key (some value)
  | insert key value =>
      if (values key).isSome then values else Function.update values key (some value)
  | set key value =>
      if (values key).isSome then Function.update values key (some value) else values
  | remove key => Function.update values key none
  | rename old new =>
      match values new, values old with
      | none, some value => Function.update (Function.update values old none) new (some value)
      | _, _ => values

end EntryChange

namespace Heap

/-- Carries out changes in scopes, one after the other. -/
def build (heap : Heap) (changes : List (ScopeRef × EntryChange)) : Heap :=
  changes.foldl (fun heap change => change.2.apply heap change.1) heap

/-- What changes in scopes make of the values in one of them. -/
def valuesAfter (id : ScopeRef) (changes : List (ScopeRef × EntryChange))
    (values : String → Option Value) : String → Option Value :=
  changes.foldl (fun values change => if change.1 = id then change.2.onValues values else values)
    values

variable {heap : Heap} {id other : ScopeRef} {values : String → Option Value}

theorem contains_eq_isSome (heap : Heap) (id : ScopeRef) (key : String) :
    heap.contains id key = (heap.get? id key).isSome := by
  rw [Bool.eq_iff_iff]
  unfold contains get?
  rw [Dictionary.contains_eq_true_iff, Dictionary.get?_isSome_iff]

theorem get?_modifyEntries_of_ne (change : Dictionary String Value → Dictionary String Value)
    (different : other ≠ id) : (heap.modifyEntries id change).get? other = heap.get? other := by
  funext key
  simp [get?, entries, scope_modifyEntries_of_ne _ different]

theorem get?_put (key : String) (value : Value) (present : id.index < heap.scopes.size) :
    (heap.put id key value).get? id = Function.update (heap.get? id) key (some value) := by
  funext other
  by_cases same : other = key
  · rw [same, get?_put_self key value present, Function.update_self]
  · rw [get?_put_of_ne value same, Function.update_of_ne same]

theorem get?_erase (key : String) (present : id.index < heap.scopes.size) :
    (heap.modifyEntries id (·.erase key)).get? id = Function.update (heap.get? id) key none := by
  funext other
  rw [get?, entries, scope_modifyEntries_self _ present]
  by_cases same : other = key
  · rw [same, Function.update_self]
    exact Dictionary.get?_erase_self _ _
  · rw [Function.update_of_ne same]
    exact Dictionary.get?_erase_of_ne _ same

theorem get?_setName (heap : Heap) (id : ScopeRef) (name : String) :
    (heap.setName id name).get? = heap.get? := by
  funext other key
  simp only [setName, get?, entries, scope, Array.getD_eq_getD_getElem?, Array.getElem?_modify]
  split
  · cases heap.scopes[other.index]? <;> rfl
  · rfl

end Heap

namespace EntryChange

variable {heap : Heap} {id other : ScopeRef}

/-- What the two ways to change a heap keep, the entries of one scope and the name of an object,
is kept by every change of that scope. -/
theorem apply_induction (Kept : Heap → Prop) (start : Kept heap)
    (modify : ∀ heap change, Kept heap → Kept (heap.modifyEntries id change))
    (setName : ∀ heap object name, Kept heap → Kept (Heap.setName heap object name))
    (change : EntryChange) : Kept (change.apply heap id) := by
  have putKept (heap : Heap) (key : String) (value : Value) (kept : Kept heap) :
      Kept (heap.put id key value) := modify heap _ kept
  cases change with
  | put key value => exact putKept heap key value start
  | insert key value =>
      simp only [apply, Heap.insert]
      split
      · exact start
      · exact putKept heap key value start
  | set key value =>
      simp only [apply, Heap.set]
      split
      · exact putKept heap key value start
      · exact start
  | remove key =>
      simp only [apply, Heap.remove]
      split
      · exact modify heap (·.erase key) start
      · exact start
  | rename old new =>
      simp only [apply, Heap.rename]
      split
      · exact start
      split
      · exact start
      apply putKept
      split
      · exact setName _ _ _ (modify heap _ start)
      · exact modify heap _ start

theorem size_apply (change : EntryChange) (heap : Heap) (id : ScopeRef) :
    (change.apply heap id).scopes.size = heap.scopes.size := by
  apply apply_induction (fun after => after.scopes.size = heap.scopes.size) rfl
  · intro after change kept
    rw [Heap.size_modifyEntries, kept]
  · intro after object name kept
    simpa [Heap.setName] using kept

theorem get?_apply_of_ne (change : EntryChange) (different : other ≠ id) :
    (change.apply heap id).get? other = heap.get? other := by
  apply apply_induction (fun after => after.get? other = heap.get? other) rfl
  · intro after change kept
    rw [Heap.get?_modifyEntries_of_ne _ different, kept]
  · intro after object name kept
    rw [Heap.get?_setName, kept]

theorem get?_apply_self (change : EntryChange) (present : id.index < heap.scopes.size) :
    (change.apply heap id).get? id = change.onValues (heap.get? id) := by
  cases change with
  | put key value => exact Heap.get?_put key value present
  | insert key value =>
      simp only [apply, onValues, Heap.insert, Heap.contains_eq_isSome]
      split
      · rfl
      · exact Heap.get?_put key value present
  | set key value =>
      simp only [apply, onValues, Heap.set, Heap.contains_eq_isSome]
      split
      · exact Heap.get?_put key value present
      · rfl
  | remove key =>
      simp only [apply, onValues, Heap.remove]
      split
      · exact Heap.get?_erase key present
      · rename_i absent
        rw [← absent, Function.update_eq_self]
  | rename old new =>
      simp only [apply, onValues, Heap.rename, Heap.contains_eq_isSome]
      cases free : heap.get? id new with
      | some value => rfl
      | none =>
          cases found : heap.get? id old with
          | none => rfl
          | some value =>
              have there : id.index < (heap.modifyEntries id (·.erase old)).scopes.size := by
                rw [Heap.size_modifyEntries]
                exact present
              dsimp only [Option.isSome]
              rw [if_neg Bool.false_ne_true, Heap.get?_put]
              · congr 1
                split
                · rw [Heap.get?_setName, Heap.get?_erase old present]
                · exact Heap.get?_erase old present
              · split
                · simpa [Heap.setName] using there
                · exact there

end EntryChange

namespace Heap

variable {heap : Heap}

theorem get?_build {id : ScopeRef} (changes : List (ScopeRef × EntryChange))
    (present : id.index < heap.scopes.size) :
    (heap.build changes).get? id = valuesAfter id changes (heap.get? id) := by
  induction changes generalizing heap with
  | nil => rfl
  | cons change changes induction =>
      obtain ⟨place, change⟩ := change
      have step : (change.apply heap place).get? id =
          if place = id then change.onValues (heap.get? id) else heap.get? id := by
        split
        · rename_i same
          rw [same, EntryChange.get?_apply_self change present]
        · rename_i different
          exact EntryChange.get?_apply_of_ne change (Ne.symm different)
      have later := @induction (change.apply heap place) (by rwa [EntryChange.size_apply])
      rw [step] at later
      exact later

/-- The ordering of two objects after any changes, by the values that these leave under the keys,
and the equality of values that it rests on. -/
theorem objects_equal_by_values (start : Heap) (changes : List (ScopeRef × EntryChange))
    {left right : ScopeRef} (isLeft : left.index < start.scopes.size)
    (isRight : right.index < start.scopes.size) :
    let heap := start.build changes
    let values (id : ScopeRef) := valuesAfter id changes (start.get? id)
    ((heap.objectOrder left right = .eq ↔
        (HasValues (values left) ∧ HasValues (values right)) ∧
          heap.SameValues (values left) (values right)) ∧
      (heap.objectOrder left right ≠ .eq → heap.objectOrder left right = .lt)) ∧
    ((heap.objectOrder left right = .eq → heap.objectOrder right left = .eq) ∧
      ∀ third, heap.objectOrder left right = .eq → heap.objectOrder right third = .eq →
        heap.objectOrder left third = .eq) ∧
    (∀ first second, heap.equal first second = true ↔ heap.Same first second) ∧
    (∀ number : Float, number.isNaN = true →
      ∀ value, heap.equal (.primitive (.double number)) value = false) ∧
    (∀ first second, heap.equal first second = true → heap.equal second first = true) ∧
    ∀ first second third, heap.equal first second = true → heap.equal second third = true →
      heap.equal first third = true := by
  intro heap values
  have built (id : ScopeRef) (present : id.index < start.scopes.size) : heap.get? id = values id :=
    get?_build changes present
  refine ⟨⟨?_, ?_⟩, ⟨objectOrder_symm, fun _ => objectOrder_trans⟩, ?_, ?_, ?_, ?_⟩
  · rw [objectOrder_eq_iff, built left isLeft, built right isRight]
  · exact (objectOrder_eq_or_lt heap left right).resolve_left
  · intro first second
    exact equal_iff_same
  · intro number notNumber value
    rw [Bool.eq_false_iff, ne_eq, equal_iff_same]
    exact not_same_of_isNaN notNumber value
  · intro first second equal
    rw [equal_comm]
    exact equal
  · intro first second third equal next
    rw [equal_iff_same] at equal next ⊢
    exact equal.trans next

/-- Two objects that are given the same values in other orders, with a mutable list in one of them
and a fixed list in the other. -/
def twins : Heap where
  scopes := #[{ name := "global" }, { name := "one" }, { name := "other" }]
  lists := #[⟨[.primitive (.int 7)], false⟩, ⟨[.primitive (.int 7)], true⟩]

def twinChanges : List (ScopeRef × EntryChange) :=
  [(⟨1⟩, .put "count" (.primitive (.int 1))), (⟨1⟩, .put "cells" (.list ⟨false, 0⟩)),
    (⟨2⟩, .put "rows" (.list ⟨true, 1⟩)), (⟨2⟩, .insert "count" (.primitive (.int 1))),
    (⟨2⟩, .rename "rows" "cells"), (⟨1⟩, .set "rows" (.primitive (.int 2)))]

theorem objects_equal_by_values_twins :
    (twins.build twinChanges).objectOrder ⟨1⟩ ⟨2⟩ = .eq ∧
      (twins.build twinChanges).SameValues (valuesAfter ⟨1⟩ twinChanges (twins.get? ⟨1⟩))
        (valuesAfter ⟨2⟩ twinChanges (twins.get? ⟨2⟩)) := by
  have isLeft : (⟨1⟩ : ScopeRef).index < twins.scopes.size := by decide
  have isRight : (⟨2⟩ : ScopeRef).index < twins.scopes.size := by decide
  have equal : (twins.build twinChanges).objectOrder ⟨1⟩ ⟨2⟩ = .eq := by decide +kernel
  obtain ⟨⟨byValues, -⟩, -⟩ := objects_equal_by_values twins twinChanges isLeft isRight
  exact ⟨equal, (byValues.mp equal).2⟩

end Heap

end Stencil
