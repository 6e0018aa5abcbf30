import Stencil.Proofs.Heap.Closed
import Stencil.Proofs.Reading.Basic

/-!
# References on a heap that has grown

Two runs that do the same on two heaps add lists and functions in the same order, but on a heap that
has more of them they come to lie later.  References are shifted by how much there is more; those
from before the runs stay what they are.
-/

namespace Stencil

/-- The same entries with other values. -/
def Dictionary.mapValues {κ υ ω : Type} (dictionary : Dictionary κ υ) (change : υ → ω) :
    Dictionary κ ω where
  entries := dictionary.entries.map fun entry => (entry.1, change entry.2)
  nodup := by simpa [List.map_map, Function.comp_def] using dictionary.nodup

namespace Dictionary

variable {κ υ ω : Type} {dictionary : Dictionary κ υ} {change : υ → ω}

@[simp]
theorem keys_mapValues : (dictionary.mapValues change).keys = dictionary.keys := by
  simp [mapValues, keys, List.map_map, Function.comp_def]

@[simp]
theorem size_mapValues : (dictionary.mapValues change).size = dictionary.size := by
  simp [mapValues, size]

@[simp]
theorem isEmpty_mapValues : (dictionary.mapValues change).isEmpty = dictionary.isEmpty := by
  simp [mapValues, isEmpty]

theorem mapValues_eq_self {change : υ → υ}
    (same : ∀ value ∈ dictionary.values, change value = value) :
    dictionary.mapValues change = dictionary := by
  apply eq_of_entries
  change dictionary.entries.map (fun entry => (entry.1, change entry.2)) = dictionary.entries
  conv => rhs; rw [← List.map_id dictionary.entries]
  apply List.map_congr_left
  intro entry member
  rw [same entry.2 (List.mem_map_of_mem member)]
  rfl

variable [DecidableEq κ]

@[simp]
theorem get?_mapValues (key : κ) :
    (dictionary.mapValues change).get? key = (dictionary.get? key).map change := by
  simp [mapValues, get?, List.find?_map, Function.comp_def]

@[simp]
theorem contains_mapValues (key : κ) :
    (dictionary.mapValues change).contains key = dictionary.contains key := by
  simp [mapValues, contains, List.any_map, Function.comp_def]

theorem mapValues_put (key : κ) (value : υ) :
    (dictionary.put key value).mapValues change =
      (dictionary.mapValues change).put key (change value) := by
  apply eq_of_entries
  unfold put
  by_cases present : dictionary.contains key = true
  · have presentLater : (dictionary.mapValues change).contains key = true := by simp [present]
    rw [dif_pos present, dif_pos presentLater]
    simp only [mapValues, replace, List.map_map]
    apply List.map_congr_left
    intro entry member
    by_cases same : entry.1 = key <;> simp [replaceEntry, same]
  · have absentLater : ¬(dictionary.mapValues change).contains key = true := by simp [present]
    rw [dif_neg present, dif_neg absentLater]
    simp [mapValues, append]

end Dictionary

/-- The heap when one run began, and the larger one when another run did. -/
structure Shift where
  first : Heap
  last : Heap

namespace Shift

variable (shift : Shift)

/-- A place among things, which is kept if it was there when the first run began. -/
def place (first last index : Nat) : Nat :=
  if index < first then index else index + (last - first)

theorem place_inj {first last left right : Nat} :
    place first last left = place first last right ↔ left = right := by
  unfold place
  split <;> split <;> omega

def list (list : ListRef) : ListRef where
  isMutable := list.isMutable
  index := place shift.first.lists.size shift.last.lists.size list.index

def function (function : FunctionRef) : FunctionRef where
  index := place shift.first.functions.size shift.last.functions.size function.index

def value : Value → Value
  | .primitive value => .primitive value
  | .list list => .list (shift.list list)
  | .object object => .object object
  | .function function => .function (shift.function function)

def callable : Callable → Callable
  | .host function => .host function
  | .member receiver method => .member (shift.value receiver) method

def binding : Binding → Binding
  | .entry value => .entry (shift.value value)
  | .member receiver method => .member (shift.value receiver) method

variable {shift}

theorem index_list_inj {left right : ListRef} :
    (shift.list left).index = (shift.list right).index ↔ left.index = right.index :=
  place_inj

theorem function_inj {left right : FunctionRef} :
    shift.function left = shift.function right ↔ left = right := by
  constructor
  · intro same
    simp only [function, FunctionRef.mk.injEq] at same
    exact congrArg FunctionRef.mk (place_inj.mp same)
  · rintro rfl
    rfl

@[simp]
theorem kind_value (value : Value) : (shift.value value).kind = value.kind := by
  cases value <;> rfl

@[simp]
theorem string?_value (value : Value) : (shift.value value).string? = value.string? := by
  cases value <;> rfl

@[simp]
theorem int?_value (value : Value) : (shift.value value).int? = value.int? := by
  cases value <;> rfl

@[simp]
theorem boolean?_value (value : Value) : (shift.value value).boolean? = value.boolean? := by
  cases value <;> rfl

@[simp]
theorem value_eq_object_iff {value : Value} {object : ScopeRef} :
    shift.value value = .object object ↔ value = .object object := by
  cases value <;> simp [Shift.value]

@[simp]
theorem render_callable (callable : Callable) :
    (shift.callable callable).render = callable.render := by
  cases callable <;> rfl

@[simp]
theorem reads_callable (callable : Callable) :
    (shift.callable callable).reads = callable.reads := by
  cases callable <;> rfl

theorem operand_value (operator : Operator) (value : Value) :
    operand operator (shift.value value) = operand operator value := by
  cases value <;> rfl

end Shift

end Stencil
