/-!
# Dictionaries in insertion order

A dictionary lists its entries in the order in which their keys were first put, and no key occurs
twice.  Writing an existing key keeps its place; a removed key leaves the order of the others alone.
-/

namespace Stencil

/-- Entries in insertion order, with distinct keys. -/
structure Dictionary (κ υ : Type) where
  entries : List (κ × υ)
  nodup : (entries.map Prod.fst).Nodup

namespace Dictionary

variable {κ υ : Type}

theorem eq_of_entries {left right : Dictionary κ υ} (entries : left.entries = right.entries) :
    left = right := by
  obtain ⟨leftEntries, leftNodup⟩ := left
  obtain ⟨rightEntries, rightNodup⟩ := right
  simp only at entries
  subst entries
  rfl

/-- The dictionary without entries. -/
def empty : Dictionary κ υ := ⟨[], List.nodup_nil⟩

instance : Inhabited (Dictionary κ υ) := ⟨empty⟩

/-- The keys in insertion order. -/
def keys (dictionary : Dictionary κ υ) : List κ :=
  dictionary.entries.map Prod.fst

/-- The values in the order of their keys. -/
def values (dictionary : Dictionary κ υ) : List υ :=
  dictionary.entries.map Prod.snd

/-- Number of entries. -/
def size (dictionary : Dictionary κ υ) : Nat :=
  dictionary.entries.length

def isEmpty (dictionary : Dictionary κ υ) : Bool :=
  dictionary.entries.isEmpty

@[simp]
theorem keys_empty : (empty : Dictionary κ υ).keys = [] := rfl

theorem nodup_keys (dictionary : Dictionary κ υ) : dictionary.keys.Nodup :=
  dictionary.nodup

variable [DecidableEq κ]

/-- The value of a key. -/
def get? (dictionary : Dictionary κ υ) (key : κ) : Option υ :=
  (dictionary.entries.find? fun entry => entry.1 = key).map Prod.snd

def contains (dictionary : Dictionary κ υ) (key : κ) : Bool :=
  dictionary.entries.any fun entry => entry.1 = key

theorem contains_eq_true_iff {dictionary : Dictionary κ υ} {key : κ} :
    dictionary.contains key = true ↔ key ∈ dictionary.keys := by
  simp [contains, keys]

/-- Gives a key that is there another value, in place. -/
def replaceEntry (key : κ) (value : υ) (entry : κ × υ) : κ × υ :=
  if entry.1 = key then (entry.1, value) else entry

@[simp]
theorem fst_replaceEntry (key : κ) (value : υ) (entry : κ × υ) :
    (replaceEntry key value entry).1 = entry.1 := by
  unfold replaceEntry
  split <;> rfl

/-- Gives a key another value in place; a key that is not there is not added. -/
def replace (dictionary : Dictionary κ υ) (key : κ) (value : υ) : Dictionary κ υ where
  entries := dictionary.entries.map (replaceEntry key value)
  nodup := by simpa [List.map_map, Function.comp_def] using dictionary.nodup

@[simp]
theorem keys_replace (dictionary : Dictionary κ υ) (key : κ) (value : υ) :
    (dictionary.replace key value).keys = dictionary.keys := by
  simp [replace, keys, List.map_map, Function.comp_def]

/-- Adds a key after all others. -/
def append (dictionary : Dictionary κ υ) (key : κ) (value : υ)
    (absent : dictionary.contains key = false) : Dictionary κ υ where
  entries := dictionary.entries ++ [(key, value)]
  nodup := by
    have missing : key ∉ dictionary.keys := by
      intro member
      rw [contains_eq_true_iff.mpr member] at absent
      contradiction
    simp only [List.map_append, List.map_cons, List.map_nil]
    refine List.nodup_append.mpr ⟨dictionary.nodup, by simp, ?_⟩
    intro first firstMember second secondMember same
    have last : second = key := List.mem_singleton.mp secondMember
    exact missing (last ▸ same ▸ firstMember)

/-- Writes a key: in place if it is there, and after all others if not. -/
def put (dictionary : Dictionary κ υ) (key : κ) (value : υ) : Dictionary κ υ :=
  if present : dictionary.contains key = true then dictionary.replace key value
  else dictionary.append key value (by simpa using present)

/-- Removes a key; the others keep their order. -/
def erase (dictionary : Dictionary κ υ) (key : κ) : Dictionary κ υ where
  entries := dictionary.entries.filter fun entry => entry.1 ≠ key
  nodup := dictionary.nodup.sublist (List.filter_sublist.map Prod.fst)

theorem keys_put_of_contains {dictionary : Dictionary κ υ} {key : κ} {value : υ}
    (present : dictionary.contains key = true) :
    (dictionary.put key value).keys = dictionary.keys := by
  simp [put, present]

theorem keys_put_of_not_contains {dictionary : Dictionary κ υ} {key : κ} {value : υ}
    (absent : dictionary.contains key = false) :
    (dictionary.put key value).keys = dictionary.keys ++ [key] := by
  simp [put, absent, append, keys]

@[simp]
theorem get?_empty (key : κ) : (empty : Dictionary κ υ).get? key = none := rfl

theorem get?_isSome_iff {dictionary : Dictionary κ υ} {key : κ} :
    (dictionary.get? key).isSome = true ↔ key ∈ dictionary.keys := by
  simp [get?, keys, List.find?_isSome]

theorem find?_map_replaceEntry (entries : List (κ × υ)) (key other : κ) (value : υ) :
    (entries.map (replaceEntry key value)).find? (fun entry => entry.1 = other) =
      (entries.find? fun entry => entry.1 = other).map (replaceEntry key value) := by
  rw [List.find?_map]
  congr 2
  funext entry
  simp [Function.comp]

theorem get?_put_self (dictionary : Dictionary κ υ) (key : κ) (value : υ) :
    (dictionary.put key value).get? key = some value := by
  unfold put
  split
  · rename_i present
    have found : (dictionary.entries.find? fun entry => entry.1 = key).isSome = true := by
      simpa [List.find?_isSome, keys] using contains_eq_true_iff.mp present
    obtain ⟨entry, isEntry⟩ := Option.isSome_iff_exists.mp found
    have same : entry.1 = key := by simpa using List.find?_some isEntry
    simp only [get?, replace, find?_map_replaceEntry, isEntry, Option.map_some]
    simp [replaceEntry, same]
  · rename_i absent
    have nowhere : (dictionary.entries.find? fun entry => entry.1 = key) = none := by
      rw [List.find?_eq_none]
      intro entry member same
      exact absent (List.any_eq_true.mpr ⟨entry, member, same⟩)
    simp [get?, append, List.find?_append, nowhere]

theorem get?_put_of_ne (dictionary : Dictionary κ υ) {key other : κ} (value : υ)
    (different : other ≠ key) : (dictionary.put key value).get? other = dictionary.get? other := by
  unfold put
  split
  · simp only [get?, replace, find?_map_replaceEntry, Option.map_map]
    cases found : dictionary.entries.find? fun entry => entry.1 = other with
    | none => rfl
    | some entry =>
        have same : entry.1 = other := by simpa using List.find?_some found
        simp [replaceEntry, same, different]
  · simp [get?, append, List.find?_append, different.symm]

theorem get?_erase_self (dictionary : Dictionary κ υ) (key : κ) :
    (dictionary.erase key).get? key = none := by
  simp [get?, erase]

theorem get?_erase_of_ne (dictionary : Dictionary κ υ) {key other : κ}
    (different : other ≠ key) : (dictionary.erase key).get? other = dictionary.get? other := by
  unfold get? erase
  rw [List.find?_filter]
  congr 2
  funext entry
  by_cases same : entry.1 = other <;> simp [same, different]

theorem keys_erase (dictionary : Dictionary κ υ) (key : κ) :
    (dictionary.erase key).keys = dictionary.keys.filter (· ≠ key) := by
  simp [erase, keys, List.filter_map, Function.comp_def]

end Dictionary

end Stencil
