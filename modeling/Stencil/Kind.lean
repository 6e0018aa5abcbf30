/-!
# Kinds of values

The kind of a value selects its members and the placeholder that writes it.
-/

namespace Stencil

/-- The kind of a value. -/
inductive Kind where
  | int
  | long
  | double
  | char
  | boolean
  | string
  | list
  | mutableList
  | object
  | function
deriving DecidableEq, Repr

namespace Kind

/-- The name that templates and messages use. -/
def name : Kind → String
  | int => "int"
  | long => "long"
  | double => "double"
  | char => "char"
  | boolean => "boolean"
  | string => "string"
  | list => "list"
  | mutableList => "mutable_list"
  | object => "object"
  | function => "function"

/-- Every kind. -/
def all : List Kind :=
  [int, long, double, char, boolean, string, list, mutableList, object, function]

/-- The kind of a name. -/
def ofName? (name : String) : Option Kind :=
  all.find? (·.name == name)

theorem mem_all (kind : Kind) : kind ∈ all := by
  cases kind <;> decide

theorem ofName?_eq_some_iff {name : String} {kind : Kind} :
    ofName? name = some kind ↔ kind.name = name := by
  constructor
  · intro found
    simpa using List.find?_some found
  · rintro rfl
    cases kind <;> decide

theorem name_injective {left right : Kind} (same : left.name = right.name) : left = right :=
  Option.some.inj ((ofName?_eq_some_iff.mpr same).symm.trans (ofName?_eq_some_iff.mpr rfl))

end Kind

end Stencil
