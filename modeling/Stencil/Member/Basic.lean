import Stencil.Kind

/-!
# Members

The members that values have without being given them, and the table of the kinds that have each.
-/

namespace Stencil

/-- A member of a value. -/
inductive Member where
  | getType
  | toString
  | toInt
  | toLong
  | toDouble
  | toChar
  | size
  | get
  | contains
  | indexOf
  | joinToString
  | add
  | remove
deriving DecidableEq, Repr

namespace Member

/-- The name that templates use. -/
def name : Member → String
  | getType => "getType"
  | toString => "toString"
  | toInt => "toInt"
  | toLong => "toLong"
  | toDouble => "toDouble"
  | toChar => "toChar"
  | size => "size"
  | get => "get"
  | contains => "contains"
  | indexOf => "indexOf"
  | joinToString => "joinToString"
  | add => "add"
  | remove => "remove"

/-- Every member. -/
def all : List Member :=
  [getType, toString, toInt, toLong, toDouble, toChar, size, get, contains, indexOf, joinToString,
    add, remove]

/-- The member of a name. -/
def ofName? (name : String) : Option Member :=
  all.find? (·.name == name)

/-- The kinds that have a member. -/
def kinds : Member → List Kind
  | getType | toString => Kind.all
  | toInt => [.int, .long, .double, .char, .string]
  | toLong => [.int, .long, .double]
  | toDouble => [.int, .long, .double, .string]
  | toChar => [.int]
  | size | get => [.string, .list, .mutableList]
  | contains => [.string, .list, .mutableList, .object]
  | indexOf | joinToString => [.list, .mutableList]
  | add | remove => [.mutableList]

/-- The member of a kind that has the given name. -/
def lookup? (kind : Kind) (name : String) : Option Member :=
  (ofName? name).filter fun member => kind ∈ member.kinds

theorem ofName?_eq_some_iff {name : String} {member : Member} :
    ofName? name = some member ↔ member.name = name := by
  constructor
  · intro found
    simpa using List.find?_some found
  · rintro rfl
    cases member <;> decide

theorem lookup?_eq_some_iff {kind : Kind} {name : String} {member : Member} :
    lookup? kind name = some member ↔ member.name = name ∧ kind ∈ member.kinds := by
  simp [lookup?, Option.filter_eq_some_iff, ofName?_eq_some_iff]

end Member

end Stencil
