import Stencil.Member.Invocation
import Stencil.Proofs.Error
import Stencil.Proofs.Heap.Closed

/-!
# Calls of members

A member that is called on a closed heap leaves it closed and answers something in range, and on any
heap its errors are never those of parsing.
-/

namespace Stencil

open TemplateError (Ordinary)

/-- A computation answers something with a property, or fails for another reason than parsing. -/
def Gives {α : Type} (outcome : Except TemplateError α) (answers : α → Prop) : Prop :=
  match outcome with
  | .ok answer => answers answer
  | .error error => error.OtherThanParse

namespace Gives

variable {α β : Type} {answers : α → Prop}

theorem of_neverParses {outcome : Except TemplateError α} (never : NeverParses outcome) :
    Gives outcome fun _ => True := by
  cases outcome with
  | ok answer => trivial
  | error error => exact never error rfl

theorem of_ordinary {outcome : Except TemplateError α} (fails : FailsOnly Ordinary outcome) :
    Gives outcome fun _ => True :=
  of_neverParses (.of_ordinary fails)

theorem neverParses {outcome : Except TemplateError α} (gives : Gives outcome answers) :
    NeverParses outcome := by
  rintro error rfl
  exact gives

theorem weaken {outcome : Except TemplateError α} {weaker : α → Prop}
    (gives : Gives outcome answers) (implies : ∀ answer, answers answer → weaker answer) :
    Gives outcome weaker := by
  cases outcome with
  | ok answer => exact implies answer gives
  | error error => exact gives

theorem bind {first : Except TemplateError α} {next : α → Except TemplateError β}
    {later : β → Prop} (here : Gives first answers)
    (continues : ∀ answer, answers answer → Gives (next answer) later) :
    Gives (first >>= next) later := by
  cases first with
  | ok answer => exact continues answer here
  | error error => exact here

end Gives

namespace Member

variable {α : Type} {heap : Heap} {receiver : Value} {arguments : List Value}

theorem gives_require (member : Member) (receiver : Value) {found : Option α} {answers : α → Prop}
    (each : ∀ answer, found = some answer → answers answer) :
    Gives (member.require receiver found) answers := by
  cases found with
  | some answer => exact each answer rfl
  | none => exact nofun

theorem ordinary_expectCount (member : Member) (arguments : List Value) (count : Nat) :
    FailsOnly Ordinary (member.expectCount arguments count) := by
  unfold expectCount
  split
  · exact .ok _
  · exact .error ⟨nofun, nofun⟩

theorem ordinary_onlyArgument (member : Member) (arguments : List Value) :
    FailsOnly Ordinary (member.onlyArgument arguments) := by
  unfold onlyArgument
  split
  · exact .ok _
  · exact .error ⟨nofun, nofun⟩

theorem gives_onlyArgument (member : Member) (arguments : List Value) :
    Gives (member.onlyArgument arguments) fun argument => argument ∈ arguments := by
  unfold onlyArgument
  split
  · exact List.mem_singleton_self _
  · exact nofun

theorem ordinary_indexOfArgument (argument : Value) :
    FailsOnly Ordinary (indexOfArgument argument) := by
  unfold indexOfArgument
  split
  · split
    · exact .ok _
    · exact .error ⟨nofun, nofun⟩
  · exact .error ⟨nofun, nofun⟩

theorem ordinary_needle (argument : Value) : FailsOnly Ordinary (needle argument) := by
  unfold needle
  split
  · exact .ok _
  · exact .ok _
  · exact .error ⟨nofun, nofun⟩

theorem ordinary_needles (arguments : List Value) :
    FailsOnly Ordinary (arguments.mapM needle) := by
  induction arguments with
  | nil => exact .ok _
  | cons argument arguments induction =>
      rw [List.mapM_cons]
      exact (ordinary_needle argument).bind fun _ => induction.bind fun _ => .ok _

theorem ordinary_separator (arguments : List Value) :
    FailsOnly Ordinary (separator arguments) := by
  unfold separator
  split
  · exact .ok _
  · split
    · exact .ok _
    · exact .error ⟨nofun, nofun⟩
  · exact .error ⟨nofun, nofun⟩

theorem ordinary_of_toInt? {value : Primitive} {outcome : Except TemplateError Int32}
    (found : value.toInt? = some outcome) : FailsOnly Ordinary outcome := by
  cases value with
  | string text =>
      obtain rfl := Option.some.inj found
      split
      · exact .ok _
      · exact .error ⟨nofun, nofun⟩
  | boolean truth => cases found
  | int number => cases found; exact .ok _
  | long number => cases found; exact .ok _
  | double number => cases found; exact .ok _
  | char character => cases found; exact .ok _

theorem ordinary_of_toDouble? {value : Primitive} {outcome : Except TemplateError Float}
    (found : value.toDouble? = some outcome) : FailsOnly Ordinary outcome := by
  unfold Primitive.toDouble? at found
  split at found
  · obtain rfl := Option.some.inj found
    split
    · exact .ok _
    · exact .error ⟨nofun, nofun⟩
  · split at found
    · cases found
      exact .ok _
    · cases found

theorem gives_containsAll (heap : Heap) (receiver : Value) (arguments : List Value) :
    Gives (containsAll heap receiver arguments) fun _ => True := by
  unfold containsAll
  split
  · exact (Gives.of_ordinary (ordinary_needles arguments)).bind fun _ _ => trivial
  · trivial
  · trivial
  · exact nofun

/-- A primitive, or an element of the list that a member is called on. -/
def IsFound (heap : Heap) (receiver value : Value) : Prop :=
  (∃ primitive, value = .primitive primitive) ∨
    ∃ list, receiver = .list list ∧ value ∈ heap.items list

theorem isFound_of_elements? {elements : List Value}
    (found : elements? heap receiver = some elements) :
    ∀ value ∈ elements, IsFound heap receiver value := by
  unfold elements? at found
  split at found
  · cases found
    intro value member
    obtain ⟨character, -, rfl⟩ := List.mem_map.mp member
    exact .inl ⟨_, rfl⟩
  · cases found
    exact fun value member => .inr ⟨_, rfl, member⟩
  · cases found

/-- A member that changes nothing answers a primitive or an element of its receiver. -/
theorem gives_answer (member : Member) :
    Gives (member.answer receiver arguments heap) (IsFound heap receiver) := by
  have counted := Gives.of_ordinary (member.ordinary_expectCount arguments 0)
  unfold answer
  cases member with
  | getType => exact counted.bind fun _ _ => .inl ⟨_, rfl⟩
  | toString => exact counted.bind fun _ _ => .inl ⟨_, rfl⟩
  | toInt =>
      refine counted.bind fun _ _ => (gives_require _ _ fun outcome found => ?_).bind
        fun outcome (gives : Gives outcome fun _ => True) => gives.bind fun _ _ => .inl ⟨_, rfl⟩
      obtain ⟨value, -, isOutcome⟩ := Option.bind_eq_some_iff.mp found
      exact .of_ordinary (ordinary_of_toInt? isOutcome)
  | toLong =>
      refine counted.bind fun _ _ => (gives_require _ _ fun _ _ => trivial).bind
        fun _ (_ : True) => .inl ⟨_, rfl⟩
  | toDouble =>
      refine counted.bind fun _ _ => (gives_require _ _ fun outcome found => ?_).bind
        fun outcome (gives : Gives outcome fun _ => True) => gives.bind fun _ _ => .inl ⟨_, rfl⟩
      obtain ⟨value, -, isOutcome⟩ := Option.bind_eq_some_iff.mp found
      exact .of_ordinary (ordinary_of_toDouble? isOutcome)
  | toChar =>
      refine counted.bind fun _ _ => (gives_require _ _ fun _ _ => trivial).bind
        fun code (_ : True) => ?_
      exact (Gives.of_ordinary (.charOfCode _)).bind fun _ _ => .inl ⟨_, rfl⟩
  | size =>
      refine counted.bind fun _ _ => (gives_require _ _ fun _ _ => trivial).bind
        fun _ (_ : True) => .inl ⟨_, rfl⟩
  | get =>
      refine (gives_onlyArgument _ arguments).bind fun argument _ => ?_
      refine (Gives.of_ordinary (ordinary_indexOfArgument argument)).bind fun index _ => ?_
      refine (gives_require _ _ fun _ found => isFound_of_elements? found).bind
        fun elements areFound => ?_
      cases found : elements[index]? with
      | some element => exact areFound element (List.mem_of_getElem? found)
      | none => exact nofun
  | contains =>
      dsimp only
      split
      · exact nofun
      · exact (gives_containsAll heap receiver arguments).bind fun _ _ => .inl ⟨_, rfl⟩
  | indexOf =>
      refine (gives_onlyArgument _ arguments).bind fun argument _ => ?_
      refine (gives_require _ _ fun _ _ => trivial).bind fun reference (_ : True) => ?_
      cases heap.indexOf? reference argument <;> exact .inl ⟨_, rfl⟩
  | joinToString =>
      refine (Gives.of_ordinary (ordinary_separator arguments)).bind fun between _ => ?_
      exact (gives_require _ _ fun _ _ => trivial).bind fun _ (_ : True) => .inl ⟨_, rfl⟩
  | add => exact nofun
  | remove => exact nofun

theorem IsFound.inRange {value : Value} (isFound : IsFound heap receiver value)
    (closed : heap.Closed) : value.InRange heap.scopes.size := by
  obtain ⟨primitive, rfl⟩ | ⟨list, -, member⟩ := isFound
  · trivial
  · exact closed.items list value member

/-- A heap that a member leaves behind: closed, with the scopes that were there before. -/
def Leaves (heap after : Heap) : Prop :=
  after.Closed ∧ after.scopes.size = heap.scopes.size

theorem gives_push (list : ListRef) (value : Value) :
    Gives (heap.push list value) fun after =>
      heap.Closed → value.InRange heap.scopes.size → Leaves heap after := by
  unfold Heap.push
  split
  · intro closed range
    refine ⟨closed.modifyItems _ fun items other member => ?_, rfl⟩
    rcases List.mem_append.mp member with earlier | last
    · exact .inr earlier
    · exact .inl (List.mem_singleton.mp last ▸ range)
  · exact nofun

theorem gives_removeItem (list : ListRef) (value : Value) :
    Gives (heap.removeItem list value) fun answer => heap.Closed → Leaves heap answer.2 := by
  unfold Heap.removeItem
  split
  · split
    · exact fun closed => ⟨closed.modifyItems _ fun items other member =>
        .inr (List.mem_of_mem_eraseIdx member), rfl⟩
    · exact fun closed => ⟨closed, rfl⟩
    · rename_i error failed
      exact ((FailsOnly.placeBeside heap _ value _) error failed).1
  · exact nofun

/-- Calling a member leaves a closed heap closed and answers something in range. -/
theorem gives_invoke (member : Member) (receiver : Value) (arguments : List Value) (heap : Heap) :
    Gives (member.invoke receiver arguments heap) fun answer =>
      heap.Closed → (∀ argument ∈ arguments, argument.InRange heap.scopes.size) →
        Leaves heap answer.2 ∧ answer.1.InRange heap.scopes.size := by
  have answers : Gives (do return (← member.answer receiver arguments heap, heap))
      fun answer => heap.Closed → (∀ argument ∈ arguments, argument.InRange heap.scopes.size) →
        Leaves heap answer.2 ∧ answer.1.InRange heap.scopes.size :=
    (gives_answer member).bind fun _ isFound closed _ => ⟨⟨closed, rfl⟩, isFound.inRange closed⟩
  unfold invoke
  cases member with
  | add =>
      refine (gives_onlyArgument _ arguments).bind fun argument isArgument => ?_
      refine (gives_require _ _ fun _ _ => trivial).bind fun list (_ : True) => ?_
      exact (gives_push list argument).bind fun _ leaves closed range =>
        ⟨leaves closed (range argument isArgument), trivial⟩
  | remove =>
      refine (gives_onlyArgument _ arguments).bind fun argument _ => ?_
      refine (gives_require _ _ fun _ _ => trivial).bind fun list (_ : True) => ?_
      exact (gives_removeItem list argument).bind fun _ leaves closed _ => ⟨leaves closed, trivial⟩
  | _ => exact answers

end Member

end Stencil
