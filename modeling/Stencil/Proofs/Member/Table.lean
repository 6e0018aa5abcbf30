import Stencil.Proofs.Member

/-!
# Members and their table

A member looks at its receiver by itself, without the table, and after some of its arguments.  All
the same it complains that it is not defined for none of the receivers that the table lists, and it
fails on every other one.
-/

namespace Stencil

open TemplateError (Ordinary)

/-- A computation checks whether a member is listed: if it is the computation does not complain that
it is not defined, and if it is not the computation fails. -/
structure Checks {α : Type} (listed : Prop) (outcome : Except TemplateError α) : Prop where
  ordinary : listed → FailsOnly Ordinary outcome
  fails : ¬listed → ∃ error, outcome = .error error

namespace Checks

variable {α β : Type} {listed : Prop}

theorem of_listed {outcome : Except TemplateError α} (here : listed)
    (ordinary : FailsOnly Ordinary outcome) : Checks listed outcome :=
  ⟨fun _ => ordinary, fun absent => absurd here absent⟩

theorem error {problem : TemplateError} (ordinary : problem.Ordinary) :
    Checks listed (.error problem : Except TemplateError α) :=
  ⟨fun _ => .error ordinary, fun _ => ⟨problem, rfl⟩⟩

/-- What does not depend on the receiver may be done before. -/
theorem after {first : Except TemplateError α} {next : α → Except TemplateError β}
    (ordinary : FailsOnly Ordinary first) (later : ∀ answer, Checks listed (next answer)) :
    Checks listed (first >>= next) := by
  cases first with
  | ok answer => exact later answer
  | error problem => exact error (ordinary problem rfl)

/-- What is done once the receiver is found to be right may fail in other ways. -/
theorem before {first : Except TemplateError α} {next : α → Except TemplateError β}
    (checks : Checks listed first) (later : ∀ answer, FailsOnly Ordinary (next answer)) :
    Checks listed (first >>= next) := by
  refine ⟨fun here => (checks.ordinary here).bind later, fun absent => ?_⟩
  obtain ⟨error, rfl⟩ := checks.fails absent
  exact ⟨error, rfl⟩

end Checks

namespace Member

variable {α : Type} {heap : Heap} {receiver : Value} {arguments : List Value}

/-- What a member requires of its receiver is there exactly for the receivers that the table
lists. -/
theorem checks_require {β : Type} (member : Member) {found : Option α} {listed : Prop}
    {next : α → Except TemplateError β} (there : found.isSome = true ↔ listed)
    (later : ∀ answer, found = some answer → FailsOnly Ordinary (next answer)) :
    Checks listed (member.require receiver found >>= next) := by
  cases found with
  | some answer => exact .of_listed (there.mp rfl) (later answer rfl)
  | none => exact ⟨fun here => (nomatch there.mpr here), fun _ =>
      ⟨member.undefinedFor receiver, rfl⟩⟩

/-- Which receivers have what the members require of them. -/
theorem isSome_iff_listed (heap : Heap) (receiver : Value) :
    (((primitive? receiver).bind Primitive.toInt?).isSome = true ↔ receiver.kind ∈ toInt.kinds) ∧
    (((primitive? receiver).bind Primitive.toLong?).isSome = true ↔ receiver.kind ∈ toLong.kinds) ∧
    (((primitive? receiver).bind Primitive.toDouble?).isSome = true ↔
      receiver.kind ∈ toDouble.kinds) ∧
    (receiver.int?.isSome = true ↔ receiver.kind ∈ toChar.kinds) ∧
    ((sizeOf? heap receiver).isSome = true ↔ receiver.kind ∈ size.kinds) ∧
    ((elements? heap receiver).isSome = true ↔ receiver.kind ∈ get.kinds) ∧
    ((list? receiver).isSome = true ↔ receiver.kind ∈ indexOf.kinds) := by
  rcases receiver with ⟨_ | _⟩ | ⟨_ | _, _⟩ | _ | _ <;>
    simp [primitive?, Primitive.toInt?, Primitive.toLong?, Primitive.toDouble?, Primitive.isNumber,
      Value.int?, sizeOf?, elements?, list?, kinds, Value.kind, Primitive.kind]

theorem checks_containsAll (heap : Heap) (receiver : Value) (arguments : List Value) :
    Checks (receiver.kind ∈ contains.kinds) (containsAll heap receiver arguments) := by
  unfold containsAll
  split
  · exact .of_listed (by decide : Kind.string ∈ contains.kinds)
      ((ordinary_needles arguments).bind fun _ => .ok _)
  · rename_i reference
    have listed : (Value.list reference).kind ∈ contains.kinds := by
      obtain ⟨_ | _, _⟩ := reference <;> simp [kinds, Value.kind]
    exact .of_listed listed (.ok _)
  · exact .of_listed (by decide : Kind.object ∈ contains.kinds) (.ok _)
  · rename_i noString noList noObject
    refine ⟨fun listed => ?_, fun _ => ⟨contains.undefinedFor receiver, rfl⟩⟩
    rcases receiver with ⟨_ | _⟩ | _ | _ | _ <;> simp_all [kinds, Value.kind, Primitive.kind]

theorem checks_answer (member : Member) (receiver : Value) (arguments : List Value) (heap : Heap)
    (reads : member ≠ .add ∧ member ≠ .remove) :
    Checks (receiver.kind ∈ member.kinds) (member.answer receiver arguments heap) := by
  obtain ⟨ints, longs, doubles, codes, sizes, elements, lists⟩ := isSome_iff_listed heap receiver
  have counted := member.ordinary_expectCount arguments 0
  have single := member.ordinary_onlyArgument arguments
  unfold answer
  cases member with
  | getType => exact .of_listed (Kind.mem_all _) (counted.bind fun _ => .ok _)
  | toString => exact .of_listed (Kind.mem_all _) (counted.bind fun _ => .ok _)
  | toInt =>
      refine .after counted fun _ => checks_require _ ints fun outcome found => ?_
      obtain ⟨value, -, isOutcome⟩ := Option.bind_eq_some_iff.mp found
      exact (ordinary_of_toInt? isOutcome).bind fun _ => .ok _
  | toLong => exact .after counted fun _ => checks_require _ longs fun _ _ => .ok _
  | toDouble =>
      refine .after counted fun _ => checks_require _ doubles fun outcome found => ?_
      obtain ⟨value, -, isOutcome⟩ := Option.bind_eq_some_iff.mp found
      exact (ordinary_of_toDouble? isOutcome).bind fun _ => .ok _
  | toChar =>
      refine .after counted fun _ => checks_require _ codes fun code _ => ?_
      exact (FailsOnly.charOfCode code.toInt).bind fun _ => .ok _
  | size => exact .after counted fun _ => checks_require _ sizes fun _ _ => .ok _
  | get =>
      refine .after single fun argument => .after (ordinary_indexOfArgument argument)
        fun index => checks_require _ elements fun found _ => ?_
      cases found[index]? with
      | some element => exact .ok _
      | none => exact .error ⟨nofun, nofun⟩
  | contains =>
      dsimp only
      split
      · exact .error ⟨nofun, nofun⟩
      · exact (checks_containsAll heap receiver arguments).before fun _ => .ok _
  | indexOf =>
      refine .after single fun argument => checks_require _ lists fun reference _ => ?_
      cases heap.indexOf? reference argument <;> exact .ok _
  | joinToString =>
      exact .after (ordinary_separator arguments) fun _ =>
        checks_require _ lists fun _ _ => .ok _
  | add => exact absurd rfl reads.1
  | remove => exact absurd rfl reads.2

theorem checks_push (heap : Heap) (list : ListRef) (value : Value) :
    Checks (list.isMutable = true) (heap.push list value) := by
  unfold Heap.push
  split
  · rename_i isMutable
    exact .of_listed isMutable (.ok _)
  · exact .error ⟨nofun, nofun⟩

theorem checks_removeItem (heap : Heap) (list : ListRef) (value : Value) :
    Checks (list.isMutable = true) (heap.removeItem list value) := by
  unfold Heap.removeItem
  split
  · rename_i isMutable
    refine .of_listed isMutable ?_
    split
    · exact .ok _
    · exact .ok _
    · rename_i error failed
      exact .error (FailsOnly.placeBeside heap _ value _ error failed)
  · exact .error ⟨nofun, nofun⟩

/-- A member that changes lists takes every list, and leaves it to the change to refuse fixed
ones. -/
theorem checks_change (member : Member)
    (receiver : Value) {change : ListRef → Except TemplateError α}
    (checks : ∀ list : ListRef, Checks (list.isMutable = true) (change list)) :
    Checks (receiver.kind ∈ [Kind.mutableList])
      (member.require receiver (list? receiver) >>= change) := by
  have refuses (listed : receiver.kind ≠ .mutableList) (absent : list? receiver = none) :
      Checks (receiver.kind ∈ [Kind.mutableList])
        (member.require receiver (list? receiver) >>= change) := by
    rw [absent]
    exact ⟨fun here => absurd (List.mem_singleton.mp here) listed,
      fun _ => ⟨member.undefinedFor receiver, rfl⟩⟩
  cases receiver with
  | list reference =>
      have same : (Value.list reference).kind ∈ [Kind.mutableList] ↔
          reference.isMutable = true := by
        simp [Value.kind]
      exact ⟨fun listed => (checks reference).ordinary (same.mp listed),
        fun unlisted => (checks reference).fails (mt same.mpr unlisted)⟩
  | primitive value => exact refuses (by cases value <;> exact Kind.noConfusion) rfl
  | object object => exact refuses Kind.noConfusion rfl
  | function function => exact refuses Kind.noConfusion rfl

/-- The code of every member agrees with the table: on a receiver that the table lists it never
complains that it is not defined, and on any other one it fails. -/
theorem checks_invoke (member : Member) (receiver : Value) (arguments : List Value) (heap : Heap) :
    Checks (receiver.kind ∈ member.kinds) (member.invoke receiver arguments heap) := by
  unfold invoke
  split
  · refine .after (add.ordinary_onlyArgument arguments) fun argument => ?_
    exact add.checks_change receiver fun list =>
      (checks_push heap list argument).before fun _ => .ok _
  · refine .after (remove.ordinary_onlyArgument arguments) fun argument => ?_
    exact remove.checks_change receiver fun list =>
      (checks_removeItem heap list argument).before fun _ => .ok _
  · rename_i noAdd noRemove
    exact (member.checks_answer receiver arguments heap ⟨noAdd, noRemove⟩).before fun _ => .ok _

end Member

end Stencil
