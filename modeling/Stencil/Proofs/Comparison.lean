import Stencil.Condition.Basic
import Stencil.Proofs.Heap.Objects

/-!
# Comparisons agree with one another

Two values are ordered, or they only know equality, or they cannot be compared at all; which of
these it is does not depend on the side that they stand on.  So the six comparisons of two values
agree with one another and with those of the same values the other way round.
-/

namespace Stencil

namespace Primitive

/-- Whether a primitive is the double that is not a number. -/
def isNaN : Primitive → Bool
  | double value => value.isNaN
  | _ => false

end Primitive

/-- Two numbers of which one is not a number. -/
def Value.MeetNaN : Value → Value → Prop
  | .primitive left, .primitive right =>
      (left.isNumber ∧ right.isNumber) ∧ (left.isNaN ∨ right.isNaN)
  | _, _ => False

/-- How two values stand to each other in comparisons, given how they are compared and how they are
compared the other way round. -/
inductive Compared (forward backward : Comparison → Except TemplateError Bool) : Prop where
  | ordered (ordering : Ordering) (isForward : ∀ comparison, forward comparison =
      .ok (comparison.holds ordering)) (isBackward : ∀ comparison, backward comparison =
      .ok (comparison.holds ordering.swap))
  | equalityOnly (ordering : Ordering)
      (isForward : ∀ comparison, (forward comparison).toOption =
        if comparison.testsEquality then some (comparison.holds ordering) else none)
      (isBackward : ∀ comparison, (backward comparison).toOption =
        if comparison.testsEquality then some (comparison.holds ordering) else none)
  | never (isForward : ∀ comparison, (forward comparison).toOption = none)
      (isBackward : ∀ comparison, (backward comparison).toOption = none)

namespace Compared

variable {forward backward : Comparison → Except TemplateError Bool}

theorem notEqual (standing : Compared forward backward) :
    (forward .notEqual).toOption = (forward .equal).toOption.map (!·) := by
  cases standing with
  | ordered ordering isForward =>
      rw [isForward, isForward]
      rfl
  | equalityOnly ordering isForward =>
      rw [isForward, isForward]
      rfl
  | never isForward =>
      rw [isForward, isForward]
      rfl

theorem converse (standing : Compared forward backward) (comparison : Comparison) :
    (backward comparison.converse).toOption = (forward comparison).toOption := by
  cases standing with
  | ordered ordering isForward isBackward =>
      rw [isForward, isBackward, Comparison.holds_converse]
  | equalityOnly ordering isForward isBackward =>
      rw [isForward, isBackward]
      cases comparison <;> rfl
  | never isForward isBackward => rw [isForward, isBackward]

theorem trichotomy (standing : Compared forward backward) {less : Bool}
    (isLess : forward .less = .ok less) :
    ∃ equal greater, forward .equal = .ok equal ∧ forward .greater = .ok greater ∧
      [less, equal, greater].count true = 1 ∧ forward .lessOrEqual = .ok (!greater) ∧
      forward .greaterOrEqual = .ok (!less) := by
  cases standing with
  | ordered ordering isForward =>
      rw [isForward, Except.ok.injEq] at isLess
      subst isLess
      refine ⟨_, _, isForward .equal, isForward .greater, ?_, ?_, ?_⟩
      · cases ordering <;> rfl
      · rw [isForward]
        cases ordering <;> rfl
      · rw [isForward]
        cases ordering <;> rfl
  | equalityOnly ordering isForward =>
      have none := isForward .less
      rw [isLess] at none
      cases none
  | never isForward =>
      have none := isForward .less
      rw [isLess] at none
      cases none

end Compared

namespace Primitive

variable {left right : Primitive}

theorem equal_comm (left right : Primitive) : left.equal right = right.equal left := by
  cases left <;> cases right <;> simp only [equal, BEq.comm]

theorem compared_of_order {ordering : Ordering}
    (isForward : ∀ comparison, order comparison left right = .ok ordering)
    (isBackward : ∀ comparison, order comparison right left = .ok ordering.swap) :
    Compared (left.compares · right) (right.compares · left) := by
  apply Compared.ordered ordering
  · intro comparison
    rw [compares, isForward]
    rfl
  · intro comparison
    rw [compares, isBackward]
    rfl

theorem compared_of_equalityOrder
    (isForward : ∀ comparison, order comparison left right = equalityOrder comparison left right)
    (isBackward : ∀ comparison, order comparison right left = equalityOrder comparison right left) :
    Compared (left.compares · right) (right.compares · left) := by
  apply Compared.equalityOnly (if left.equal right then .eq else .lt)
  · intro comparison
    rw [compares, isForward, equalityOrder]
    split <;> rfl
  · intro comparison
    rw [compares, isBackward, equalityOrder, equal_comm right left]
    split <;> rfl

theorem isNaN_toDouble (number : left.isNumber = true) (isNumber : left.isNaN = false) :
    left.toDouble.isNaN = false := by
  cases left with
  | int value => exact Double.isNaN_ofInt _
  | long value => exact Double.isNaN_ofInt _
  | double value => exact isNumber
  | _ => contradiction

theorem integerOrder?_swap (left right : Primitive) :
    integerOrder? right left = (integerOrder? left right).map .swap := by
  have words (first second : Int) : compare second first = (compare first second).swap :=
    Std.OrientedCmp.eq_swap
  cases left <;> cases right <;> first | rfl | exact congrArg some (words _ _)

theorem compared_of_numbers (isLeft : left.isNumber = true) (isRight : right.isNumber = true)
    (leftNumber : left.isNaN = false) (rightNumber : right.isNaN = false) :
    Compared (left.compares · right) (right.compares · left) := by
  have order_eq {left right : Primitive} (isLeft : left.isNumber = true)
      (isRight : right.isNumber = true) (comparison : Comparison) :
      order comparison left right =
        .ok ((integerOrder? left right).getD (Double.order left.toDouble right.toDouble)) := by
    cases left <;> cases right <;> first | rfl | contradiction
  apply compared_of_order (order_eq isLeft isRight)
  intro comparison
  rw [order_eq isRight isLeft, integerOrder?_swap left right]
  cases integerOrder? left right with
  | some ordering => rfl
  | none =>
      simp only [Option.map_none, Option.getD_none]
      rw [Double.order_swap (isNaN_toDouble isLeft leftNumber) (isNaN_toDouble isRight rightNumber)]

theorem compared (apart : ¬Value.MeetNaN (.primitive left) (.primitive right)) :
    Compared (left.compares · right) (right.compares · left) := by
  by_cases numbers : left.isNumber = true ∧ right.isNumber = true
  · simp only [Value.MeetNaN, numbers, and_self, true_and, not_or, Bool.not_eq_true] at apart
    exact compared_of_numbers numbers.1 numbers.2 apart.1 apart.2
  · cases left <;> cases right
    case boolean.boolean => exact compared_of_equalityOrder (fun _ => rfl) fun _ => rfl
    case string.string => exact compared_of_equalityOrder (fun _ => rfl) fun _ => rfl
    case char.char left right =>
        apply compared_of_order (fun _ => rfl)
        intro comparison
        have swap : compare right.toNat left.toNat = (compare left.toNat right.toNat).swap :=
          Std.OrientedCmp.eq_swap
        rw [← swap]
        rfl
    all_goals
      -- Two numbers, or primitives of different kinds that have no order.
      first
      | exact absurd ⟨rfl, rfl⟩ numbers
      | exact .never (fun _ => rfl) fun _ => rfl

end Primitive

namespace Heap

variable {heap : Heap} {left right : Value}

theorem valueOrder_comm (heap : Heap) (left right : Value) :
    heap.valueOrder left right = heap.valueOrder right left := by
  unfold valueOrder
  cases left <;> cases right <;> simp only [objectOrder_comm, equal_comm]

theorem compared (heap : Heap) (apart : ¬left.MeetNaN right) :
    Compared (heap.compares · left right) (heap.compares · right left) := by
  have equalityOnly (differ : ∀ comparison, heap.compares comparison left right =
      if comparison.testsEquality then .ok (comparison.holds (heap.valueOrder left right))
      else .error (.type (.cannotCompare left.kind right.kind comparison)))
      (back : ∀ comparison, heap.compares comparison right left =
      if comparison.testsEquality then .ok (comparison.holds (heap.valueOrder right left))
      else .error (.type (.cannotCompare right.kind left.kind comparison))) :
      Compared (heap.compares · left right) (heap.compares · right left) := by
    apply Compared.equalityOnly (heap.valueOrder left right)
    · intro comparison
      rw [differ]
      split <;> rfl
    · intro comparison
      rw [back, valueOrder_comm heap right left]
      split <;> rfl
  cases left with
  | primitive left =>
      cases right with
      | primitive right => exact Primitive.compared apart
      | _ => exact equalityOnly (fun _ => rfl) fun _ => rfl
  | _ =>
      exact equalityOnly (fun comparison => by cases right <;> rfl) fun comparison => by
        cases right <;> rfl

/-- The comparisons of two values agree with one another and with their converses. -/
theorem comparisons_cohere (heap : Heap) (apart : ¬left.MeetNaN right) :
    ((heap.compares .notEqual left right).toOption =
        (heap.compares .equal left right).toOption.map (!·)) ∧
    (∀ comparison, (heap.compares comparison.converse right left).toOption =
        (heap.compares comparison left right).toOption) ∧
    ∀ less, heap.compares .less left right = .ok less →
      ∃ equal greater, heap.compares .equal left right = .ok equal ∧
        heap.compares .greater left right = .ok greater ∧
        [less, equal, greater].count true = 1 ∧
        heap.compares .lessOrEqual left right = .ok (!greater) ∧
        heap.compares .greaterOrEqual left right = .ok (!less) := by
  have standing := compared heap apart
  exact ⟨standing.notEqual, standing.converse, fun less => standing.trichotomy⟩

theorem comparisons_cohere_promoted :
    ¬(Value.primitive (.int 1)).MeetNaN (.primitive (.double 2.5)) ∧
      (default : Heap).compares .lessOrEqual (.primitive (.int 1)) (.primitive (.double 2.5)) =
        .ok true ∧
      ((default : Heap).compares .greater (.primitive (.double 2.5))
        (.primitive (.int 1))).toOption = some true := by
  have apart : ¬(Value.primitive (.int 1)).MeetNaN (.primitive (.double 2.5)) := by
    rintro ⟨-, isNaN | isNaN⟩
    · contradiction
    · exact absurd isNaN (by decide +kernel)
  have less : (default : Heap).compares .less (.primitive (.int 1)) (.primitive (.double 2.5)) =
      .ok true := by decide +kernel
  obtain ⟨-, converse, trichotomy⟩ := comparisons_cohere default apart
  obtain ⟨equal, greater, -, -, one, atMost, -⟩ := trichotomy true less
  refine ⟨apart, ?_, ?_⟩
  · cases greater with
    | false => exact atMost
    | true => cases equal <;> contradiction
  · have swapped := converse .less
    rw [less] at swapped
    exact swapped

end Heap

end Stencil
