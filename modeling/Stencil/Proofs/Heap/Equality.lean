import Stencil.Proofs.Heap.Depth
import Stencil.Proofs.Primitive.Doubles

/-!
# Which values are equal

Equality compares lists element by element, to a bounded depth.  What it decides is the least
relation that relates equal primitives, objects and functions with themselves, and lists with
themselves and with lists whose elements are related in their places.  A list that is one with
another is equal to it even if an element is not equal to itself, yet the relation is symmetric and
transitive.
-/

namespace Stencil

namespace Heap

/-- Values that have one content. -/
inductive Same (heap : Heap) : Value → Value → Prop where
  | primitive {value : Primitive} (exact : value.kind ≠ .double) :
      Same heap (.primitive value) (.primitive value)
  /-- Doubles are compared as IEEE does it. -/
  | double {left right : Float} (same : (left == right) = true) :
      Same heap (.primitive (.double left)) (.primitive (.double right))
  | object (scope : ScopeRef) : Same heap (.object scope) (.object scope)
  | function (id : FunctionRef) : Same heap (.function id) (.function id)
  /-- References to one list share its elements, whatever they are. -/
  | list {left right : ListRef} (shared : left.index = right.index) :
      Same heap (.list left) (.list right)
  | items {left right : ListRef} (sizes : (heap.items left).length = (heap.items right).length)
      (same : ∀ (index : Nat) (inLeft : index < (heap.items left).length)
        (inRight : index < (heap.items right).length),
        Same heap (heap.items left)[index] (heap.items right)[index]) :
      Same heap (.list left) (.list right)

variable {heap : Heap} {left middle right : Value}

theorem Same.symm (same : heap.Same left right) : heap.Same right left := by
  induction same with
  | primitive exact => exact .primitive exact
  | double same =>
      rw [BEq.comm] at same
      exact .double same
  | object scope => exact .object scope
  | function id => exact .function id
  | list shared => exact .list shared.symm
  | items sizes _ induction =>
      exact .items sizes.symm fun index inRight inLeft => induction index inLeft inRight

theorem Same.trans (first : heap.Same left middle) (second : heap.Same middle right) :
    heap.Same left right := by
  induction first generalizing right with
  | primitive exact => exact second
  | double same =>
      cases second with
      | primitive exact => exact absurd rfl exact
      | double next => exact .double (BEq.trans same next)
  | object scope => exact second
  | function id => exact second
  | @list left between shared =>
      have items := heap.items_eq_of_index shared
      cases second with
      | list next => exact .list (shared.trans next)
      | items sizes same =>
          rw [← items] at sizes same
          exact .items sizes same
  | @items first between sizes same induction =>
      cases second with
      | @list between last shared =>
          have items := heap.items_eq_of_index shared
          rw [items] at sizes same
          exact .items sizes same
      | items nextSizes next =>
          apply Same.items (sizes.trans nextSizes)
          intro index inLeft inRight
          have inMiddle := sizes ▸ inLeft
          exact induction index inLeft inMiddle (next index inMiddle inRight)

theorem not_same_of_isNaN {number : Float} (notNumber : number.isNaN = true) (value : Value) :
    ¬heap.Same (.primitive (.double number)) value := by
  intro same
  cases same with
  | primitive exact => exact exact rfl
  | double same =>
      rw [Float.isNaN_eq_decide_eq_nan, decide_eq_true_iff] at notNumber
      rw [notNumber, Float.nan_beq_eq_false] at same
      contradiction

theorem equal_primitive (left right : Primitive) :
    heap.equal (.primitive left) (.primitive right) = left.equal right := by
  rw [← equalWithin_eq (Nat.le_succ heap.pairBound)]
  rfl

theorem equal_list (left right : ListRef) :
    heap.equal (.list left) (.list right) =
      (left.index = right.index || (heap.items left).isEqv (heap.items right) heap.equal) := by
  rw [← equalWithin_eq (Nat.le_succ heap.pairBound)]
  rfl

theorem same_of_primitive_equal {left right : Primitive} (equal : left.equal right = true) :
    heap.Same (.primitive left) (.primitive right) := by
  cases left <;> cases right <;> simp only [Primitive.equal, beq_iff_eq] at equal
  case double.double => exact .double equal
  all_goals first | contradiction | (subst equal; exact .primitive nofun)

theorem same_of_equalWithin {depth : Nat} (equal : heap.equalWithin depth left right = true) :
    heap.Same left right := by
  induction depth generalizing left right with
  | zero => contradiction
  | succ depth induction =>
      cases left with
      | primitive left =>
          cases right with
          | primitive right => exact same_of_primitive_equal equal
          | _ => contradiction
      | list left =>
          cases right with
          | list right =>
              simp only [equalWithin, Bool.or_eq_true, decide_eq_true_iff] at equal
              rcases equal with shared | equal
              · exact .list shared
              · rw [List.isEqv_eq_decide] at equal
                split at equal
                · rename_i sizes
                  apply Same.items sizes
                  intro index inLeft _
                  exact induction (of_decide_eq_true equal index inLeft)
                · contradiction
          | _ => contradiction
      | object left =>
          cases right with
          | object right =>
              obtain rfl := of_decide_eq_true equal
              exact .object left
          | _ => contradiction
      | function left =>
          cases right with
          | function right =>
              obtain rfl := of_decide_eq_true equal
              exact .function left
          | _ => contradiction

theorem equal_of_same (same : heap.Same left right) : heap.equal left right = true := by
  induction same with
  | @primitive value exact =>
      rw [equal_primitive]
      cases value <;> simp_all [Primitive.equal, Primitive.kind]
  | double same =>
      rw [equal_primitive]
      exact same
  | object scope =>
      rw [← equalWithin_eq (Nat.le_succ heap.pairBound)]
      exact decide_eq_true rfl
  | function id =>
      rw [← equalWithin_eq (Nat.le_succ heap.pairBound)]
      exact decide_eq_true rfl
  | list shared => simp [equal_list, shared]
  | items sizes _ induction =>
      rw [equal_list, List.isEqv_eq_decide, dif_pos sizes, Bool.or_eq_true]
      right
      exact decide_eq_true fun index inLeft => induction index inLeft (sizes ▸ inLeft)

theorem equal_iff_same : heap.equal left right = true ↔ heap.Same left right :=
  ⟨same_of_equalWithin, equal_of_same⟩

theorem equal_comm (heap : Heap) (left right : Value) :
    heap.equal left right = heap.equal right left := by
  rw [Bool.eq_iff_iff, equal_iff_same, equal_iff_same]
  exact ⟨Same.symm, Same.symm⟩

end Heap

end Stencil
