import Stencil.Error
import Stencil.Heap.Equality

/-!
# Operations on lists

Elements are found by equality of values.  Only mutable lists can be added to and removed from.
While an element is removed from a list nothing else may look at the list, so removing breaks off if
an element can only be told from the value by looking at the list itself.
-/

namespace Stencil

theorem ok_of_bind {ε α β : Type} {first : Except ε α} {next : α → Except ε β} {answer : β}
    (ran : first >>= next = .ok answer) : ∃ middle, first = .ok middle ∧
        next middle = .ok answer := by
  cases first with
  | ok middle => exact ⟨middle, rfl, ran⟩
  | error error => cases ran

theorem error_of_bind {ε α β : Type} {first : Except ε α} {next : α → Except ε β} {error : ε}
    (failed : first >>= next = .error error) :
    first = .error error ∨ ∃ middle, first = .ok middle ∧ next middle = .error error := by
  cases first with
  | ok middle => exact .inr ⟨middle, rfl, failed⟩
  | error problem =>
      cases failed
      exact .inl rfl

namespace Heap

/-- Changes the elements of a list. -/
def modifyItems (heap : Heap) (index : Nat) (change : List Value → List Value) : Heap :=
  { heap with lists := heap.lists.modify index fun list =>
    { list with items := change list.items } }

/-- Place of the first element that equals a value. -/
def indexOf? (heap : Heap) (list : ListRef) (value : Value) : Option Nat :=
  (heap.items list).findIdx? fun item => heap.equal item value

/-- Whether an element equals a value. -/
def listContains (heap : Heap) (list : ListRef) (value : Value) : Bool :=
  (heap.items list).any fun item => heap.equal item value

/-- Adds a value at the end of a mutable list. -/
def push (heap : Heap) (list : ListRef) (value : Value) : Except TemplateError Heap :=
  if list.isMutable then .ok (heap.modifyItems list.index (· ++ [value]))
  else .error (.type (.listNotMutable "add"))

/-- Whether two lists of values are as long as each other and equal in every place, up to the first
place where they are not. -/
def equalItems (equal : Value → Value → Except TemplateError Bool) :
    List Value → List Value → Except TemplateError Bool
  | [], [] => .ok true
  | left :: lefts, right :: rights => do
      if ← equal left right then equalItems equal lefts rights else return false
  | _, _ => .ok false

/-- Equality of values that are nested at most `depth` deep, while a list is in use.  To compare two
lists that are not the same one both are looked at. -/
def equalBeside (heap : Heap) (inUse : Nat) : Nat → Value → Value → Except TemplateError Bool
  | 0, _, _ => .ok false
  | depth + 1, left, right =>
      match left, right with
      | .list left, .list right =>
          if left.index = right.index then .ok true
          else if left.index = inUse ∨ right.index = inUse then .error .listInUse
          else if (heap.items left).length ≠ (heap.items right).length then .ok false
          else equalItems (equalBeside heap inUse depth) (heap.items left) (heap.items right)
      | left, right => .ok (heap.equalWithin (depth + 1) left right)

/-- Place of the first of some elements that equals a value, while their list is in use. -/
def placeBeside (heap : Heap) (inUse : Nat) (value : Value) :
    List Value → Except TemplateError (Option Nat)
  | [] => .ok none
  | item :: items => do
      if ← heap.equalBeside inUse heap.pairBound item value then return some 0
      else return (← placeBeside heap inUse value items).map (· + 1)

/-- Removes the first element of a mutable list that equals a value; answers whether there was
one. -/
def removeItem (heap : Heap) (list : ListRef) (value : Value) :
    Except TemplateError (Bool × Heap) :=
  if list.isMutable then
    match heap.placeBeside list.index value (heap.items list) with
    | .ok (some place) => .ok (true, heap.modifyItems list.index (·.eraseIdx place))
    | .ok none => .ok (false, heap)
    | .error error => .error error
  else .error (.type (.listNotMutable "remove"))

theorem items_modifyItems_self {heap : Heap} {list : ListRef} (change : List Value → List Value)
    (present : heap.hasList list) :
    (heap.modifyItems list.index change).items list = change (heap.items list) := by
  unfold hasList at present
  simp [modifyItems, items, present, Array.getElem_modify]

theorem items_modifyItems_of_ne {heap : Heap} {index : Nat} {list : ListRef}
    (change : List Value → List Value) (different : list.index ≠ index) :
    (heap.modifyItems index change).items list = heap.items list := by
  simp [modifyItems, items, Array.getElem?_modify, different.symm]

theorem items_of_push {heap changed : Heap} {list : ListRef} {value : Value}
    (present : heap.hasList list) (added : heap.push list value = .ok changed) :
    changed.items list = heap.items list ++ [value] := by
  unfold push at added
  split at added
  · cases added
    exact items_modifyItems_self _ present
  · cases added

theorem equalItems_eq_ok {equal : Value → Value → Except TemplateError Bool}
    {isEqual : Value → Value → Bool} {lefts rights : List Value} {answer : Bool}
    (agrees : ∀ left right answer, equal left right = .ok answer → isEqual left right = answer)
    (found : equalItems equal lefts rights = .ok answer) :
    lefts.isEqv rights isEqual = answer := by
  induction lefts generalizing rights with
  | nil => cases rights <;> exact Except.ok.inj found
  | cons left lefts induction =>
      cases rights with
      | nil => exact Except.ok.inj found
      | cons right rights =>
          obtain ⟨same, first, later⟩ := ok_of_bind found
          rw [List.isEqv, agrees left right same first]
          cases same with
          | false => exact Except.ok.inj later
          | true => exact induction later

/-- Values that can be compared while a list is in use compare as they do otherwise. -/
theorem equalBeside_eq_ok {heap : Heap} {inUse depth : Nat} {left right : Value} {answer : Bool}
    (found : heap.equalBeside inUse depth left right = .ok answer) :
    heap.equalWithin depth left right = answer := by
  induction depth generalizing left right answer with
  | zero => exact Except.ok.inj found
  | succ depth induction =>
      unfold equalBeside at found
      split at found
      · rename_i left right
        split at found
        · rename_i same
          cases found
          simp [equalWithin, same]
        · rename_i different
          split at found
          · cases found
          · split at found
            · rename_i lengths
              cases found
              simp [equalWithin, different, List.isEqv_eq_decide, lengths]
            · have items := equalItems_eq_ok (fun _ _ _ => induction) found
              simp [equalWithin, different, items]
      · exact Except.ok.inj found

/-- The place that is found while the list is in use is where the first element is that equals the
value. -/
theorem placeBeside_eq_ok {heap : Heap} {inUse : Nat} {value : Value} {items : List Value}
    {place : Option Nat} (found : heap.placeBeside inUse value items = .ok place) :
    items.findIdx? (heap.equal · value) = place := by
  induction items generalizing place with
  | nil => exact Except.ok.inj found
  | cons item items induction =>
      obtain ⟨same, first, later⟩ := ok_of_bind found
      have isSame : heap.equal item value = same := equalBeside_eq_ok first
      rw [List.findIdx?_cons, isSame]
      cases same with
      | true => exact Except.ok.inj later
      | false =>
          obtain ⟨rest, isRest, same⟩ := ok_of_bind later
          rw [← Except.ok.inj same]
          exact congrArg (Option.map (· + 1)) (induction isRest)

theorem of_removeItem_true {heap changed : Heap} {list : ListRef} {value : Value}
    (removed : heap.removeItem list value = .ok (true, changed)) :
    list.isMutable = true ∧ ∃ place, heap.indexOf? list value = some place ∧
      changed = heap.modifyItems list.index (·.eraseIdx place) := by
  unfold removeItem at removed
  split at removed
  · rename_i isMutable
    split at removed
    · rename_i place found
      cases removed
      exact ⟨isMutable, place, placeBeside_eq_ok found, rfl⟩
    · cases removed
    · cases removed
  · cases removed

theorem of_removeItem_false {heap changed : Heap} {list : ListRef} {value : Value}
    (removed : heap.removeItem list value = .ok (false, changed)) :
    list.isMutable = true ∧ heap.indexOf? list value = none ∧ changed = heap := by
  unfold removeItem at removed
  split at removed
  · rename_i isMutable
    split at removed
    · cases removed
    · rename_i found
      cases removed
      exact ⟨isMutable, placeBeside_eq_ok found, rfl⟩
    · cases removed
  · cases removed

theorem listContains_eq_isSome_indexOf? (heap : Heap) (list : ListRef) (value : Value) :
    heap.listContains list value = (heap.indexOf? list value).isSome := by
  simp [listContains, indexOf?, List.findIdx?_isSome]

end Heap

end Stencil
