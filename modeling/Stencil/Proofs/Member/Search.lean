import Stencil.Member.Invocation
import Stencil.Proofs.Heap.Equality
import Stencil.Proofs.Heap.Inside

/-!
# Members that search lists

`contains`, `indexOf` and `remove` all look for the first element that has the content of their
argument, so they agree on whether there is one, and `get` finds it at the place that `indexOf`
answers.
-/

namespace Stencil

namespace Heap

variable {heap : Heap} {list : ListRef} {value : Value} {index : Nat}

/-- An element with the content of a value is at a place, and none is before it. -/
def FirstAt (heap : Heap) (list : ListRef) (value : Value) (index : Nat) : Prop :=
  (∃ element, (heap.items list)[index]? = some element ∧ heap.Same element value) ∧
    ∀ earlier < index, ∀ element, (heap.items list)[earlier]? = some element →
      ¬heap.Same element value

theorem indexOf?_eq_some_iff :
    heap.indexOf? list value = some index ↔ heap.FirstAt list value index := by
  simp only [indexOf?, List.findIdx?_eq_some_iff_getElem, FirstAt, ← equal_iff_same]
  constructor
  · rintro ⟨inside, same, before⟩
    refine ⟨⟨_, List.getElem?_eq_getElem inside, same⟩, ?_⟩
    intro earlier order element isElement
    obtain ⟨_, rfl⟩ := List.getElem?_eq_some_iff.mp isElement
    exact before earlier order
  · rintro ⟨⟨element, isElement, same⟩, before⟩
    obtain ⟨inside, rfl⟩ := List.getElem?_eq_some_iff.mp isElement
    refine ⟨inside, same, ?_⟩
    intro earlier order
    exact before earlier order _ (List.getElem?_eq_getElem (order.trans inside))

theorem FirstAt.lt (first : heap.FirstAt list value index) : index < (heap.items list).length := by
  obtain ⟨⟨element, isElement, -⟩, -⟩ := first
  exact (List.getElem?_eq_some_iff.mp isElement).1

/-- A mutable list can be removed from if neither the value nor an element leads to the list. -/
theorem removeItem_of_apart (isMutable : list.isMutable = true)
    (valueApart : ¬heap.LeadsTo value list.index)
    (itemsApart : ∀ item ∈ heap.items list, ¬heap.LeadsTo item list.index) :
    ∃ after, heap.removeItem list value = .ok ((heap.indexOf? list value).isSome, after) ∧
      after.items list = ((heap.indexOf? list value).elim id fun place items =>
        items.eraseIdx place) (heap.items list) := by
  cases removed : heap.removeItem list value with
  | error error =>
      rcases of_removeItem_error removed with ⟨isFixed, -⟩ | ⟨-, -, ⟨item, member, leads⟩ | leads⟩
      · rw [isMutable] at isFixed
        contradiction
      · exact absurd leads (itemsApart item member)
      · exact absurd leads valueApart
  | ok answer =>
      obtain ⟨isFound, after⟩ := answer
      cases isFound with
      | false =>
          obtain ⟨-, nowhere, rfl⟩ := of_removeItem_false removed
          rw [nowhere]
          exact ⟨_, rfl, rfl⟩
      | true =>
          obtain ⟨-, place, isThere, rfl⟩ := of_removeItem_true removed
          rw [isThere]
          refine ⟨_, rfl, items_modifyItems_self _ ?_⟩
          -- A list that has elements is on the heap.
          have inside := (indexOf?_eq_some_iff.mp isThere).lt
          by_contra absent
          unfold hasList at absent
          simp [items, absent] at inside

end Heap

namespace Member

variable {heap : Heap} {list : ListRef} {value : Value}

theorem invoke_contains_list {arguments : List Value} (nonempty : arguments ≠ []) :
    invoke .contains (.list list) arguments heap =
      .ok (.boolean (arguments.all (heap.listContains list)), heap) := by
  cases arguments with
  | nil => contradiction
  | cons argument arguments => rfl

theorem contains_one :
    invoke .contains (.list list) [value] heap =
      .ok (.boolean (heap.listContains list value), heap) := by
  rw [invoke_contains_list (List.cons_ne_nil _ _)]
  simp

/-- The int that `indexOf` answers. -/
def placeOf (heap : Heap) (list : ListRef) (value : Value) : Int32 :=
  (heap.indexOf? list value).elim (-1) Int32.ofNat

theorem invoke_indexOf_list :
    invoke .indexOf (.list list) [value] heap = .ok (.int (placeOf heap list value), heap) := by
  unfold placeOf
  cases found : heap.indexOf? list value <;>
    simp [invoke, answer, onlyArgument, require, list?, found, bind, Except.bind, pure, Except.pure]

theorem invoke_size_list :
    invoke .size (.list list) [] heap =
      .ok (.int (Int32.ofNat (heap.items list).length), heap) := rfl

theorem invoke_remove_list :
    invoke .remove (.list list) [value] heap =
      (heap.removeItem list value).map fun answer => (.boolean answer.1, answer.2) := by
  change heap.removeItem list value >>= _ = _
  cases heap.removeItem list value <;> rfl

theorem invoke_get_list (index : Int32) :
    invoke .get (.list list) [.int index] heap =
      if 0 ≤ index.toInt then
        match (heap.items list)[index.toInt.toNat]? with
        | some element => .ok (element, heap)
        | none => .error (.reference (.indexOutOfBounds index.toInt))
      else .error (.reference (.indexOutOfBounds index.toInt)) := by
  have indexes : indexOfArgument (.int index) = if 0 ≤ index.toInt then .ok index.toInt.toNat
      else .error (.reference (.indexOutOfBounds index.toInt)) := rfl
  change (indexOfArgument (.int index) >>= fun place =>
    (match (heap.items list)[place]? with
    | some element => Except.ok element
    | none => .error (TemplateError.reference (.indexOutOfBounds place)))) >>= _ = _
  rw [indexes]
  split
  · rename_i positive
    change (match (heap.items list)[index.toInt.toNat]? with
      | some element => Except.ok element
      | none => .error (TemplateError.reference (.indexOutOfBounds index.toInt.toNat))) >>= _ = _
    rw [Int.toNat_of_nonneg positive]
    cases (heap.items list)[index.toInt.toNat]? <;> rfl
  · rfl

theorem invoke_joinToString_list :
    invoke .joinToString (.list list) [] heap =
      .ok (.string (String.intercalate "," ((heap.items list).map heap.display)), heap) := rfl

section

variable (short : (heap.items list).length < 2 ^ 31)

include short

theorem toNat_placeOf (isThere : placeOf heap list value ≠ -1) :
    0 ≤ (placeOf heap list value).toInt ∧
      heap.indexOf? list value = some (placeOf heap list value).toInt.toNat := by
  unfold placeOf at isThere ⊢
  cases found : heap.indexOf? list value with
  | none =>
      rw [found] at isThere
      contradiction
  | some index =>
      have small := (Heap.indexOf?_eq_some_iff.mp found).lt.trans short
      rw [Option.elim_some, Int32.toInt_ofNat_of_lt small]
      exact ⟨Int.natCast_nonneg _, rfl⟩

theorem listContains_iff_placeOf :
    heap.listContains list value = true ↔ placeOf heap list value ≠ -1 := by
  rw [Heap.listContains_eq_isSome_indexOf?]
  constructor
  · intro found isNone
    obtain ⟨index, isIndex⟩ := Option.isSome_iff_exists.mp found
    have small := (Heap.indexOf?_eq_some_iff.mp isIndex).lt.trans short
    have same := congrArg Int32.toInt isNone
    rw [placeOf, isIndex, Option.elim_some, Int32.toInt_ofNat_of_lt small] at same
    exact absurd (same ▸ Int.natCast_nonneg index) (by decide)
  · intro isThere
    rw [(toNat_placeOf short isThere).2]
    rfl

theorem get_placeOf (isThere : placeOf heap list value ≠ -1) :
    ∃ element, invoke .get (.list list) [.int (placeOf heap list value)] heap =
        .ok (element, heap) ∧ heap.Same element value ∧
      ∀ earlier < (placeOf heap list value).toInt.toNat, ∀ other,
        (heap.items list)[earlier]? = some other → ¬heap.Same other value := by
  obtain ⟨positive, isIndex⟩ := toNat_placeOf short isThere
  obtain ⟨⟨element, isElement, same⟩, before⟩ := Heap.indexOf?_eq_some_iff.mp isIndex
  refine ⟨element, ?_, same, before⟩
  rw [invoke_get_list, if_pos positive, isElement]

theorem remove_placeOf (isMutable : list.isMutable = true)
    (valueApart : ¬heap.LeadsTo value list.index)
    (itemsApart : ∀ item ∈ heap.items list, ¬heap.LeadsTo item list.index) :
    ∃ after, invoke .remove (.list list) [value] heap =
        .ok (.boolean (heap.listContains list value), after) ∧
      after.items list =
        if heap.listContains list value then
          (heap.items list).eraseIdx (placeOf heap list value).toInt.toNat
        else heap.items list := by
  obtain ⟨after, removed, isAfter⟩ := Heap.removeItem_of_apart isMutable valueApart itemsApart
  rw [invoke_remove_list, removed, ← Heap.listContains_eq_isSome_indexOf?]
  refine ⟨after, rfl, ?_⟩
  rw [isAfter]
  cases found : heap.listContains list value with
  | true =>
      rw [(toNat_placeOf short ((listContains_iff_placeOf short).mp found)).2]
      rfl
  | false =>
      rw [Heap.listContains_eq_isSome_indexOf?, Option.isSome_eq_false_iff,
        Option.isNone_iff_eq_none] at found
      rw [found]
      rfl

theorem get_iff (index : Int32) :
    if 0 ≤ index.toInt ∧ index.toInt < (Int32.ofNat (heap.items list).length).toInt then
      ∃ element, invoke .get (.list list) [.int index] heap = .ok (element, heap) ∧
        (heap.items list)[index.toInt.toNat]? = some element
    else
      invoke .get (.list list) [.int index] heap =
        .error (.reference (.indexOutOfBounds index.toInt)) := by
  rw [Int32.toInt_ofNat_of_lt short, invoke_get_list]
  split
  · rename_i inside
    have isElement := List.getElem?_eq_getElem (l := heap.items list) (i := index.toInt.toNat)
      (by omega)
    rw [if_pos inside.1, isElement]
    exact ⟨_, rfl, rfl⟩
  · rename_i outside
    split
    · rename_i positive
      rw [List.getElem?_eq_none (by omega)]
    · rfl

end

theorem contains_each {arguments : List Value} (nonempty : arguments ≠ []) :
    ∃ all, invoke .contains (.list list) arguments heap = .ok (.boolean all, heap) ∧
      (all = true ↔ ∀ argument ∈ arguments,
        invoke .contains (.list list) [argument] heap = .ok (.boolean true, heap)) := by
  refine ⟨_, invoke_contains_list nonempty, ?_⟩
  simp [contains_one]

theorem joinToString_eq {text : String} (shown : heap.display? (.list list) = some text) :
    invoke .joinToString (.list list) [] heap = .ok (.string text, heap) := by
  rw [invoke_joinToString_list, Heap.display?_list shown]

/-- What the members of a list answer about a value and about places. -/
theorem list_members_agree (short : (heap.items list).length < 2 ^ 31) (value : Value) :
    (∃ (found : Bool) (place : Int32),
      invoke .contains (.list list) [value] heap = .ok (.boolean found, heap) ∧
      invoke .indexOf (.list list) [value] heap = .ok (.int place, heap) ∧
      (found = true ↔ place ≠ -1) ∧
      (place ≠ -1 →
        ∃ element, invoke .get (.list list) [.int place] heap = .ok (element, heap) ∧
          heap.Same element value ∧
          ∀ earlier < place.toInt.toNat, ∀ other,
            (heap.items list)[earlier]? = some other → ¬heap.Same other value) ∧
      (list.isMutable = true → ¬heap.LeadsTo value list.index →
        (∀ item ∈ heap.items list, ¬heap.LeadsTo item list.index) →
        ∃ after, invoke .remove (.list list) [value] heap = .ok (.boolean found, after) ∧
          after.items list =
            if found then (heap.items list).eraseIdx place.toInt.toNat else heap.items list)) ∧
    (∃ size : Int32, invoke .size (.list list) [] heap = .ok (.int size, heap) ∧
      ∀ index : Int32,
        if 0 ≤ index.toInt ∧ index.toInt < size.toInt then
          ∃ element, invoke .get (.list list) [.int index] heap = .ok (element, heap) ∧
            (heap.items list)[index.toInt.toNat]? = some element
        else
          invoke .get (.list list) [.int index] heap =
            .error (.reference (.indexOutOfBounds index.toInt))) ∧
    (∀ values, values ≠ [] →
      ∃ all, invoke .contains (.list list) values heap = .ok (.boolean all, heap) ∧
        (all = true ↔ ∀ each ∈ values,
          invoke .contains (.list list) [each] heap = .ok (.boolean true, heap))) ∧
    (∀ text, heap.display? (.list list) = some text →
      invoke .joinToString (.list list) [] heap = .ok (.string text, heap)) ∧
    (heap.Unlooped (.list list) → (heap.display? (.list list)).isSome = true) := by
  refine ⟨⟨_, _, contains_one, invoke_indexOf_list, listContains_iff_placeOf short,
    get_placeOf short, remove_placeOf short⟩, ⟨_, invoke_size_list, get_iff short⟩,
    fun _ => contains_each, fun _ => joinToString_eq, ?_⟩
  intro unlooped
  rw [unlooped.display?_eq]
  rfl

/-- A list that has two equal lists among its elements, and another list that is equal to them. -/
def repeated : Heap where
  scopes := #[]
  lists := #[⟨[.int 5, .list ⟨false, 1⟩, .int 5, .list ⟨false, 1⟩], true⟩, ⟨[.int 1], false⟩,
    ⟨[.int 1], true⟩]

theorem list_members_agree_repeated :
    ∃ after, invoke .remove (.list ⟨true, 0⟩) [.list ⟨true, 2⟩] repeated =
        .ok (.boolean true, after) ∧
      after.items ⟨true, 0⟩ = [.int 5, .int 5, .list ⟨false, 1⟩] := by
  have short : (repeated.items ⟨true, 0⟩).length < 2 ^ 31 := by decide
  have number (value : Int32) : ¬repeated.LeadsTo (.int value) 0 := by
    rw [Heap.leadsTo_iff]
    rintro (⟨_, -, nothing⟩ | ⟨_, nothing, -⟩) <;> cases nothing
  -- The two lists that hold the number 1 only do not lead to the list that is removed from.
  have flat {list : ListRef} (different : list.index ≠ 0)
      (holds : repeated.items list = [.int 1]) : ¬repeated.LeadsTo (.list list) 0 := by
    rw [Heap.leadsTo_iff]
    rintro (⟨other, isIndex, same⟩ | ⟨part, isPart, leads⟩)
    · cases same
      exact different isIndex
    · have isOne : part ∈ repeated.items list := isPart
      rw [holds, List.mem_singleton] at isOne
      subst isOne
      exact number 1 leads
  have apart (item : Value) (member : item ∈ repeated.items ⟨true, 0⟩) :
      ¬repeated.LeadsTo item 0 := by
    have items : repeated.items ⟨true, 0⟩ =
      [.int 5, .list ⟨false, 1⟩, .int 5, .list ⟨false, 1⟩] := rfl
    rw [items] at member
    simp only [List.mem_cons, List.not_mem_nil, or_false] at member
    rcases member with rfl | rfl | rfl | rfl
    · exact number 5
    · exact flat (by decide) rfl
    · exact number 5
    · exact flat (by decide) rfl
  obtain ⟨⟨found, place, contains, indexOf, -, -, removes⟩, -⟩ :=
    list_members_agree short (.list ⟨true, 2⟩)
  obtain ⟨after, removed, isAfter⟩ := removes rfl (flat (by decide) rfl) apart
  have isFound : repeated.listContains ⟨true, 0⟩ (.list ⟨true, 2⟩) = true := by decide +kernel
  have isPlace : placeOf repeated ⟨true, 0⟩ (.list ⟨true, 2⟩) = 1 := by decide +kernel
  rw [contains_one, isFound] at contains
  rw [invoke_indexOf_list, isPlace] at indexOf
  cases contains
  cases indexOf
  exact ⟨after, removed, isAfter⟩

end Member

end Stencil
