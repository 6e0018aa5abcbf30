import Stencil.Heap.List

/-!
# What happens to lists

Lists are created, and mutable ones are added to and removed from; nothing else ever happens to the
elements of a list.  So what a list holds is what its own events made of it.  Every reference to a
list says by itself whether the list is mutable: as long as they all say what the list was created
as, a fixed list goes on holding what it was created with.
-/

namespace Stencil

/-- Something that happens to a list through a reference to it. -/
inductive ListEvent where
  | created (list : ListRef) (items : List Value)
  | added (list : ListRef) (value : Value)
  | removed (list : ListRef) (place : Nat)

namespace ListEvent

/-- What an event makes of the elements of the list with some index. -/
def onItems (index : Nat) (before : List Value) : ListEvent → List Value
  | created list items => if list.index = index then items else before
  | added list value => if list.index = index then before ++ [value] else before
  | removed list place => if list.index = index then before.eraseIdx place else before

/-- What events make of the elements of the list with some index. -/
def replay (index : Nat) (events : List ListEvent) (before : List Value) : List Value :=
  events.foldl (onItems index) before

/-- The reference that creating a list answers. -/
def created? : ListEvent → Option ListRef
  | created list _ => some list
  | added _ _ | removed _ _ => none

theorem replay_append (index : Nat) (events later : List ListEvent) (before : List Value) :
    replay index (events ++ later) before = replay index later (replay index events before) :=
  List.foldl_append

end ListEvent

open ListEvent

namespace Heap

/-- A reference to a list that is there, and it is mutable if the list was created so. -/
structure Alias (heap : Heap) (list : ListRef) : Prop where
  present : heap.hasList list
  agrees : heap.createdMutable list = list.isMutable

/-- A step that creates a list, adds to one, removes from one, or leaves all lists alone. -/
inductive ListStep (heap : Heap) : List ListEvent → Heap → Prop where
  | apart {after : Heap} (lists : after.lists = heap.lists) : ListStep heap [] after
  | create (isMutable : Bool) (items : List Value) :
      ListStep heap [.created (heap.newList isMutable items).1 items]
        (heap.newList isMutable items).2
  | add {list : ListRef} {value : Value} {after : Heap} (isAlias : heap.Alias list)
      (added : heap.push list value = .ok after) : ListStep heap [.added list value] after
  | remove {list : ListRef} {value : Value} {place : Nat} {after : Heap}
      (isAlias : heap.Alias list) (found : heap.indexOf? list value = some place)
      (removed : heap.removeItem list value = .ok (true, after)) :
      ListStep heap [.removed list place] after

/-- Events happen to the lists of a heap one after the other. -/
inductive Undergoes (heap : Heap) : List ListEvent → Heap → Prop where
  | refl : Undergoes heap [] heap
  | step {events more : List ListEvent} {middle after : Heap}
      (earlier : Undergoes heap events middle) (step : middle.ListStep more after) :
      Undergoes heap (events ++ more) after

variable {heap middle after : Heap} {list other : ListRef} {events later : List ListEvent}
  {index : Nat} {change : List Value → List Value}

theorem Alias.eq_of_index (isAlias : heap.Alias list) (isOther : heap.Alias other)
    (same : list.index = other.index) : list = other := by
  have agree : list.isMutable = other.isMutable := by
    rw [← isAlias.agrees, ← isOther.agrees, createdMutable, createdMutable, same]
  obtain ⟨whether, index⟩ := list
  cases agree
  cases same
  rfl

theorem hasList_modifyItems_iff :
    (heap.modifyItems index change).hasList list ↔ heap.hasList list := by
  simp [hasList, modifyItems]

theorem createdMutable_modifyItems :
    (heap.modifyItems index change).createdMutable list = heap.createdMutable list := by
  by_cases present : list.index < heap.lists.size
  · simp only [createdMutable, modifyItems, Array.getD_eq_getD_getElem?, Array.getElem?_modify,
      Array.getElem?_eq_getElem present]
    split <;> rfl
  · simp [createdMutable, modifyItems, present]

theorem alias_modifyItems_iff : (heap.modifyItems index change).Alias list ↔ heap.Alias list := by
  constructor
  · rintro ⟨present, agrees⟩
    exact ⟨hasList_modifyItems_iff.mp present, createdMutable_modifyItems ▸ agrees⟩
  · rintro ⟨present, agrees⟩
    exact ⟨hasList_modifyItems_iff.mpr present, createdMutable_modifyItems.trans agrees⟩

theorem items_modifyItems (present : heap.hasList list) (other : ListRef) :
    (heap.modifyItems list.index change).items other =
      if list.index = other.index then change (heap.items other) else heap.items other := by
  split
  · rename_i same
    rw [same]
    apply items_modifyItems_self
    rwa [hasList, ← same]
  · rename_i different
    exact items_modifyItems_of_ne change (Ne.symm different)

theorem of_push {value : Value} (added : heap.push list value = .ok after) :
    list.isMutable = true ∧ after = heap.modifyItems list.index (· ++ [value]) := by
  unfold push at added
  split at added
  · rename_i isMutable
    cases added
    exact ⟨isMutable, rfl⟩
  · cases added

theorem of_removeItem {value : Value} {place : Nat} (found : heap.indexOf? list value = some place)
    (removed : heap.removeItem list value = .ok (true, after)) :
    list.isMutable = true ∧ after = heap.modifyItems list.index (·.eraseIdx place) := by
  obtain ⟨isMutable, other, isPlace, same⟩ := of_removeItem_true removed
  rw [isPlace] at found
  cases found
  exact ⟨isMutable, same⟩

section

variable {isMutable : Bool} {items : List Value}

theorem not_hasList_newList (heap : Heap) (isMutable : Bool) (items : List Value) :
    ¬heap.hasList (heap.newList isMutable items).1 := by
  simp [newList, hasList]

theorem hasList_newList (present : heap.hasList list) :
    (heap.newList isMutable items).2.hasList list := by
  simp only [newList, hasList, Array.size_push] at present ⊢
  omega

theorem items_newList_of_ne (different : (heap.newList isMutable items).1.index ≠ list.index) :
    (heap.newList isMutable items).2.items list = heap.items list := by
  simp only [newList, Heap.items, Array.getD_eq_getD_getElem?, Array.getElem?_push] at different ⊢
  rw [if_neg different.symm]

theorem createdMutable_newList_of_hasList (present : heap.hasList list) :
    (heap.newList isMutable items).2.createdMutable list = heap.createdMutable list := by
  unfold hasList at present
  simp [newList, createdMutable, Array.getElem?_push_lt, present]

theorem alias_newList_self :
    (heap.newList isMutable items).2.Alias (heap.newList isMutable items).1 := by
  constructor
  · simp [newList, hasList]
  · simp [newList, createdMutable]

theorem alias_newList_iff : (heap.newList isMutable items).2.Alias list ↔
    heap.Alias list ∨ list = (heap.newList isMutable items).1 := by
  constructor
  · intro isAlias
    by_cases present : heap.hasList list
    · refine .inl ⟨present, ?_⟩
      rw [← createdMutable_newList_of_hasList present]
      exact isAlias.agrees
    · refine .inr (isAlias.eq_of_index alias_newList_self ?_)
      have inside := isAlias.present
      simp only [newList, hasList, Array.size_push] at inside present ⊢
      omega
  · rintro (⟨present, agrees⟩ | rfl)
    · exact ⟨hasList_newList present, (createdMutable_newList_of_hasList present).trans agrees⟩
    · exact alias_newList_self

end

namespace ListStep

theorem items (step : heap.ListStep events after) (list : ListRef) :
    after.items list = replay list.index events (heap.items list) := by
  cases step with
  | apart lists => simp [replay, Heap.items, lists]
  | create isMutable items =>
      change _ = if _ = list.index then items else heap.items list
      split
      · rename_i same
        rw [← items_eq_of_index _ same, items_newList_self]
      · rename_i different
        exact items_newList_of_ne different
  | add isAlias added =>
      obtain ⟨isMutable, rfl⟩ := of_push added
      exact items_modifyItems isAlias.present list
  | remove isAlias found removed =>
      obtain ⟨isMutable, rfl⟩ := of_removeItem found removed
      exact items_modifyItems isAlias.present list

theorem hasList (step : heap.ListStep events after) (present : heap.hasList list) :
    after.hasList list := by
  cases step with
  | apart lists => rwa [Heap.hasList, lists]
  | create isMutable items => exact hasList_newList present
  | add isAlias added =>
      obtain ⟨-, rfl⟩ := of_push added
      exact hasList_modifyItems_iff.mpr present
  | remove isAlias found removed =>
      obtain ⟨-, rfl⟩ := of_removeItem found removed
      exact hasList_modifyItems_iff.mpr present

theorem alias_iff (step : heap.ListStep events after) :
    after.Alias list ↔ heap.Alias list ∨ list ∈ events.filterMap created? := by
  cases step with
  | apart lists =>
      constructor
      · rintro ⟨present, agrees⟩
        rw [Heap.hasList, lists] at present
        rw [createdMutable, lists] at agrees
        exact .inl ⟨present, agrees⟩
      · rintro (⟨present, agrees⟩ | created)
        · exact ⟨by rwa [Heap.hasList, lists], by rwa [createdMutable, lists]⟩
        · cases created
  | create isMutable items =>
      rw [alias_newList_iff]
      simp [created?]
  | add isAlias added =>
      obtain ⟨-, rfl⟩ := of_push added
      simp [alias_modifyItems_iff, created?]
  | remove isAlias found removed =>
      obtain ⟨-, rfl⟩ := of_removeItem found removed
      simp [alias_modifyItems_iff, created?]

theorem fresh (step : heap.ListStep events after) (created : list ∈ events.filterMap created?) :
    ¬heap.hasList list := by
  cases step with
  | apart lists => cases created
  | create isMutable items =>
      obtain rfl : list = (heap.newList isMutable items).1 := by simpa [created?] using created
      exact not_hasList_newList heap isMutable items
  | add isAlias added => cases created
  | remove isAlias found removed => cases created

theorem nodup (step : heap.ListStep events after) :
    ((events.filterMap created?).map ListRef.index).Nodup := by
  cases step with
  | apart lists => exact List.nodup_nil
  | create isMutable items => exact List.nodup_cons.mpr ⟨List.not_mem_nil, List.nodup_nil⟩
  | add isAlias added => exact List.nodup_nil
  | remove isAlias found removed => exact List.nodup_nil

/-- A fixed list is neither created again nor added to or removed from, for all references to it say
that it is fixed. -/
theorem items_of_fixed (step : heap.ListStep events after) (isAlias : heap.Alias list)
    (isFixed : list.isMutable = false) : after.items list = heap.items list := by
  have differs {other : ListRef} (isOther : heap.Alias other) (isMutable : other.isMutable = true) :
      ¬other.index = list.index := by
    intro same
    rw [isOther.eq_of_index isAlias same, isFixed] at isMutable
    contradiction
  cases step with
  | apart lists => simp [Heap.items, lists]
  | create isMutable items => exact items_newList_of_hasList isMutable items isAlias.present
  | add isOther added =>
      obtain ⟨isMutable, rfl⟩ := of_push added
      rw [items_modifyItems isOther.present, if_neg (differs isOther isMutable)]
  | remove isOther found removed =>
      obtain ⟨isMutable, rfl⟩ := of_removeItem found removed
      rw [items_modifyItems isOther.present, if_neg (differs isOther isMutable)]

theorem items_of_created {items : List Value} (step : heap.ListStep events after)
    (created : .created list items ∈ events) : after.items list = items := by
  cases step with
  | apart lists => cases created
  | create isMutable others =>
      obtain ⟨rfl, rfl⟩ : list = (heap.newList isMutable others).1 ∧ items = others := by
        simpa using created
      exact items_newList_self heap isMutable items
  | add isAlias added => simp at created
  | remove isAlias found removed => simp at created

end ListStep

/-- What became of the lists of a heap through events. -/
structure ListsAfter (heap : Heap) (events : List ListEvent) (after : Heap) : Prop where
  /-- A list holds what the events made of what it held before. -/
  items : ∀ list, after.items list = replay list.index events (heap.items list)
  /-- A reference says what the list was created as if it did so before, or if it is the one that an
  event created the list with. -/
  aliases : ∀ list, after.Alias list ↔ heap.Alias list ∨ list ∈ events.filterMap created?
  /-- A list that was there is there. -/
  hasList : ∀ list, heap.hasList list → after.hasList list
  /-- No list is created that is there, so none is created twice. -/
  fresh : ((events.filterMap created?).map ListRef.index).Nodup ∧
    ∀ list ∈ events.filterMap created?, ¬heap.hasList list
  /-- A fixed list holds what it held before. -/
  fixed : ∀ list, heap.Alias list → list.isMutable = false → after.items list = heap.items list
  /-- A fixed list that was created holds what it was created with. -/
  kept : ∀ list items, .created list items ∈ events → list.isMutable = false →
    after.items list = items

namespace Undergoes

theorem trans (first : heap.Undergoes events middle) (second : middle.Undergoes later after) :
    heap.Undergoes (events ++ later) after := by
  induction second with
  | refl =>
      rw [List.append_nil]
      exact first
  | step _ step induction =>
      rw [← List.append_assoc]
      exact .step induction step

theorem single (step : heap.ListStep events after) : heap.Undergoes events after :=
  .step .refl step

/-- Lists and their elements are only touched by events. -/
theorem listsAfter (undergoes : heap.Undergoes events after) : heap.ListsAfter events after := by
  induction undergoes with
  | refl =>
      exact ⟨fun _ => rfl, fun _ =>
        by simp, fun _ => id, by simp, fun _ _ _ => rfl, fun _ _ => nofun⟩
  | @step events more middle after earlier step before =>
      constructor
      · intro list
        rw [step.items, before.items, replay_append]
      · intro list
        rw [step.alias_iff, before.aliases, List.filterMap_append, List.mem_append, or_assoc]
      · exact fun list present => step.hasList (before.hasList list present)
      · rw [List.filterMap_append]
        constructor
        · rw [List.map_append]
          apply List.nodup_append.mpr
          refine ⟨before.fresh.1, step.nodup, ?_⟩
          rintro _ isEarlier _ isLater rfl
          obtain ⟨old, isOld, sameOld⟩ := List.mem_map.mp isEarlier
          obtain ⟨new, isNew, sameNew⟩ := List.mem_map.mp isLater
          have present := ((before.aliases old).mpr (.inr isOld)).present
          rw [Heap.hasList, sameOld, ← sameNew] at present
          exact step.fresh isNew present
        · intro list created
          rcases List.mem_append.mp created with isEarlier | isLater
          · exact before.fresh.2 list isEarlier
          · exact mt (before.hasList list) (step.fresh isLater)
      · intro list isAlias isFixed
        have there := (before.aliases list).mpr (.inl isAlias)
        rw [step.items_of_fixed there isFixed, before.fixed list isAlias isFixed]
      · intro list items created isFixed
        rcases List.mem_append.mp created with isEarlier | isLater
        · have there := (before.aliases list).mpr
            (.inr (List.mem_filterMap.mpr ⟨_, isEarlier, rfl⟩))
          rw [step.items_of_fixed there isFixed, before.kept list items isEarlier isFixed]
        · exact step.items_of_created isLater

end Undergoes

end Heap

end Stencil
