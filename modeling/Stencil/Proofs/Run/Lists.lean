import Stencil.Proofs.Expression.Changes
import Stencil.Proofs.Heap.ListEvents
import Stencil.Proofs.Run.Evaluate

/-!
# Runs and lists

A run does nothing to lists but create them, add to them and remove from them, and every list that
it stores or comes to is one that was created before, if the functions of the host do so.
-/

namespace Stencil

variable {η : Type}

/-- A value that is a reference to a list says of a list on the heap what that was created as. -/
def Value.ListThere (heap : Heap) : Value → Prop
  | .list reference => heap.Alias reference
  | .primitive _ | .object _ | .function _ => True

/-- Every list that the heap stores or the host remembers is on the heap, and mutable if it was
created so. -/
structure Store.ListsThere (remembers : η → ListRef → Prop) (store : Store η) : Prop where
  stored : store.heap.Stores (Value.ListThere store.heap)
  remembered : ∀ list, remembers store.state list → store.heap.Alias list

/-- A call of a function of the host creates lists, adds to them and removes from them, and does
nothing else to lists.  It stores, remembers and answers references only that lists were created
with. -/
def Host.HandlesLists (host : Host η) (remembers : η → ListRef → Prop) : Prop :=
  ∀ (code : Nat) (receiver : Option Value) (arguments : List Value) (store : Store η),
    store.ListsThere remembers →
    (∀ value, receiver = some value → value.ListThere store.heap) →
    (∀ argument ∈ arguments, argument.ListThere store.heap) →
    (host.call code receiver arguments store).2.ListsThere remembers ∧
      (∃ events, store.heap.Undergoes events (host.call code receiver arguments store).2.heap) ∧
      ∀ value, (host.call code receiver arguments store).1 = .ok value →
        value.ListThere (host.call code receiver arguments store).2.heap

theorem Host.handlesLists_none : Host.none.HandlesLists fun _ _ => False := by
  intro _ _ _ store there _ _
  exact ⟨there, ⟨[], .refl⟩, nofun⟩

/-- The policy that lists are created, added to and removed from only, and that every list is
there. -/
def Policy.listed (remembers : η → ListRef → Prop) : Policy η where
  holds store := store.ListsThere remembers
  grows before after := ∃ events, before.heap.Undergoes events after.heap
  hasScope _ _ := True
  hasValue store value := value.ListThere store.heap
  raises _ := True
  mayParse _ := True
  mayMark := True
  mayDefine := True

namespace Value.ListThere

variable {heap after : Heap} {value : Value} {events : List ListEvent}

theorem later (here : value.ListThere heap) (undergoes : heap.Undergoes events after) :
    value.ListThere after := by
  cases value with
  | list reference => exact (undergoes.listsAfter.aliases reference).mpr (.inl here)
  | _ => trivial

end Value.ListThere

namespace Store.ListsThere

variable {remembers : η → ListRef → Prop} {store : Store η} {after : Heap} {events : List ListEvent}

/-- What is stored after a step is there, if it is a list that was there or that the step made. -/
theorem of_step (there : store.ListsThere remembers) (step : store.heap.ListStep events after)
    (stored : after.Stores (Value.ListThere after)) :
    Policy.Becomes (.listed remembers) store { store with heap := after } := by
  refine ⟨⟨stored, fun list isRemembered => ?_⟩, _, .single step⟩
  exact step.alias_iff.mpr (.inl (there.remembered list isRemembered))

theorem apart (there : store.ListsThere remembers) (lists : after.lists = store.heap.lists)
    (stored : after.Stores (Value.ListThere store.heap)) :
    Policy.Becomes (.listed remembers) store { store with heap := after } := by
  have step : store.heap.ListStep [] after := .apart lists
  apply there.of_step step
  exact stored.mono fun value here => here.later (.single step)

theorem newList (there : store.ListsThere remembers) (isMutable : Bool) {items : List Value}
    (all : ∀ item ∈ items, item.ListThere store.heap) :
    Policy.Becomes (.listed remembers) store
      { store with heap := (store.heap.newList isMutable items).2 } := by
  have step : store.heap.ListStep _ (store.heap.newList isMutable items).2 :=
    .create isMutable items
  apply there.of_step step
  exact (there.stored.newList isMutable all).mono fun value here => here.later (.single step)

end Store.ListsThere

namespace Member

variable {remembers : η → ListRef → Prop} {store : Store η} {list : ListRef} {value : Value}

theorem gives_push_listed (there : store.ListsThere remembers) (isAlias : store.heap.Alias list)
    (here : value.ListThere store.heap) :
    Gives (store.heap.push list value) fun after =>
      Policy.Becomes (.listed remembers) store { store with heap := after } := by
  cases added : store.heap.push list value with
  | error error =>
      have gives := @gives_push store.heap list value
      rw [added] at gives
      exact gives
  | ok after =>
      have step := Heap.ListStep.add isAlias added
      apply there.of_step step
      obtain ⟨-, rfl⟩ := Heap.of_push added
      have kept := there.stored.mono fun other isThere => isThere.later (.single step)
      apply kept.modifyItems
      intro items other member
      rcases List.mem_append.mp member with earlier | last
      · exact .inr earlier
      · rw [List.mem_singleton.mp last]
        exact .inl (here.later (.single step))

theorem gives_removeItem_listed (there : store.ListsThere remembers)
    (isAlias : store.heap.Alias list) :
    Gives (store.heap.removeItem list value) fun answer =>
      Policy.Becomes (.listed remembers) store { store with heap := answer.2 } := by
  cases removed : store.heap.removeItem list value with
  | error error =>
      have gives := @gives_removeItem store.heap list value
      rw [removed] at gives
      exact gives
  | ok answer =>
      obtain ⟨isFound, after⟩ := answer
      cases isFound with
      | false =>
          obtain ⟨-, -, rfl⟩ := Heap.of_removeItem_false removed
          exact ⟨there, [], .refl⟩
      | true =>
          obtain ⟨-, place, found, same⟩ := Heap.of_removeItem_true removed
          have step := Heap.ListStep.remove isAlias found removed
          apply there.of_step step
          subst same
          have kept := there.stored.mono fun other isThere => isThere.later (.single step)
          apply kept.modifyItems
          intro items other member
          exact .inr (List.mem_of_mem_eraseIdx member)

theorem IsFound.listThere {receiver : Value} {heap : Heap} (isFound : IsFound heap receiver value)
    (stored : heap.Stores (Value.ListThere heap)) : value.ListThere heap := by
  obtain ⟨primitive, rfl⟩ | ⟨list, -, member⟩ := isFound
  · trivial
  · exact stored.items list value member

theorem gives_invoke_listed (method : Member) {receiver : Value} {arguments : List Value}
    (there : store.ListsThere remembers) (isThere : receiver.ListThere store.heap)
    (areThere : ∀ argument ∈ arguments, argument.ListThere store.heap) :
    Gives (method.invoke receiver arguments store.heap) fun answer =>
      Policy.Becomes (.listed remembers) store { store with heap := answer.2 } ∧
        answer.1.ListThere answer.2 := by
  have isList (list : ListRef) (found : Member.list? receiver = some list) :
      store.heap.Alias list := by
    cases receiver with
    | list reference =>
        cases found
        exact isThere
    | _ => contradiction
  have answers : Gives (do return (← method.answer receiver arguments store.heap, store.heap))
      fun answer => Policy.Becomes (.listed remembers) store { store with heap := answer.2 } ∧
        answer.1.ListThere answer.2 :=
    (gives_answer method).bind fun _ isFound =>
      ⟨⟨there, [], .refl⟩, isFound.listThere there.stored⟩
  unfold invoke
  cases method with
  | add =>
      refine (gives_onlyArgument _ arguments).bind fun argument isArgument => ?_
      refine (gives_require _ _ isList).bind fun list (isAlias : store.heap.Alias list) => ?_
      exact (gives_push_listed there isAlias (areThere argument isArgument)).bind
        fun after becomes => ⟨becomes, trivial⟩
  | remove =>
      refine (gives_onlyArgument _ arguments).bind fun argument _ => ?_
      refine (gives_require _ _ isList).bind fun list (isAlias : store.heap.Alias list) => ?_
      exact (gives_removeItem_listed there isAlias).bind fun answer becomes => ⟨becomes, trivial⟩
  | _ => exact answers

end Member

namespace Policy

variable {host : Host η} {remembers : η → ListRef → Prop}

theorem permissive_listed : (listed remembers).Permissive :=
  ⟨fun _ => trivial, trivial, trivial⟩

theorem regular_listed : (listed remembers).Regular where
  refl _ := ⟨[], .refl⟩
  trans _ _ _ first second := by
    obtain ⟨events, undergoes⟩ := first
    obtain ⟨later, undergoesLater⟩ := second
    exact ⟨events ++ later, undergoes.trans undergoesLater⟩
  raises _ _ := trivial

theorem hasValue_mono_listed {before after : Store η} {value : Value}
    (grows : (listed remembers).grows before after) (here : value.ListThere before.heap) :
    value.ListThere after.heap := by
  obtain ⟨events, undergoes⟩ := grows
  exact here.later undergoes

/-- Evaluations come to lists only that are there. -/
theorem careful_listed (handles : host.HandlesLists remembers) :
    (listed remembers).Careful host where
  toRegular := regular_listed
  hasScope_mono _ _ _ _ _ := trivial
  hasValue_mono _ _ _ := hasValue_mono_listed
  primitive _ _ := trivial
  find store scope receiver name binding there _ areThere found := by
    cases receiver with
    | none => exact there.stored.lookup? (fun _ _ => trivial) found
    | some value => exact there.stored.memberOf? (areThere value rfl) found
  valueOf store binding there fits := by
    obtain ⟨stored, here⟩ := there.stored.valueOf fits fun _ => trivial
    cases binding with
    | entry value => exact ⟨⟨there, [], .refl⟩, here⟩
    | member receiver method => exact ⟨there.apart rfl stored, trivial⟩
  callable store function there := there.stored.callable function
  newList store isMutable items there areThere :=
    ⟨there.newList isMutable areThere, Heap.alias_newList_self⟩
  member store method owner arguments there isThere areThere :=
    Member.gives_invoke_listed method there isThere areThere
  call store code receiver arguments there isThere areThere := by
    obtain ⟨later, undergoes, answers⟩ :=
      handles code receiver arguments store there isThere areThere
    exact ⟨⟨later, undergoes⟩, answers, fun _ _ => trivial⟩

/-- Runs create lists, add to them and remove from them, and do nothing else to lists. -/
theorem lawful_listed (handles : host.HandlesLists remembers) :
    (listed remembers).Lawful host where
  toRegular := regular_listed
  hasScope_mono _ _ _ _ _ := trivial
  hasValue_mono _ _ _ := hasValue_mono_listed
  primitive _ _ := trivial
  item _ list there := there.stored.items list
  newScope store name parent there _ :=
    ⟨there.apart rfl (there.stored.newScope name (some parent)), trivial⟩
  clear store scope there _ := there.apart rfl (there.stored.clear scope)
  put store scope name value there _ here := there.apart rfl (there.stored.put scope name here)
  assign store scope name value there _ here := by
    unfold Heap.assign
    split
    · exact there.apart rfl (there.stored.put _ name here)
    · exact ⟨there, [], .refl⟩
  evaluate store scope expression there _ :=
    (careful_listed handles).evaluate expression store there trivial
  follow store scope path there _ :=
    (careful_listed handles).followFrom path store there trivial (by simp)

end Policy

end Stencil
