import Stencil.Proofs.Member.Search
import Stencil.Proofs.Run.Lists
import Stencil.Proofs.Template

/-!
# Lists over any number of renders

A reference to a list says which list it is, and by itself whether that may change.  Wherever
references are copied to, all references to one list agree on that and show the same elements.  What
those are at any moment is what the events of the list made of the elements that it was created
with.
-/

namespace Stencil

open Text

variable {η : Type}

namespace Member

variable {method : Member} {list : ListRef} {arguments : List Value} {heap after : Heap}
  {value : Value}

/-- Adding to a list and removing from it succeed only if it is mutable, and touch no other. -/
theorem of_change (changes : method = .add ∨ method = .remove)
    (ran : method.invoke (.list list) arguments heap = .ok (value, after)) :
    list.isMutable = true ∧
      (after = heap ∨ ∃ change, after = heap.modifyItems list.index change) := by
  rcases changes with rfl | rfl
  · obtain ⟨argument, -, ran⟩ := ok_of_bind ran
    obtain ⟨reference, found, ran⟩ := ok_of_bind ran
    obtain ⟨changed, added, same⟩ := ok_of_bind ran
    cases found
    cases same
    obtain ⟨isMutable, rfl⟩ := Heap.of_push added
    exact ⟨isMutable, .inr ⟨_, rfl⟩⟩
  · obtain ⟨argument, -, ran⟩ := ok_of_bind ran
    obtain ⟨reference, found, ran⟩ := ok_of_bind ran
    obtain ⟨⟨whether, changed⟩, removed, same⟩ := ok_of_bind ran
    cases found
    cases same
    cases whether with
    | true =>
        obtain ⟨isMutable, place, -, same⟩ := Heap.of_removeItem_true removed
        exact ⟨isMutable, .inr ⟨_, same⟩⟩
    | false =>
        obtain ⟨isMutable, -, same⟩ := Heap.of_removeItem_false removed
        exact ⟨isMutable, .inl same⟩

theorem onlyArgument_of_length_ne (method : Member) (several : arguments.length ≠ 1) :
    method.onlyArgument arguments = .error (.arity method.name (.exactly 1) arguments.length) := by
  rcases arguments with _ | ⟨first, _ | ⟨second, rest⟩⟩
  · rfl
  · contradiction
  · rfl

/-- Adding and removing take one argument and a mutable list.  Removing breaks off if the argument
or an element leads to the list, and only then. -/
theorem of_change_error {error : TemplateError} (changes : method = .add ∨ method = .remove)
    (failed : method.invoke (.list list) arguments heap = .error error) :
    (error ≠ .listInUse ∧ ¬(list.isMutable = true ∧ arguments.length = 1)) ∨
      (error = .listInUse ∧ method = .remove ∧
        ∃ part, (part ∈ heap.items list ∨ part ∈ arguments) ∧ heap.LeadsTo part list.index) := by
  by_cases one : arguments.length = 1
  · obtain ⟨argument, rfl⟩ := List.length_eq_one_iff.mp one
    rcases changes with rfl | rfl
    · change (heap.push list argument >>= fun after =>
        .ok (Value.boolean true, after)) = _ at failed
      rcases error_of_bind failed with refused | ⟨_, -, nothing⟩
      · unfold Heap.push at refused
        split at refused
        · cases refused
        · rename_i isFixed
          cases refused
          exact .inl ⟨nofun, fun both => isFixed both.1⟩
      · cases nothing
    · rw [invoke_remove_list] at failed
      cases removed : heap.removeItem list argument with
      | ok answer =>
          rw [removed] at failed
          cases failed
      | error problem =>
          rw [removed] at failed
          cases failed
          rcases Heap.of_removeItem_error removed with ⟨isFixed, rfl⟩ | ⟨-, isInUse, leads⟩
          · exact .inl ⟨nofun, fun both => Bool.eq_false_iff.mp isFixed both.1⟩
          · refine .inr ⟨isInUse, rfl, ?_⟩
            rcases leads with ⟨item, member, leads⟩ | leads
            · exact ⟨item, .inl member, leads⟩
            · exact ⟨argument, .inr List.mem_cons_self, leads⟩
  · have refused := onlyArgument_of_length_ne method one
    have isArity : error = .arity method.name (.exactly 1) arguments.length := by
      rcases changes with rfl | rfl
      · rcases error_of_bind failed with same | ⟨_, isOnly, -⟩
        · exact Except.error.inj (same.symm.trans refused)
        · exact nomatch isOnly.symm.trans refused
      · rcases error_of_bind failed with same | ⟨_, isOnly, -⟩
        · exact Except.error.inj (same.symm.trans refused)
        · exact nomatch isOnly.symm.trans refused
    subst isArity
    exact .inl ⟨nofun, fun both => one both.2⟩

theorem length_of_change (changes : method = .add ∨ method = .remove)
    (ran : method.invoke (.list list) arguments heap = .ok (value, after)) :
    arguments.length = 1 := by
  by_contra several
  have refused := onlyArgument_of_length_ne method several
  rcases changes with rfl | rfl
  · obtain ⟨argument, isOnly, -⟩ := ok_of_bind ran
    exact nomatch isOnly.symm.trans refused
  · obtain ⟨argument, isOnly, -⟩ := ok_of_bind ran
    exact nomatch isOnly.symm.trans refused

/-- What calling `add` or `remove` of a list comes to. -/
theorem run_change (host : Host η) (receiver : Option Value) (store : Store η)
    (changes : method = .add ∨ method = .remove) :
    let ran := ((Callable.member (.list list) method).invoke host receiver arguments).run.run store
    ((∃ answer, ran.1 = .ok answer) ↔
        list.isMutable = true ∧ arguments.length = 1 ∧ ran.1 ≠ .error .listInUse) ∧
      (ran.1 = .error .listInUse → method = .remove ∧ ∃ part,
        (part ∈ store.heap.items list ∨ part ∈ arguments) ∧ store.heap.LeadsTo part list.index) ∧
      (∀ error, ran.1 = .error error → ran.2 = store) ∧
      ∀ other, other.index ≠ list.index → ran.2.heap.items other = store.heap.items other := by
  intro ran
  have isRan : ran = _ :=
    Callable.run_invoke_member host (.list list) method receiver arguments store
  cases invoked : method.invoke (.list list) arguments store.heap with
  | error error =>
      rw [invoked] at isRan
      rw [isRan]
      refine ⟨⟨nofun, fun ⟨isMutable, one, free⟩ => ?_⟩, fun isInUse => ?_, fun _ _ => rfl,
        fun _ _ => rfl⟩
      · rcases of_change_error changes invoked with ⟨-, refused⟩ | ⟨rfl, -⟩
        · exact absurd ⟨isMutable, one⟩ refused
        · exact absurd rfl free
      · rcases of_change_error changes invoked with ⟨differs, -⟩ | ⟨-, leads⟩
        · exact absurd (Except.error.inj isInUse) differs
        · exact leads
  | ok answer =>
      rw [invoked] at isRan
      rw [isRan]
      obtain ⟨isMutable, same⟩ := of_change changes invoked
      have one := length_of_change changes invoked
      refine ⟨⟨fun _ => ⟨isMutable, one, nofun⟩, fun _ => ⟨answer.1, rfl⟩⟩, nofun, nofun, ?_⟩
      intro other different
      rcases same with same | ⟨change, same⟩
      · exact congrArg (Heap.items · other) same
      · exact (congrArg (Heap.items · other) same).trans
          (Heap.items_modifyItems_of_ne change different)

end Member

namespace Template

variable {template : Template η} {source : AnySource} {options : Options} {host : Host η}
  {state : η} {remembers : η → ListRef → Prop}

/-- A new template has no lists. -/
theorem no_lists_ofSource (list : ListRef) :
    ¬(ofSource source options host state).session.store.heap.hasList list := by
  apply ofSource_induction (fun session => ¬session.store.heap.hasList list) source options host
    state
  · simp [Session.ofGlobal, Heap.ofGlobal, Heap.hasList]
  · exact fun session kind none => none
  · exact fun session none => none

/-- At every moment of whatever becomes of a new template, every reference to a list that is stored
anywhere says of the list what that was created as, so references to one list agree.  From any
moment to any later one lists were only created, added to and removed from: what a list holds is
what its own events made of what it held, and a fixed list holds what it was created with.  Adding
and removing touch no other list, and change nothing when they fail. -/
theorem lists_shared (handles : host.HandlesLists remembers)
    (nothing : ∀ list, ¬remembers state list)
    (evolves : (ofSource source options host state).Evolves
      (Policy.listed remembers).Becomes template) :
    let start := (ofSource source options host state).session
    (∀ list, ¬start.store.heap.hasList list) ∧
    start.Chain (.listed remembers) options.embeddings template.session ∧
    (∀ fuel, template.session.Chain (.listed remembers) options.embeddings
      (template.render fuel).2.session) ∧
    (∀ session, start.Chain (.listed remembers) options.embeddings session →
      session.store.ListsThere remembers ∧
        (∀ list other : ListRef, session.store.heap.Alias list → session.store.heap.Alias other →
          list.index = other.index → list.isMutable = other.isMutable ∧
            session.store.heap.items list = session.store.heap.items other) ∧
        ∀ later, session.Chain (.listed remembers) options.embeddings later →
          ∃ events, session.store.heap.ListsAfter events later.store.heap) ∧
    ∀ (method : Member) (list : ListRef) (receiver : Option Value) (arguments : List Value)
      (store : Store η), method = .add ∨ method = .remove →
      let ran :=
        ((Callable.member (.list list) method).invoke host receiver arguments).run.run store
      ((∃ answer, ran.1 = .ok answer) ↔
          list.isMutable = true ∧ arguments.length = 1 ∧ ran.1 ≠ .error .listInUse) ∧
        (ran.1 = .error .listInUse → method = .remove ∧ ∃ part,
          (part ∈ store.heap.items list ∨ part ∈ arguments) ∧
            store.heap.LeadsTo part list.index) ∧
        (∀ error, ran.1 = .error error → ran.2 = store) ∧
        ∀ other, other.index ≠ list.index → ran.2.heap.items other = store.heap.items other := by
  have lawful : (Policy.listed remembers).Lawful
      (⟨host, options.embeddings⟩ : Environment η).host := Policy.lawful_listed handles
  have empty : Store.ListsThere remembers ⟨.ofGlobal options.globalName, state⟩ :=
    ⟨.ofGlobal _ _, fun list isRemembered => absurd isRemembered (nothing list)⟩
  have startSound := @sound_ofSource _ _ source options _ state lawful trivial empty trivial
  obtain ⟨_, _, _, isThere⟩ := root_ofSource source options host state
  have chain := evolves.chain lawful Policy.permissive_listed startSound
    (Session.lt_of_getElem? isThere)
  obtain ⟨environment, sound, present⟩ :=
    evolves.sound lawful Policy.permissive_listed empty trivial
  refine ⟨no_lists_ofSource, chain, fun fuel => ?_, fun session during => ?_, ?_⟩
  · have runs := chain_render (environment ▸ lawful) Policy.permissive_listed
      (environment ▸ sound) present fuel
    rw [environment] at runs
    exact runs
  · have soundHere := during.sound lawful startSound
    refine ⟨soundHere.store, fun list other isAlias isOther same => ?_, fun later continues => ?_⟩
    · rw [isAlias.eq_of_index isOther same]
      exact ⟨rfl, rfl⟩
    · obtain ⟨-, events, undergoes⟩ := continues.becomes lawful soundHere
      exact ⟨events, undergoes.listsAfter⟩
  · exact fun method list receiver arguments store changes =>
      Member.run_change host receiver store changes

/-- A template that puts a fixed list into another list and takes it out again. -/
def gathering : Template Unit :=
  ofString "@var xs = @list(1, 2)\n@var ys = @mutable_list(3)\n@var(ys.@add(xs))@var(ys.@remove(xs))"
    { defaultPlaceholders := false } Host.none ()

theorem lists_shared_gathering :
    (gathering.render 5).2.session.store.heap.items ⟨false, 0⟩ = [.int 1, .int 2] ∧
      ((gathering.render 5).2.render 5).2.session.store.heap.items ⟨false, 0⟩ =
        [.int 1, .int 2] := by
  have evolves : gathering.Evolves (Policy.listed fun _ _ => False).Becomes
      (gathering.render 5).2 := .render .refl 5
  obtain ⟨-, begins, renders, moments, -⟩ :=
    lists_shared Host.handlesLists_none (fun _ => id) evolves
  obtain ⟨-, -, lasts⟩ := moments _ begins
  obtain ⟨events, since⟩ := lasts _ (renders 5)
  obtain ⟨present, agrees, items⟩ :
      (gathering.render 5).2.session.store.heap.hasList ⟨false, 0⟩ ∧
      (gathering.render 5).2.session.store.heap.createdMutable ⟨false, 0⟩ = false ∧
      (gathering.render 5).2.session.store.heap.items ⟨false, 0⟩ = [.int 1, .int 2] := by
    decide +kernel
  exact ⟨items, (since.fixed ⟨false, 0⟩ ⟨present, agrees⟩ rfl).trans items⟩

end Template

end Stencil
