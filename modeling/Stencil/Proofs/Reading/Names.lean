import Stencil.Proofs.Reading.Alike

/-!
# Names on heaps that look alike

A name means the same on heaps that are alike, and so does a call of a member that only reads.
-/

namespace Stencil

namespace View

variable {view : View} {heap other : Heap} {value : Value}

namespace Alike

variable (alike : view.Alike heap other)

include alike

theorem get? {scope : ScopeRef} (known : view.scopes scope) (name : String) :
    other.get? scope name = (heap.get? scope name).map view.shift.value := by
  rw [Heap.get?, Heap.get?, (alike.scopes scope known).2.2.1, Dictionary.get?_mapValues]

theorem knows_of_get? {scope : ScopeRef} (known : view.scopes scope) {name : String}
    (found : heap.get? scope name = some value) : view.Knows heap value :=
  (alike.scopes scope known).2.2.2 value (Dictionary.mem_values_of_get? found)

theorem memberOf? {receiver : Value} (known : view.Knows heap receiver) (name : String) :
    other.memberOf? (view.shift.value receiver) name =
      (heap.memberOf? receiver name).map view.shift.binding := by
  have members : ((Member.lookup? (view.shift.value receiver).kind name).map
      (Binding.member (view.shift.value receiver))) =
      ((Member.lookup? receiver.kind name).map (Binding.member receiver)).map
        view.shift.binding := by
    rw [Shift.kind_value, Option.map_map]
    rfl
  cases receiver with
  | object object =>
      have entry := alike.get? known name
      unfold Heap.memberOf?
      dsimp only [Shift.value] at members ⊢
      rw [entry]
      cases heap.get? object name with
      | some value => rfl
      | none => exact members
  | primitive value => exact members
  | list list => exact members
  | function function => exact members

theorem knows_of_memberOf? {receiver : Value} {binding : Binding} {name : String}
    (known : view.Knows heap receiver) (found : heap.memberOf? receiver name = some binding) :
    view.KnowsBinding heap binding := by
  have fromMembers {binding : Binding}
      (found : (Member.lookup? receiver.kind name).map (Binding.member receiver) = some binding) :
      view.KnowsBinding heap binding := by
    obtain ⟨method, -, rfl⟩ := Option.map_eq_some_iff.mp found
    exact known
  cases receiver with
  | object object =>
      unfold Heap.memberOf? at found
      dsimp only at found
      split at found
      · rename_i value own
        cases found
        exact alike.knows_of_get? known own
      · exact fromMembers found
  | primitive value => exact fromMembers found
  | list list => exact fromMembers found
  | function function => exact fromMembers found

end Alike

/-- A run knows a scope and all those around it. -/
inductive Opens (view : View) (heap : Heap) : ScopeRef → Prop where
  | outermost (scope : ScopeRef) (known : view.scopes scope)
      (last : (heap.scope scope).parent = none) : Opens view heap scope
  | inner (scope parent : ScopeRef) (known : view.scopes scope)
      (isParent : (heap.scope scope).parent = some parent) (earlier : parent.index < scope.index)
      (opens : Opens view heap parent) : Opens view heap scope

theorem Opens.known {scope : ScopeRef} (opens : view.Opens heap scope) : view.scopes scope := by
  cases opens with
  | outermost _ known _ => exact known
  | inner _ _ known _ _ _ => exact known

theorem chainFrom_none (heap : Heap) (fuel : Nat) : heap.chainFrom fuel none = [] := by
  cases fuel <;> rfl

/-- The scopes around a scope are the same on heaps that are alike. -/
theorem Opens.exists_chainFrom {scope : ScopeRef} (opens : view.Opens heap scope)
    (alike : view.Alike heap other) :
    ∃ trail, (∀ around ∈ trail, view.scopes around) ∧ ∀ fuel, scope.index < fuel →
      heap.chainFrom fuel (some scope) = trail ∧ other.chainFrom fuel (some scope) = trail := by
  induction opens with
  | outermost scope known last =>
      have lastOther := (alike.scopes scope known).2.1.trans last
      refine ⟨[scope], fun around member => ?_, fun fuel enough => ?_⟩
      · rw [List.mem_singleton.mp member]
        exact known
      · obtain ⟨fuel, rfl⟩ : ∃ less, fuel = less + 1 := Nat.exists_eq_add_one.mpr (by omega)
        rw [Heap.chainFrom, Heap.chainFrom, last, lastOther, chainFrom_none, chainFrom_none]
        exact ⟨rfl, rfl⟩
  | inner scope parent known isParent earlier opens induction =>
      have isParentOther := (alike.scopes scope known).2.1.trans isParent
      obtain ⟨trail, areKnown, chains⟩ := induction
      refine ⟨scope :: trail, fun around member => ?_, fun fuel enough => ?_⟩
      · rcases List.mem_cons.mp member with rfl | later
        · exact known
        · exact areKnown around later
      · obtain ⟨fuel, rfl⟩ : ∃ less, fuel = less + 1 := Nat.exists_eq_add_one.mpr (by omega)
        obtain ⟨here, there⟩ := chains fuel (by omega)
        rw [Heap.chainFrom, Heap.chainFrom, isParent, isParentOther, here, there]
        exact ⟨rfl, rfl⟩

theorem Opens.exists_chain {scope : ScopeRef} (opens : view.Opens heap scope)
    (alike : view.Alike heap other) :
    ∃ trail, (∀ around ∈ trail, view.scopes around) ∧ heap.chain scope = trail ∧
      other.chain scope = trail := by
  obtain ⟨trail, areKnown, chains⟩ := opens.exists_chainFrom alike
  have present := (alike.scopes scope opens.known).1
  have presentOther := Nat.lt_of_lt_of_le present alike.scopeCounts
  exact ⟨trail, areKnown, (chains _ present).1, (chains _ presentOther).2⟩

namespace Alike

variable (alike : view.Alike heap other)

include alike

theorem findSome? (name : String) {trail : List ScopeRef}
    (known : ∀ around ∈ trail, view.scopes around) :
    (trail.findSome? fun around => other.memberOf? (.object around) name) =
      (trail.findSome? fun around => heap.memberOf? (.object around) name).map
        view.shift.binding := by
  induction trail with
  | nil => rfl
  | cons around trail induction =>
      have knownHere : view.Knows heap (.object around) := known around List.mem_cons_self
      have here := alike.memberOf? knownHere name
      change other.memberOf? (.object around) name = _ at here
      rw [List.findSome?_cons, List.findSome?_cons, here]
      cases heap.memberOf? (.object around) name with
      | some binding => rfl
      | none => exact induction fun later member => known later (List.mem_cons_of_mem around member)

variable {scope : ScopeRef} {receiver : Option Value} {name : String}

theorem find? (opens : view.Opens heap scope) (known : ∀ value ∈ receiver, view.Knows heap value) :
    other.find? scope (receiver.map view.shift.value) name =
      (heap.find? scope receiver name).map view.shift.binding := by
  cases receiver with
  | some value => exact alike.memberOf? (known value rfl) name
  | none =>
      obtain ⟨trail, areKnown, chain, chainOther⟩ := opens.exists_chain alike
      change (other.chain scope).findSome? _ = ((heap.chain scope).findSome? _).map _
      rw [chain, chainOther]
      exact alike.findSome? name areKnown

theorem knows_of_find? (opens : view.Opens heap scope)
    (known : ∀ value ∈ receiver, view.Knows heap value) {binding : Binding}
    (found : heap.find? scope receiver name = some binding) : view.KnowsBinding heap binding := by
  cases receiver with
  | some value => exact alike.knows_of_memberOf? (known value rfl) found
  | none =>
      obtain ⟨trail, areKnown, chain, -⟩ := opens.exists_chain alike
      change (heap.chain scope).findSome? _ = some binding at found
      rw [chain] at found
      obtain ⟨around, member, isHere⟩ := List.exists_of_findSome?_eq_some found
      have knownHere : view.Knows heap (.object around) := areKnown around member
      exact alike.knows_of_memberOf? knownHere isHere

end Alike

/-- Two outcomes are alike if both are the same error, or both are answers of which one is a change
of the other, which has a property. -/
def Outcomes {α β : Type} (change : α → β) (known : α → Prop) (here : Except TemplateError α)
    (there : Except TemplateError β) : Prop :=
  there = here.map change ∧ ∀ answer, here = .ok answer → known answer

namespace Outcomes

variable {α β γ δ : Type} {change : α → β} {change' : γ → δ} {known : α → Prop} {known' : γ → Prop}

theorem ok {answer : α} {answer' : β} (same : answer' = change answer) (isKnown : known answer) :
    Outcomes change known (.ok answer) (.ok answer') := by
  subst same
  refine ⟨rfl, fun found same => ?_⟩
  cases same
  exact isKnown

theorem error (error : TemplateError) :
    Outcomes change known (.error error) (.error error) :=
  ⟨rfl, fun _ same => nomatch same⟩

theorem same (outcome : Except TemplateError α) :
    Outcomes id (fun _ => True) outcome outcome := by
  refine ⟨?_, fun _ _ => trivial⟩
  cases outcome <;> rfl

theorem of_eq {here there : Except TemplateError α} (eq : there = here) :
    Outcomes id (fun _ => True) here there :=
  eq ▸ same here

theorem bind {here : Except TemplateError α} {there : Except TemplateError β}
    {next : α → Except TemplateError γ} {next' : β → Except TemplateError δ}
    (first : Outcomes change known here there)
    (later : ∀ answer, known answer →
      Outcomes change' known' (next answer) (next' (change answer))) :
    Outcomes change' known' (here >>= next) (there >>= next') := by
  obtain ⟨rfl, isKnown⟩ := first
  cases here with
  | error stop => exact error stop
  | ok answer => exact later answer (isKnown answer rfl)

end Outcomes

namespace Alike

variable (alike : view.Alike heap other)

section

variable {method : Member} {receiver : Value} {arguments : List Value}

omit alike in
theorem expectCount (count : Nat) :
    method.expectCount (arguments.map view.shift.value) count =
      method.expectCount arguments count := by
  simp [Member.expectCount]

omit alike in
theorem require {α β : Type} {change : α → β} {found : Option α} {found' : Option β}
    {known : α → Prop} (same : found' = found.map change) (areKnown : ∀ a ∈ found, known a) :
    Outcomes change known (method.require receiver found)
      (method.require (view.shift.value receiver) found') := by
  subst same
  cases found with
  | some a => exact .ok rfl (areKnown a rfl)
  | none =>
      unfold Member.require Member.undefinedFor
      rw [Shift.kind_value]
      exact .error _

omit alike in
theorem requireSame {α : Type} {found found' : Option α} (same : found' = found) :
    Outcomes id (fun _ => True) (method.require receiver found)
      (method.require (view.shift.value receiver) found') :=
  require (by simp [same]) fun _ _ => trivial

omit alike in
theorem onlyArgument (areKnown : ∀ value ∈ arguments, view.Knows heap value) :
    Outcomes view.shift.value (view.Knows heap) (method.onlyArgument arguments)
      (method.onlyArgument (arguments.map view.shift.value)) := by
  match arguments with
  | [] => exact .error _
  | [argument] => exact .ok rfl (areKnown argument List.mem_cons_self)
  | first :: second :: rest =>
      unfold Member.onlyArgument
      simp only [List.map_cons, List.length_cons, List.length_map]
      exact .error _

end

include alike

theorem sizeOf? (known : view.Knows heap value) :
    Member.sizeOf? other (view.shift.value value) = Member.sizeOf? heap value := by
  cases value with
  | primitive value => cases value <;> rfl
  | list list =>
      change some (other.items (view.shift.list list)).length = _
      rw [(alike.items list known).1, List.length_map]
      rfl
  | object object => rfl
  | function function => rfl

theorem elements? (known : view.Knows heap value) :
    Member.elements? other (view.shift.value value) =
      (Member.elements? heap value).map (List.map view.shift.value) ∧
      ∀ items ∈ Member.elements? heap value, ∀ item ∈ items, view.Knows heap item := by
  cases value with
  | primitive value =>
      cases value with
      | string text =>
          refine ⟨?_, fun items found item member => ?_⟩
          · change some _ = some (List.map _ (List.map _ _))
            rw [List.map_map]
            rfl
          · cases found
            obtain ⟨character, -, rfl⟩ := List.mem_map.mp member
            trivial
      | _ => exact ⟨rfl, fun _ found => nomatch found⟩
  | list list =>
      refine ⟨congrArg some (alike.items list known).1, fun items found => ?_⟩
      cases found
      exact (alike.items list known).2
  | object object => exact ⟨rfl, fun _ found => nomatch found⟩
  | function function => exact ⟨rfl, fun _ found => nomatch found⟩

omit alike in
theorem primitive? (value : Value) :
    Member.primitive? (view.shift.value value) = Member.primitive? value := by
  cases value <;> rfl

omit alike in
theorem list? (value : Value) :
    Member.list? (view.shift.value value) = (Member.list? value).map view.shift.list := by
  cases value <;> rfl

omit alike in
theorem knows_of_list? (known : view.Knows heap value) :
    ∀ list ∈ Member.list? value, view.Knows heap (.list list) := by
  intro list found
  cases value with
  | list other => cases found; exact known
  | _ => cases found

omit alike in
theorem needle (value : Value) : Member.needle (view.shift.value value) = Member.needle value := by
  cases value <;> rfl

omit alike in
theorem indexOfArgument (value : Value) :
    Member.indexOfArgument (view.shift.value value) = Member.indexOfArgument value := by
  unfold Member.indexOfArgument
  rw [Shift.int?_value, Shift.kind_value]

theorem indexOf? {list : ListRef} (known : view.Knows heap (.list list))
    (knownValue : view.Knows heap value) :
    other.indexOf? (view.shift.list list) (view.shift.value value) = heap.indexOf? list value := by
  obtain ⟨items, itemsKnown⟩ := alike.items list known
  unfold Heap.indexOf?
  rw [items]
  exact findIdx?_shift fun item member => alike.equal (itemsKnown item member) knownValue

theorem containsAll {receiver : Value} {arguments : List Value} (known : view.Knows heap receiver)
    (areKnown : ∀ value ∈ arguments, view.Knows heap value) :
    Member.containsAll other (view.shift.value receiver) (arguments.map view.shift.value) =
      Member.containsAll heap receiver arguments := by
  cases receiver with
  | primitive value =>
      cases value with
      | string text =>
          change ((arguments.map view.shift.value).mapM Member.needle >>= _) =
            (arguments.mapM Member.needle >>= _)
          rw [mapM_shift fun argument _ => needle argument]
      | _ => rfl
  | list list =>
      apply congrArg Except.ok
      apply all_shift
      intro argument member
      rw [Heap.listContains_eq_isSome_indexOf?, Heap.listContains_eq_isSome_indexOf?,
        alike.indexOf? known (areKnown argument member)]
  | object object =>
      apply congrArg Except.ok
      apply all_shift
      intro argument _
      have keys : other.contains object = heap.contains object := by
        funext key
        rw [Heap.contains, Heap.contains, (alike.scopes object known).2.2.1,
          Dictionary.contains_mapValues]
      rw [Shift.string?_value, keys]
  | function function => rfl

omit alike in
theorem separator (arguments : List Value) :
    Member.separator (arguments.map view.shift.value) = Member.separator arguments := by
  rcases arguments with _ | ⟨first, _ | ⟨second, rest⟩⟩
  · rfl
  · simp only [List.map_cons, List.map_nil, Member.separator, Shift.string?_value]
  · simp [Member.separator]

theorem answer {method : Member} {receiver : Value} {arguments : List Value}
    (known : view.Knows heap receiver) (areKnown : ∀ value ∈ arguments, view.Knows heap value) :
    Outcomes view.shift.value (view.Knows heap) (method.answer receiver arguments heap)
      (method.answer (view.shift.value receiver) (arguments.map view.shift.value) other) := by
  unfold Member.answer
  cases method with
  | getType =>
      apply (Outcomes.of_eq (expectCount 0)).bind
      intro _ _
      apply Outcomes.ok _ trivial
      rw [Shift.kind_value]
      rfl
  | toString =>
      apply (Outcomes.of_eq (expectCount 0)).bind
      intro _ _
      apply Outcomes.ok _ trivial
      rw [alike.display known]
      rfl
  | toInt =>
      apply (Outcomes.of_eq (expectCount 0)).bind
      intro _ _
      apply (requireSame (by rw [primitive?])).bind
      intro converted _
      apply (Outcomes.same converted).bind
      exact fun number _ => .ok rfl trivial
  | toLong =>
      apply (Outcomes.of_eq (expectCount 0)).bind
      intro _ _
      apply (requireSame (by rw [primitive?])).bind
      exact fun number _ => .ok rfl trivial
  | toDouble =>
      apply (Outcomes.of_eq (expectCount 0)).bind
      intro _ _
      apply (requireSame (by rw [primitive?])).bind
      intro converted _
      apply (Outcomes.same converted).bind
      exact fun number _ => .ok rfl trivial
  | toChar =>
      apply (Outcomes.of_eq (expectCount 0)).bind
      intro _ _
      apply (requireSame (Shift.int?_value receiver)).bind
      intro code _
      apply (Outcomes.same (charOfCode code.toInt)).bind
      exact fun number _ => .ok rfl trivial
  | size =>
      apply (Outcomes.of_eq (expectCount 0)).bind
      intro _ _
      apply (requireSame (alike.sizeOf? known)).bind
      exact fun number _ => .ok rfl trivial
  | get =>
      apply (onlyArgument areKnown).bind
      intro argument _
      apply (Outcomes.of_eq (indexOfArgument argument)).bind
      intro index _
      obtain ⟨elements, elementsKnown⟩ := alike.elements? known
      apply (require elements elementsKnown).bind
      intro items itemsKnown
      simp only [id_eq, List.getElem?_map]
      cases found : items[index]? with
      | none => exact .error _
      | some element => exact .ok rfl (itemsKnown element (List.mem_of_getElem? found))
  | contains =>
      dsimp only
      rw [List.isEmpty_map]
      split
      · exact .error _
      · apply (Outcomes.of_eq (alike.containsAll known areKnown)).bind
        exact fun truth _ => .ok rfl trivial
  | indexOf =>
      apply (onlyArgument areKnown).bind
      intro argument knownArgument
      apply (require (list? receiver) (knows_of_list? known)).bind
      intro list knownList
      rw [alike.indexOf? knownList knownArgument]
      cases heap.indexOf? list argument with
      | some index => exact .ok rfl trivial
      | none => exact .ok rfl trivial
  | joinToString =>
      apply (Outcomes.of_eq (separator arguments)).bind
      intro between _
      apply (require (list? receiver) (knows_of_list? known)).bind
      intro list knownList
      apply Outcomes.ok _ trivial
      obtain ⟨items, itemsKnown⟩ := alike.items list knownList
      rw [items, map_shift fun item member => alike.display (itemsKnown item member)]
      rfl
  | add => 
      unfold Member.undefinedFor
      rw [Shift.kind_value]
      exact .error _
  | remove => 
      unfold Member.undefinedFor
      rw [Shift.kind_value]
      exact .error _

end Alike

end View

end Stencil
