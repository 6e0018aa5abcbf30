import Stencil.Proofs.Expression.Run
import Stencil.Proofs.Reading.Twins

/-!
# Values of two runs

Expressions and paths have the same values in both runs, but for the places of lists and functions
that were made on the way.
-/

namespace Stencil

variable {η : Type}

/-- An evaluation in two parts is one part of a run after the other. -/
theorem Run.onStore_bind {α β : Type} (first : Evaluator η α) (next : α → Evaluator η β) :
    onStore (first >>= next) = onStore first >>= fun answer => onStore (next answer) := by
  apply ExceptT.ext
  funext session
  change ((onStore (first >>= next)).run.run session) =
    ((onStore first >>= fun answer => onStore (next answer)).run.run session)
  have split : (first >>= next).run.run session.store =
      (ExceptT.bindCont next (first.run.run session.store).1).run
        (first.run.run session.store).2 := rfl
  have splitRun : (onStore first >>= fun answer => onStore (next answer)).run.run session =
      (ExceptT.bindCont (fun answer => onStore (next answer))
        ((onStore first).run.run session).1).run
        ((onStore first).run.run session).2 := rfl
  have here : (onStore first).run.run session =
      ((first.run.run session.store).1.mapError .failed,
        { session with store := (first.run.run session.store).2 }) := rfl
  have whole : (onStore (first >>= next)).run.run session =
      (((first >>= next).run.run session.store).1.mapError .failed,
        { session with store := ((first >>= next).run.run session.store).2 }) := rfl
  rw [splitRun, here, whole, split]
  cases (first.run.run session.store).1 with
  | error error => rfl
  | ok answer => rfl

/-- What is known of a function that a call found. -/
def Callable.setting : Callable → Setting
  | .host _ => {}
  | .member receiver _ => { values := [receiver] }

/-- A member that only reads leaves the store alone. -/
theorem Callable.ran_invoke {method : Member} {receiver : Value}
    (reads : (Callable.member receiver method).reads = true) (host : Host η)
    (reached : Option Value)
    (arguments : List Value) (store : Store η) :
    ((Callable.member receiver method).invoke host reached arguments).run.run store =
      (method.answer receiver arguments store.heap, store) := by
  have invoke : method.invoke receiver arguments store.heap =
      (do return (← method.answer receiver arguments store.heap, store.heap)) := by
    cases method <;> first | rfl | cases reads
  rw [Callable.run_invoke_member, invoke]
  cases method.answer receiver arguments store.heap <;> rfl

namespace Rerun.Mirrors

variable {rerun : Rerun η} {session : Session η} {setting : Setting} {α β : Type}
  {change : α → β} {gains : α → Setting}

/-- An evaluation that looks at the store and does not change it. -/
theorem asks {evaluator : Evaluator η α} {evaluator' : Evaluator η β}
    {outcome : Except TemplateError α}
    (ran : evaluator.run.run session.store = (outcome, session.store))
    (same : ∀ view (other : Store η), setting.Known view session.store.heap →
      view.shift = rerun.shift → view.Alike session.store.heap other.heap →
      ∃ outcome', evaluator'.run.run other = (outcome', other) ∧
        View.Outcomes change (fun answer => (gains answer).Known view session.store.heap) outcome
          outcome') :
    rerun.Mirrors setting session (Run.onStore evaluator) (Run.onStore evaluator') change
      (fun _ _ => True) gains := by
  have ranRun : (Run.onStore evaluator).run.run session =
      ((evaluator.run.run session.store).1.mapError .failed,
        { session with store := (evaluator.run.run session.store).2 }) := rfl
  have ranOther (other : Session η) : (Run.onStore evaluator').run.run other =
      ((evaluator'.run.run other.store).1.mapError .failed,
        { other with store := (evaluator'.run.run other.store).2 }) := rfl
  intro settled
  rw [ranRun, ran]
  refine ⟨.refl session, rfl, fun _ _ => trivial, fun view other known twin _ => ?_⟩
  obtain ⟨outcome', ran', rfl, gained⟩ := same view other.store known twin.shift twin.alike
  rw [ranOther, ran']
  refine ⟨view, .refl view, twin, ?_, fun answer found => ?_⟩
  · cases outcome <;> rfl
  · cases outcome with
    | error error => cases found
    | ok answer =>
        cases found
        exact gained answer rfl

theorem lift (outcome : Except TemplateError α) :
    rerun.Mirrors setting session (Run.onStore (liftM outcome)) (Run.onStore (liftM outcome)) id
      (fun _ _ => True) fun _ => {} := by
  have ran (store : Store η) : (liftM outcome : Evaluator η α).run.run store =
      (outcome, store) := by
    cases outcome <;> rfl
  apply asks (ran session.store)
  intro view other known _ _
  refine ⟨outcome, ran other, ?_, fun _ _ => known.none⟩
  cases outcome <;> rfl

/-- An evaluation that adds lists or functions. -/
theorem onHeap {grow : Heap → α × Heap} {grow' : Heap → β × Heap}
    (changes : Store.Changes rerun.environment.host session.store
      { session.store with heap := (grow session.store.heap).2 })
    (keeps : ∀ heap : Heap, heap.Keeps (grow heap).2)
    (keepsOther : ∀ heap : Heap, heap.Keeps (grow' heap).2)
    (scopes : (grow session.store.heap).2.scopes = session.store.heap.scopes)
    (same : ∀ view other, setting.Known view session.store.heap → view.shift = rerun.shift →
      view.Alike session.store.heap other →
      (grow' other).1 = change (grow session.store.heap).1 ∧
        view.Alike (grow session.store.heap).2 (grow' other).2 ∧
        (gains (grow session.store.heap).1).Known view (grow session.store.heap).2) :
    rerun.Mirrors setting session (Run.onHeap grow) (Run.onHeap grow') change (fun _ _ => True)
      gains := by
  have ran : (Run.onHeap grow).run.run session = (.ok (grow session.store.heap).1,
      { session with store :=
        { session.store with heap := (grow session.store.heap).2 } }) := rfl
  have ranOther (other : Session η) : (Run.onHeap grow').run.run other =
      (.ok (grow' other.store.heap).1,
        { other with store := { other.store with heap := (grow' other.store.heap).2 } }) := rfl
  intro settled
  rw [ran]
  refine ⟨.evaluate changes (keeps _) scopes, rfl, fun _ _ => trivial,
    fun view other known twin _ => ?_⟩
  obtain ⟨answer, alike, gained⟩ := same view other.store.heap known twin.shift twin.alike
  rw [ranOther, answer]
  refine ⟨view, .refl view, ?_, rfl, ?_⟩
  · constructor
    · exact twin.shift
    · exact alike
    · exact twin.depth
    · exact twin.writes
    · exact twin.placeholders
    · exact twin.marks
    · exact twin.quiet.trans ⟨rfl, rfl, fun _ => rfl, fun _ => rfl⟩
    · exact twin.heap.trans (keepsOther _)
  · rintro found ⟨⟩
    exact gained

theorem newList (isMutable : Bool) {values : List Value}
    (areKnown : ∀ value ∈ values, value ∈ setting.values) :
    rerun.Mirrors setting session (Run.onHeap fun heap => heap.newList isMutable values)
      (Run.onHeap fun heap => heap.newList isMutable (values.map rerun.shift.value))
      rerun.shift.list (fun _ _ => True) fun list => { values := [.list list] } := by
  apply onHeap
  · exact .single (.newList isMutable values)
  · exact fun heap => .newList heap isMutable values
  · exact fun heap => .newList heap isMutable _
  · cases isMutable <;> rfl
  · intro view other known shift alike
    obtain ⟨same, alikeLater, isKnown⟩ :=
      alike.newList isMutable fun item member => known.values item (areKnown item member)
    rw [← shift]
    have later := known.mono alike (.refl view) (.newList _ isMutable values)
    exact ⟨same, alikeLater, later.ofValue isKnown⟩

theorem keeps_valueOf (heap : Heap) (binding : Binding) : heap.Keeps (heap.valueOf binding).2 := by
  cases binding with
  | entry value => exact .refl heap
  | member receiver method => exact .newFunction heap _

theorem valueOf {binding : Binding}
    (isKnown : ∀ view, setting.Known view session.store.heap → view.shift = rerun.shift →
      ∀ other, view.Alike session.store.heap other → view.KnowsBinding session.store.heap binding) :
    rerun.Mirrors setting session (Run.onHeap fun heap => heap.valueOf binding)
      (Run.onHeap fun heap => heap.valueOf (rerun.shift.binding binding)) rerun.shift.value
      (fun _ _ => True) fun value => { values := [value] } := by
  apply onHeap
  · cases binding with
    | entry value => exact .refl
    | member receiver method => exact .single (.newFunction _)
  · exact fun heap => keeps_valueOf heap binding
  · exact fun heap => keeps_valueOf heap _
  · cases binding <;> rfl
  · intro view other known shift alike
    obtain ⟨same, alikeLater, knownLater⟩ := alike.valueOf (isKnown view known shift other alike)
    rw [← shift]
    have later := known.mono alike (.refl view) (keeps_valueOf _ binding)
    exact ⟨same, alikeLater, later.ofValue knownLater⟩

section

variable {scope : ScopeRef} {reached : Option Value} (opened : scope ∈ setting.opened)
  (isKnown : ∀ value ∈ reached, value ∈ setting.values)

include opened isKnown

theorem find? {view : View} {other : Heap} (known : setting.Known view session.store.heap)
    (shift : view.shift = rerun.shift) (alike : view.Alike session.store.heap other)
    (name : String) :
    other.find? scope (reached.map rerun.shift.value) name =
      (session.store.heap.find? scope reached name).map rerun.shift.binding ∧
      ∀ binding, session.store.heap.find? scope reached name = some binding →
        view.KnowsBinding session.store.heap binding := by
  have opens := known.scopes scope opened
  have knows (value : Value) (member : value ∈ reached) : view.Knows session.store.heap value :=
    known.values value (isKnown value member)
  rw [← shift]
  exact ⟨alike.find? opens knows, fun _ found => alike.knows_of_find? opens knows found⟩

theorem readName (name : String) :
    rerun.Mirrors setting session (Run.onStore (readName scope reached name))
      (Run.onStore (readName scope (reached.map rerun.shift.value) name)) rerun.shift.value
      (fun _ _ => True) fun value => { values := [value] } := by
  have ranFound {reached : Option Value} {other : Session η} {binding : Binding}
      (found : other.store.heap.find? scope reached name = some binding) :
      (Run.onStore (Stencil.readName scope reached name)).run.run other =
        (Run.onHeap fun heap => heap.valueOf binding : Run η Value).run.run other :=
    Run.ran_onStore (run_readName_of_found found)
  have ranAbsent {reached : Option Value} {other : Session η}
      (absent : other.store.heap.find? scope reached name = none) :
      (Run.onStore (Stencil.readName scope reached name)).run.run other =
        (Run.fail (undefinedIn reached name) : Run η Value).run.run other :=
    Run.ran_onStore (run_readName_of_absent absent)
  cases found : session.store.heap.find? scope reached name with
  | none =>
      have same : undefinedIn (reached.map rerun.shift.value) name = undefinedIn reached name := by
        cases reached with
        | none => rfl
        | some value =>
            unfold undefinedIn
            simp only [Option.map_some, Shift.kind_value]
      apply congr (ranAbsent found) _ (fail (undefinedIn reached name))
      intro view other known twin _
      obtain ⟨isSame, -⟩ := find? opened isKnown known twin.shift twin.alike name
      rw [found] at isSame
      rw [ranAbsent isSame, same]
  | some binding =>
      have mirrors : rerun.Mirrors setting session (Run.onHeap fun heap => heap.valueOf binding)
          (Run.onHeap fun heap => heap.valueOf (rerun.shift.binding binding)) rerun.shift.value
          (fun _ _ => True) fun value => { values := [value] } := by
        apply valueOf
        intro view known shift other alike
        exact (find? opened isKnown known shift alike name).2 binding found
      apply congr (ranFound found) _ mirrors
      intro view other known twin _
      obtain ⟨isSame, -⟩ := find? opened isKnown known twin.shift twin.alike name
      rw [found] at isSame
      exact ranFound isSame

theorem callTarget (name : String) (indexed : Bool) :
    rerun.Mirrors setting session (Run.onStore (callTarget scope reached name indexed))
      (Run.onStore (callTarget scope (reached.map rerun.shift.value) name indexed))
      rerun.shift.callable (fun _ _ => True) Callable.setting := by
  apply asks (run_callTarget scope reached name indexed session.store)
  intro view other known shift alike
  refine ⟨_, run_callTarget scope _ name indexed other, ?_⟩
  obtain ⟨same, knows⟩ := find? opened isKnown known shift alike name
  rw [Heap.target, Heap.target, same]
  cases found : session.store.heap.find? scope reached name with
  | none =>
      have kinds : (reached.map rerun.shift.value).map Value.kind = reached.map Value.kind := by
        cases reached <;> simp
      have undefined : undefinedIn (reached.map rerun.shift.value) name =
          undefinedIn reached name := by
        cases reached <;> simp [undefinedIn]
      simp only [Option.map_none, kinds, undefined]
      split <;> exact .error _
  | some binding =>
      have isKnownBinding := knows binding found
      cases binding with
      | member owner method => exact .ok rfl (known.ofValue isKnownBinding)
      | entry value =>
          cases value with
          | primitive value => exact .error _
          | list list => exact .error _
          | object object => exact .error _
          | function function =>
              obtain ⟨callable, knowsCallable⟩ := alike.callables function isKnownBinding
              rw [shift] at callable
              apply View.Outcomes.ok callable
              cases isTarget : session.store.heap.callable function with
              | host function => exact known.none
              | member receiver method =>
                  rw [isTarget] at knowsCallable
                  exact known.ofValue knowsCallable

end

theorem invoke {target : Callable} {arguments : List Value} (reached : Option Value)
    (reads : target.reads = true)
    (knownTarget : ∀ value ∈ target.setting.values, value ∈ setting.values)
    (areKnown : ∀ value ∈ arguments, value ∈ setting.values) :
    rerun.Mirrors setting session
      (Run.onStore (target.invoke rerun.environment.host reached arguments))
      (Run.onStore ((rerun.shift.callable target).invoke rerun.environment.host
        (reached.map rerun.shift.value) (arguments.map rerun.shift.value)))
      rerun.shift.value (fun _ _ => True) fun value => { values := [value] } := by
  cases target with
  | host function => cases reads
  | member receiver method =>
      apply asks (Callable.ran_invoke reads _ reached arguments _)
      intro view other known shift alike
      have readsOther : (Callable.member (rerun.shift.value receiver) method).reads = true := reads
      refine ⟨_, Callable.ran_invoke readsOther _ _ _ other, ?_⟩
      have knowsReceiver := known.values receiver (knownTarget receiver List.mem_cons_self)
      obtain ⟨same, isKnown⟩ := alike.answer knowsReceiver
        fun value member => known.values value (areKnown value member)
      rw [← shift]
      exact ⟨same, fun answer found => known.ofValue (isKnown answer found)⟩

theorem pureValue {value : Value} (isKnown : value ∈ setting.values) :
    rerun.Mirrors setting session (Pure.pure value : Run η Value)
      (Pure.pure (rerun.shift.value value)) rerun.shift.value (fun _ _ => True)
      fun value => { values := [value] } := by
  apply pure
  · rfl
  · trivial
  · exact fun view heap known => known.ofValue (known.values value isKnown)

theorem primitive (value : Primitive) :
    rerun.Mirrors setting session (Pure.pure (.primitive value) : Run η Value)
      (Pure.pure (.primitive value)) rerun.shift.value (fun _ _ => True)
      fun value => { values := [value] } := by
  apply pure
  · rfl
  · trivial
  · exact fun view heap known => known.ofValue trivial

theorem operand (operator : Operator) (value : Value) :
    rerun.Mirrors setting session (Run.onStore (liftM (operand operator value)))
      (Run.onStore (liftM (operand operator (rerun.shift.value value)))) id (fun _ _ => True)
      fun _ => {} := by
  rw [Shift.operand_value]
  exact lift _

/-- The function that a call finds only reads. -/
theorem readingTarget {scope : ScopeRef} {reached : Option Value} (opened : scope ∈ setting.opened)
    (isKnown : ∀ value ∈ reached, value ∈ setting.values) {name : String}
    (isCalled : name ∈ rerun.called) (indexed : Bool) :
    rerun.Mirrors setting session (Run.onStore (Stencil.callTarget scope reached name indexed))
      (Run.onStore (Stencil.callTarget scope (reached.map rerun.shift.value) name indexed))
      rerun.shift.callable (fun target _ => True ∧ target.reads = true) Callable.setting := by
  apply (callTarget opened isKnown name indexed).found
  intro settled target ran
  change ((Stencil.callTarget scope reached name indexed).run.run session.store).1.mapError
    Stop.failed = _ at ran
  rw [run_callTarget] at ran
  cases found : session.store.heap.target scope reached name indexed with
  | error error =>
      rw [found] at ran
      cases ran
  | ok callable =>
      rw [found] at ran
      cases ran
      exact settled.lacks.reads_target isCalled settled.only.noAdd settled.only.noRemove found

mutual

theorem expression (scope : ScopeRef) : (expression : Expression) →
    (setting : Setting) → (session : Session η) → (opened : scope ∈ setting.opened) →
    (calls : ∀ name ∈ expression.calls, name ∈ rerun.called) →
    rerun.Mirrors setting session
      (Run.onStore (expression.evaluate rerun.environment.host scope))
      (Run.onStore (expression.evaluate rerun.environment.host scope)) rerun.shift.value
      (fun _ _ => True) fun value => { values := [value] }
  | .literal value, setting, session, opened, calls => by
      unfold Expression.evaluate
      exact primitive value
  | .reference path, setting, session, opened, calls => by
      unfold Expression.evaluate
      exact follow scope none path setting session opened nofun calls
  | .list isMutable items, setting, session, opened, calls => by
      unfold Expression.evaluate
      simp only [Run.onStore_bind]
      apply bind (expressions scope items setting session opened calls)
      intro values after _ _ _
      apply bind (newList isMutable fun value member => Setting.mem_values_also.mpr (.inr member))
      intro list after _ _ _
      exact pureValue Setting.gained_value
  | .binary left operator right, setting, session, opened, calls => by
      have callsLeft (name : String) (member : name ∈ left.calls) : name ∈ rerun.called :=
        calls name (List.mem_append_left _ member)
      have callsRight (name : String) (member : name ∈ right.calls) : name ∈ rerun.called :=
        calls name (List.mem_append_right _ member)
      unfold Expression.evaluate
      simp only [Run.onStore_bind]
      apply bind (expression scope left setting session opened callsLeft)
      intro left after _ _ _
      apply bind (operand operator left)
      intro first after _ _ _
      have opened := Setting.opened_also (Setting.opened_also opened { values := [left] }) {}
      apply bind (expression scope right _ after opened callsRight)
      intro right after _ _ _
      apply bind (operand operator right)
      intro second after _ _ _
      apply bind (lift _)
      intro result after _ _ _
      exact primitive result

theorem expressions (scope : ScopeRef) : (expressions : List Expression) →
    (setting : Setting) → (session : Session η) → (opened : scope ∈ setting.opened) →
    (calls : ∀ name ∈ allCalls expressions, name ∈ rerun.called) →
    rerun.Mirrors setting session
      (Run.onStore (evaluateAll rerun.environment.host scope expressions))
      (Run.onStore (evaluateAll rerun.environment.host scope expressions))
      (List.map rerun.shift.value) (fun _ _ => True) fun values => { values }
  | [], setting, session, opened, calls => by
      unfold evaluateAll
      exact pure rfl trivial fun view heap known => known.none
  | first :: rest, setting, session, opened, calls => by
      have callsFirst (name : String) (member : name ∈ first.calls) : name ∈ rerun.called :=
        calls name (List.mem_append_left _ member)
      have callsRest (name : String) (member : name ∈ allCalls rest) : name ∈ rerun.called :=
        calls name (List.mem_append_right _ member)
      unfold evaluateAll
      simp only [Run.onStore_bind]
      apply bind (expression scope first setting session opened callsFirst)
      intro value after _ _ _
      apply bind (expressions scope rest _ after (Setting.opened_also opened _) callsRest)
      intro values after _ _ _
      apply pure
      · rfl
      · trivial
      · intro view heap known
        apply known.ofValues
        intro other member
        apply known.values
        rcases List.mem_cons.mp member with rfl | later
        · exact Setting.value_also Setting.gained_value _
        · exact Setting.mem_values_also.mpr (.inr later)

theorem follow (scope : ScopeRef) (reached : Option Value) : (path : List Segment) →
    (setting : Setting) → (session : Session η) → (opened : scope ∈ setting.opened) →
    (isKnown : ∀ value ∈ reached, value ∈ setting.values) →
    (calls : ∀ name ∈ pathCalls path, name ∈ rerun.called) →
    rerun.Mirrors setting session
      (Run.onStore (followFrom rerun.environment.host scope reached path))
      (Run.onStore
        (followFrom rerun.environment.host scope (reached.map rerun.shift.value) path))
      rerun.shift.value (fun _ _ => True) fun value => { values := [value] }
  | [], setting, session, opened, isKnown, calls => by
      unfold followFrom
      cases reached with
      | none => exact fail _
      | some value => exact pureValue (isKnown value rfl)
  | first :: path, setting, session, opened, isKnown, calls => by
      have callsFirst (name : String) (member : name ∈ first.calls) : name ∈ rerun.called :=
        calls name (List.mem_append_left _ member)
      have callsRest (name : String) (member : name ∈ pathCalls path) : name ∈ rerun.called :=
        calls name (List.mem_append_right _ member)
      unfold followFrom
      simp only [Run.onStore_bind]
      apply bind (segment scope reached first setting session opened isKnown callsFirst)
      intro value after _ _ _
      have isReached : ∀ next ∈ some value,
          next ∈ (setting.also { values := [value] }).values := by
        rintro _ ⟨⟩
        exact Setting.gained_value
      exact follow scope (some value) path _ after (Setting.opened_also opened _) isReached
        callsRest

theorem segment (scope : ScopeRef) (reached : Option Value) : (segment : Segment) →
    (setting : Setting) → (session : Session η) → (opened : scope ∈ setting.opened) →
    (isKnown : ∀ value ∈ reached, value ∈ setting.values) →
    (calls : ∀ name ∈ segment.calls, name ∈ rerun.called) →
    rerun.Mirrors setting session
      (Run.onStore (segment.follow rerun.environment.host scope reached))
      (Run.onStore (segment.follow rerun.environment.host scope (reached.map rerun.shift.value)))
      rerun.shift.value (fun _ _ => True) fun value => { values := [value] }
  | .property name, setting, session, opened, isKnown, calls => by
      unfold Segment.follow
      exact readName opened isKnown name
  | .call name arguments silent indexed, setting, session, opened, isKnown, calls => by
      have callsArguments (other : String) (member : other ∈ allCalls arguments) :
          other ∈ rerun.called :=
        calls other (List.mem_cons_of_mem name member)
      unfold Segment.follow
      simp only [Run.onStore_bind]
      apply bind (readingTarget opened isKnown (calls name List.mem_cons_self) indexed)
      intro target after _ _ ⟨_, reads⟩
      apply bind (expressions scope arguments _ after (Setting.opened_also opened _)
        callsArguments)
      intro values after _ _ _
      apply invoke reached reads
      · intro value member
        exact Setting.value_also (Setting.mem_values_also.mpr (.inr member)) _
      · exact fun value member => Setting.mem_values_also.mpr (.inr member)

end

theorem condition {scope : ScopeRef} (opened : scope ∈ setting.opened) (condition : Condition)
    (calls : ∀ name ∈ condition.calls, name ∈ rerun.called) :
    rerun.Mirrors setting session
      (Run.onStore (condition.evaluate rerun.environment.host scope))
      (Run.onStore (condition.evaluate rerun.environment.host scope)) id (fun _ _ => True)
      fun _ => {} := by
  unfold Condition.evaluate
  cases condition with
  | compare left comparison right =>
      have callsLeft (name : String) (member : name ∈ left.calls) : name ∈ rerun.called :=
        calls name (List.mem_append_left _ member)
      have callsRight (name : String) (member : name ∈ right.calls) : name ∈ rerun.called :=
        calls name (List.mem_append_right _ member)
      dsimp only
      rw [Run.onStore_bind]
      apply bind (expression scope left setting session opened callsLeft)
      intro left after _ _ _
      rw [Run.onStore_bind, Run.onStore_bind]
      apply bind (expression scope right _ after (Setting.opened_also opened _) callsRight)
      intro right after _ _ _
      have ran (left right : Value) (store : Store η) :
          (do (← Evaluator.heap).compares comparison left right : Evaluator η Bool).run.run store =
            (store.heap.compares comparison left right, store) := by
        change (liftM (store.heap.compares comparison left right) :
          Evaluator η Bool).run.run store = _
        cases store.heap.compares comparison left right <;> rfl
      apply asks (ran left right _)
      intro view other known shift alike
      refine ⟨_, ran _ _ other, ?_⟩
      rw [← shift]
      rw [alike.compares comparison
        (known.values left (Setting.value_also Setting.gained_value _))
        (known.values right Setting.gained_value)]
      refine ⟨?_, fun _ _ => known.none⟩
      cases after.store.heap.compares comparison left right <;> rfl
  | value test =>
      dsimp only
      rw [Run.onStore_bind]
      apply bind (expression scope test setting session opened calls)
      intro value after _ _ _
      rw [Shift.boolean?_value, Shift.kind_value]
      cases value.boolean? with
      | some truth => exact pure rfl trivial fun view heap known => known.none
      | none => exact fail _

end Rerun.Mirrors

end Stencil
