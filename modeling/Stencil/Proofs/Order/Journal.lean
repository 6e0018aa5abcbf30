import Stencil.Proofs.Expression.Run
import Stencil.Proofs.Order.Placed

/-!
# Evaluations that keep a journal

An expression with places can be evaluated so that every action is noted before it is done, a call
with what it invokes, and every call of the host under the action that made it.  Every invocation of
a function of the host that accepts its arguments is one call of the host, and there are no others.
Without the journal this is the evaluation of the bare expression.  The journal holds the actions of
the expression in their order, all of them if nothing fails, and otherwise those up to the one that
failed.
-/

namespace Stencil

variable {η : Type}

/-- A call that found its function and its arguments: where it is closed, and what it invokes. -/
structure Invocation where
  closed : Nat
  target : Callable
  receiver : Option Value
  arguments : List Value

/-- What a function of the host was called with, and the action that was noted last. -/
structure HostCall where
  under : Option Action
  code : Nat
  receiver : Option Value
  arguments : List Value
deriving DecidableEq

namespace Invocation

def action (invocation : Invocation) : Action := .call invocation.closed

/-- The call of the host that an invocation is, if its function is one of the host and accepts so
many arguments. -/
def hostCall? (invocation : Invocation) : Option HostCall :=
  match invocation.target with
  | .member _ _ => none
  | .host function =>
      match function.accepts invocation.arguments.length with
      | .error _ => none
      | .ok _ =>
          some ⟨some invocation.action, function.code, invocation.receiver, invocation.arguments⟩

/-- A function of the host that is invoked accepts so many arguments. -/
def Accepted (invocation : Invocation) : Prop :=
  ∀ function, invocation.target = .host function →
    function.accepts invocation.arguments.length = .ok ()

end Invocation

/-- The actions done so far, what was invoked among them, and the calls that the host got. -/
structure Journal where
  actions : List Action := []
  invocations : List Invocation := []
  calls : List HostCall := []

namespace Journal

def note (journal : Journal) (action : Action) : Journal :=
  { journal with actions := journal.actions ++ [action] }

/-- Notes an invocation, which is an action. -/
def noteInvocation (journal : Journal) (invocation : Invocation) : Journal :=
  { journal.note invocation.action with invocations := journal.invocations ++ [invocation] }

/-- Notes a call of the host under the last action. -/
def noteCall (journal : Journal) (code : Nat) (receiver : Option Value) (arguments : List Value) :
    Journal :=
  { journal with calls := journal.calls ++ [⟨journal.actions.getLast?, code, receiver, arguments⟩] }

end Journal

namespace Store

/-- The store without the journal. -/
def unnoted (store : Store (η × Journal)) : Store η :=
  ⟨store.heap, store.state.1⟩

/-- The store with one more action in its journal. -/
def note (store : Store (η × Journal)) (action : Action) : Store (η × Journal) :=
  { store with state := (store.state.1, store.state.2.note action) }

/-- The store with one more invocation in its journal. -/
def noteInvocation (store : Store (η × Journal)) (invocation : Invocation) : Store (η × Journal) :=
  { store with state := (store.state.1, store.state.2.noteInvocation invocation) }

/-- The store with an empty journal. -/
def noted (store : Store η) : Store (η × Journal) :=
  ⟨store.heap, store.state, {}⟩

end Store

/-- The host that notes when its functions are called. -/
def Host.noting (host : Host η) : Host (η × Journal) where
  call code receiver arguments store :=
    let (answer, after) := host.call code receiver arguments store.unnoted
    (answer, ⟨after.heap, after.state, store.state.2.noteCall code receiver arguments⟩)

/-- Notes an action. -/
def Evaluator.note (action : Action) : Evaluator (η × Journal) Unit :=
  modify (·.note action)

/-- Notes an invocation. -/
def Evaluator.noteInvocation (invocation : Invocation) : Evaluator (η × Journal) Unit :=
  modify (·.noteInvocation invocation)

mutual

/-- The value of an expression, noting what is done. -/
def PlacedExpression.evaluate (host : Host η) (scope : ScopeRef) :
    PlacedExpression → Evaluator (η × Journal) Value
  | .literal value => return .primitive value
  | .reference first others => do
      let value ← first.follow host scope none
      PlacedSegment.followFrom host scope value others
  | .list isMutable items => do
      let values ← PlacedExpression.evaluateAll host scope items
      return .list (← Evaluator.onHeap fun heap => heap.newList isMutable values)
  | .binary left leftEnd operator right rightEnd => do
      let left ← left.evaluate host scope
      Evaluator.note (.operation leftEnd)
      let left ← operand operator left
      let right ← right.evaluate host scope
      Evaluator.note (.operation rightEnd)
      let right ← operand operator right
      return .primitive (← left.compute operator right)

def PlacedExpression.evaluateAll (host : Host η) (scope : ScopeRef) :
    List PlacedExpression → Evaluator (η × Journal) (List Value)
  | [] => return []
  | expression :: expressions => do
      let value ← expression.evaluate host scope
      return value :: (← PlacedExpression.evaluateAll host scope expressions)

/-- Follows the later segments of a path, noting what is done. -/
def PlacedSegment.followFrom (host : Host η) (scope : ScopeRef) (reached : Value) :
    List PlacedSegment → Evaluator (η × Journal) Value
  | [] => return reached
  | segment :: path => do
      let value ← segment.follow host scope (some reached)
      PlacedSegment.followFrom host scope value path

/-- Takes one step of a path, noting what is done. -/
def PlacedSegment.follow (host : Host η) (scope : ScopeRef) (reached : Option Value) :
    PlacedSegment → Evaluator (η × Journal) Value
  | .property place name => do
      Evaluator.note (.lookup place)
      readName scope reached name
  | .call place name arguments _ indexed closed => do
      Evaluator.note (.lookup place)
      let target ← callTarget scope reached name indexed
      let values ← PlacedExpression.evaluateAll host scope arguments
      Evaluator.noteInvocation ⟨closed, target, reached, values⟩
      target.invoke host.noting reached values

end

/-- A journal goes on with actions: the calls among them are invocations that may be there, and the
host got the calls that these are. -/
structure Journal.Adds (may : Invocation → Prop) (before after : Journal) (taken : List Action) :
    Prop where
  actions : after.actions = before.actions ++ taken
  invocations : ∃ made : List Invocation,
    made.map Invocation.action = taken.filter Action.isCall ∧
    (∀ invocation ∈ made, may invocation) ∧
    after.invocations = before.invocations ++ made ∧
    after.calls = before.calls ++ made.filterMap Invocation.hostCall?

namespace Journal.Adds

variable {before middle after : Journal} {taken others : List Action} {may may' : Invocation → Prop}

theorem refl (journal : Journal) : journal.Adds may journal [] :=
  ⟨(List.append_nil _).symm, [], rfl, nofun, (List.append_nil _).symm, (List.append_nil _).symm⟩

theorem mono (adds : before.Adds may after taken)
    (more : ∀ invocation, may invocation → may' invocation) :
    before.Adds may' after taken := by
  obtain ⟨made, isTaken, allowed, invoked, calls⟩ := adds.invocations
  exact ⟨adds.actions, made, isTaken, fun invocation member => more _ (allowed invocation member),
    invoked, calls⟩

theorem trans (first : before.Adds may middle taken) (second : middle.Adds may after others) :
    before.Adds may after (taken ++ others) := by
  obtain ⟨made, isTaken, allowed, invoked, calls⟩ := first.invocations
  obtain ⟨madeLater, isLater, allowedLater, invokedLater, callsLater⟩ := second.invocations
  refine ⟨?_, made ++ madeLater, ?_, ?_, ?_, ?_⟩
  · rw [second.actions, first.actions, List.append_assoc]
  · rw [List.map_append, List.filter_append, isTaken, isLater]
  · exact List.forall_mem_append.mpr ⟨allowed, allowedLater⟩
  · rw [invokedLater, invoked, List.append_assoc]
  · rw [callsLater, calls, List.append_assoc, List.filterMap_append]

theorem note (journal : Journal) {action : Action} (other : action.isCall = false) :
    journal.Adds may (journal.note action) [action] := by
  refine ⟨rfl, [], ?_, nofun, (List.append_nil _).symm, (List.append_nil _).symm⟩
  rw [List.filter_cons_of_neg (Bool.eq_false_iff.mp other)]
  rfl

/-- An invocation that is no call of the host. -/
theorem noteInvocation (journal : Journal) {invocation : Invocation} (allowed : may invocation)
    (inner : invocation.hostCall? = none) :
    journal.Adds may (journal.noteInvocation invocation) [invocation.action] := by
  refine ⟨rfl, [invocation], rfl, List.forall_mem_singleton.mpr allowed, rfl, ?_⟩
  rw [List.filterMap_cons_none inner]
  exact (List.append_nil _).symm

/-- An invocation that is a call of the host. -/
theorem noteCall (journal : Journal) {invocation : Invocation} {code : Nat}
    {receiver : Option Value} {arguments : List Value} (allowed : may invocation)
    (isCall : invocation.hostCall? = some ⟨some invocation.action, code, receiver, arguments⟩) :
    journal.Adds may ((journal.noteInvocation invocation).noteCall code receiver arguments)
      [invocation.action] := by
  refine ⟨rfl, [invocation], rfl, List.forall_mem_singleton.mpr allowed, rfl, ?_⟩
  have last : (journal.noteInvocation invocation).actions.getLast? = some invocation.action :=
    List.getLast?_concat
  rw [List.filterMap_cons_some isCall, Journal.noteCall, last]
  rfl

end Journal.Adds

namespace Evaluator

variable {α β : Type}

/-- A computation with a journal does what one without does and leaves the journal alone. -/
structure Silent (noting : Evaluator (η × Journal) α) (plain : Evaluator η α) : Prop where
  same : ∀ store, plain.run.run store.unnoted =
    ((noting.run.run store).1, (noting.run.run store).2.unnoted)
  journal : ∀ store, (noting.run.run store).2.state.2 = store.state.2

/-- A computation does what one without a journal does and notes actions, all of them if it does not
fail and otherwise those up to the one that failed.  If it does not fail, the host accepted whatever
it was called with. -/
structure Notes (actions : List Action) (noting : Evaluator (η × Journal) α)
    (plain : Evaluator η α) : Prop where
  same : ∀ store, plain.run.run store.unnoted =
    ((noting.run.run store).1, (noting.run.run store).2.unnoted)
  finished : ∀ store answer, (noting.run.run store).1 = .ok answer →
    store.state.2.Adds Invocation.Accepted (noting.run.run store).2.state.2 actions
  failed : ∀ store error, (noting.run.run store).1 = .error error →
    ∃ earlier failing later, actions = earlier ++ failing :: later ∧
      store.state.2.Adds (fun _ => True) (noting.run.run store).2.state.2 (earlier ++ [failing])

/-- How a sequence runs, given the outcome of its first part. -/
theorem run_bind (first : Evaluator η α) (next : α → Evaluator η β) (store : Store η) :
    (first >>= next).run.run store =
      (ExceptT.bindCont next (first.run.run store).1).run (first.run.run store).2 := rfl

theorem same_bind {first : Evaluator (η × Journal) α} {firstPlain : Evaluator η α}
    {next : α → Evaluator (η × Journal) β} {nextPlain : α → Evaluator η β}
    (here : ∀ store, firstPlain.run.run store.unnoted =
      ((first.run.run store).1, (first.run.run store).2.unnoted))
    (later : ∀ answer store, (nextPlain answer).run.run store.unnoted =
      (((next answer).run.run store).1, ((next answer).run.run store).2.unnoted))
    (store : Store (η × Journal)) : (firstPlain >>= nextPlain).run.run store.unnoted =
      (((first >>= next).run.run store).1, ((first >>= next).run.run store).2.unnoted) := by
  rw [run_bind, run_bind, here store]
  cases (first.run.run store).1 with
  | error error => rfl
  | ok answer => exact later answer _

namespace Silent

theorem pure (answer : α) :
    Silent (Pure.pure answer : Evaluator (η × Journal) α) (Pure.pure answer) :=
  ⟨fun _ => rfl, fun _ => rfl⟩

theorem throw (error : TemplateError) :
    Silent (MonadExcept.throw error : Evaluator (η × Journal) α) (MonadExcept.throw error) :=
  ⟨fun _ => rfl, fun _ => rfl⟩

theorem onHeap (change : Heap → α × Heap) :
    Silent (Evaluator.onHeap change : Evaluator (η × Journal) α) (Evaluator.onHeap change) :=
  ⟨fun _ => rfl, fun _ => rfl⟩

theorem lift (outcome : Except TemplateError α) :
    Silent (liftM outcome : Evaluator (η × Journal) α) (liftM outcome) := by
  cases outcome with
  | ok answer => exact pure answer
  | error error => exact throw error

theorem bind {first : Evaluator (η × Journal) α} {firstPlain : Evaluator η α}
    {next : α → Evaluator (η × Journal) β} {nextPlain : α → Evaluator η β}
    (here : Silent first firstPlain) (later : ∀ answer, Silent (next answer) (nextPlain answer)) :
    Silent (first >>= next) (firstPlain >>= nextPlain) := by
  refine ⟨same_bind here.same fun answer => (later answer).same, fun store => ?_⟩
  rw [run_bind]
  cases (first.run.run store).1 with
  | error error => exact here.journal store
  | ok answer => exact ((later answer).journal _).trans (here.journal store)

theorem heap : Silent (Evaluator.heap : Evaluator (η × Journal) Heap) Evaluator.heap :=
  ⟨fun _ => rfl, fun _ => rfl⟩

theorem readName (scope : ScopeRef) (receiver : Option Value) (name : String) :
    Silent (readName scope receiver name : Evaluator (η × Journal) Value)
      (readName scope receiver name) := by
  refine heap.bind fun heap => ?_
  cases heap.find? scope receiver name with
  | none => exact throw _
  | some binding => exact onHeap _

theorem callTarget (scope : ScopeRef) (receiver : Option Value) (name : String) (indexed : Bool) :
    Silent (callTarget scope receiver name indexed : Evaluator (η × Journal) Callable)
      (callTarget scope receiver name indexed) := by
  refine heap.bind fun heap => ?_
  split
  · exact pure _
  · exact throw _
  · exact pure _
  · split
    · exact throw _
    · exact throw _

end Silent

namespace Notes

variable {actions later : List Action}

theorem pure (answer : α) :
    Notes [] (Pure.pure answer : Evaluator (η × Journal) α) (Pure.pure answer) :=
  ⟨fun _ => rfl, fun _ _ _ => .refl _, nofun⟩

theorem onHeap (change : Heap → α × Heap) :
    Notes [] (Evaluator.onHeap change : Evaluator (η × Journal) α) (Evaluator.onHeap change) :=
  ⟨fun _ => rfl, fun _ _ _ => .refl _, nofun⟩

theorem bind {first : Evaluator (η × Journal) α} {firstPlain : Evaluator η α}
    {next : α → Evaluator (η × Journal) β} {nextPlain : α → Evaluator η β}
    (here : Notes actions first firstPlain)
    (rest : ∀ answer, Notes later (next answer) (nextPlain answer)) :
    Notes (actions ++ later) (first >>= next) (firstPlain >>= nextPlain) := by
  refine ⟨same_bind here.same fun answer => (rest answer).same, fun store answer done => ?_,
    fun store error stopped => ?_⟩
  · rw [run_bind] at done ⊢
    cases outcome : (first.run.run store).1 with
    | error error =>
        rw [outcome] at done
        cases done
    | ok middle =>
        rw [outcome] at done
        exact (here.finished store middle outcome).trans ((rest middle).finished _ answer done)
  · rw [run_bind] at stopped ⊢
    cases outcome : (first.run.run store).1 with
    | error other =>
        obtain ⟨earlier, failing, others, split, adds⟩ := here.failed store other outcome
        refine ⟨earlier, failing, others ++ later, ?_, adds⟩
        rw [split, List.append_assoc]
        rfl
    | ok middle =>
        rw [outcome] at stopped
        obtain ⟨earlier, failing, others, split, adds⟩ := (rest middle).failed _ error stopped
        refine ⟨actions ++ earlier, failing, others, ?_, ?_⟩
        · rw [split, List.append_assoc]
        · rw [List.append_assoc]
          exact ((here.finished store middle outcome).mono fun _ _ => trivial).trans adds

/-- Nothing is noted after the first part. -/
theorem bind_nothing {first : Evaluator (η × Journal) α} {firstPlain : Evaluator η α}
    {next : α → Evaluator (η × Journal) β} {nextPlain : α → Evaluator η β}
    (here : Notes actions first firstPlain)
    (rest : ∀ answer, Notes [] (next answer) (nextPlain answer)) :
    Notes actions (first >>= next) (firstPlain >>= nextPlain) := by
  have notes := here.bind rest
  rw [List.append_nil] at notes
  exact notes

/-- An action is noted before it is done. -/
theorem of_noted {noting : Evaluator (η × Journal) α} {plain : Evaluator η α} (action : Action)
    (may : Invocation → Prop) {change : Store (η × Journal) → Store (η × Journal)}
    (unnoted : ∀ store, (change store).unnoted = store.unnoted)
    (same : ∀ store, plain.run.run store.unnoted =
      ((noting.run.run store).1, (noting.run.run store).2.unnoted))
    (adds : ∀ store : Store (η × Journal),
      store.state.2.Adds may (noting.run.run (change store)).2.state.2 [action])
    (accepted : ∀ store answer, (noting.run.run (change store)).1 = .ok answer →
      ∀ invocation, may invocation → invocation.Accepted) :
    Notes [action] (modify change >>= fun _ => noting) plain := by
  refine ⟨fun store => ?_, fun store answer done => (adds store).mono (accepted store answer done),
    fun store _ _ => ⟨[], action, [], rfl, (adds store).mono fun _ _ => trivial⟩⟩
  rw [← unnoted store]
  exact same (change store)

theorem of_silent {noting : Evaluator (η × Journal) α} {plain : Evaluator η α} {action : Action}
    (other : action.isCall = false) (silent : Silent noting plain) :
    Notes [action] (note action >>= fun _ => noting) plain := by
  refine of_noted action _ (fun _ => rfl) silent.same
    (fun store => ?_) fun _ _ _ _ accepted => accepted
  rw [silent.journal (store.note action)]
  exact .note _ other

/-- An action that is noted and done before the rest. -/
theorem silent_bind {first : Evaluator (η × Journal) α} {firstPlain : Evaluator η α}
    {next : α → Evaluator (η × Journal) β} {nextPlain : α → Evaluator η β} {action : Action}
    (other : action.isCall = false) (silent : Silent first firstPlain)
    (rest : ∀ answer, Notes later (next answer) (nextPlain answer)) :
    Notes ([action] ++ later) (note action >>= fun _ => first >>= next)
      (firstPlain >>= nextPlain) := by
  have joined := (of_silent other silent).bind rest
  rw [bind_assoc] at joined
  exact joined

/-- An invocation is noted, and the host gets the call that it is. -/
theorem invoke (host : Host η) (callable : Callable) (receiver : Option Value)
    (arguments : List Value) (closed : Nat) :
    Notes [.call closed]
      (noteInvocation ⟨closed, callable, receiver, arguments⟩ >>= fun _ =>
        callable.invoke host.noting receiver arguments)
      (callable.invoke host receiver arguments) := by
  cases callable with
  | member owner method =>
      have silent : Silent (Callable.invoke host.noting (.member owner method) receiver arguments)
          (Callable.invoke host (.member owner method) receiver arguments) := by
        refine ⟨fun store => ?_, fun store => ?_⟩
        · have heap : store.unnoted.heap = store.heap := rfl
          rw [Callable.run_invoke_member, Callable.run_invoke_member, heap]
          cases method.invoke owner arguments store.heap with
          | error error => rfl
          | ok found => rfl
        · rw [Callable.run_invoke_member]
          cases method.invoke owner arguments store.heap with
          | error error => rfl
          | ok found => rfl
      refine of_noted (.call closed) _ (fun _ => rfl) silent.same (fun store => ?_)
        fun _ _ _ _ accepted => accepted
      rw [silent.journal (store.noteInvocation _)]
      exact .noteInvocation _ nofun rfl
  | host function =>
      unfold Callable.invoke
      dsimp only
      cases accepts : function.accepts arguments.length with
      | error error =>
          have inner : (⟨closed, .host function, receiver, arguments⟩ :
              Invocation).hostCall? = none := by
            simp only [Invocation.hostCall?, accepts]
          exact of_noted (.call closed) (fun _ => True) (fun _ => rfl) (fun _ => rfl)
            (fun store => .noteInvocation _ trivial inner) nofun
      | ok =>
          refine of_noted (.call closed) _ (fun _ => rfl) (fun _ => rfl)
            (fun store => .noteCall _ ?_ ?_) fun _ _ _ _ accepted => accepted
          · rintro _ ⟨⟩
            exact accepts
          · simp only [Invocation.hostCall?, accepts]

end Notes

end Evaluator

open Evaluator

mutual

/-- Evaluating an expression notes its actions in their order. -/
theorem PlacedExpression.notes_evaluate (host : Host η) (scope : ScopeRef) :
    (expression : PlacedExpression) → Notes expression.actions (expression.evaluate host scope)
      (expression.erase.evaluate host scope)
  | .literal value => by
      unfold PlacedExpression.evaluate PlacedExpression.erase Expression.evaluate
      exact .pure _
  | .reference first others => by
      unfold PlacedExpression.evaluate PlacedExpression.erase Expression.evaluate Stencil.followFrom
      exact (first.notes_follow host scope none).bind fun value =>
        PlacedSegment.notes_followFrom host scope value others
  | .list isMutable items => by
      unfold PlacedExpression.evaluate PlacedExpression.erase Expression.evaluate
      exact (PlacedExpression.notes_evaluateAll host scope items).bind_nothing fun values =>
        (Notes.onHeap _).bind_nothing fun list => .pure _
  | .binary left leftEnd operator right rightEnd => by
      unfold PlacedExpression.evaluate PlacedExpression.erase Expression.evaluate
      refine (left.notes_evaluate host scope).bind fun value =>
        .silent_bind rfl (.lift _) fun leftValue => ?_
      refine (right.notes_evaluate host scope).bind fun value => .of_silent rfl ?_
      exact (Silent.lift _).bind fun rightValue => (Silent.lift _).bind fun result => .pure _

theorem PlacedExpression.notes_evaluateAll (host : Host η) (scope : ScopeRef) :
    (expressions : List PlacedExpression) → Notes (PlacedExpression.allActions expressions)
      (PlacedExpression.evaluateAll host scope expressions)
      (evaluateAll host scope (PlacedExpression.eraseAll expressions))
  | [] => by
      unfold PlacedExpression.evaluateAll PlacedExpression.eraseAll Stencil.evaluateAll
      exact .pure _
  | expression :: expressions => by
      unfold PlacedExpression.evaluateAll PlacedExpression.eraseAll Stencil.evaluateAll
      exact (expression.notes_evaluate host scope).bind fun value =>
        (PlacedExpression.notes_evaluateAll host scope expressions).bind_nothing
          fun values => .pure _

theorem PlacedSegment.notes_followFrom (host : Host η) (scope : ScopeRef) (reached : Value) :
    (path : List PlacedSegment) → Notes (PlacedSegment.allActions path)
      (PlacedSegment.followFrom host scope reached path)
      (followFrom host scope (some reached) (PlacedSegment.eraseAll path))
  | [] => by
      unfold PlacedSegment.followFrom PlacedSegment.eraseAll Stencil.followFrom
      exact .pure _
  | segment :: path => by
      unfold PlacedSegment.followFrom PlacedSegment.eraseAll Stencil.followFrom
      exact (segment.notes_follow host scope (some reached)).bind fun value =>
        PlacedSegment.notes_followFrom host scope value path

theorem PlacedSegment.notes_follow (host : Host η) (scope : ScopeRef) (reached : Option Value) :
    (segment : PlacedSegment) → Notes segment.actions (segment.follow host scope reached)
      (segment.erase.follow host scope reached)
  | .property place name => by
      unfold PlacedSegment.follow PlacedSegment.erase Segment.follow
      exact .of_silent rfl (.readName scope reached name)
  | .call place name arguments silent indexed closed => by
      unfold PlacedSegment.follow PlacedSegment.erase Segment.follow
      exact .silent_bind rfl (.callTarget scope reached name indexed) fun target =>
        (PlacedExpression.notes_evaluateAll host scope arguments).bind fun values =>
          .invoke host target reached values closed

end

end Stencil
