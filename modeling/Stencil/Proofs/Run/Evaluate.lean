import Stencil.Proofs.Heap.Stored
import Stencil.Proofs.Member
import Stencil.Proofs.Run.Policy

/-!
# Evaluation under a policy

An expression keeps to a policy and leads to a value that the policy accepts, if that is so of the
few things that an evaluation does: finding names, making lists and functions, and calling members
and functions of the host.
-/

namespace Stencil

variable {η : Type}

namespace Policy

/-- What an evaluation is made of keeps to a policy and answers what the policy accepts. -/
structure Careful (policy : Policy η) (host : Host η) : Prop extends policy.Regular where
  hasScope_mono : ∀ before after scope, policy.grows before after →
    policy.hasScope before scope → policy.hasScope after scope
  hasValue_mono : ∀ before after value, policy.grows before after →
    policy.hasValue before value → policy.hasValue after value
  primitive : ∀ store value, policy.hasValue store (.primitive value)
  find : ∀ store scope receiver name binding, policy.holds store → policy.hasScope store scope →
    (∀ value, receiver = some value → policy.hasValue store value) →
    store.heap.find? scope receiver name = some binding → binding.Fits (policy.hasValue store)
  valueOf : ∀ store binding, policy.holds store → binding.Fits (policy.hasValue store) →
    policy.Becomes store { store with heap := (store.heap.valueOf binding).2 } ∧
      policy.hasValue { store with heap := (store.heap.valueOf binding).2 }
        (store.heap.valueOf binding).1
  callable : ∀ store function, policy.holds store →
    (store.heap.callable function).Fits (policy.hasValue store)
  newList : ∀ store isMutable items, policy.holds store →
    (∀ item ∈ items, policy.hasValue store item) →
    policy.Becomes store { store with heap := (store.heap.newList isMutable items).2 } ∧
      policy.hasValue { store with heap := (store.heap.newList isMutable items).2 }
        (.list (store.heap.newList isMutable items).1)
  member : ∀ store (method : Member) owner arguments, policy.holds store →
    policy.hasValue store owner → (∀ argument ∈ arguments, policy.hasValue store argument) →
    Gives (method.invoke owner arguments store.heap) fun answer =>
      policy.Becomes store { store with heap := answer.2 } ∧
        policy.hasValue { store with heap := answer.2 } answer.1
  call : ∀ store code receiver arguments, policy.holds store →
    (∀ value, receiver = some value → policy.hasValue store value) →
    (∀ argument ∈ arguments, policy.hasValue store argument) →
    policy.Becomes store (host.call code receiver arguments store).2 ∧
      (∀ value, (host.call code receiver arguments store).1 = .ok value →
        policy.hasValue (host.call code receiver arguments store).2 value) ∧
      ∀ error, (host.call code receiver arguments store).1 = .error error → policy.raises error

variable {policy : Policy η} {host : Host η} {store : Store η} {scope : ScopeRef}
  {receiver : Option Value} {α β : Type}

/-- What comes next may look at the heap. -/
theorem Works.heap_bind {next : Heap → Evaluator η β} {answers : β → Store η → Prop}
    (later : policy.Works store (next store.heap) answers) :
    policy.Works store (Evaluator.heap >>= next) answers :=
  later

/-- A computation that was done on the side gives its answer or its error. -/
theorem Works.gives_bind (regular : policy.Regular) (holds : policy.holds store)
    {outcome : Except TemplateError α} {middle : α → Prop} {next : α → Evaluator η β}
    {answers : β → Store η → Prop} (gives : Gives outcome middle)
    (later : ∀ answer, middle answer → policy.Works store (next answer) answers) :
    policy.Works store (liftM outcome >>= next) answers := by
  cases outcome with
  | ok answer => exact later answer gives
  | error error => exact throw regular holds gives.otherThanSeek

namespace Careful

section

variable (careful : policy.Careful host) (holds : policy.holds store)

include careful holds

section

variable (has : policy.hasScope store scope)
  (hasReceiver : ∀ value, receiver = some value → policy.hasValue store value)

include has hasReceiver

theorem readName (name : String) :
    policy.Works store (readName scope receiver name) fun value after =>
      policy.hasValue after value := by
  unfold Stencil.readName
  apply Works.heap_bind
  cases found : store.heap.find? scope receiver name with
  | none =>
      exact .throw careful.toRegular holds (undefinedIn_otherThanParse receiver name).otherThanSeek
  | some binding =>
      have fits := careful.find _ _ _ _ _ holds has hasReceiver found
      obtain ⟨becomes, hasValue⟩ := careful.valueOf store binding holds fits
      refine ⟨becomes, fun value same => ?_, fun _ same => nomatch same⟩
      cases same
      exact hasValue

theorem callTarget (name : String) (indexed : Bool) :
    policy.Works store (callTarget scope receiver name indexed) fun callable after =>
      callable.Fits (policy.hasValue after) := by
  have undefined := (undefinedIn_otherThanParse receiver name).otherThanSeek
  unfold Stencil.callTarget
  apply Works.heap_bind
  cases found : store.heap.find? scope receiver name with
  | none =>
      cases indexed with
      | true => exact .throw careful.toRegular holds nofun
      | false => exact .throw careful.toRegular holds undefined
  | some binding =>
      have fits := careful.find _ _ _ _ _ holds has hasReceiver found
      cases binding with
      | entry value =>
          cases value with
          | function function => exact .pure careful.toRegular holds (careful.callable _ _ holds)
          | primitive value => exact .throw careful.toRegular holds nofun
          | list list => exact .throw careful.toRegular holds nofun
          | object object => exact .throw careful.toRegular holds nofun
      | member owner method => exact .pure careful.toRegular holds fits

end

theorem invoke {callable : Callable} {arguments : List Value}
    (fits : callable.Fits (policy.hasValue store))
    (hasReceiver : ∀ value, receiver = some value → policy.hasValue store value)
    (hasArguments : ∀ argument ∈ arguments, policy.hasValue store argument) :
    policy.Works store (callable.invoke host receiver arguments) fun value after =>
      policy.hasValue after value := by
  unfold Callable.invoke
  cases callable with
  | host function =>
      have accepts : Gives (function.accepts arguments.length) fun _ => True :=
        .of_neverParses (.accepts _ _)
      refine Works.gives_bind careful.toRegular holds accepts fun _ _ => ?_
      exact careful.call store function.code receiver arguments holds hasReceiver hasArguments
  | member owner method =>
      apply Works.heap_bind
      have gives := careful.member store method owner arguments holds fits hasArguments
      refine Works.gives_bind careful.toRegular holds gives fun answer becomes => ?_
      refine ⟨becomes.1, fun value same => ?_, fun _ same => nomatch same⟩
      cases same
      exact becomes.2

end

mutual

theorem evaluate (careful : policy.Careful host) : (expression : Expression) →
    (store : Store η) → policy.holds store → policy.hasScope store scope →
    policy.Works store (expression.evaluate host scope) fun value after =>
      policy.hasValue after value
  | .literal value, store, holds, has => by
      unfold Expression.evaluate
      exact .pure careful.toRegular holds (careful.primitive _ _)
  | .reference path, store, holds, has => by
      unfold Expression.evaluate
      exact followFrom careful path store holds has nofun
  | .list isMutable items, store, holds, has => by
      unfold Expression.evaluate
      refine (evaluateAll careful items store holds has).bind careful.toRegular
        fun values after becomes hasValues => ?_
      obtain ⟨added, hasList⟩ := careful.newList after isMutable values becomes.1 hasValues
      refine ⟨added, fun value same => ?_, fun _ same => nomatch same⟩
      cases same
      exact hasList
  | .binary left operator right, store, holds, has => by
      unfold Expression.evaluate
      refine (evaluate careful left store holds has).bind careful.toRegular
        fun leftValue middle becomes _ => ?_
      refine Works.gives_bind careful.toRegular becomes.1
        (.of_neverParses (.operand operator leftValue)) fun leftOperand _ => ?_
      have hasMiddle := careful.hasScope_mono _ _ _ becomes.2 has
      refine (evaluate careful right middle becomes.1 hasMiddle).bind careful.toRegular
        fun rightValue after becomesAfter _ => ?_
      refine Works.gives_bind careful.toRegular becomesAfter.1
        (.of_neverParses (.operand operator rightValue)) fun rightOperand _ => ?_
      refine Works.gives_bind careful.toRegular becomesAfter.1
        (.of_neverParses (.compute operator leftOperand rightOperand)) fun _ _ => ?_
      exact .pure careful.toRegular becomesAfter.1 (careful.primitive _ _)

theorem evaluateAll (careful : policy.Careful host) : (expressions : List Expression) →
    (store : Store η) → policy.holds store → policy.hasScope store scope →
    policy.Works store (evaluateAll host scope expressions) fun values after =>
      ∀ value ∈ values, policy.hasValue after value
  | [], store, holds, has => by
      unfold Stencil.evaluateAll
      exact .pure careful.toRegular holds fun _ member => nomatch member
  | expression :: expressions, store, holds, has => by
      unfold Stencil.evaluateAll
      refine (evaluate careful expression store holds has).bind careful.toRegular
        fun value middle becomes hasValue => ?_
      have hasMiddle := careful.hasScope_mono _ _ _ becomes.2 has
      refine (evaluateAll careful expressions middle becomes.1 hasMiddle).bind careful.toRegular
        fun values after becomesAfter hasValues => ?_
      refine .pure careful.toRegular becomesAfter.1 (List.forall_mem_cons.mpr ⟨?_, hasValues⟩)
      exact careful.hasValue_mono _ _ _ becomesAfter.2 hasValue

theorem followFrom (careful : policy.Careful host) : (path : List Segment) → (store : Store η) →
    policy.holds store → policy.hasScope store scope → {reached : Option Value} →
    (∀ value, reached = some value → policy.hasValue store value) →
    policy.Works store (followFrom host scope reached path) fun value after =>
      policy.hasValue after value
  | [], store, holds, has, reached, hasReached => by
      unfold Stencil.followFrom
      cases reached with
      | none => exact .throw careful.toRegular holds nofun
      | some value => exact .pure careful.toRegular holds (hasReached value rfl)
  | segment :: path, store, holds, has, reached, hasReached => by
      unfold Stencil.followFrom
      refine (follow careful segment store holds has hasReached).bind careful.toRegular
        fun value after becomes hasValue => ?_
      exact followFrom careful path after becomes.1 (careful.hasScope_mono _ _ _ becomes.2 has)
        fun _ same => Option.some.inj same ▸ hasValue

theorem follow (careful : policy.Careful host) : (segment : Segment) → (store : Store η) →
    policy.holds store → policy.hasScope store scope → {reached : Option Value} →
    (∀ value, reached = some value → policy.hasValue store value) →
    policy.Works store (segment.follow host scope reached) fun value after =>
      policy.hasValue after value
  | .property name, store, holds, has, reached, hasReached => by
      unfold Segment.follow
      exact readName careful holds has hasReached name
  | .call name arguments silent indexed, store, holds, has, reached, hasReached => by
      unfold Segment.follow
      refine (callTarget careful holds has hasReached name indexed).bind careful.toRegular
        fun target middle becomes fits => ?_
      have hasMiddle := careful.hasScope_mono _ _ _ becomes.2 has
      refine (evaluateAll careful arguments middle becomes.1 hasMiddle).bind careful.toRegular
        fun values after becomesAfter hasValues => ?_
      have stays (value : Value) (hasValue : policy.hasValue middle value) :
          policy.hasValue after value := careful.hasValue_mono _ _ _ becomesAfter.2 hasValue
      refine invoke careful becomesAfter.1 (fits.mono stays) (fun value same => ?_) hasValues
      exact stays value (careful.hasValue_mono _ _ _ becomes.2 (hasReached value same))

end

end Careful

end Policy

end Stencil
