import Mathlib.Control.Monad.Basic
import Stencil.Proofs.Order.Journal
import Stencil.Proofs.Order.Places

/-!
# The order of calls

An expression calls functions in the order in which its calls are closed in the text, whatever its
operators, parentheses, lists and arguments.
-/

namespace Stencil

open Text

mutual

/-- How many calls and indexes an expression has. -/
def Expression.callCount : Expression → Nat
  | .literal _ => 0
  | .reference path => Segment.callCounts path
  | .list _ items => Expression.callCounts items
  | .binary left _ right => left.callCount + right.callCount

def Expression.callCounts : List Expression → Nat
  | [] => 0
  | expression :: expressions => expression.callCount + Expression.callCounts expressions

def Segment.callCount : Segment → Nat
  | .property _ => 0
  | .call _ arguments _ _ => Expression.callCounts arguments + 1

def Segment.callCounts : List Segment → Nat
  | [] => 0
  | segment :: path => segment.callCount + Segment.callCounts path

end

mutual

/-- An evaluation that does not fail makes every call once. -/
theorem PlacedExpression.countP_actions : (expression : PlacedExpression) →
    expression.actions.countP Action.isCall = expression.erase.callCount
  | .literal _ => rfl
  | .reference first others => by
      rw [PlacedExpression.actions, PlacedExpression.erase, Expression.callCount,
        Segment.callCounts,
        List.countP_append, first.countP_actions, PlacedSegment.countP_allActions others]
  | .list _ items => PlacedExpression.countP_allActions items
  | .binary left leftEnd operator right rightEnd => by
      rw [PlacedExpression.actions, PlacedExpression.erase, Expression.callCount,
        List.countP_append,
        List.countP_append, List.countP_append, left.countP_actions, right.countP_actions]
      exact congrArg (left.erase.callCount + ·) (Nat.zero_add _)

theorem PlacedExpression.countP_allActions : (expressions : List PlacedExpression) →
    (PlacedExpression.allActions expressions).countP Action.isCall =
      Expression.callCounts (PlacedExpression.eraseAll expressions)
  | [] => rfl
  | expression :: expressions => by
      rw [PlacedExpression.allActions, PlacedExpression.eraseAll, Expression.callCounts,
        List.countP_append, expression.countP_actions,
        PlacedExpression.countP_allActions expressions]

theorem PlacedSegment.countP_actions : (segment : PlacedSegment) →
    segment.actions.countP Action.isCall = segment.erase.callCount
  | .property _ _ => rfl
  | .call place name arguments silent indexed closed => by
      rw [PlacedSegment.actions, PlacedSegment.erase, Segment.callCount, List.countP_append,
        List.countP_append, PlacedExpression.countP_allActions arguments]
      exact Nat.zero_add _

theorem PlacedSegment.countP_allActions : (path : List PlacedSegment) →
    (PlacedSegment.allActions path).countP Action.isCall =
      Segment.callCounts (PlacedSegment.eraseAll path)
  | [] => rfl
  | segment :: path => by
      rw [PlacedSegment.allActions, PlacedSegment.eraseAll, Segment.callCounts, List.countP_append,
        segment.countP_actions, PlacedSegment.countP_allActions path]

end

variable {text : List Char} {start finish : Nat} {actions earlier later : List Action}
  {failing : Action}

/-- Invocations that are the calls among actions that follow each other are closed one after
another. -/
theorem Invocation.pairwise_closed {invocations : List Invocation}
    (sorted : actions.Pairwise fun earlier later => later.StandsAfter earlier.place)
    (calls : invocations.map Invocation.action = actions.filter Action.isCall) :
    invocations.Pairwise fun earlier later => earlier.closed < later.closed := by
  have among := sorted.filter Action.isCall
  rw [← calls, List.pairwise_map] at among
  exact among.imp fun stands => stands.2 rfl

/-- Nothing that is done before an action stands behind it. -/
theorem InOrder.place_le (inOrder : InOrder text start finish (earlier ++ failing :: later)) :
    ∀ action ∈ earlier ++ [failing], action.place ≤ failing.place := by
  intro action member
  rcases List.mem_append.mp member with before | same
  · have crosses := (List.pairwise_append.mp inOrder.sorted).2.2
    exact (crosses action before failing List.mem_cons_self).1
  · exact Nat.le_of_eq (congrArg Action.place (List.mem_singleton.mp same))

/-- Functions are called in the order in which their calls are closed in the text.  Whatever an
expression is evaluated with, what it invokes are calls of the text, closed one after another, and
the host gets exactly the calls that are invocations of its functions with as many arguments as they
accept.  If nothing fails, every call of the text was invoked once, and every function of the host
accepted its call.  If a lookup, an operation or a call fails, nothing was done whose place in the
text comes later. -/
theorem Expression.calls_in_text_order {start finish : Cursor} {expression : Expression}
    (parsed : (Grammar.expression? : Parser Cursor (Option Expression)).run.run start =
      pure (.ok (some expression), finish)) :
    ∃ placed : PlacedExpression,
      PlacedGrammar.expression?.run.run start = pure (.ok (some placed), finish) ∧
      placed.erase = expression ∧
      InOrder start.text start.offset finish.offset placed.actions ∧
      placed.actions.countP Action.isCall = expression.callCount ∧
      ∀ {η : Type} (host : Host η) (scope : ScopeRef) (store : Store η),
        let ran := (placed.evaluate host scope).run.run store.noted
        let journal := ran.2.state.2
        (expression.evaluate host scope).run.run store = (ran.1, ran.2.unnoted) ∧
        journal.invocations.map Invocation.action = journal.actions.filter Action.isCall ∧
        (journal.invocations.Pairwise fun earlier later => earlier.closed < later.closed) ∧
        journal.calls = journal.invocations.filterMap Invocation.hostCall? ∧
        (∀ value, ran.1 = .ok value → journal.actions = placed.actions ∧
          journal.invocations.length = expression.callCount ∧
          ∀ invocation ∈ journal.invocations, invocation.Accepted) ∧
        ∀ error, ran.1 = .error error → ∃ earlier failing later,
          placed.actions = earlier ++ failing :: later ∧
          journal.actions = earlier ++ [failing] ∧
          ∀ action ∈ journal.actions, action.place ≤ failing.place := by
  obtain ⟨placed, ran, rfl⟩ := Parser.Erases.exists_found (fun _ => .expression?) parsed
  have begun : UpTo start.text start.offset [] start := ⟨rfl, .nil (Nat.le_refl _)⟩
  have inOrder : InOrder start.text start.offset finish.offset placed.actions :=
    (Parser.Leads.expression? _ _ _ start (some placed) finish begun ran).2
  refine ⟨placed, ran, rfl, inOrder, placed.countP_actions, fun host scope store => ?_⟩
  have notes := placed.notes_evaluate host scope
  intro evaluated journal
  have invokes {may : Invocation → Prop} {taken others : List Action}
      (split : placed.actions = taken ++ others) (adds : Journal.Adds may {} journal taken) :
      journal.actions = taken ∧
        journal.invocations.map Invocation.action = journal.actions.filter Action.isCall ∧
        (journal.invocations.Pairwise fun earlier later => earlier.closed < later.closed) ∧
        journal.calls = journal.invocations.filterMap Invocation.hostCall? ∧
        ∀ invocation ∈ journal.invocations, may invocation := by
    obtain ⟨made, isTaken, allowed, isMade, calls⟩ := adds.invocations
    have actions : journal.actions = taken := adds.actions
    have invocations : journal.invocations = made := isMade
    rw [actions, invocations]
    have sorted := inOrder.sorted
    rw [split] at sorted
    exact ⟨rfl, isTaken, Invocation.pairwise_closed
      (List.pairwise_append.mp sorted).1 isTaken, calls,
      allowed⟩
  have same := notes.same store.noted
  cases outcome : evaluated.1 with
  | ok value =>
      obtain ⟨isTaken, calls, increase, hostCalls, accepted⟩ :=
        invokes (List.append_nil _).symm (notes.finished store.noted value outcome)
      refine ⟨outcome ▸ same, calls, increase, hostCalls, fun _ _ => ⟨isTaken, ?_, accepted⟩, nofun⟩
      rw [← placed.countP_actions, List.countP_eq_length_filter, ← isTaken, ← calls,
        List.length_map]
  | error error =>
      obtain ⟨earlier, failing, later, split, adds⟩ := notes.failed store.noted error outcome
      have splitThere : placed.actions = earlier ++ [failing] ++ later := by
        rw [split, List.append_assoc]
        rfl
      obtain ⟨isTaken, calls, increase, hostCalls, -⟩ := invokes splitThere adds
      refine ⟨outcome ▸ same, calls, increase, hostCalls, nofun,
        fun _ _ => ⟨earlier, failing, later, split, isTaken, ?_⟩⟩
      rw [isTaken]
      exact (split ▸ inOrder).place_le

/-- A text whose second operand cannot be multiplied, as an example. -/
def stopping : Cursor :=
  .ofString "f(f(1)) + f(@list()) * f(2)"

/-- A host whose function returns its argument. -/
def returning : Host Unit where
  call _ _ arguments store := (.ok (arguments.headD (.int 0)), store)

/-- The store in which that function has a name. -/
def returningStore : Store Unit where
  heap :=
    { scopes := #[{ name := "", entries := Dictionary.empty.put "f" (.function ⟨0⟩) }]
      functions := #[.host ⟨"f", .variadic, 0⟩] }
  state := ()

/-- Whether the text is an expression. -/
def stoppingParses : Bool :=
  match (Grammar.expression? : Parser Cursor (Option Expression)).run.run stopping with
  | (.ok (some _), _) => true
  | _ => false

/-- Whether its evaluation stops before the last call. -/
def stops : Bool :=
  match PlacedGrammar.expression?.run.run stopping with
  | (.ok (some placed), _) =>
      let ran := (placed.evaluate returning .global).run.run returningStore.noted
      !ran.1.isOk && decide (ran.2.state.2.actions.getLast? = some (.operation 20) ∧
        ran.2.state.2.calls.map HostCall.under = [some (.call 6), some (.call 7), some (.call 20)] ∧
        .call 27 ∈ placed.actions)
  | _ => false

theorem Expression.calls_in_text_order_stopping :
    ∃ placed : PlacedExpression,
      let ran := (placed.evaluate returning .global).run.run returningStore.noted
      (placed.erase.evaluate returning .global).run.run returningStore = (ran.1, ran.2.unnoted) ∧
      ran.2.state.2.calls.map HostCall.under = [some (.call 6), some (.call 7), some (.call 20)] ∧
      .call 27 ∈ placed.actions ∧ ∀ action ∈ ran.2.state.2.actions, action.place ≤ 20 := by
  have parses : stoppingParses = true := by decide +kernel
  unfold stoppingParses at parses
  split at parses
  case h_2 => cases parses
  case h_1 expression finish parsed =>
    obtain ⟨placed, ran, rfl, -, -, evaluates⟩ := calls_in_text_order parsed
    have check : stops = true := by decide +kernel
    unfold stops at check
    rw [ran] at check
    obtain ⟨fails, facts⟩ := (Bool.and_eq_true _ _).mp check
    obtain ⟨last, calls, member⟩ := of_decide_eq_true facts
    obtain ⟨same, -, -, -, -, stopsAt⟩ := evaluates returning .global returningStore
    refine ⟨placed, same, calls, member, ?_⟩
    cases outcome : ((placed.evaluate returning .global).run.run returningStore.noted).1 with
    | ok value =>
        rw [outcome] at fails
        cases fails
    | error error =>
        obtain ⟨earlier, failing, later, -, taken, within⟩ := stopsAt error outcome
        rw [taken, List.getLast?_concat] at last
        cases last
        exact within

end Stencil
