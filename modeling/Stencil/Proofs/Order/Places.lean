import Stencil.Proofs.Order.Erasure

/-!
# The order of the actions of an expression

The grammar gives an expression places that follow each other in the text: what an evaluation does
first stands in front of what it does later, and every call comes after all that is done before it.
-/

namespace Stencil

open Text

/-- An action stands at a place or later; a call is closed later. -/
def Action.StandsAfter (action : Action) (place : Nat) : Prop :=
  place ≤ action.place ∧ (action.isCall = true → place < action.place)

theorem Action.StandsAfter.of_le {action : Action} {earlier later : Nat}
    (stands : action.StandsAfter later) (le : earlier ≤ later) : action.StandsAfter earlier :=
  ⟨Nat.le_trans le stands.1, fun isCall => Nat.lt_of_le_of_lt le (stands.2 isCall)⟩

/-- A closing bracket stands in front of an offset of a text. -/
def Text.IsClosed (text : List Char) (offset : Nat) : Prop :=
  ∃ place : Cursor, place.text = text ∧ place.offset = offset ∧
    (place.passed.head? = some ')' ∨ place.passed.head? = some ']')

/-- Actions follow each other between two offsets of a text. -/
structure InOrder (text : List Char) (start finish : Nat) (actions : List Action) : Prop where
  le : start ≤ finish
  after : ∀ action ∈ actions, action.StandsAfter start
  upTo : ∀ action ∈ actions, action.place ≤ finish
  sorted : actions.Pairwise fun earlier later => later.StandsAfter earlier.place
  closed : ∀ place, .call place ∈ actions → IsClosed text place

namespace InOrder

variable {text : List Char} {start middle finish later : Nat} {actions others : List Action}

theorem nil (le : start ≤ finish) : InOrder text start finish [] :=
  ⟨le, nofun, nofun, .nil, nofun⟩

theorem append (first : InOrder text start middle actions)
    (second : InOrder text middle finish others) :
    InOrder text start finish (actions ++ others) where
  le := Nat.le_trans first.le second.le
  after action member := by
    rcases List.mem_append.mp member with inFirst | inSecond
    · exact first.after action inFirst
    · exact (second.after action inSecond).of_le first.le
  upTo action member := by
    rcases List.mem_append.mp member with inFirst | inSecond
    · exact Nat.le_trans (first.upTo action inFirst) second.le
    · exact second.upTo action inSecond
  sorted := List.pairwise_append.mpr
    ⟨first.sorted, second.sorted, fun earlier inFirst later inSecond =>
    (second.after later inSecond).of_le (first.upTo earlier inFirst)⟩
  closed place member :=
    (List.mem_append.mp member).elim (first.closed place) (second.closed place)

theorem single {action : Action} (stands : action.StandsAfter start) (upTo : action.place ≤ finish)
    (closed : ∀ place, action = .call place → IsClosed text place) :
    InOrder text start finish [action] where
  le := Nat.le_trans stands.1 upTo
  after _ member := List.mem_singleton.mp member ▸ stands
  upTo _ member := List.mem_singleton.mp member ▸ upTo
  sorted := List.pairwise_singleton _ _
  closed place member := closed place (List.mem_singleton.mp member).symm

theorem widen (inOrder : InOrder text start middle actions) (le : middle ≤ finish) :
    InOrder text start finish actions := by
  have longer := inOrder.append (nil le)
  rw [List.append_nil] at longer
  exact longer

theorem lookup (place : Nat) : InOrder text place place [.lookup place] :=
  single ⟨Nat.le_refl _, nofun⟩ (Nat.le_refl _) nofun

theorem operation (place : Nat) : InOrder text place place [.operation place] :=
  single ⟨Nat.le_refl _, nofun⟩ (Nat.le_refl _) nofun

theorem call (less : start < finish) (closed : IsClosed text finish) :
    InOrder text start finish [.call finish] :=
  single ⟨Nat.le_of_lt less, fun _ => less⟩ (Nat.le_refl _) fun _ same =>
    by cases same; exact closed

end InOrder

theorem Text.Cursor.offset_le_byteLength (place : Cursor) :
    place.offset ≤ byteLength place.text := by
  rw [Cursor.text, byteLength_append, byteLength_reverse, place.offset_eq]
  exact Nat.le_add_right _ _

theorem Text.Cursor.byteLength_text (place : Cursor) :
    byteLength place.text = place.offset + place.remaining := by
  rw [Cursor.text, byteLength_append, byteLength_reverse, place.offset_eq, place.remaining_eq]

/-- Up to a place of a text, actions follow each other. -/
def UpTo (text : List Char) (low : Nat) (actions : List Action) (place : Cursor) : Prop :=
  place.text = text ∧ InOrder text low place.offset actions

/-- Actions follow each other up to a closing bracket that stands in front of a place. -/
structure Closing (text : List Char) (low : Nat) (actions : List Action)
    (place : Cursor) : Prop where
  isText : place.text = text
  inside : ∃ offset < place.offset, InOrder text low offset actions
  bracket : place.passed.head? = some ')' ∨ place.passed.head? = some ']'

/-- Operands that wait, last first, follow each other and earlier actions. -/
def Stacked (text : List Char) (low : Nat) (earlier : List Action) :
    List (PlacedExpression × Nat) → Nat → Prop
  | [], place => InOrder text low place earlier
  | (operand, finish) :: operands, place =>
      finish ≤ place ∧ ∃ start, Stacked text low earlier operands start ∧
        InOrder text start finish operand.actions

section

variable {text : List Char} {low : Nat} {actions earlier : List Action} {place passed : Cursor}

theorem UpTo.later (upTo : UpTo text low actions place) (reaches : place.Reaches passed) :
    UpTo text low actions passed :=
  ⟨reaches.1.trans upTo.1, upTo.2.widen reaches.2⟩

theorem UpTo.persists : Parser.Persists (UpTo text low actions) := fun _ _ upTo => upTo.later

theorem UpTo.lookup (upTo : UpTo text low actions place) :
    UpTo text low (actions ++ [.lookup place.offset]) place :=
  ⟨upTo.1, upTo.2.append (.lookup _)⟩

theorem UpTo.nothing (upTo : UpTo text low actions place) :
    UpTo text low (actions ++ []) place := by
  rw [List.append_nil]
  exact upTo

theorem UpTo.of_nothing (upTo : UpTo text low (actions ++ []) place) :
    UpTo text low actions place := by
  rw [List.append_nil] at upTo
  exact upTo

theorem UpTo.closing (upTo : UpTo text low actions place) (reaches : place.Reaches passed)
    (less : place.offset < passed.offset)
    (bracket : passed.passed.head? = some ')' ∨ passed.passed.head? = some ']') :
    Closing text low actions passed :=
  ⟨reaches.1.trans upTo.1, ⟨_, less, upTo.2⟩, bracket⟩

theorem Closing.call (closing : Closing text low actions place) :
    UpTo text low (actions ++ [.call place.offset]) place := by
  obtain ⟨offset, less, inOrder⟩ := closing.inside
  exact ⟨closing.isText, inOrder.append (.call less ⟨place, closing.isText, rfl, closing.bracket⟩)⟩

theorem Stacked.widen {operands : List (PlacedExpression × Nat)} {middle finish : Nat}
    (stacked : Stacked text low earlier operands middle) (le : middle ≤ finish) :
    Stacked text low earlier operands finish := by
  match operands, stacked with
  | [], inOrder => exact InOrder.widen inOrder le
  | _ :: _, ⟨ends, start, stacked, inOrder⟩ =>
      exact ⟨Nat.le_trans ends le, start, stacked, inOrder⟩

theorem Stacked.inOrder {operands : List (PlacedExpression × Nat)} {finish : Nat}
    (stacked : Stacked text low earlier operands finish) : InOrder text low finish earlier := by
  induction operands generalizing finish with
  | nil => exact stacked
  | cons top operands induction =>
      obtain ⟨ends, start, before, inOrder⟩ := stacked
      exact (induction before).widen (Nat.le_trans inOrder.le ends)

theorem Stacked.combine {operator : Operator} {operands combined : List (PlacedExpression × Nat)}
    {finish : Nat} (stacked : Stacked text low earlier operands finish)
    (combines : PlacedStack.combine operator operands = some combined) :
    Stacked text low earlier combined finish := by
  match operands, stacked with
  | (right, rightEnd) :: (left, leftEnd) :: operands,
    ⟨ends, middle, ⟨endsLeft, start, stacked, inLeft⟩, inRight⟩ =>
      cases combines
      have takesLeft : InOrder text leftEnd middle [.operation leftEnd] :=
        (InOrder.operation leftEnd).widen endsLeft
      exact ⟨ends, start, stacked, inLeft.append (takesLeft.append
        (inRight.append (.operation rightEnd)))⟩

theorem Stacked.closeFrom {waiting : List Waiting} {operands : List (PlacedExpression × Nat)}
    {closed : PlacedStack} {finish : Nat} (stacked : Stacked text low earlier operands finish)
    (closes : PlacedStack.closeFrom waiting operands = some closed) :
    Stacked text low earlier closed.operands finish := by
  induction waiting generalizing operands with
  | nil =>
      cases closes
      exact stacked
  | cons top waiting induction =>
      cases top with
      | group =>
          cases closes
          exact stacked
      | operator operator =>
          obtain ⟨combined, combines, rest⟩ := Option.bind_eq_some_iff.mp closes
          exact induction (stacked.combine combines) rest

theorem Stacked.pushFrom {operator : Operator} {waiting : List Waiting}
    {operands : List (PlacedExpression × Nat)} {pushed : PlacedStack} {finish : Nat}
    (stacked : Stacked text low earlier operands finish)
    (pushes : PlacedStack.pushFrom operator waiting operands = some pushed) :
    Stacked text low earlier pushed.operands finish := by
  induction waiting generalizing operands with
  | nil =>
      cases pushes
      exact stacked
  | cons top waiting induction =>
      cases top with
      | group =>
          cases pushes
          exact stacked
      | operator top =>
          rw [PlacedStack.pushFrom] at pushes
          split at pushes
          · cases pushes
            exact stacked
          · obtain ⟨combined, combines, rest⟩ := Option.bind_eq_some_iff.mp pushes
            exact induction (stacked.combine combines) rest

theorem Stacked.finishFrom {waiting : List Waiting} {operands : List (PlacedExpression × Nat)}
    {expression : PlacedExpression} {finish : Nat}
    (stacked : Stacked text low earlier operands finish)
    (finishes : PlacedStack.finishFrom waiting operands = some expression) :
    InOrder text low finish (earlier ++ expression.actions) := by
  induction waiting generalizing operands with
  | nil =>
      match operands, stacked with
      | [(operand, _)], ⟨ends, start, before, inOrder⟩ =>
          cases finishes
          exact (InOrder.append before inOrder).widen ends
  | cons top waiting induction =>
      cases top with
      | group => exact induction stacked finishes
      | operator operator =>
          obtain ⟨combined, combines, rest⟩ := Option.bind_eq_some_iff.mp finishes
          exact induction (stacked.combine combines) rest

end

namespace Parser.Leads

variable {text : List Char} {low : Nat} {nested : Parser Cursor (Option PlacedExpression)}

/-- The actions of an expression that was found. -/
def foundActions (found : Option PlacedExpression) : List Action :=
  found.elim [] PlacedExpression.actions

/-- The actions of a path. -/
def pathActions (path : PlacedSegment × List PlacedSegment) : List Action :=
  path.1.actions ++ PlacedSegment.allActions path.2

/-- The actions of a path that was found. -/
def foundPathActions (found : Option (PlacedSegment × List PlacedSegment)) : List Action :=
  found.elim [] pathActions

theorem wellFormed_bind {α β : Type} {pre : Cursor → Prop} {post : β → Cursor → Prop}
    {found : Option α}
    {next : α → Parser Cursor β}
    (later : ∀ answer, found = some answer → Leads pre (next answer) post) :
    Leads pre (Grammar.wellFormed found >>= next) post := by
  cases found with
  | none =>
      have stops : Leads pre
          (Parser.fail .malformedExpression : Parser Cursor α) fun _ _ => False :=
        fail _
      exact stops.bind fun _ _ _ _ never => never.elim
  | some answer => exact later answer rfl

theorem expectSymbol {actions : List Action} :
    Leads (UpTo text low actions) (Parser.expectSymbol ']') fun _ => Closing text low actions := by
  refine scan_bind UpTo.persists (fun _ => .skipSpaces) fun _ => accept_bind ?_ (fail _)
  rintro place upTo passed reaches less bracket
  refine pure ?_
  rintro _ rfl
  exact upTo.closing reaches less (.inr bracket)

section

variable (moves : Moves nested)
  (inner : ∀ earlier, Leads (UpTo text low earlier) nested fun found =>
    UpTo text low (earlier ++ foundActions found))

include moves inner

/-- There is enough fuel for all commas that are left. -/
theorem argumentsFrom (fuel : Nat) (earlier : List Action) :
    Leads (fun place => UpTo text low earlier place ∧ byteLength text < place.offset + fuel)
      (PlacedGrammar.argumentsFrom nested fuel) fun arguments =>
        Closing text low (earlier ++ PlacedExpression.allActions arguments) := by
  induction fuel generalizing earlier with
  | zero =>
      refine pure ?_
      rintro place ⟨upTo, bound⟩
      have within := place.offset_le_byteLength
      rw [upTo.1] at within
      omega
  | succ fuel induction =>
      have bounded : Persists fun place => byteLength text < place.offset + (fuel + 1) :=
        fun _ _ bound reaches => Nat.lt_of_lt_of_le bound (Nat.add_le_add_right reaches.2 _)
      refine ((inner earlier).frame moves bounded).bind fun found =>
        require_bind fun argument isFound => ?_
      subst isFound
      refine scan_bind (UpTo.persists.and bounded) (fun _ => .skipSpaces) fun _ => accept_bind ?_ ?_
      · rintro place ⟨upTo, bound⟩ passed reaches less -
        have later := (induction (earlier ++ argument.actions)).here
          ⟨upTo.later reaches, (by omega : byteLength text < passed.offset + fuel)⟩
        refine later.bind fun others => pure fun finish closing => ?_
        rw [List.append_assoc] at closing
        exact closing
      · refine accept_bind ?_ (fail _)
        rintro place ⟨upTo, -⟩ passed reaches less bracket
        refine pure ?_
        rintro _ rfl
        have single : earlier ++ PlacedExpression.allActions [argument] =
            earlier ++ argument.actions := congrArg (earlier ++ ·) (List.append_nil _)
        rw [single]
        exact upTo.closing reaches less (.inl bracket)

theorem arguments (earlier : List Action) :
    Leads (UpTo text low earlier) (PlacedGrammar.arguments nested) fun arguments =>
      Closing text low (earlier ++ PlacedExpression.allActions arguments) := by
  refine scan_bind UpTo.persists (fun _ => .skipSpaces) fun _ => accept_bind ?_ ?_
  · rintro place upTo passed reaches less bracket
    refine pure ?_
    rintro _ rfl
    exact upTo.nothing.closing reaches less (.inl bracket)
  · refine remaining_bind fun place upTo => (argumentsFrom moves inner _ earlier).here ⟨upTo, ?_⟩
    have size := place.byteLength_text
    rw [upTo.1] at size
    omega

omit moves in
theorem indexes (fuel : Nat) (earlier : List Action) :
    Leads (UpTo text low earlier) (PlacedGrammar.indexes nested fuel) fun segments =>
      UpTo text low (earlier ++ PlacedSegment.allActions segments) := by
  induction fuel generalizing earlier with
  | zero => exact pure fun place => UpTo.nothing
  | succ fuel induction =>
      refine pointer_bind fun start upTo => accept_bind ?_ (pure ?_)
      · rintro place rfl passed reaches - -
        have begun : Leads (· = passed) (Parser.scan Scan.skipSpaces)
            fun _ => UpTo text low (earlier ++ [.lookup place.offset]) :=
          (scan UpTo.persists fun _ => .skipSpaces).here (upTo.lookup.later reaches)
        refine begun.bind fun _ => (inner _).bind fun found => require_bind fun index isFound => ?_
        subst isFound
        refine expectSymbol.bind fun _ => pointer_bind fun closed closing => ?_
        refine ((induction _).here closing.call).bind fun others => pure fun finish upToFinish => ?_
        have same : earlier ++ PlacedSegment.allActions
            (.call place.offset "get" [index] false true closed.offset :: others) =
            earlier ++ [.lookup place.offset] ++ foundActions (some index) ++
              [.call closed.offset] ++ PlacedSegment.allActions others := by
          simp [PlacedSegment.allActions, PlacedSegment.actions, PlacedExpression.allActions,
            foundActions]
        rw [same]
        exact upToFinish
      · rintro _ rfl
        exact upTo.nothing

theorem namedSegment (silent : Bool) (earlier : List Action) :
    Leads (UpTo text low earlier) (PlacedGrammar.namedSegment nested silent) fun segment =>
      UpTo text low (earlier ++ segment.actions) := by
  refine pointer_bind fun start upTo => ?_
  have begun : Leads (· = start) (Parser.scan (Scan.takeWhile isNamePart))
      fun _ => UpTo text low (earlier ++ [.lookup start.offset]) :=
    (scan UpTo.persists fun _ => .takeWhile isNamePart).here upTo.lookup
  refine begun.bind fun name => accept_bind ?_ (pure fun _ upTo => upTo)
  rintro place upToName passed reaches - -
  refine ((arguments moves inner _).here (upToName.later reaches)).bind fun arguments => ?_
  refine pointer_bind fun closed closing => pure ?_
  rintro place rfl
  have same : earlier ++ PlacedSegment.actions
      (.call start.offset name arguments silent false place.offset) =
      earlier ++ [.lookup start.offset] ++ PlacedExpression.allActions arguments ++
        [.call place.offset] := by
    simp [PlacedSegment.actions]
  rw [same]
  exact closing.call

theorem segmentsWith {later : Bool → Parser Cursor (List PlacedSegment)}
    (others : ∀ silent earlier, Leads (UpTo text low earlier) (later silent) fun segments =>
      UpTo text low (earlier ++ PlacedSegment.allActions segments))
    (silent : Bool) (earlier : List Action) :
    Leads (UpTo text low earlier) (PlacedGrammar.segmentsWith nested later silent) fun path =>
      UpTo text low (earlier ++ pathActions path) := by
  refine (namedSegment moves inner silent earlier).bind fun segment =>
    scan_bind UpTo.persists (fun _ => .remaining) fun _ => (indexes inner _ _).bind fun followers =>
      scan_bind UpTo.persists (fun _ => Mirrors.acceptPoint) fun _ => ite ?_ (pure ?_)
  · refine scan_bind UpTo.persists (fun _ => .accept '@') fun silent =>
      scan_bind UpTo.persists (fun _ => .currentIs isNameInitial) fun _ => ite ?_ (fail _)
    refine (others silent _).bind fun rest => pure fun place upTo => ?_
    have same : earlier ++ pathActions (segment, followers ++ rest) =
        earlier ++ segment.actions ++ PlacedSegment.allActions followers ++
          PlacedSegment.allActions rest := by
      simp [pathActions, PlacedSegment.allActions_append]
    rw [same]
    exact upTo
  · intro place upTo
    rw [List.append_assoc] at upTo
    exact upTo

theorem segmentsFrom (fuel : Nat) (silent : Bool) (earlier : List Action) :
    Leads (UpTo text low earlier) (PlacedGrammar.segmentsFrom nested fuel silent) fun segments =>
      UpTo text low (earlier ++ PlacedSegment.allActions segments) := by
  induction fuel generalizing silent earlier with
  | zero => exact pure fun place => UpTo.nothing
  | succ fuel induction =>
      exact (segmentsWith moves inner induction silent earlier).bind fun path =>
        pure fun place upTo => upTo

theorem path? (earlier : List Action) :
    Leads (UpTo text low earlier) (PlacedGrammar.path? nested) fun found =>
      UpTo text low (earlier ++ foundPathActions found) := by
  refine pointer_bind fun start upTo => ?_
  have persists : Persists start.Reaches := fun _ _ => .trans
  have begun : Leads (· = start) (Parser.scan (Scan.accept '@')) fun _ => start.Reaches :=
    (scan persists fun _ => .accept '@').here (.refl start)
  refine begun.bind fun silent => scan_bind persists (fun _ => .currentIs isNameInitial) fun _ =>
    ite ?_ (ite (fail _) ?_)
  · refine scan_bind persists (fun _ => .remaining) fun fuel => ?_
    have follows := (segmentsWith moves inner (segmentsFrom moves inner fuel) silent earlier).weaken
      fun place reaches => upTo.later reaches
    exact follows.bind fun path => pure fun _ upTo => upTo
  · refine (returnTo fun other reaches => reaches.1.symm).bind fun _ => pure ?_
    rintro place rfl
    exact upTo.nothing

theorem reference? (earlier : List Action) :
    Leads (UpTo text low earlier) (PlacedGrammar.reference? nested) fun found =>
      UpTo text low (earlier ++ foundPathActions found) := by
  have inside (opened : Bool) : Leads (UpTo text low earlier)
      (do
        if opened then
          let _ ← Parser.scan Scan.skipSpaces
          let path ← Parser.require "a reference" (← PlacedGrammar.path? nested)
          Parser.expectSymbol ')'
          return some path
        else return none)
      fun found => UpTo text low (earlier ++ foundPathActions found) := by
    refine ite ?_ (pure fun place => UpTo.nothing)
    refine scan_bind UpTo.persists (fun _ => .skipSpaces) fun _ =>
      (path? moves inner earlier).bind fun found => require_bind fun path isFound => ?_
    subst isFound
    exact keeps_bind UpTo.persists (fun _ => Mirrors.expectSymbol ')') fun _ =>
      pure fun _ upTo => upTo
  have begun : Leads (UpTo text low earlier) (Pure.pure true) fun _ => UpTo text low earlier :=
    pure fun _ upTo => upTo
  refine scan_bind UpTo.persists (fun _ => .acceptText "@var(") fun _ => ite (begun.bind inside) ?_
  exact scan_bind UpTo.persists (fun _ => .acceptText "@const(") inside

theorem list? (earlier : List Action) :
    Leads (UpTo text low earlier) (PlacedGrammar.list? nested) fun found =>
      UpTo text low (earlier ++ foundActions found) := by
  have listed (isMutable : Bool) : Leads (UpTo text low earlier)
      (do return some (.list isMutable (← PlacedGrammar.arguments nested)))
      fun found => UpTo text low (earlier ++ foundActions found) := by
    refine (arguments moves inner earlier).bind fun items => pure fun place closing => ?_
    obtain ⟨offset, less, inOrder⟩ := closing.inside
    exact ⟨closing.isText, inOrder.widen (Nat.le_of_lt less)⟩
  refine scan_bind UpTo.persists (fun _ => .acceptText "@list(") fun _ => ite (listed false) ?_
  exact scan_bind UpTo.persists (fun _ => .acceptText "@mutable_list(") fun _ =>
    ite (listed true) (pure fun place => UpTo.nothing)

theorem markedOperand? (earlier : List Action) :
    Leads (UpTo text low earlier) (PlacedGrammar.markedOperand? nested) fun found =>
      UpTo text low (earlier ++ foundActions found) := by
  refine (reference? moves inner earlier).bind fun found => ?_
  cases found with
  | none => exact (list? moves inner earlier).weaken fun _ upTo => upTo.of_nothing
  | some path => exact pure fun _ upTo => upTo

theorem plainOperand? (earlier : List Action) :
    Leads (UpTo text low earlier) (PlacedGrammar.plainOperand? nested) fun found =>
      UpTo text low (earlier ++ foundActions found) := by
  have literal (value : Primitive) : Leads (UpTo text low earlier)
      (Pure.pure (some (.literal value))) fun found =>
        UpTo text low (earlier ++ foundActions found) := pure fun _ => UpTo.nothing
  refine keeps_bind UpTo.persists (fun _ => Mirrors.string?) fun text? => ?_
  cases text? with
  | some text => exact literal _
  | none =>
      refine keeps_bind UpTo.persists (fun _ => Mirrors.char?) fun character? => ?_
      cases character? with
      | some character => exact literal _
      | none =>
          refine scan_bind UpTo.persists (fun _ => Mirrors.number?) fun number? => ?_
          cases number? with
          | some number => exact literal _
          | none =>
              refine scan_bind UpTo.persists (fun _ => Mirrors.boolean?) fun truth? => ?_
              cases truth? with
              | some truth => exact literal _
              | none =>
                  refine (path? moves inner earlier).bind fun found => ?_
                  cases found with
                  | none => exact pure fun _ upTo => upTo
                  | some path => exact pure fun _ upTo => upTo

theorem operand? (earlier : List Action) :
    Leads (UpTo text low earlier) (PlacedGrammar.operand? nested) fun found =>
      UpTo text low (earlier ++ foundActions found) :=
  scan_bind UpTo.persists (fun _ => .current) fun _ =>
    ite (markedOperand? moves inner earlier) (plainOperand? moves inner earlier)

end

/-- Operands wait up to a place. -/
def Waits (text : List Char) (low : Nat) (earlier : List Action) (stack : PlacedStack)
    (place : Cursor) : Prop :=
  place.text = text ∧ Stacked text low earlier stack.operands place.offset

theorem Waits.persists {earlier : List Action} {stack : PlacedStack} :
    Persists (Waits text low earlier stack) :=
  fun _ _ waits reaches => ⟨reaches.1.trans waits.1, waits.2.widen reaches.2⟩

theorem closeGroups {earlier : List Action} (opened : Nat) (stack : PlacedStack) :
    Leads (Waits text low earlier stack) (PlacedGrammar.closeGroups opened stack) fun closed =>
      Waits text low earlier closed.1 := by
  induction opened generalizing stack with
  | zero => exact pure fun _ waits => waits
  | succ opened induction =>
      refine pointer_bind fun start waits => ?_
      have persists : Persists start.Reaches := fun _ _ => .trans
      have begun : Leads (· = start) (Parser.scan Scan.skipSpaces) fun _ => start.Reaches :=
        (scan persists fun _ => .skipSpaces).here (.refl start)
      refine begun.bind fun _ => accept_bind ?_ ?_
      · intro place reaches passed reachesPassed _ _
        refine wellFormed_bind fun closed closes => (induction closed).here ?_
        have waitsThere := Waits.persists start passed waits (reaches.trans reachesPassed)
        exact ⟨waitsThere.1, waitsThere.2.closeFrom closes⟩
      · refine (returnTo fun other reaches => reaches.1.symm).bind fun _ => pure ?_
        rintro place rfl
        exact waits

theorem expressionFrom (moves : Moves nested)
    (inner : ∀ text low earlier, Leads (UpTo text low earlier) nested fun found =>
      UpTo text low (earlier ++ foundActions found)) {earlier : List Action} {start : Cursor}
    (upTo : UpTo text low earlier start) (fuel : Nat) (stack : PlacedStack) (opened : Nat) :
    Leads (Waits text low earlier stack)
      (PlacedGrammar.expressionFrom nested start.offset fuel stack opened) fun found =>
        UpTo text low (earlier ++ foundActions found) := by
  induction fuel generalizing stack opened with
  | zero => exact pure fun place waits => UpTo.nothing ⟨waits.1, waits.2.inOrder⟩
  | succ fuel induction =>
      refine scan_bind Waits.persists (fun _ => .skipSpaces) fun _ => accept_bind ?_ ?_
      · intro place waits passed reaches _ _
        exact (induction stack.openGroup (opened + 1)).here
          (Waits.persists place passed waits reaches)
      · refine each fun place waits => ?_
        have reads := (operand? moves (inner text place.offset) []).here
          ⟨waits.1, .nil (Nat.le_refl place.offset)⟩
        refine reads.bind fun found => ?_
        cases found with
        | none =>
            refine ite ((returnTo fun other there => ?_).bind fun _ => pure ?_) (fail _)
            · exact upTo.1.trans there.1.symm
            · rintro _ rfl
              exact upTo.nothing
        | some operand =>
            refine pointer_bind fun finish upToFinish => ?_
            have pushed : Waits text low earlier (stack.pushOperand operand finish.offset) finish :=
              ⟨upToFinish.1, Nat.le_refl _, place.offset, waits.2, upToFinish.2⟩
            refine ((closeGroups opened _).here pushed).bind fun closed =>
              scan_bind Waits.persists (fun _ => Mirrors.operator?) fun found => ?_
            cases found with
            | none =>
                refine ite (wellFormed_bind fun expression finishes =>
                  pure fun last waits => ?_) (fail _)
                exact ⟨waits.1, waits.2.finishFrom finishes⟩
            | some operator =>
                refine wellFormed_bind fun pushed pushes => (induction pushed closed.2).weaken ?_
                exact fun last waits => ⟨waits.1, waits.2.pushFrom pushes⟩

theorem expressionWithin (depth : Nat) (text : List Char) (low : Nat) (earlier : List Action) :
    Leads (UpTo text low earlier) (PlacedGrammar.expressionWithin depth) fun found =>
      UpTo text low (earlier ++ foundActions found) := by
  induction depth generalizing text low earlier with
  | zero => exact pure fun place => UpTo.nothing
  | succ depth induction =>
      have moves : Moves (PlacedGrammar.expressionWithin depth) :=
        Erases.moves fun _ => Erases.expressionWithin depth
      refine pointer_bind fun start upTo => remaining_bind ?_
      rintro place rfl
      exact (expressionFrom moves induction upTo _ {} 0).here upTo

theorem expression? (text : List Char) (low : Nat) (earlier : List Action) :
    Leads (UpTo text low earlier) PlacedGrammar.expression? fun found =>
      UpTo text low (earlier ++ foundActions found) :=
  scan_bind UpTo.persists (fun _ => .remaining) fun _ => expressionWithin _ text low earlier

end Parser.Leads

end Stencil
