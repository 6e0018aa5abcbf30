import Stencil.Proofs.Run.Obeys

/-!
# Blocks keep to a policy

Loops, branches, placeholders and embedded texts run other blocks.  As long as running those keeps
to a policy, running the node, the nodes of a block, and the block itself does; a block that
succeeds leaves its source at its finish.
-/

namespace Stencil

open Text

variable {η : Type}

/-- The source of a block stands where running the block leaves it. -/
def Session.AtFinish (session : Session η) (id : BlockRef) : Prop :=
  Source.pointer (session.source (session.block id).source) = (session.block id).finish

/-- Every block that is there runs as a policy asks, in every session. -/
def Policy.Runs (policy : Policy η) (embeddings : Embeddings) (runBlock : BlockRef → Run η Unit) :
    Prop :=
  ∀ (session : Session η) (id : BlockRef), id.index < session.blocks.size →
    policy.Obeys embeddings session (runBlock id) fun _ after => after.AtFinish id

namespace Session

variable {policy : Policy η} {embeddings : Embeddings} {host : Host η}
  {session before after : Session η}

theorem Chain.lt (chain : before.Chain policy embeddings after)
    (valid : before.Valid embeddings) {index : Nat} (present : index < before.blocks.size) :
    index < after.blocks.size :=
  (chain.toExtends valid).lt present

theorem Chain.hasScope (lawful : policy.Lawful host) (chain : before.Chain policy embeddings after)
    (sound : policy.Sound embeddings before) {scope : ScopeRef}
    (has : policy.hasScope before.store scope) : policy.hasScope after.store scope :=
  lawful.hasScope_mono _ _ _ (chain.becomes lawful sound).2 has

theorem Chain.hasValue (lawful : policy.Lawful host) (chain : before.Chain policy embeddings after)
    (sound : policy.Sound embeddings before) {value : Value}
    (has : policy.hasValue before.store value) : policy.hasValue after.store value :=
  lawful.hasValue_mono _ _ _ (chain.becomes lawful sound).2 has

theorem hasScope_block (sound : policy.Sound embeddings session) {id : BlockRef}
    (present : id.index < session.blocks.size) :
    policy.hasScope session.store (session.block id).scope :=
  sound.scopes id.index _ (getElem?_of_lt present)

end Session

namespace Policy.Obeys

variable {policy : Policy η} {environment : Environment η} {session : Session η}
  {runBlock : BlockRef → Run η Unit} {fuel : Nat} {scope : ScopeRef} {body : BlockRef}

section

variable (lawful : policy.Lawful environment.host)

include lawful

theorem nodes {runNode : Node → Run η Unit} (enclosingLoop : Option BlockRef) {listed : List Node}
    (each : ∀ node ∈ listed, ∀ after, session.Chain policy environment.embeddings after →
      policy.Obeys environment.embeddings after (runNode node) fun _ _ => True) :
    policy.Obeys environment.embeddings session (Run.nodes runNode enclosingLoop listed)
      fun _ _ => True := by
  induction listed generalizing session with
  | nil => exact .pure trivial
  | cons node rest induction =>
      unfold Run.nodes
      refine (wasLeft enclosingLoop).bind lawful fun left asked isAsked _ => ?_
      cases left with
      | true => exact .pure trivial
      | false =>
          have here := each node (List.mem_cons_self) asked isAsked
          refine here.bind lawful fun _ ran hasRun _ => ?_
          exact induction fun later member after chain =>
            each later (List.mem_cons_of_mem _ member) after ((isAsked.trans hasRun).trans chain)

theorem evaluate (has : policy.hasScope session.store scope) (expression : Expression) :
    policy.Obeys environment.embeddings session
      (Run.onStore (expression.evaluate environment.host scope))
      fun value after => policy.hasValue after.store value :=
  onStore fun sound => lawful.evaluate _ _ _ sound.store has

theorem condition (has : policy.hasScope session.store scope) (condition : Condition) :
    policy.Obeys environment.embeddings session
      (Run.onStore (condition.evaluate environment.host scope)) fun _ _ => True :=
  onStore fun sound => .condition lawful sound.store has condition

theorem follow (has : policy.hasScope session.store scope) (path : Path) :
    policy.Obeys environment.embeddings session (Run.onStore (path.follow environment.host scope))
      fun value after => policy.hasValue after.store value :=
  onStore fun sound => lawful.follow _ _ _ sound.store has

theorem lift {α : Type} {outcome : Except TemplateError α} (never : NeverParses outcome) :
    policy.Obeys environment.embeddings session (Run.onStore (liftM outcome)) fun _ _ => True :=
  onStore fun sound => .lift lawful.toRegular sound.store never

theorem beginPass (has : policy.hasScope session.store scope) :
    policy.Obeys environment.embeddings session (Run.beginPass scope body) fun _ _ => True :=
  (clear lawful has).bind lawful fun _ _ _ _ => wasLeft _

theorem loopNumber (has : policy.hasScope session.store scope) (what : String)
    (expression : Expression) :
    policy.Obeys environment.embeddings session
      (Run.loopNumber environment scope what expression) fun _ _ => True := by
  unfold Run.loopNumber
  refine (evaluate lawful has expression).bind lawful fun value _ _ _ => ?_
  cases value.int? with
  | some number => exact .pure trivial
  | none => exact .fail (lawful.raises _ nofun)

variable (runs : policy.Runs environment.embeddings runBlock)

include runs

theorem nested (what : Nested) (present : body.index < session.blocks.size) :
    policy.Obeys environment.embeddings session (Run.nested runBlock what body)
      fun _ _ => True := by
  unfold Run.nested
  refine of_sound fun sound => get_bind ?_
  split
  · exact .fail (lawful.raises _ nofun)
  · have deeper : policy.Obeys environment.embeddings session
        (modify fun session => { session with depth := session.depth + 1 })
        fun _ _ => True := update (fun _ => .depth _) trivial
    refine deeper.bind lawful fun _ inside chain _ => ?_
    have here := runs inside body (chain.lt sound.valid present)
    exact here.andFinally lawful fun ended _ _ => .depth _

theorem runPlaceholder (key : Placeholder.Key) {argument : Option Value}
    (hasArgument : ∀ value ∈ argument, policy.hasValue session.store value) :
    policy.Obeys environment.embeddings session (Run.runPlaceholder runBlock key argument)
      fun _ _ => True := by
  unfold Run.runPlaceholder
  refine of_sound fun sound => get_bind ?_
  cases found : session.placeholders.get? key with
  | none => exact .fail (lawful.raises _ nofun)
  | some placeholder =>
      obtain ⟨block, isThere, -⟩ := sound.valid.placeholders key placeholder found
      have present := Session.lt_of_getElem? isThere
      have has := Session.hasScope_block sound present
      refine (clear lawful has).bind lawful fun _ emptied chain _ => ?_
      have later := chain.lt sound.valid present
      cases argument with
      | none => exact nested lawful runs _ later
      | some value =>
          have hasValue := chain.hasValue lawful sound (hasArgument value rfl)
          have hasEmptied := chain.hasScope lawful sound has
          refine of_sound fun soundEmptied => ?_
          refine (bindName lawful hasEmptied hasValue).bind lawful fun _ named chainNamed _ => ?_
          exact nested lawful runs _ (chainNamed.lt soundEmptied.valid later)

theorem emit {value : Value} (has : policy.hasValue session.store value) :
    policy.Obeys environment.embeddings session (Run.emit runBlock value) fun _ _ => True := by
  unfold Run.emit
  cases value.string? with
  | some text => exact write text
  | none =>
      refine get_bind ?_
      split
      · exact runPlaceholder lawful runs _ fun _ isValue => Option.mem_some.mp isValue ▸ has
      · exact write _

theorem conditionalLoop (has : policy.hasScope session.store scope)
    (present : body.index < session.blocks.size) (condition : Condition) :
    policy.Obeys environment.embeddings session
      (Run.conditionalLoop environment runBlock scope body condition fuel) fun _ _ => True := by
  induction fuel generalizing session with
  | zero => exact .outOfFuel
  | succ fuel induction =>
      unfold Run.conditionalLoop
      refine of_sound fun sound => (beginPass lawful has).bind lawful fun left begun chain _ => ?_
      cases left with
      | true => exact .pure trivial
      | false =>
          have hasBegun := chain.hasScope lawful sound has
          refine (Obeys.condition lawful hasBegun condition).bind lawful
            fun isTrue asked chainAsked _ => ?_
          cases isTrue with
          | false => exact .pure trivial
          | true =>
              have toAsked := chain.trans chainAsked
              refine (runs asked body (toAsked.lt sound.valid present)).bind lawful
                fun _ passed chainPassed _ => ?_
              have toPassed := toAsked.trans chainPassed
              exact induction (toPassed.hasScope lawful sound has)
                (toPassed.lt sound.valid present)

theorem numberedLoop (has : policy.hasScope session.store scope)
    (present : body.index < session.blocks.size) (name : String) (comparison : Comparison)
    (bound : Int32) (operator : Operator) (step counter : Int32) :
    policy.Obeys environment.embeddings session
      (Run.numberedLoop runBlock scope body name comparison bound operator step fuel counter)
      fun _ _ => True := by
  induction fuel generalizing session counter with
  | zero => exact .outOfFuel
  | succ fuel induction =>
      unfold Run.numberedLoop
      refine of_sound fun sound => (beginPass lawful has).bind lawful fun left begun chain _ => ?_
      cases left with
      | true => exact .pure trivial
      | false =>
          have compared : policy.Obeys environment.embeddings begun _ _ :=
            lift lawful (NeverParses.compares comparison (.int counter) (.int bound))
          refine compared.bind lawful fun isTrue asked chainAsked _ => ?_
          cases isTrue with
          | false => exact .pure trivial
          | true =>
              have toAsked := chain.trans chainAsked
              have hasAsked := toAsked.hasScope lawful sound has
              refine (bindName lawful hasAsked (lawful.primitive _ _)).bind lawful
                fun _ named chainNamed _ => ?_
              have toNamed := toAsked.trans chainNamed
              refine (runs named body (toNamed.lt sound.valid present)).bind lawful
                fun _ passed chainPassed _ => ?_
              have counted : policy.Obeys environment.embeddings passed _ _ :=
                lift lawful (NeverParses.nextCounter name operator step counter)
              refine counted.bind lawful fun next later chainLater _ => ?_
              have toLater := (toNamed.trans chainPassed).trans chainLater
              exact induction (toLater.hasScope lawful sound has)
                (toLater.lt sound.valid present) next

theorem iterableLoop (has : policy.hasScope session.store scope)
    (present : body.index < session.blocks.size) (element : String) (index : Option String)
    (list : ListRef) (places : List Nat) :
    policy.Obeys environment.embeddings session
      (Run.iterableLoop runBlock scope body element index list places) fun _ _ => True := by
  induction places generalizing session with
  | nil => exact .pure trivial
  | cons place places induction =>
      unfold Run.iterableLoop
      refine of_sound fun sound => (beginPass lawful has).bind lawful fun left begun chain _ => ?_
      cases left with
      | true => exact .pure trivial
      | false =>
          refine of_sound fun soundBegun => get_bind ?_
          have hasBegun := chain.hasScope lawful sound has
          have pass {named : Session η}
            (toNamed : session.Chain policy environment.embeddings named) :
              policy.Obeys environment.embeddings named
                (do
                  runBlock body
                  Run.iterableLoop runBlock scope body element index list places)
                fun _ _ => True := by
            refine (runs named body (toNamed.lt sound.valid present)).bind lawful
              fun _ passed chainPassed _ => ?_
            have toPassed := toNamed.trans chainPassed
            exact induction (toPassed.hasScope lawful sound has)
              (toPassed.lt sound.valid present)
          cases found : (begun.store.heap.items list)[place]? with
          | none => exact .fail (lawful.raises _ nofun)
          | some item =>
              have hasItem := lawful.item begun.store list soundBegun.store item
                (List.mem_of_getElem? found)
              refine (bindName lawful hasBegun hasItem).bind lawful fun _ named chainNamed _ => ?_
              have toNamed := chain.trans chainNamed
              cases index with
              | none => exact pass toNamed
              | some name =>
                  have hasNamed := toNamed.hasScope lawful sound has
                  refine (bindName lawful hasNamed (lawful.primitive _ _)).bind lawful
                    fun _ numbered chainNumbered _ => ?_
                  exact pass (toNamed.trans chainNumbered)

theorem passes (has : policy.hasScope session.store scope)
    (present : body.index < session.blocks.size) (header : LoopHeader) :
    policy.Obeys environment.embeddings session
      (Run.passes environment runBlock fuel scope body header) fun _ _ => True := by
  unfold Run.passes
  refine of_sound fun sound => get_bind ?_
  have inner := Session.hasScope_block sound present
  cases header with
  | conditional condition => exact conditionalLoop lawful runs inner present condition
  | numbered name start comparison bound operator step =>
      refine (loopNumber lawful has "loop start" start).bind lawful fun counter
        started chain _ => ?_
      have hasStarted := chain.hasScope lawful sound has
      refine (loopNumber lawful hasStarted "loop bound" bound).bind lawful
        fun limit bounded chainBounded _ => ?_
      have toBounded := chain.trans chainBounded
      have hasBounded := toBounded.hasScope lawful sound has
      refine (loopNumber lawful hasBounded "loop step" step).bind lawful
        fun increment stepped chainStepped _ => ?_
      have toStepped := toBounded.trans chainStepped
      exact numberedLoop lawful runs (toStepped.hasScope lawful sound inner)
        (toStepped.lt sound.valid present) _ _ _ _ _ _
  | iterable element index iterable =>
      refine (evaluate lawful has iterable).bind lawful fun value asked chain _ => ?_
      cases value with
      | list list =>
          refine get_bind ?_
          exact iterableLoop lawful runs (chain.hasScope lawful sound inner)
            (chain.lt sound.valid present) _ _ _ _
      | primitive value => exact .fail (lawful.raises _ nofun)
      | object object => exact .fail (lawful.raises _ nofun)
      | function function => exact .fail (lawful.raises _ nofun)

theorem loop (mayMark : policy.mayMark) (has : policy.hasScope session.store scope)
    (present : body.index < session.blocks.size) (header : LoopHeader) :
    policy.Obeys environment.embeddings session
      (Run.loop environment runBlock fuel scope header body) fun _ _ => True := by
  unfold Run.loop
  have unmarked : policy.Obeys environment.embeddings session
      (modify fun session => session.modifyBlock body ({ · with wasLeft := false }))
      fun _ _ => True := update (fun _ => .mark body false mayMark) trivial
  refine of_sound fun sound => unmarked.bind lawful fun _ begun chain _ => ?_
  refine of_sound fun soundBegun => get_bind ?_
  have presentBegun := chain.lt sound.valid present
  have inner := Session.hasScope_block soundBegun presentBegun
  have hasBegun := chain.hasScope lawful sound has
  have here : policy.Obeys environment.embeddings begun
      (Run.passes environment runBlock fuel scope body header) fun _ _ => True :=
    passes lawful runs hasBegun presentBegun header
  refine (here.andFinally lawful fun ended chainEnded soundEnded => ?_).weaken fun _ _
    _ _ => trivial
  exact .store _ (lawful.clear _ _ soundEnded.store (chainEnded.hasScope lawful soundBegun inner))

theorem cleared (present : body.index < session.blocks.size) :
    policy.Obeys environment.embeddings session (Run.cleared runBlock body) fun _ _ => True := by
  unfold Run.cleared
  refine of_sound fun sound => get_bind ?_
  refine (clear lawful (Session.hasScope_block sound present)).bind lawful fun _
    emptied chain _ => ?_
  exact (runs emptied body (chain.lt sound.valid present)).weaken fun _ _ _ _ => trivial

theorem branches (has : policy.hasScope session.store scope) {otherwise : Option BlockRef}
    {conditions : List (Condition × BlockRef)}
    (present : ∀ branch ∈ conditions, branch.2.index < session.blocks.size)
    (lastPresent : ∀ body, otherwise = some body → body.index < session.blocks.size) :
    policy.Obeys environment.embeddings session
      (Run.branches environment runBlock scope otherwise conditions) fun _ _ => True := by
  induction conditions generalizing session with
  | nil =>
      unfold Run.branches
      cases otherwise with
      | none => exact .pure trivial
      | some body => exact cleared lawful runs (lastPresent body rfl)
  | cons branch conditions induction =>
      obtain ⟨condition, body⟩ := branch
      unfold Run.branches
      refine of_sound fun sound => (Obeys.condition lawful has condition).bind lawful
        fun isTrue asked chain _ => ?_
      cases isTrue with
      | true =>
          exact cleared lawful runs (chain.lt sound.valid (present _ List.mem_cons_self))
      | false =>
          exact induction (chain.hasScope lawful sound has)
            (fun branch member => chain.lt sound.valid
              (present branch (List.mem_cons_of_mem _ member)))
            fun last isLast => chain.lt sound.valid (lastPresent last isLast)

end

section

variable (lawful : policy.Lawful environment.host)

include lawful

theorem insert (has : policy.hasScope session.store scope) {name : String} {value : Value}
    (hasValue : policy.hasValue session.store value) :
    policy.Obeys environment.embeddings session (Run.onHeap (·.insert scope name value))
      fun _ _ => True := by
  refine onHeap (fun sound => ?_) trivial
  unfold Heap.insert
  split
  · exact ⟨sound.store, lawful.refl _⟩
  · exact lawful.put _ _ _ _ sound.store has hasValue

theorem declare (has : policy.hasScope session.store scope) {name : String} {value : Value}
    (hasValue : policy.hasValue session.store value) :
    policy.Obeys environment.embeddings session (Run.declare scope name value) fun _ _ => True := by
  unfold Run.declare
  refine (insert lawful has hasValue).bind lawful fun isNew _ _ _ => ?_
  cases isNew with
  | true => exact .pure trivial
  | false => exact get_bind (.fail (lawful.raises _ nofun))

theorem assign (has : policy.hasScope session.store scope) {name : String} {value : Value}
    (hasValue : policy.hasValue session.store value) :
    policy.Obeys environment.embeddings session (Run.assign scope name value) fun _ _ => True := by
  unfold Run.assign
  have assigned : policy.Obeys environment.embeddings session
      (Run.onHeap (·.assign scope name value)) fun _ _ => True :=
    onHeap (fun sound => lawful.assign _ _ _ _ sound.store has hasValue) trivial
  refine assigned.bind lawful fun isDeclared _ _ _ => ?_
  cases isDeclared with
  | true => exact .pure trivial
  | false => exact .fail (lawful.raises _ nofun)

theorem evaluateArgument (has : policy.hasScope session.store scope)
    (argument : Option Expression) :
    policy.Obeys environment.embeddings session
      (argument.mapM fun expression => Run.onStore (expression.evaluate environment.host scope))
      fun argument after => ∀ value ∈ argument, policy.hasValue after.store value := by
  cases argument with
  | none => exact .pure fun _ isValue => nomatch isValue
  | some expression =>
      refine (evaluate lawful has expression).bind lawful fun value found _ hasFound => ?_
      exact .pure fun _ isValue => Option.mem_some.mp isValue ▸ hasFound

variable (runs : policy.Runs environment.embeddings runBlock) (mayMark : policy.mayMark)
  (mayDefine : policy.mayDefine)

include runs mayMark mayDefine

/-- A node that comes from a directive refers only to blocks that are there. -/
theorem node (has : policy.hasScope session.store scope) {text : List Char}
    {enclosingLoop : Option BlockRef} {parent : BlockRef} {node : Node}
    (origin : node.Origin text enclosingLoop (session.Child environment.embeddings parent)) :
    policy.Obeys environment.embeddings session (Run.node environment runBlock fuel scope node)
      fun _ _ => True := by
  refine of_sound fun sound => ?_
  cases origin with
  | text content => exact write content
  | read path =>
      refine (follow lawful has path).bind lawful fun value found _ hasFound => ?_
      split
      · exact .pure trivial
      · exact emit lawful runs hasFound
  | declare name value constant =>
      refine (evaluate lawful has value).bind lawful fun _ _ chain hasFound => ?_
      exact declare lawful (chain.hasScope lawful sound has) hasFound
  | assign name value =>
      refine (evaluate lawful has value).bind lawful fun _ _ chain hasFound => ?_
      exact assign lawful (chain.hasScope lawful sound has) hasFound
  | loop header body opening isMade => exact loop lawful runs mayMark has isMade.lt_size header
  | leave target opening enclosing => exact update (fun _ => .mark target true mayMark) trivial
  | branches conditions otherwise opening areMade lastMade =>
      exact branches lawful runs has (fun branch member => (areMade branch member).lt_size)
        fun body isLast => (lastMade body isLast).lt_size
  | definePlaceholder key parameter body opening isMade =>
      obtain ⟨block, isThere, role, -⟩ := isMade.exists_block
      exact update (fun _ => .define key ⟨body, parameter⟩ mayDefine ⟨block, isThere, role⟩) trivial
  | usePlaceholder key argument =>
      exact (evaluateArgument lawful has argument).bind lawful fun _ _ _ hasArgument =>
        runPlaceholder lawful runs key hasArgument
  | embed block opening isMade => exact nested lawful runs _ isMade.lt_size
  | malformed error expected => exact .fail (lawful.raises _ expected)

/-- A block that is parsed, or that may be, runs as the policy asks. -/
theorem blockWith {id : BlockRef} (present : id.index < session.blocks.size)
    (may : policy.mayParse id ∨ (session.block id).nodes?.isSome = true) :
    policy.Obeys environment.embeddings session (Run.blockWith environment runBlock fuel id)
      fun _ after => after.AtFinish id := by
  unfold Run.blockWith
  refine of_sound fun sound => ?_
  refine (nodesOf lawful present may).bind lawful fun parsed ready chain isParsed => ?_
  refine of_sound fun soundReady => get_bind ?_
  have isThere := Session.getElem?_of_lt (chain.lt sound.valid present)
  have sourcePresent := soundReady.valid.source_lt isThere
  have fits := soundReady.valid.fits isThere
  have has := soundReady.scopes id.index _ isThere
  obtain ⟨-, origins⟩ := soundReady.valid.parsed id _ parsed isThere isParsed
  refine (seek sourcePresent fits.start).bind lawful fun _ started chainStarted _ => ?_
  have each : policy.Obeys environment.embeddings started
      (Run.nodes (Run.node environment runBlock fuel (ready.block id).scope)
        (ready.block id).enclosingLoop parsed) fun _ _ => True := by
    refine nodes lawful _ fun member isMember after chainAfter => ?_
    have toAfter := chainStarted.trans chainAfter
    have origin := (origins member isMember).mono fun _ _ child =>
      (toAfter.toExtends soundReady.valid).child child
    exact node lawful runs mayMark mayDefine (toAfter.hasScope lawful soundReady has) origin
  refine each.bind lawful fun _ ended chainEnded _ => ?_
  have ext := (chainStarted.trans chainEnded).toExtends soundReady.valid
  have outline := ext.outline_block (Session.lt_of_getElem? isThere)
  obtain ⟨sourceEnded, text⟩ := ext.source _ sourcePresent
  refine (seek sourceEnded (text ▸ fits.finish)).weaken fun _ after _ ⟨quiet, atFinish⟩ => ?_
  have same := quiet.toExtends.outline_block
    (ext.lt (Session.lt_of_getElem? isThere))
  have source := Block.eq_of_outline Block.source (fun _ => rfl) (same.trans outline)
  have finish := Block.eq_of_outline Block.finish (fun _ => rfl) (same.trans outline)
  rw [Session.AtFinish, source, finish, atFinish]

end

end Policy.Obeys

/-- Running blocks keeps to every policy that permits it. -/
theorem Policy.Lawful.runs {policy : Policy η} {environment : Environment η}
    (lawful : policy.Lawful environment.host) (permits : policy.Permissive) (fuel : Nat) :
    policy.Runs environment.embeddings (Run.block environment fuel) := by
  induction fuel with
  | zero => exact fun _ _ _ => .outOfFuel
  | succ fuel induction =>
      intro session id present
      exact .blockWith lawful induction permits.mark permits.define present
        (.inl (permits.parse id))

end Stencil
