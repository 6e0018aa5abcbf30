import Stencil.Proofs.BlockRanges
import Stencil.Proofs.Run.Levels

/-!
# Runs that settle

A run settles if with enough fuel it ends, always in the same way.  Blocks settle if none of those
that can be parsed has a conditional or a numbered loop: bodies of loops and branches are shorter
than the blocks that they stand in, and everything else runs one level deeper.
-/

namespace Stencil

open Text

variable {η α β : Type}

/-- Whether a node is no loop but one over the elements of a list. -/
def Node.iterates : Node → Bool
  | .loop (.iterable ..) _ => true
  | .loop .. => false
  | _ => true

namespace Session

/-- No block that can be parsed from a session on has a conditional or a numbered loop. -/
def IteratesOnly (session : Session η) (embeddings : Embeddings) : Prop :=
  ∀ after, session.Chain (Policy.free fun _ => True) embeddings after → ∀ id nodes,
    (after.block id).nodes? = some nodes → ∀ node ∈ nodes, node.iterates = true

/-- A session on a level from which on no block with such a loop is parsed. -/
structure Ready (session : Session η) (embeddings : Embeddings) (level : Nat) : Prop where
  valid : session.Valid embeddings
  iterates : session.IteratesOnly embeddings
  depth : session.depth = level

variable {before after session : Session η} {embeddings : Embeddings} {level : Nat}

/-- The body of a loop or a branch is shorter than the block that it stands in. -/
theorem Child.length_lt {parent id : BlockRef} {role : BlockRole}
    (child : session.Child embeddings parent role id)
    (isBody : role = .loopBody ∨ role = .branch) :
    (session.block id).length < (session.block parent).length := by
  cases child with
  | body _ _ block cut finish scope anchor later present _ _ anchorPlace closes outline =>
      have length : block.outline.length = byteLength cut.body := congrArg Block.length outline
      have start := closes.start
      have closing : cut.closing < (session.block parent).limit := closes.closing
      have limit := cut.limit_eq
      have gap := cut.closing_eq
      rw [Block.limit] at closing
      rw [Session.block_eq_of_getElem? present]
      change block.outline.length < _
      omega
  | embedded => rcases isBody with isLoop | isBranch <;> contradiction

theorem Ready.later (ready : before.Ready embeddings level)
    (chain : before.Chain (Policy.free fun _ => True) embeddings after)
    (depth : after.depth = before.depth) : after.Ready embeddings level :=
  ⟨chain.valid ready.valid, fun last toLast => ready.iterates last (chain.trans toLast),
    depth.trans ready.depth⟩

theorem Ready.sound (ready : before.Ready embeddings level) :
    (Policy.free fun _ => True).Sound embeddings before :=
  ⟨ready.valid, trivial, fun _ _ _ => trivial⟩

end Session

namespace Run

/-- With enough fuel a run of a session on a level ends, always in the same way, on that level, and
an answer has a property. -/
def Settles (embeddings : Embeddings) (level : Nat) (session : Session η) (run : Nat → Run η α)
    (answers : α → Session η → Prop) : Prop :=
  session.Ready embeddings level → ∃ enough outcome after,
    (∀ fuel, enough ≤ fuel → (run fuel).run.run session = (outcome, after)) ∧
      outcome ≠ .error .outOfFuel ∧
      session.Chain (Policy.free fun _ => True) embeddings after ∧ after.depth = session.depth ∧
      ∀ answer, outcome = .ok answer → answers answer after

namespace Settles

variable {embeddings : Embeddings} {level : Nat} {session : Session η}

theorem of_ready {run : Nat → Run η α} {answers : α → Session η → Prop}
    (settles : session.Ready embeddings level → Settles embeddings level session run answers) :
    Settles embeddings level session run answers :=
  fun ready => settles ready ready

/-- A piece that runs no blocks needs no fuel. -/
theorem plain {run : Run η α} {answers : α → Session η → Prop} (isPlain : Plain run)
    (obeys : (Policy.free fun _ => True).Obeys embeddings session run answers) :
    Settles embeddings level session (fun _ => run) answers := by
  intro ready
  obtain ⟨chain, isAnswer, -⟩ := obeys ready.sound
  exact ⟨0, _, _, fun _ _ => rfl, isPlain.ends session, chain, isPlain.depth session, isAnswer⟩

theorem pure {answer : α} {answers : α → Session η → Prop} (isAnswer : answers answer session) :
    Settles embeddings level session (fun _ => Pure.pure answer) answers :=
  plain (.pure answer) (.pure isAnswer)

theorem fail (error : TemplateError) {answers : α → Session η → Prop} :
    Settles embeddings level session (fun _ => Run.fail error) answers :=
  plain (.fail error) (.fail trivial)

theorem weaken {run : Nat → Run η α} {answers weaker : α → Session η → Prop}
    (settles : Settles embeddings level session run answers)
    (implies : ∀ answer after, answers answer after → weaker answer after) :
    Settles embeddings level session run weaker := by
  intro ready
  obtain ⟨enough, outcome, after, ran, ends, chain, depth, isAnswer⟩ := settles ready
  exact ⟨enough, outcome, after, ran, ends, chain, depth,
    fun answer same => implies _ _ (isAnswer answer same)⟩

theorem bind {first : Nat → Run η α} {next : Nat → α → Run η β} {middle : α → Session η → Prop}
    {answers : β → Session η → Prop} (here : Settles embeddings level session first middle)
    (later : ∀ answer after, session.Chain (Policy.free fun _ => True) embeddings after →
      middle answer after → Settles embeddings level after (fun fuel => next fuel answer) answers) :
    Settles embeddings level session (fun fuel => first fuel >>= next fuel) answers := by
  intro ready
  obtain ⟨enough, outcome, after, ran, ends, chain, depth, isAnswer⟩ := here ready
  have split (fuel : Nat) : (first fuel >>= next fuel).run.run session =
      (ExceptT.bindCont (next fuel) ((first fuel).run.run session).1).run
        ((first fuel).run.run session).2 := rfl
  cases outcome with
  | error stop =>
      refine ⟨enough, .error stop, after, fun fuel le => ?_,
        fun same => ends (congrArg Except.error (Except.error.inj same)), chain, depth, nofun⟩
      rw [split, ran fuel le]
      rfl
  | ok answer =>
      obtain ⟨enoughLater, outcome, last, ranLater, endsLater, chainLater, depthLater,
          isAnswerLater⟩ :=
        later answer after chain (isAnswer answer rfl) (ready.later chain depth)
      refine ⟨max enough enoughLater, outcome, last, fun fuel le => ?_, endsLater,
        chain.trans chainLater, depthLater.trans depth, isAnswerLater⟩
      rw [split, ran fuel (by omega)]
      exact ranLater fuel (by omega)

/-- What comes next may look at the session. -/
theorem get_bind {next : Nat → Session η → Run η β} {answers : β → Session η → Prop}
    (later : Settles embeddings level session (fun fuel => next fuel session) answers) :
    Settles embeddings level session (fun fuel => get >>= next fuel) answers :=
  later

/-- More fuel for a piece that settles makes no difference. -/
theorem shift {run run' : Nat → Run η α} {answers : α → Session η → Prop}
    (settles : Settles embeddings level session run answers)
    (same : ∀ fuel, run' (fuel + 1) = run fuel) :
    Settles embeddings level session run' answers := by
  intro ready
  obtain ⟨enough, outcome, after, ran, rest⟩ := settles ready
  refine ⟨enough + 1, outcome, after, fun fuel le => ?_, rest⟩
  obtain ⟨less, rfl⟩ : ∃ less, fuel = less + 1 := Nat.exists_eq_add_one.mpr (by omega)
  rw [same]
  exact ran less (by omega)

theorem andFinally {run : Nat → Run η Unit} {last : Session η → Session η}
    (settles : Settles embeddings level session run fun _ _ => True)
    (step : ∀ ended : Session η,
      ended.Step (Policy.free fun _ => True) embeddings (last ended))
    (depth : ∀ ended : Session η, (last ended).depth = ended.depth) :
    Settles embeddings level session (fun fuel => Run.andFinally (run fuel) last)
      fun _ _ => True := by
  intro ready
  obtain ⟨enough, outcome, after, ran, ends, chain, depthAfter, -⟩ := settles ready
  refine ⟨enough, outcome, last after, fun fuel le => ?_, ends, chain.trans (.single (step after)),
    (depth after).trans depthAfter, fun _ _ => trivial⟩
  change (((run fuel).run.run session).1, last ((run fuel).run.run session).2) = _
  rw [ran fuel le]

/-- Blocks that settle one level deeper settle when they are entered from this one. -/
theorem nested {runBlock : Nat → BlockRef → Run η Unit} (what : Nested) (id : BlockRef)
    (block : level < nestingLimit → ∀ inside : Session η,
      session.Chain (Policy.free fun _ => True) embeddings inside →
      Settles embeddings (level + 1) inside (runBlock · id) fun _ _ => True) :
    Settles embeddings level session (fun fuel => Run.nested (runBlock fuel) what id)
      fun _ _ => True := by
  intro ready
  by_cases isDeep : nestingLimit ≤ session.depth
  · refine ⟨0, _, session, fun fuel _ => (ran_nested _ what id session).trans (if_pos isDeep),
      nofun, .refl, rfl,
      fun _ _ => trivial⟩
  · have enters : session.Step (Policy.free fun _ => True) embeddings
        { session with depth := session.depth + 1 } := .depth _
    have inside : ({ session with depth := session.depth + 1 } : Session η).Ready embeddings
        (level + 1) :=
      ⟨enters.valid ready.valid, fun after chain =>
        ready.iterates after ((Session.Chain.single enters).trans chain),
        congrArg (· + 1) ready.depth⟩
    have below : level < nestingLimit := ready.depth ▸ Nat.lt_of_not_le isDeep
    obtain ⟨enough, outcome, after, ranInside, ends, chain, depth, -⟩ :=
      block below _ (.single enters) inside
    refine ⟨enough, outcome, { after with depth := after.depth - 1 }, fun fuel le => ?_, ends,
      ((Session.Chain.single enters).trans chain).trans (.single (.depth _)), ?_,
      fun _ _ => trivial⟩
    · have leaves (inside : Session η) : (Run.andFinally (runBlock fuel id) fun session =>
            { session with depth := session.depth - 1 }).run.run inside =
          (((runBlock fuel id).run.run inside).1,
            { ((runBlock fuel id).run.run inside).2 with
              depth := ((runBlock fuel id).run.run inside).2.depth - 1 }) := rfl
      rw [ran_nested, if_neg isDeep, leaves, ranInside fuel le]
    · exact congrArg (· - 1) depth

section

variable {environment : Environment η} {runBlock : Nat → BlockRef → Run η Unit} {scope : ScopeRef}
  {body : BlockRef}

/-- Nothing is asked of the store. -/
theorem lawful (environment : Environment η) :
    (Policy.free fun _ => True : Policy η).Lawful environment.host :=
  Policy.lawful_free _ True environment.host

theorem evaluate (expression : Expression) :
    Settles environment.embeddings level session
      (fun _ => onStore (expression.evaluate environment.host scope)) fun _ _ => True :=
  plain (.onStore _) ((Policy.Obeys.evaluate (lawful environment) trivial expression).weaken
    fun _ _ _ _ => trivial)

theorem condition (condition : Condition) :
    Settles environment.embeddings level session
      (fun _ => onStore (condition.evaluate environment.host scope)) fun _ _ => True :=
  plain (.onStore _) ((Policy.Obeys.condition (lawful environment) trivial condition).weaken
    fun _ _ _ _ => trivial)

theorem clear (environment : Environment η) (scope : ScopeRef) :
    Settles environment.embeddings level session (fun _ => Run.clear scope) fun _ _ => True :=
  plain (.clear scope) (.clear (lawful environment) trivial)

theorem bindName (environment : Environment η) (scope : ScopeRef) (name : String) (value : Value) :
    Settles environment.embeddings level session (fun _ => Run.bindName scope name value)
      fun _ _ => True :=
  plain (.bindName scope name value) (.bindName (lawful environment) trivial trivial)

theorem write (text : String) :
    Settles embeddings level session (fun _ => Run.write text) fun _ _ => True :=
  plain (.update fun _ => rfl) (.write text)

theorem wasLeft (enclosingLoop : Option BlockRef) :
    Settles embeddings level session (fun _ => Run.wasLeft enclosingLoop) fun _ _ => True :=
  plain (.wasLeft enclosingLoop) (.wasLeft enclosingLoop)

theorem beginPass (environment : Environment η) (scope : ScopeRef) (body : BlockRef) :
    Settles environment.embeddings level session (fun _ => Run.beginPass scope body)
      fun _ _ => True := by
  have both : Settles environment.embeddings level session
      (fun _ => Run.clear scope >>= fun _ => Run.wasLeft (some body)) fun _ _ => True :=
    (clear environment scope).bind fun _ _ _ _ => wasLeft _
  exact both

/-- What a placeholder runs settles if bodies one level deeper do. -/
theorem runPlaceholder (key : Placeholder.Key) (argument : Option Value)
    (deeper : level < nestingLimit → ∀ (inside : Session η) (id : BlockRef),
      id.index < inside.blocks.size →
      Settles environment.embeddings (level + 1) inside (runBlock · id) fun _ _ => True) :
    Settles environment.embeddings level session
      (fun fuel => Run.runPlaceholder (runBlock fuel) key argument) fun _ _ => True := by
  unfold Run.runPlaceholder
  refine of_ready fun ready => get_bind ?_
  cases found : session.placeholders.get? key with
  | none => exact fail _
  | some placeholder =>
      obtain ⟨block, isThere, -⟩ := ready.valid.placeholders key placeholder found
      have enters (begun : Session η)
          (chain : session.Chain (Policy.free fun _ => True) environment.embeddings begun) :
          Settles environment.embeddings level begun
            (fun fuel => Run.nested (runBlock fuel) (.placeholder key) placeholder.body)
            fun _ _ => True :=
        nested _ _ fun below inside entered => deeper below inside _
          ((chain.trans entered).lt ready.valid (Session.lt_of_getElem? isThere))
      refine (clear environment _).bind fun _ cleared chain _ => ?_
      cases argument with
      | none => exact enters cleared chain
      | some value =>
          exact (bindName environment _ _ _).bind fun _ bound chainBound _ =>
            enters bound (chain.trans chainBound)

theorem emit (value : Value)
    (deeper : level < nestingLimit → ∀ (inside : Session η) (id : BlockRef),
      id.index < inside.blocks.size →
      Settles environment.embeddings (level + 1) inside (runBlock · id) fun _ _ => True) :
    Settles environment.embeddings level session (fun fuel => Run.emit (runBlock fuel) value)
      fun _ _ => True := by
  unfold Run.emit
  cases value.string? with
  | some text => exact write text
  | none =>
      refine get_bind ?_
      by_cases registered : session.placeholders.contains (.default value.kind.name) = true
      · simp only [if_pos registered]
        exact runPlaceholder _ _ deeper
      · simp only [if_neg registered]
        exact write _

/-- A loop over the elements of a list settles if its body does. -/
theorem iterableLoop (element : String) (index : Option String) (list : ListRef) (places : List Nat)
    (passes : ∀ after : Session η,
      session.Chain (Policy.free fun _ => True) environment.embeddings after →
      Settles environment.embeddings level after (runBlock · body) fun _ _ => True) :
    Settles environment.embeddings level session
      (fun fuel => Run.iterableLoop (runBlock fuel) scope body element index list places)
      fun _ _ => True := by
  induction places generalizing session with
  | nil => exact pure trivial
  | cons place places induction =>
      unfold Run.iterableLoop
      refine (beginPass environment scope body).bind fun left begun chain _ => ?_
      cases left with
      | true => exact pure trivial
      | false =>
          refine get_bind ?_
          have pass (bound : Session η)
              (toBound : session.Chain (Policy.free fun _ => True) environment.embeddings bound) :
              Settles environment.embeddings level bound
                (fun fuel => do
                  runBlock fuel body
                  Run.iterableLoop (runBlock fuel) scope body element index list places)
                fun _ _ => True :=
            (passes bound toBound).bind fun _ passed chainPassed _ =>
              induction fun after chainAfter => passes after
                ((toBound.trans chainPassed).trans chainAfter)
          cases (begun.store.heap.items list)[place]? with
          | none => exact fail _
          | some item =>
              refine (bindName environment _ _ _).bind fun _ bound chainBound _ => ?_
              cases index with
              | none => exact pass bound (chain.trans chainBound)
              | some name =>
                  exact (bindName environment _ _ _).bind fun _ numbered chainNumbered _ =>
                    pass numbered ((chain.trans chainBound).trans chainNumbered)

theorem loop {header : LoopHeader} (iterates : (Node.loop header body).iterates = true)
    (passes : ∀ after : Session η,
      session.Chain (Policy.free fun _ => True) environment.embeddings after →
      Settles environment.embeddings level after (runBlock · body) fun _ _ => True) :
    Settles environment.embeddings level session
      (fun fuel => Run.loop environment (runBlock fuel) fuel scope header body) fun _
          _ => True := by
  unfold Run.loop
  have unmarked : Settles environment.embeddings level session
      (fun _ => modify fun session => session.modifyBlock body ({ · with wasLeft := false }))
      fun _ _ => True :=
    plain (.update fun _ => rfl) (.update (fun _ => .mark body false trivial) trivial)
  refine unmarked.bind fun _ begun chain _ => get_bind (andFinally ?_ ?_ fun _ => rfl)
  · unfold Run.passes
    refine get_bind ?_
    cases header with
    | conditional condition => cases iterates
    | numbered name start comparison bound operator step => cases iterates
    | iterable element index iterable =>
        refine (evaluate iterable).bind fun value asked chainAsked _ => ?_
        cases value with
        | list list =>
            exact get_bind (iterableLoop _ _ _ _ fun after chainAfter =>
              passes after ((chain.trans chainAsked).trans chainAfter))
        | primitive value => exact fail _
        | object object => exact fail _
        | function function => exact fail _
  · exact fun ended => .store _ ⟨trivial, trivial⟩

theorem cleared {id : BlockRef}
    (block : ∀ after : Session η,
      session.Chain (Policy.free fun _ => True) environment.embeddings after →
      Settles environment.embeddings level after (runBlock · id) fun _ _ => True) :
    Settles environment.embeddings level session (fun fuel => Run.cleared (runBlock fuel) id)
      fun _ _ => True :=
  get_bind ((clear environment _).bind fun _ emptied chain _ => block emptied chain)

theorem branches {otherwise : Option BlockRef} {conditions : List (Condition × BlockRef)}
    (blocks : ∀ id, id ∈ conditions.map Prod.snd ∨ otherwise = some id → ∀ after : Session η,
      session.Chain (Policy.free fun _ => True) environment.embeddings after →
      Settles environment.embeddings level after (runBlock · id) fun _ _ => True) :
    Settles environment.embeddings level session
      (fun fuel => Run.branches environment (runBlock fuel) scope otherwise conditions)
      fun _ _ => True := by
  induction conditions generalizing session with
  | nil =>
      unfold Run.branches
      cases otherwise with
      | none => exact pure trivial
      | some id => exact cleared (blocks id (.inr rfl))
  | cons branch conditions induction =>
      unfold Run.branches
      refine (condition branch.1).bind fun isTrue asked chain _ => ?_
      cases isTrue with
      | true =>
          exact cleared fun after chainAfter => blocks branch.2
            (.inl List.mem_cons_self) after (chain.trans chainAfter)
      | false =>
          exact induction fun id listed after chainAfter => blocks id
            (listed.imp_left (List.mem_cons_of_mem _)) after (chain.trans chainAfter)

/-- A node settles if the bodies of its loop or branches do, and whatever runs one level deeper. -/
theorem node {text : List Char} {enclosingLoop : Option BlockRef} {parent : BlockRef} {node : Node}
    (origin : node.Origin text enclosingLoop (session.Child environment.embeddings parent))
    (iterates : node.iterates = true)
    (deeper : level < nestingLimit → ∀ (inside : Session η) (id : BlockRef),
      id.index < inside.blocks.size →
      Settles environment.embeddings (level + 1) inside (runBlock · id) fun _ _ => True)
    (bodies : ∀ role id, role = .loopBody ∨ role = .branch →
      session.Child environment.embeddings parent role id → ∀ after : Session η,
      session.Chain (Policy.free fun _ => True) environment.embeddings after →
      Settles environment.embeddings level after (runBlock · id) fun _ _ => True) :
    Settles environment.embeddings level session
      (fun fuel => Run.node environment (runBlock fuel) fuel scope node) fun _ _ => True := by
  refine of_ready fun ready => ?_
  cases origin with
  | text content => exact write content
  | read path =>
      refine (plain (.onStore _) (Policy.Obeys.follow (lawful environment) trivial path)).bind
        fun value _ _ _ => ?_
      cases path.isSilent with
      | true => exact pure trivial
      | false => exact emit value deeper
  | declare name value constant =>
      refine (evaluate value).bind fun _ _ _ _ => ?_
      exact plain (.declare _ _ _) (.declare (lawful environment) trivial trivial)
  | assign name value =>
      refine (evaluate value).bind fun _ _ _ _ => ?_
      exact plain (.assign _ _ _) (.assign (lawful environment) trivial trivial)
  | loop header body opening isMade =>
      exact loop iterates (bodies _ body (.inl rfl) isMade)
  | leave target opening enclosing =>
      exact plain (.update fun _ => rfl) (.update (fun _ => .mark target true trivial) trivial)
  | branches conditions otherwise opening areMade lastMade =>
      refine branches fun id listed => bodies .branch id (.inr rfl) ?_
      rcases listed with listed | isLast
      · obtain ⟨branch, member, rfl⟩ := List.mem_map.mp listed
        exact areMade branch member
      · exact lastMade id isLast
  | definePlaceholder key parameter body opening isMade =>
      obtain ⟨block, isThere, role, -⟩ := isMade.exists_block
      exact plain (.update fun _ => rfl)
        (.update (fun _ => .define key ⟨body, parameter⟩ trivial ⟨block, isThere, role⟩) trivial)
  | usePlaceholder key argument =>
      cases argument with
      | none => exact runPlaceholder key none deeper
      | some expression =>
          have evaluated : Settles environment.embeddings level session
              (fun _ => onStore (expression.evaluate environment.host scope) >>= fun value =>
                Pure.pure (some value)) fun _ _ => True :=
            (evaluate expression).bind fun _ _ _ _ => pure trivial
          refine evaluated.bind fun argument _ _ _ => ?_
          exact runPlaceholder key argument deeper
  | embed block opening isMade =>
      exact nested _ _ fun below inside chain => deeper below inside block
        (chain.lt ready.valid isMade.lt_size)
  | malformed error expected => exact fail error

theorem nodes {runNode : Nat → Node → Run η Unit} (enclosingLoop : Option BlockRef)
    {listed : List Node}
    (each : ∀ node ∈ listed, ∀ after : Session η,
      session.Chain (Policy.free fun _ => True) embeddings after →
      Settles embeddings level after (runNode · node) fun _ _ => True) :
    Settles embeddings level session (fun fuel => Run.nodes (runNode fuel) enclosingLoop listed)
      fun _ _ => True := by
  induction listed generalizing session with
  | nil => exact pure trivial
  | cons node rest induction =>
      unfold Run.nodes
      refine (wasLeft enclosingLoop).bind fun left asked chain _ => ?_
      cases left with
      | true => exact pure trivial
      | false =>
          refine (each node List.mem_cons_self asked chain).bind fun _ ran chainRan _ => ?_
          exact induction fun later member after chainAfter =>
            each later (List.mem_cons_of_mem _ member) after
              ((chain.trans chainRan).trans chainAfter)

end

end Settles

variable {environment : Environment η} {level : Nat} {session : Session η}

/-- A block settles if shorter blocks do on its level, and all blocks one level deeper. -/
theorem settles_block {id : BlockRef} (present : id.index < session.blocks.size)
    (deeper : level < nestingLimit → ∀ (inside : Session η) (id : BlockRef),
      id.index < inside.blocks.size →
      Settles environment.embeddings (level + 1) inside (block environment · id) fun _ _ => True)
    (shorter : ∀ (inside : Session η) (inner : BlockRef), inner.index < inside.blocks.size →
      (inside.block inner).length < (session.block id).length →
      Settles environment.embeddings level inside (block environment · inner) fun _ _ => True) :
    Settles environment.embeddings level session (block environment · id) fun _ _ => True := by
  suffices here : Settles environment.embeddings level session
      (fun fuel => blockWith environment (block environment fuel) fuel id) fun _ _ => True from
    here.shift fun _ => rfl
  unfold blockWith
  refine .of_ready fun ready => ?_
  have lawful := Settles.lawful environment
  refine (Settles.plain (.nodesOf environment id)
    (.nodesOf lawful present (.inl trivial))).bind fun parsed opened chain isParsed => ?_
  refine .of_ready fun readyOpened => .get_bind ?_
  have isThere := Session.getElem?_of_lt (chain.lt ready.valid present)
  have sourcePresent := readyOpened.valid.source_lt isThere
  have fits := readyOpened.valid.fits isThere
  obtain ⟨-, origins⟩ := readyOpened.valid.parsed id _ parsed isThere isParsed
  have iterates := readyOpened.iterates opened .refl id parsed isParsed
  refine (Settles.plain (.seek _ _) (.seek sourcePresent fits.start)).bind
    fun _ started chainStarted _ => ?_
  refine (Settles.nodes _ fun member isMember after chainAfter => ?_).bind
    fun _ ended chainEnded _ => ?_
  · have toAfter := chainStarted.trans chainAfter
    have extAfter := toAfter.toExtends readyOpened.valid
    have origin := (origins member isMember).mono fun _ _ child => extAfter.child child
    refine .of_ready fun readyAfter => ?_
    refine .node origin (iterates member isMember) deeper fun role inner isBody child
      last toLast => ?_
    have extLast := toLast.toExtends readyAfter.valid
    have ext := ((chain.trans toAfter).toExtends ready.valid)
    refine shorter last inner (extLast.lt child.lt_size) ?_
    have length {before after : Session η} (ext : before.Extends after) {id : BlockRef}
        (present : id.index < before.blocks.size) :
        (after.block id).length = (before.block id).length :=
      Block.eq_of_outline Block.length (fun _ => rfl) (ext.outline_block present)
    rw [length extLast child.lt_size, ← length ext present]
    exact child.length_lt isBody
  · have ext := (chainStarted.trans chainEnded).toExtends readyOpened.valid
    obtain ⟨sourceEnded, text⟩ := ext.source _ sourcePresent
    exact (Settles.plain (.seek _ _) (.seek sourceEnded (text ▸ fits.finish))).weaken
      fun _ _ _ => trivial

/-- Every block settles: the measure is how many levels are left and then how long the block is. -/
theorem settles (environment : Environment η) (left : Nat) {level : Nat}
    (enough : nestingLimit ≤ level + left) (session : Session η) {id : BlockRef}
    (present : id.index < session.blocks.size) :
    Settles environment.embeddings level session (block environment · id) fun _ _ => True := by
  induction left generalizing level session id with
  | zero =>
      induction length : (session.block id).length using Nat.strongRecOn generalizing
        session id with
      | ind length induction =>
          subst length
          exact settles_block present (fun below => absurd enough (Nat.not_le.mpr below))
            fun inside inner isThere shorter => induction _ shorter inside isThere rfl
  | succ left deeper =>
      induction length : (session.block id).length using Nat.strongRecOn generalizing
        session id with
      | ind length induction =>
          subst length
          exact settles_block present
            (fun _ inside inner isThere => deeper (by omega) inside isThere)
            fun inside inner isThere shorter => induction _ shorter inside isThere rfl

end Run

end Stencil
