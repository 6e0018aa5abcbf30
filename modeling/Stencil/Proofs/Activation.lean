import Stencil.Proofs.Run.Refines
import Stencil.Proofs.Template.Scopes

/-!
# Activations of placeholders

A placeholder body has one scope, which is cleared each time the placeholder is used.  While a use
of it goes on, the argument and what the body declared stay bound until the body is entered again,
whatever else its nodes run.
-/

namespace Stencil

open Text

variable {η : Type}

/-- The session in which the body of a placeholder is entered with an argument. -/
def Session.entering (session : Session η) (placeholder : Placeholder) (argument : Value) :
    Session η :=
  let scope := (session.block placeholder.body).scope
  { session.modifyHeap fun heap => (heap.clear scope).put scope placeholder.parameter argument with
    depth := session.depth + 1 }

/-- The use of a placeholder enters its body, runs its nodes, and ends one level higher again. -/
theorem Run.runPlaceholder_run {environment : Environment η} {session : Session η} {fuel : Nat}
    {key : Placeholder.Key} {placeholder : Placeholder} (argument : Value)
    (registered : session.placeholders.get? key = some placeholder)
    (below : session.depth < nestingLimit) :
    (runPlaceholder (block environment (fuel + 1)) key (some argument)).run.run session =
      (andFinally (blockBy environment (node environment (block environment fuel) fuel)
        placeholder.body) fun session => { session with depth := session.depth - 1 }).run.run
          (session.entering placeholder argument) := by
  rw [← blockWith_eq, ran_runPlaceholder_some argument registered]
  change (if nestingLimit ≤ session.depth then _ else _ : Run η Unit).run.run _ = _
  rw [if_neg (Nat.not_le.mpr below)]
  rfl

/-- No node of a block, nor of one in it, gives a name another value. -/
def Session.Unassigned (session : Session η) (id : BlockRef) (name : String) : Prop :=
  ∀ inner, session.Within id inner → ∀ nodes expression,
    (session.block inner).nodes? = some nodes → .assign name expression ∉ nodes

namespace Session

variable {environment : Environment η} {session before after : Session η} {id : BlockRef}
  {name : String} {value : Value}

theorem Unassigned.of_extends (unassigned : after.Unassigned id name) (ext : before.Extends after) :
    before.Unassigned id name :=
  fun inner within nodes expression parsed =>
    unassigned inner (within.mono ext) nodes expression (ext.nodes? parsed)

section

variable (keeps : environment.host.KeepsParents)
  (isNested : before.Nested environment.embeddings) (present : id.index < before.blocks.size)
  (owns : (before.block id).role = .placeholder)
  (spares : environment.host.Spares (before.block id).scope)

include keeps isNested present owns spares

/-- What a placeholder body binds stays bound as long as the body is not entered and nothing in it
gives the name another value. -/
theorem Effect.get? (effect : before.Effect environment (· ≠ id) after)
    (unassigned : before.Unassigned id name)
    (bound : before.store.heap.get? (before.block id).scope name = some value) :
    after.store.heap.get? (before.block id).scope name = some value := by
  have isOwn : (before.block id).role.ownsScope = true := by rw [owns]; rfl
  have inRange := isNested.inRange id present
  have apart {other : BlockRef} (live : before.Live other)
      (ownsOther : (before.block other).role.ownsScope = true)
      (may : (before.block other).role = .placeholder → other ≠ id) :
      (before.block id).scope ≠ (before.block other).scope := by
    intro same
    obtain rfl := isNested.apart id other present (live.lt isNested) isOwn ownsOther same
    exact may owns rfl
  cases effect with
  | write text => exact bound
  | depth depth => exact bound
  | mark target left => exact bound
  | seek source offset found => exact bound
  | define => exact bound
  | parse other presentOther unparsed atStart =>
      rw [Heap.get?, entries_parseBlock presentOther inRange]
      exact bound
  | evaluate store changes =>
      rw [Heap.get?, changes.entries keeps spares inRange]
      exact bound
  | clear other live ownsOther may =>
      change ((before.store.heap.modifyEntries _ _).entries _).get? name = some value
      rw [Heap.entries_modifyEntries_of_ne _ (apart live ownsOther may)]
      exact bound
  | bind other key added live ownsOther may =>
      change ((before.store.heap.modifyEntries _ _).entries _).get? name = some value
      rw [Heap.entries_modifyEntries_of_ne _ (apart live ownsOther may)]
      exact bound
  | declare other nodes key expression constant added live parsed member =>
      exact Heap.get?_insert_of_get? bound
  | assign other nodes key expression added live parsed member =>
      change (before.store.heap.assign (before.block other).scope key added).2.get? _ name = _
      unfold Heap.assign
      split
      · rename_i scope found
        by_cases same : (before.block id).scope = scope
        · have around : scope ∈ before.store.heap.chain (before.block other).scope :=
            List.mem_of_find?_eq_some found
          have different : name ≠ key := by
            rintro rfl
            rw [← same] at around
            have within := isNested.within_of_mem_chain present isOwn live around
            exact unassigned other within nodes expression parsed member
          rw [← same]
          exact (Heap.get?_put_of_ne added different).trans bound
        · rw [Heap.get?, Heap.put, Heap.entries_modifyEntries_of_ne _ same]
          exact bound
      · exact bound

theorem Effects.get? (effects : before.Effects environment (· ≠ id) after)
    (unassigned : after.Unassigned id name)
    (bound : before.store.heap.get? (before.block id).scope name = some value) :
    after.store.heap.get? (before.block id).scope name = some value := by
  induction effects with
  | refl => exact bound
  | @tail middle after earlier effect induction =>
      have toMiddle : before.Effects environment (· ≠ id) middle := earlier
      have ext := toMiddle.toExtends keeps isNested
      have isNestedMiddle := toMiddle.nested keeps isNested
      have extLater := (Effects.single effect).toExtends keeps isNestedMiddle
      have unassignedMiddle := unassigned.of_extends extLater
      have boundMiddle := induction unassignedMiddle
      have role := ext.role present
      have scope := ext.scope present
      rw [← scope] at spares boundMiddle ⊢
      exact effect.get? keeps isNestedMiddle (ext.lt present) (role.trans owns) spares
        unassignedMiddle boundMiddle

end

end Session

/-- Whether no node of a parsed block gives a name another value. -/
def Session.assignsNowhere (session : Session η) (name : String) : Bool :=
  session.blocks.all fun block => (block.nodes?.getD []).all fun
    | .assign other _ => other != name
    | _ => true

theorem Session.unassigned_of_assignsNowhere {session : Session η} {id : BlockRef} {name : String}
    (nowhere : session.assignsNowhere name = true) : session.Unassigned id name := by
  intro inner within nodes expression parsed member
  have present := lt_of_nodes? parsed
  have all := Array.all_eq_true.mp nowhere inner.index present
  rw [← Session.block_eq_of_getElem? (Array.getElem?_eq_getElem present), parsed] at all
  have isOther := List.all_eq_true.mp all _ member
  simp at isOther

/-- Nodes of a body run one after another, and none of them runs the body again; the others are left
to be run. -/
inductive Run.Comes (environment : Environment η) (fuel : Nat) (body : BlockRef)
    (scope : ScopeRef) : List Node → Session η → List Node → Session η → Prop where
  | here (nodes : List Node) (session : Session η) :
      Comes environment fuel body scope nodes session nodes session
  | later {node : Node} {nodes rest : List Node} {session after now : Session η}
      (ran : (Run.node environment (Run.block environment fuel) fuel scope node).run.run session =
        (.ok (), after))
      (spares : (Run.node environment (Run.sparing environment body fuel) fuel scope node).run.run
        session = (.ok (), after))
      (comes : Comes environment fuel body scope nodes after rest now) :
      Comes environment fuel body scope (node :: nodes) session rest now

namespace Run

/-- A run that spares a block does what the run of all blocks does, unless it stops at that one. -/
theorem Refines.sparing (environment : Environment η) (spared : BlockRef) (fuel : Nat)
    (id : BlockRef) :
    (Run.sparing environment spared fuel id).Refines (Run.block environment fuel id) := by
  induction fuel generalizing id with
  | zero => exact stop _
  | succ fuel induction =>
      unfold Run.sparing
      split
      · exact stop _
      · exact blockWith induction (Nat.le_refl fuel) id

variable {environment : Environment η} {session start now : Session η} {fuel : Nat}
  {body : BlockRef} {scope : ScopeRef} {listed nodes rest : List Node}

theorem ran_node_of_sparing {node : Node} {after : Session η}
    (spares : (Run.node environment (sparing environment body fuel) fuel scope node).run.run
      session = (.ok (), after)) :
    (Run.node environment (block environment fuel) fuel scope node).run.run session =
      (.ok (), after) := by
  have refines : Run.Refines (Run.node environment (sparing environment body fuel) fuel scope node)
      (Run.node environment (block environment fuel) fuel scope node) :=
    .node (Refines.sparing environment body fuel) scope node (Nat.le_refl fuel)
  rcases refines session with same | stopped
  · exact same.symm.trans spares
  · rw [spares] at stopped
    cases stopped

/-- It is enough that a node runs without the body. -/
theorem Comes.spared {node : Node} {after : Session η}
    (spares : (Run.node environment (sparing environment body fuel) fuel scope node).run.run
      session = (.ok (), after))
    (comes : Comes environment fuel body scope nodes after rest now) :
    Comes environment fuel body scope (node :: nodes) session rest now :=
  .later (ran_node_of_sparing spares) spares comes

theorem Comes.effects (keeps : environment.host.KeepsParents)
    (comes : Comes environment fuel body scope nodes start rest now)
    (isNested : start.Nested environment.embeddings)
    {id : BlockRef} (holds : start.Holds scope id listed)
    (sublist : ∀ node ∈ nodes, node ∈ listed) :
    start.Effects environment (· ≠ body) now := by
  induction comes with
  | here nodes session => exact .refl
  | @later node nodes rest session after now ran spares comes induction =>
      have lawful : (Rules.live environment (· ≠ body) fun _ _ => True).Lawful environment :=
        Rules.lawful_live keeps
      have does : Run.Does environment _ session
          (Run.node environment (sparing environment body fuel) fuel scope node) fun _ _ => True :=
        .node lawful (performs_sparing keeps body fuel) holds.runsIn
          (sublist node List.mem_cons_self) trivial
      obtain ⟨deeds, -⟩ := does isNested (.inr ⟨(), congrArg Prod.fst spares⟩)
      rw [spares] at deeds
      have effects : Session.Effects environment (· ≠ body) session after :=
        deeds.effects lawful isNested
      refine effects.trans (induction (effects.nested keeps isNested)
        (holds.mono keeps effects isNested) ?_)
      exact fun node member => sublist node (List.mem_cons_of_mem _ member)

theorem Comes.suffix (comes : Comes environment fuel body scope nodes start rest now) :
    rest <:+ nodes := by
  induction comes with
  | here nodes session => exact List.suffix_refl nodes
  | @later node nodes rest session after now ran spares comes induction =>
      exact induction.trans (List.suffix_cons node nodes)

/-- What the scope of a placeholder body binds is still bound when later nodes of the body run. -/
theorem Comes.lookup? (keeps : environment.host.KeepsParents)
    (comes : Comes environment fuel body scope nodes start rest now)
    (isNested : start.Nested environment.embeddings) (holds : start.Holds scope body listed)
    (sublist : ∀ node ∈ nodes, node ∈ listed) (owns : (start.block body).role = .placeholder)
    (spares : environment.host.Spares scope) {name : String} {value : Value}
    (unassigned : now.Unassigned body name)
    (bound : start.store.heap.get? scope name = some value) :
    now.store.heap.lookup? scope name = some (.entry value) := by
  have effects := comes.effects keeps isNested holds sublist
  obtain ⟨live, rfl, parsed⟩ := holds
  have present := live.lt isNested
  have later := (effects.keepsParents keeps isNested _ (isNested.inRange body present)).1
  exact Heap.lookup?_of_get? later
    (effects.get? keeps isNested present owns spares unassigned bound)

theorem declare_ok {name : String} {value : Value} {after : Session η}
    (ran : (declare scope name value).run.run session = (.ok (), after)) :
    after = session.modifyHeap (·.put scope name value) := by
  obtain ⟨inserted, middle, insertion, ran⟩ := ok_of_bind ran
  obtain ⟨isNew, rfl⟩ := Prod.mk.inj insertion
  change Except.ok (session.store.heap.insert scope name value).1 = .ok inserted at isNew
  change _ = session.modifyHeap fun heap => heap.put scope name value
  obtain rfl := Except.ok.inj isNew
  cases known : session.store.heap.contains scope name with
  | true =>
      simp only [Heap.insert, known, if_true] at ran
      cases ran
  | false =>
      have added : session.store.heap.insert scope name value =
          (true, session.store.heap.put scope name value) := by simp [Heap.insert, known]
      rw [added] at ran
      have after_eq := (Prod.mk.inj ran).2
      change session.modifyHeap (fun heap => (heap.insert scope name value).2) = after at after_eq
      rw [← after_eq, Session.modifyHeap, Session.modifyHeap, added]

/-- A declaration that succeeds binds the name to the value of its expression. -/
theorem get?_of_declare (keeps : environment.host.KeepsParents) {name : String}
    {expression : Expression} {constant : Bool} {runBlock : BlockRef → Run η Unit}
    {after : Session η} (inRange : scope.index < session.store.heap.scopes.size)
    (ran : (Run.node environment runBlock fuel scope (.declare name expression constant)).run.run
      session = (.ok (), after)) :
    ∃ value, ((expression.evaluate environment.host scope).run.run session.store).1 = .ok value ∧
      after.store.heap.get? scope name = some value := by
  change (onStore (expression.evaluate environment.host scope) >>= declare scope name).run.run
    session = _ at ran
  obtain ⟨value, middle, evaluated, ran⟩ := ok_of_bind ran
  have changed : Store.Changes environment.host session.store
      ((expression.evaluate environment.host scope).run.run session.store).2 :=
    (Evaluator.Changes.evaluate scope expression).store session.store
  have later := (changed.keepsParents keeps scope inRange).1
  obtain ⟨answer, rfl⟩ := Prod.mk.inj evaluated
  change ((expression.evaluate environment.host scope).run.run session.store).1.mapError
    Stop.failed = _ at answer
  refine ⟨value, ?_, ?_⟩
  · cases outcome : ((expression.evaluate environment.host scope).run.run session.store).1 with
    | error error => rw [outcome] at answer; cases answer
    | ok found => rw [outcome] at answer; cases answer; rfl
  · rw [declare_ok ran]
    exact Heap.get?_put_self name value later

/-- What a node of a placeholder body declared is still bound when later nodes of the body run. -/
theorem Comes.lookup?_declared (keeps : environment.host.KeepsParents) {name : String}
    {expression : Expression} {constant : Bool} {between : List Node} {before after : Session η}
    (comesBefore : Comes environment fuel body scope nodes start
      (.declare name expression constant :: between) before)
    (isNested : start.Nested environment.embeddings) (holds : start.Holds scope body listed)
    (sublist : ∀ node ∈ nodes, node ∈ listed) (owns : (start.block body).role = .placeholder)
    (spares : environment.host.Spares scope)
    (ran : (Run.node environment (Run.block environment fuel) fuel scope
      (.declare name expression constant)).run.run before = (.ok (), after))
    (comesAfter : Comes environment fuel body scope between after rest now)
    (unassigned : now.Unassigned body name) :
    ∃ value, ((expression.evaluate environment.host scope).run.run before.store).1 = .ok value ∧
      now.store.heap.lookup? scope name = some (.entry value) := by
  have coming := comesBefore.effects keeps isNested holds sublist
  have nestedBefore := coming.nested keeps isNested
  have holdsBefore := holds.mono keeps coming isNested
  have listedHere := sublist _ (comesBefore.suffix.subset List.mem_cons_self)
  have lawful : (Rules.live environment (fun _ => True) fun _ _ => True).Lawful environment :=
    Rules.lawful_live keeps
  have performs := performs_block lawful (fun _ => trivial) (fun _ _ => trivial) fuel
  have does : Run.Does environment _ before (Run.node environment (Run.block environment fuel) fuel
      scope (.declare name expression constant)) fun _ _ => True :=
    .node lawful performs holdsBefore.runsIn listedHere trivial
  obtain ⟨deeds, -⟩ := does nestedBefore (.inl fun _ => trivial)
  rw [ran] at deeds
  have declaring := deeds.effects lawful nestedBefore
  have holdsAfter := holdsBefore.mono keeps declaring nestedBefore
  have inRange := nestedBefore.inRange body (holdsBefore.live.lt nestedBefore)
  rw [holdsBefore.isScope] at inRange
  obtain ⟨value, isValue, bound⟩ := get?_of_declare keeps inRange ran
  have ext := (coming.toExtends keeps isNested).trans (declaring.toExtends keeps nestedBefore)
  have ownsAfter := (ext.role (holds.live.lt isNested)).trans owns
  refine ⟨value, isValue, comesAfter.lookup? keeps (declaring.nested keeps nestedBefore) holdsAfter
    (fun node member => sublist node ?_) ownsAfter spares unassigned bound⟩
  exact comesBefore.suffix.subset (List.mem_cons_of_mem _ member)

end Run

namespace Session

variable {environment : Environment η} {session : Session η} {placeholder : Placeholder}

theorem entering_effects (keeps : environment.host.KeepsParents)
    (nested : session.Nested environment.embeddings) (argument : Value)
    (live : session.Live placeholder.body)
    (owns : (session.block placeholder.body).role = .placeholder) :
    session.Effects environment (fun _ => True) (session.entering placeholder argument) := by
  have isOwn : (session.block placeholder.body).role.ownsScope = true := by rw [owns]; rfl
  have emptied : session.Effects environment (fun _ => True) _ :=
    .single (.clear placeholder.body live isOwn fun _ => trivial)
  have bound : Effect environment (fun _ => True) _ _ :=
    .bind placeholder.body placeholder.parameter argument (emptied.live keeps nested live) isOwn
      fun _ => trivial
  exact emptied.trans ((Effects.single bound).trans (.single (.depth _)))

/-- The body of a placeholder runs in a state that was reached by entering it. -/
structure Entered (environment : Environment η) (session : Session η) (placeholder : Placeholder)
    (argument : Value) (body : Block) (nodes : List Node) (start : Session η) : Prop where
  nested : start.Nested environment.embeddings
  holds : start.Holds body.scope placeholder.body nodes
  owns : (start.block placeholder.body).role = .placeholder
  scope : body.scope = (session.block placeholder.body).scope
  bound : start.Unassigned placeholder.body placeholder.parameter →
    start.store.heap.get? body.scope placeholder.parameter = some argument

theorem entered_of_openBlock (keeps : environment.host.KeepsParents)
    (nested : session.Nested environment.embeddings) {key : Placeholder.Key}
    (registered : session.placeholders.get? key = some placeholder) {argument : Value}
    (spares : environment.host.Spares (session.block placeholder.body).scope) {body : Block}
    {nodes : List Node} {start : Session η}
    (opened : (Run.openBlock environment placeholder.body).run.run
      (session.entering placeholder argument) = (.ok (body, nodes), start)) :
    session.Entered environment placeholder argument body nodes start := by
  have live := nested.placeholders key placeholder registered
  have owns : (session.block placeholder.body).role = .placeholder := by
    obtain ⟨block, isThere, isRole⟩ := nested.valid.placeholders key placeholder registered
    rw [Session.block_eq_of_getElem? isThere]
    exact isRole
  have entered := entering_effects keeps nested argument live owns
  have nestedEntered := entered.nested keeps nested
  have present := (entered.toExtends keeps nested).lt (live.lt nested)
  have liveEntered := entered.live keeps nested live
  have lawful : (Run.Rules.live environment (· ≠ placeholder.body) fun _ _ => True).Lawful
      environment := Run.Rules.lawful_live keeps
  -- Opening a block enters nothing, so it spares the body that it opens.
  obtain ⟨deeds, isOpened⟩ := Run.Does.openBlock lawful liveEntered nestedEntered
    (.inr ⟨_, congrArg Prod.fst opened⟩)
  rw [opened] at deeds isOpened
  obtain ⟨-, isScope, isParsed⟩ := isOpened _ rfl
  have opening := deeds.effects lawful nestedEntered
  have ext := opening.toExtends keeps nestedEntered
  have sameScope : body.scope = (session.block placeholder.body).scope :=
    isScope.symm.trans (ext.scope present)
  refine ⟨opening.nested keeps nestedEntered, ⟨?_, isScope, isParsed⟩,
    (ext.role present).trans owns, sameScope, fun unassigned => ?_⟩
  · exact opening.live keeps nestedEntered liveEntered
  · have inRange : (session.block placeholder.body).scope.index <
        (session.store.heap.clear (session.block placeholder.body).scope).scopes.size := by
      rw [Heap.clear, Heap.size_modifyEntries]
      exact nested.inRange placeholder.body (live.lt nested)
    have bound : (session.entering placeholder argument).store.heap.get?
        ((session.entering placeholder argument).block placeholder.body).scope
          placeholder.parameter = some argument :=
      Heap.get?_put_self placeholder.parameter argument inRange
    rw [sameScope]
    have stays := opening.get? keeps nestedEntered present owns spares unassigned bound
    exact stays

end Session

namespace Template

variable {source : AnySource} {options : Options} {host : Host η} {state : η}
  {template : Template η}

/-- While the body of a placeholder is not entered again, a use of it is not disturbed.  At every
node of the body the argument is bound to the parameter, and what the use declared in the body is
bound to its value, if nothing in the body gives that name another value.  Whatever the nodes before
it wrote, used or embedded makes no difference, as long as the host leaves the scope alone. -/
theorem activation_apart
    (evolves : (ofSource source options host state).Evolves Store.KeepsParents template)
    (keeps : host.KeepsParents) {session start now : Session η} {key : Placeholder.Key}
    {placeholder : Placeholder} {argument : Value} {body : Block} {nodes rest : List Node}
    {fuel : Nat}
    (during : Session.Effects ⟨host, options.embeddings⟩ (fun _ => True)
      { template.session with writes := #[] } session)
    (registered : session.placeholders.get? key = some placeholder)
    (spares : host.Spares (session.block placeholder.body).scope)
    (opened : (Run.openBlock ⟨host, options.embeddings⟩ placeholder.body).run.run
      (session.entering placeholder argument) = (.ok (body, nodes), start))
    (comes : Run.Comes ⟨host, options.embeddings⟩ fuel placeholder.body body.scope nodes start
      rest now) :
    (now.Unassigned placeholder.body placeholder.parameter →
      now.store.heap.lookup? body.scope placeholder.parameter = some (.entry argument)) ∧
    ∀ name expression constant between (before after : Session η),
      Run.Comes ⟨host, options.embeddings⟩ fuel placeholder.body body.scope nodes start
        (.declare name expression constant :: between) before →
      (Run.node ⟨host, options.embeddings⟩ (Run.block ⟨host, options.embeddings⟩ fuel) fuel
        body.scope (.declare name expression constant)).run.run before = (.ok (), after) →
      Run.Comes ⟨host, options.embeddings⟩ fuel placeholder.body body.scope between after rest now →
      now.Unassigned placeholder.body name →
      ∃ value, ((expression.evaluate host body.scope).run.run before.store).1 = .ok value ∧
        now.store.heap.lookup? body.scope name = some (.entry value) := by
  have begun := evolves.begun keeps
  have nested := during.nested keeps begun.1
  have entered := Session.entered_of_openBlock keeps nested registered spares opened
  rw [← entered.scope] at spares
  refine ⟨fun unassigned => ?_, ?_⟩
  · have coming := comes.effects keeps entered.nested entered.holds fun _ member => member
    have unassignedStart := unassigned.of_extends (coming.toExtends keeps entered.nested)
    exact comes.lookup? keeps entered.nested entered.holds (fun _ member => member) entered.owns
      spares unassigned (entered.bound unassignedStart)
  · intro name expression constant between before after comesBefore ran comesAfter unassigned
    exact comesBefore.lookup?_declared keeps entered.nested entered.holds (fun _ member => member)
      entered.owns spares ran comesAfter unassigned

/-- A template whose placeholder uses itself with a smaller argument, as an example. -/
def countdown : Template Unit :=
  ofString ("@define_placeholder(f, f, x)@if(x > 0)@placeholder(f, x - 1)@endif@var(x)" ++
    "@end_define_placeholder@placeholder(f, 1)") {} Host.none ()

/-- Whether its use of the placeholder comes to a use with 0 in the branch, which leaves 0 behind in
the scope of the body. -/
def countdownNests : Bool :=
  (Run.openBlock countdown.environment countdown.root).succeeds countdown.session
    fun (root, nodes) opened =>
      match nodes with
      | [define, .usePlaceholder key (some one)] =>
          decide (key = .default "f") &&
          (Run.node countdown.environment (Run.block countdown.environment 9) 9 root.scope
            define).succeeds opened fun _ begun =>
              decide (((one.evaluate Host.none root.scope).run.run begun.store).1.toOption =
                some (.int 1)) &&
              decide (begun.placeholders.get? (.default "f") = some ⟨⟨10⟩, some "x"⟩) &&
              (Run.openBlock countdown.environment ⟨10⟩).succeeds
                (begun.entering ⟨⟨10⟩, some "x"⟩ (.int 1)) fun (body, nodes) start =>
                  match nodes with
                  | [.branches conditions otherwise, .read _] =>
                      (Run.node countdown.environment (Run.block countdown.environment 8) 8
                        body.scope (.branches conditions otherwise)).succeeds start fun _ now =>
                          now.assignsNowhere "x" &&
                          decide (now.store.heap.lookup? body.scope "x" = some (.entry (.int 0)))
                  | _ => false
      | _ => false

/-- A use of a placeholder is disturbed by one inside it: when the outer body goes on, its parameter
has the argument of the inner use, although no node assigns or declares it. -/
theorem activation_disturbed_countdown :
    ∃ (placeholder : Placeholder) (root body : Block) (define branch last : Node) (one : Expression)
      (opened begun start now : Session Unit),
      (Run.openBlock countdown.environment countdown.root).run.run countdown.session =
        (.ok (root, [define, .usePlaceholder (.default "f") (some one)]), opened) ∧
      (Run.node countdown.environment (Run.block countdown.environment 9) 9 root.scope
        define).run.run opened = (.ok (), begun) ∧
      ((one.evaluate Host.none root.scope).run.run begun.store).1.toOption = some (.int 1) ∧
      begun.placeholders.get? (.default "f") = some placeholder ∧
      (Run.openBlock countdown.environment placeholder.body).run.run
        (begun.entering placeholder (.int 1)) = (.ok (body, [branch, last]), start) ∧
      (Run.node countdown.environment (Run.block countdown.environment 8) 8 body.scope
        branch).run.run start = (.ok (), now) ∧
      placeholder.parameter = "x" ∧ now.Unassigned placeholder.body "x" ∧
      (∀ expression constant, .declare "x" expression constant ∉ [branch, last]) ∧
      now.store.heap.lookup? body.scope "x" = some (.entry (.int 0)) := by
  have check : countdownNests = true := by decide +kernel
  unfold countdownNests at check
  obtain ⟨⟨root, nodes⟩, opened, openedRoot, check⟩ := Run.ok_of_succeeds check
  dsimp only at check
  split at check
  case h_2 => cases check
  case h_1 define key one =>
    obtain ⟨isKey, check⟩ := Bool.and_eq_true_iff.mp check
    obtain rfl := of_decide_eq_true isKey
    obtain ⟨_, begun, defined, check⟩ := Run.ok_of_succeeds check
    simp only [Bool.and_eq_true, decide_eq_true_eq] at check
    obtain ⟨⟨isOne, registered⟩, check⟩ := check
    obtain ⟨⟨body, nodes⟩, start, openedBody, check⟩ := Run.ok_of_succeeds check
    dsimp only at check
    split at check
    case h_2 => cases check
    case h_1 conditions otherwise path =>
      obtain ⟨_, now, ran, check⟩ := Run.ok_of_succeeds check
      obtain ⟨nowhere, isZero⟩ := Bool.and_eq_true_iff.mp check
      refine ⟨_, root, body, define, _, _, one, opened, begun, start, now, openedRoot,
        defined, isOne,
        registered, openedBody, ran, rfl, Session.unassigned_of_assignsNowhere nowhere, ?_,
        of_decide_eq_true isZero⟩
      simp

/-- A template with a placeholder that declares a copy of its argument, writes it, and uses another
placeholder that gives the same names to other values, as an example. -/
def copying : Template Unit :=
  ofString ("@define_placeholder(g, g, x)@var y = 0\n@var(x)@end_define_placeholder" ++
    "@define_placeholder(f, f, x)@var y = x\n@var(y)@placeholder(g, y + 1)@var(y)" ++
    "@end_define_placeholder") {} Host.none ()

/-- The session in which its second placeholder is used. -/
def copied : Session Unit := { (copying.render 5).2.session with writes := #[] }

/-- Whether the body begins with a declaration of the argument, what stands in front of its last
node runs without running the body again, and nothing assigns the names. -/
def copiedComes : Bool :=
  (Run.openBlock copying.environment ⟨11⟩).succeeds (copied.entering ⟨⟨11⟩, some "x"⟩ (.int 1))
    fun (body, nodes) start =>
      let spared (node : Node) : Run Unit Unit :=
        Run.node copying.environment (Run.sparing copying.environment ⟨11⟩ 5) 5 body.scope node
      decide (body.role = .placeholder) && match nodes with
      | [.declare name expression constant, write, use, _] =>
          decide (name = "y") &&
          decide (((expression.evaluate Host.none body.scope).run.run start.store).1.toOption =
            some (.int 1)) &&
          (spared (.declare name expression constant)).succeeds start fun _ declared =>
            (spared write).succeeds declared fun _ written =>
              (spared use).succeeds written fun _ now =>
                decide (now.writes = #["1", "2"]) && now.assignsNowhere "x" &&
                  now.assignsNowhere "y"
      | _ => false

theorem activation_apart_copying :
    ∃ (body : Block) (now : Session Unit), body.role = .placeholder ∧ now.writes = #["1", "2"] ∧
      now.store.heap.lookup? body.scope "x" = some (.entry (.int 1)) ∧
      now.store.heap.lookup? body.scope "y" = some (.entry (.int 1)) := by
  have registered : copied.placeholders.get? (.default "f") = some ⟨⟨11⟩, some "x"⟩ := by
    decide +kernel
  have opens : copiedComes = true := by decide +kernel
  unfold copiedComes at opens
  obtain ⟨⟨body, nodes⟩, start, opened, check⟩ := Run.ok_of_succeeds opens
  obtain ⟨isRole, check⟩ := Bool.and_eq_true_iff.mp check
  refine ⟨body, ?_⟩
  split at check
  case h_2 => cases check
  case h_1 name expression constant write use last _ =>
    simp only [Bool.and_eq_true, decide_eq_true_eq] at check
    obtain ⟨⟨rfl, isOne⟩, declares⟩ := check
    obtain ⟨_, declared, ranDeclare, writes⟩ := Run.ok_of_succeeds declares
    obtain ⟨_, written, ranWrite, uses⟩ := Run.ok_of_succeeds writes
    obtain ⟨_, now, ranUse, comes⟩ := Run.ok_of_succeeds uses
    simp only [Bool.and_eq_true, decide_eq_true_eq] at comes
    obtain ⟨⟨isWritten, noX⟩, noY⟩ := comes
    have between : Run.Comes copying.environment 5 ⟨11⟩ body.scope [write, use, last] declared
        [last] now := .spared ranWrite (.spared ranUse (.here _ now))
    have evolves : copying.Evolves Store.KeepsParents (copying.render 5).2 := .render .refl 5
    have during : Session.Effects copying.environment (fun _ => True) copied copied := .refl
    obtain ⟨bound, later⟩ := activation_apart evolves Host.keepsParents_none during registered
      (Host.spares_none _) opened (.spared ranDeclare between)
    obtain ⟨value, isValue, isBound⟩ := later "y" expression constant _ start declared
      (.here _ start) (Run.ran_node_of_sparing ranDeclare) between
      (Session.unassigned_of_assignsNowhere noY)
    rw [isValue] at isOne
    cases isOne
    exact ⟨now, of_decide_eq_true isRole, isWritten,
      bound (Session.unassigned_of_assignsNowhere noX), isBound⟩

end Template

end Stencil
