import Stencil.Proofs.Reading.Blocks

/-!
# Nodes of two runs

Every node of a block does alike in both runs, and so does every block.
-/

namespace Stencil

open Text

variable {η : Type} {rerun : Rerun η} {session after : Session η} {setting : Setting}
  {scope : ScopeRef} {block body : BlockRef} {nodes : List Node}

/-- The nodes of a block only read.  They run in its scope, in which they declare nothing if it is
the global one and which no other block shares otherwise, and belong to loops that the run knows. -/
structure Setting.Stands (setting : Setting) (called : List String) (session : Session η)
    (scope : ScopeRef) (block : BlockRef) (nodes : List Node) : Prop where
  holds : session.Holds scope block nodes
  owns : scope ≠ .global → (session.block block).role.ownsScope = true
  undeclared : scope = .global → ∀ node ∈ nodes, node.declares = false
  read : ∀ node ∈ nodes, node.Reads called
  opened : scope ∈ setting.opened
  marked : ∀ target ∈ (session.block block).enclosingLoop, target ∈ setting.marks

namespace Setting.Stands

theorem later (stands : setting.Stands rerun.called session scope block nodes)
    (settled : session.Settled rerun.environment rerun.called)
    (reads : session.Reads rerun.environment rerun.called after)
    (more : Setting) : (setting.also more).Stands rerun.called after scope block nodes := by
  have present := stands.holds.live.lt settled.nested
  constructor
  · exact stands.holds.mono rerun.keeps reads.effects settled.nested
  · rw [(reads.effects.toExtends rerun.keeps settled.nested).role present]
    exact stands.owns
  · exact stands.undeclared
  · exact stands.read
  · exact Setting.opened_also stands.opened more
  · rw [reads.enclosingLoop settled present]
    exact fun target member => Setting.mark_also (stands.marked target member) more

variable {node : Node} {role : BlockRole}
    (stands : setting.Stands rerun.called session scope block nodes)
  (settled : session.Settled rerun.environment rerun.called) (member : node ∈ nodes)
  (refers : node.Refers role body)

include stands settled member refers

/-- The body of a loop or a branch stands in the scope of its block. -/
theorem inner (owns : role.ownsScope = true) (other : role ≠ .placeholder) :
    session.Inner scope (session.block body).scope body := by
  have placed := settled.nested.placed block nodes stands.holds.parsed node member role body refers
  constructor
  · exact Session.owns_of_refers rerun.keeps settled.nested stands.holds member refers owns other
  · have place := placed.scope
    rw [if_pos owns, stands.holds.isScope] at place
    exact place
  · have later := placed.later owns
    rw [stands.holds.isScope] at later
    exact later

theorem enclosingLoop :
    (session.block body).enclosingLoop = role.leaves (session.block block).enclosingLoop body := by
  have isThere := Session.getElem?_of_lt (stands.holds.live.lt settled.nested)
  obtain ⟨-, origins⟩ := settled.nested.valid.parsed block _ nodes isThere stands.holds.parsed
  exact ((origins node member).made refers).enclosingLoop

/-- A branch may be entered. -/
theorem enters (isBranch : role = .branch) :
    setting.Enters session scope (session.block body).scope body := by
  subst isBranch
  constructor
  · exact stands.inner settled member refers rfl nofun
  · exact stands.opened
  · rw [stands.enclosingLoop settled member refers]
    exact stands.marked

end Setting.Stands

namespace Rerun.Mirrors

/-- Both runs declare a name, unless both have it already. -/
theorem declare (owns : Session.Owns (fun _ => True) session scope block)
    (opened : scope ∈ setting.opened) {name : String} (unused : name ∉ rerun.called)
    {value : Value} (isKnown : value ∈ setting.values) :
    rerun.Mirrors setting session (Run.declare scope name value)
      (Run.declare scope name (rerun.shift.value value)) id (fun _ _ => True) fun _ => {} := by
  have ran (value : Value) (session : Session η) : (Run.declare scope name value).run.run session =
      (if session.store.heap.contains scope name then
        Run.fail (.reference (.alreadyDeclared name (session.store.heap.scope scope).name))
      else Run.bindName scope name value : Run η Unit).run.run session := by
    have inserting : (Run.onHeap (·.insert scope name value)).run.run session =
        (.ok (session.store.heap.insert scope name value).1, { session with store :=
          { session.store with heap := (session.store.heap.insert scope name value).2 } }) := rfl
    unfold Run.declare
    by_cases has : session.store.heap.contains scope name = true
    · have inserted : session.store.heap.insert scope name value = (false, session.store.heap) := by
        rw [Heap.insert, if_pos has]
      rw [inserted] at inserting
      rw [if_pos has]
      exact Run.run_bind_of_ok inserting
    · have inserted : session.store.heap.insert scope name value =
          (true, session.store.heap.put scope name value) := by
        rw [Heap.insert, if_neg has]
      rw [inserted] at inserting
      rw [if_neg has]
      exact Run.run_bind_of_ok inserting
  apply of_settled
  intro settled
  have inRange : scope.index < session.store.heap.scopes.size := by
    rw [← owns.isScope]
    exact settled.nested.inRange block (owns.live.lt settled.nested)
  have contains {view : View} {other : Session η}
      (known : setting.Known view session.store.heap) (twin : rerun.Twin view session other) :
      other.store.heap.contains scope name = session.store.heap.contains scope name := by
    have entries := (twin.alike.scopes scope (known.scopes scope opened).known).2.2.1
    rw [Heap.contains, Heap.contains, entries, Dictionary.contains_mapValues]
  by_cases has : session.store.heap.contains scope name = true
  · apply congr _ _ (fail (.reference
      (.alreadyDeclared name (session.store.heap.scope scope).name)))
    · rw [ran, if_pos has]
    · intro view other known twin ahead
      rw [ran, contains known twin, if_pos has, (twin.scopes ahead inRange).2]
  · have mirrors : rerun.Mirrors setting session (Run.bindName scope name value)
        (Run.bindName scope name (rerun.shift.value value)) id (fun _ _ => True) fun _ => {} :=
      bindName owns opened unused value fun view heap known => known.values value isKnown
    apply congr _ _ mirrors
    · rw [ran, if_neg has]
    · intro view other known twin _
      rw [ran, contains known twin, if_neg has]

theorem argument (opened : scope ∈ setting.opened) {argument : Option Expression}
    (calls : ∀ given ∈ argument, ∀ name ∈ given.calls, name ∈ rerun.called) :
    rerun.Mirrors setting session
      (argument.mapM fun given => Run.onStore (given.evaluate rerun.environment.host scope))
      (argument.mapM fun given => Run.onStore (given.evaluate rerun.environment.host scope))
      (Option.map rerun.shift.value) (fun _ _ => True) fun value => { values := value.toList } := by
  cases argument with
  | none => exact pure rfl trivial fun _ _ known => known.none
  | some given =>
      apply bind (expression scope given setting session opened (calls given rfl))
      intro value after _ _ _
      apply pure
      · rfl
      · trivial
      · exact fun view heap known => known.ofValue (known.values value Setting.gained_value)

section

variable {runBlock : BlockRef → Run η Unit} (plays : rerun.Plays runBlock)

include plays

/-- A node of a block does alike in both runs. -/
theorem node (stands : setting.Stands rerun.called session scope block nodes) {node : Node}
    (member : node ∈ nodes) (fuel : Nat) :
    rerun.Mirrors setting session (Run.node rerun.environment runBlock fuel scope node)
      (Run.node rerun.environment runBlock fuel scope node) id (fun _ _ => True)
      fun _ => {} := by
  apply of_settled
  intro settled
  have opened := stands.opened
  have read := stands.read node member
  unfold Run.node
  cases node with
  | text content => exact write content
  | read path =>
      have none (value : Value) (isValue : value ∈ (.none : Option Value)) :
          value ∈ setting.values := by cases isValue
      apply bind (follow scope .none path setting session opened none read.calls)
      intro value after _ _ _
      split
      · exact done
      · exact emit plays Setting.gained_value
  | declare name value constant =>
      have notGlobal : scope ≠ .global := by
        intro isGlobal
        cases stands.undeclared isGlobal _ member
      apply bind (expression scope value setting session opened read.calls)
      intro found after reads _ _
      have standsLater := stands.later settled reads { values := [found] }
      have owns : Session.Owns (fun _ => True) after scope block :=
        ⟨standsLater.holds.live, standsLater.owns notGlobal, standsLater.holds.isScope,
          fun _ => trivial⟩
      exact declare owns standsLater.opened (read.binds name List.mem_cons_self)
        Setting.gained_value
  | assign name value => cases read.unchanging
  | loop header body =>
      have refers := Node.Refers.loop header body
      have isBody : BlockRole.loopBody ≠ .placeholder := by decide
      apply loop plays (stands.inner settled member refers rfl isBody) opened _ read.calls
        read.binds fuel
      rw [stands.enclosingLoop settled member refers]
      rfl
  | leave target => exact mark target true
  | branches conditions otherwise =>
      apply branches plays opened
      · intro branch isBranch name isCalled
        exact read.calls name (List.mem_flatMap.mpr ⟨branch, isBranch, isCalled⟩)
      · intro branch isBranch
        exact stands.enters settled member (.branch conditions otherwise branch isBranch) rfl
      · rintro body rfl
        exact stands.enters settled member (.otherwise conditions body) rfl
  | definePlaceholder key parameter body => cases read.unchanging
  | usePlaceholder key given =>
      have calls : ∀ argument ∈ given, ∀ name ∈ argument.calls, name ∈ rerun.called := by
        intro argument isGiven name isCalled
        apply read.calls name
        exact List.mem_flatMap.mpr ⟨argument, Option.mem_toList.mpr isGiven, isCalled⟩
      apply bind (argument opened calls)
      intro value after _ _ _
      apply runPlaceholder plays key value
      intro other isValue
      exact Setting.mem_values_also.mpr (.inr (Option.mem_toList.mpr isValue))
  | embed body => cases read.unchanging
  | malformed error => exact fail _

/-- The nodes of a block do alike in both runs, until both leave their loop. -/
theorem allNodes (stands : setting.Stands rerun.called session scope block nodes)
    {loop : Option BlockRef}
    (isLoop : (session.block block).enclosingLoop = loop) (fuel : Nat) {listed : List Node}
    (sublist : ∀ node ∈ listed, node ∈ nodes) :
    rerun.Mirrors setting session
      (Run.nodes (Run.node rerun.environment runBlock fuel scope) loop listed)
      (Run.nodes (Run.node rerun.environment runBlock fuel scope) loop listed) id
      (fun _ _ => True) fun _ => {} := by
  induction listed generalizing session setting with
  | nil => exact done
  | cons node listed induction =>
      unfold Run.nodes
      apply of_settled
      intro settled
      have present := stands.holds.live.lt settled.nested
      apply bind
      · apply wasLeft
        rw [← isLoop]
        exact stands.marked
      · intro left asked reads settledAsked _
        cases left with
        | true => exact done
        | false =>
            have standsAsked := stands.later settled reads {}
            apply bind (Mirrors.node plays standsAsked (sublist node List.mem_cons_self) fuel)
            intro _ ran readsRan _ _
            apply induction (standsAsked.later settledAsked readsRan {})
            · have toRan := reads.trans rerun.keeps settled.nested readsRan
              rw [toRan.enclosingLoop settled present, isLoop]
            · exact fun later member => sublist later (List.mem_cons_of_mem node member)

end

/-- A block does alike in both runs if those that it runs do.  If it runs in the global scope it
must not declare anything there. -/
theorem blockWith {runBlock : BlockRef → Run η Unit} (plays : rerun.Plays runBlock) (fuel : Nat)
    {block : BlockRef} (live : session.Live block)
    (owns : (session.block block).scope ≠ .global →
      (session.block block).role.ownsScope = true)
    (undeclared : (session.block block).scope = .global → ∀ nodes,
      ((Run.nodesOf rerun.environment block).run.run session).1 = .ok nodes →
      ∀ node ∈ nodes, node.declares = false)
    (opened : (session.block block).scope ∈ setting.opened)
    (marked : ∀ target ∈ (session.block block).enclosingLoop, target ∈ setting.marks) :
    rerun.Mirrors setting session (Run.blockWith rerun.environment runBlock fuel block)
      (Run.blockWith rerun.environment runBlock fuel block) id (fun _ _ => True) fun _ => {} := by
  unfold Run.blockWith
  apply of_settled
  intro settled
  have present := live.lt settled.nested
  apply bind ((nodesOf present).found fun _ _ ran => ran)
  intro parsed ready reads settledReady ⟨isParsed, ran⟩
  have outline := reads.outline settled present
  have scope := Block.eq_of_outline Block.scope (fun _ => rfl) outline
  have role := Block.eq_of_outline Block.role (fun _ => rfl) outline
  have loop := Block.eq_of_outline Block.enclosingLoop (fun _ => rfl) outline
  have presentReady : block.index < ready.blocks.size :=
    (reads.effects.toExtends rerun.keeps settled.nested).lt present
  have isThere := Session.getElem?_of_lt presentReady
  have sourcePresent := settledReady.nested.valid.source_lt isThere
  have fits := settledReady.nested.valid.fits isThere
  have stands : (setting.also {}).Stands rerun.called ready (ready.block block).scope block
      parsed := by
    constructor
    · exact ⟨reads.effects.live rerun.keeps settled.nested live, rfl, isParsed⟩
    · rw [scope, role]
      exact owns
    · rw [scope]
      exact fun isGlobal => undeclared isGlobal parsed ran
    · exact settledReady.only.nodes ready .refl block parsed isParsed
    · rw [scope]
      exact Setting.opened_also opened _
    · rw [loop]
      exact fun target member => Setting.mark_also (marked target member) _
  apply look
  · intro view other known twin ahead
    have outline := (twin.block settledReady ahead presentReady).1
    dsimp only
    rw [Block.eq_of_outline Block.scope (fun _ => rfl) outline,
      Block.eq_of_outline Block.source (fun _ => rfl) outline,
      Block.eq_of_outline Block.start (fun _ => rfl) outline,
      Block.eq_of_outline Block.finish (fun _ => rfl) outline,
      Block.eq_of_outline Block.enclosingLoop (fun _ => rfl) outline]
  · apply bind (seek sourcePresent fits.start)
    intro _ started readsStarted settledStarted _
    have standsStarted := stands.later settledReady readsStarted {}
    have isLoop := readsStarted.enclosingLoop settledReady presentReady
    apply bind (allNodes plays standsStarted isLoop fuel fun _ member => member)
    intro _ ended readsEnded _ _
    have toEnded := (readsStarted.trans rerun.keeps settledReady.nested
      readsEnded).effects.toExtends rerun.keeps settledReady.nested
    obtain ⟨sourceEnded, text⟩ := toEnded.source _ sourcePresent
    have finish := fits.finish
    rw [← text] at finish
    exact (seek sourceEnded finish).forget

/-- Blocks with scopes of their own do alike in both runs. -/
theorem plays_block (rerun : Rerun η) (fuel : Nat) :
    rerun.Plays (Run.block rerun.environment fuel) := by
  induction fuel with
  | zero =>
      intro session setting block _ _ _ _
      exact stop _
  | succ fuel induction =>
      intro session setting block live owns opened marked
      apply of_settled
      intro settled
      have present := live.lt settled.nested
      apply blockWith induction fuel live (fun _ => owns) _ opened marked
      exact fun isGlobal => absurd isGlobal (settled.nested.own block present owns)

end Rerun.Mirrors

end Stencil
