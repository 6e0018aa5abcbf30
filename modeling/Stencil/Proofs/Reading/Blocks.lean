import Stencil.Proofs.Reading.Pieces

/-!
# Blocks of two runs

Placeholders, loops, branches and whole blocks do alike in both runs.
-/

namespace Stencil

open Text

variable {η : Type} {rerun : Rerun η} {session after : Session η} {setting : Setting}
  {outer scope : ScopeRef} {body : BlockRef}

/-- A run may enter a body, which stands in a scope and belongs to loops that it knows. -/
structure Setting.Enters (setting : Setting) (session : Session η) (outer scope : ScopeRef)
    (body : BlockRef) : Prop where
  inner : session.Inner outer scope body
  opened : outer ∈ setting.opened
  marked : ∀ target ∈ (session.block body).enclosingLoop, target ∈ setting.marks

theorem Session.Reads.outline (reads : session.Reads rerun.environment rerun.called after)
    (settled : session.Settled rerun.environment rerun.called)
    (present : body.index < session.blocks.size) :
    (after.block body).outline = (session.block body).outline :=
  (reads.effects.toExtends rerun.keeps settled.nested).outline_block present

theorem Session.Reads.enclosingLoop (reads : session.Reads rerun.environment rerun.called after)
    (settled : session.Settled rerun.environment rerun.called)
    (present : body.index < session.blocks.size) :
    (after.block body).enclosingLoop = (session.block body).enclosingLoop :=
  Block.eq_of_outline Block.enclosingLoop (fun _ => rfl) (reads.outline settled present)

theorem Setting.Enters.later (enters : setting.Enters session outer scope body)
    (settled : session.Settled rerun.environment rerun.called)
    (reads : session.Reads rerun.environment rerun.called after)
    (more : Setting) : (setting.also more).Enters after outer scope body := by
  constructor
  · exact enters.inner.mono rerun.keeps settled.nested reads
  · exact Setting.opened_also enters.opened more
  · rw [reads.enclosingLoop settled (enters.inner.owns.live.lt settled.nested)]
    exact fun target member => Setting.mark_also (enters.marked target member) more

theorem Setting.Enters.more (enters : setting.Enters session outer scope body) (more : Setting) :
    (setting.also more).Enters session outer scope body := by
  constructor
  · exact enters.inner
  · exact Setting.opened_also enters.opened more
  · exact fun target member => Setting.mark_also (enters.marked target member) more

namespace Rerun

/-- Every block that a run may come to does alike in both runs. -/
def Plays (rerun : Rerun η) (runBlock : BlockRef → Run η Unit) : Prop :=
  ∀ (session : Session η) (setting : Setting) (block : BlockRef), session.Live block →
    (session.block block).role.ownsScope = true →
    (session.block block).scope ∈ setting.opened →
    (∀ target ∈ (session.block block).enclosingLoop, target ∈ setting.marks) →
    rerun.Mirrors setting session (runBlock block) (runBlock block) id (fun _ _ => True) fun _ => {}

namespace Mirrors

theorem done : rerun.Mirrors setting session (Pure.pure () : Run η Unit) (Pure.pure ()) id
    (fun _ _ => True) fun _ => {} :=
  pure rfl trivial fun _ _ known => known.none

section

variable {runBlock : BlockRef → Run η Unit} (plays : rerun.Plays runBlock)

include plays

/-- Both runs enter a body whose scope they have just cleared. -/
theorem enter (enters : setting.Enters session outer scope body) (opened : scope ∈ setting.opened) :
    rerun.Mirrors setting session (runBlock body) (runBlock body) id (fun _ _ => True)
      fun _ => {} := by
  obtain ⟨live, isOwn, rfl, -⟩ := enters.inner.owns
  exact plays session setting body live isOwn opened enters.marked

/-- Both runs go one level deeper and come back. -/
theorem deeper (enters : setting.Enters session outer scope body)
    (opened : scope ∈ setting.opened) :
    rerun.Mirrors setting session
      (do
        modify fun session => { session with depth := session.depth + 1 }
        Run.andFinally (runBlock body) fun session => { session with depth := session.depth - 1 })
      (do
        modify fun session => { session with depth := session.depth + 1 }
        Run.andFinally (runBlock body) fun session => { session with depth := session.depth - 1 })
      id (fun _ _ => True) fun _ => {} := by
  have ran (session : Session η) : (do
      modify fun session => { session with depth := session.depth + 1 }
      Run.andFinally (runBlock body) fun session =>
        { session with depth := session.depth - 1 } : Run η Unit).run.run session =
      (((runBlock body).run.run { session with depth := session.depth + 1 }).1,
        { ((runBlock body).run.run { session with depth := session.depth + 1 }).2 with
          depth := ((runBlock body).run.run
            { session with depth := session.depth + 1 }).2.depth - 1 }) := rfl
  have toDepth (session : Session η) (depth : Nat) :
      session.Reads rerun.environment rerun.called { session with depth } :=
    .of_store (.depth depth) ⟨rfl, rfl, fun _ => rfl, fun _ => rfl⟩ rfl rfl
  have atDepth {view : View} {session other : Session η} (twin : rerun.Twin view session other)
      {depth depth' : Nat} (same : depth' = depth) :
      rerun.Twin view { session with depth } { other with depth := depth' } := by
    constructor
    · exact twin.shift
    · exact twin.alike
    · exact same
    · exact twin.writes
    · exact twin.placeholders
    · exact twin.marks
    · exact twin.quiet.trans ⟨rfl, rfl, fun _ => rfl, fun _ => rfl⟩
    · exact twin.heap
  intro settled
  have down := toDepth session (session.depth + 1)
  have settledInside := down.settled rerun.keeps settled
  have entersInside : setting.Enters { session with depth := session.depth + 1 } outer
      scope body := by
    constructor
    · exact enters.inner.mono rerun.keeps settled.nested down
    · exact enters.opened
    · exact enters.marked
  obtain ⟨reads, depth, -, twins⟩ := enter plays entersInside opened settledInside
  rw [ran]
  have up := toDepth ((runBlock body).run.run { session with depth := session.depth + 1 }).2
    (((runBlock body).run.run { session with depth := session.depth + 1 }).2.depth - 1)
  have ended := reads.settled rerun.keeps settledInside
  have inside := reads.trans rerun.keeps settledInside.nested up
  refine ⟨down.trans rerun.keeps settled.nested inside, ?_, fun _ _ => trivial, ?_⟩
  · change _ - 1 = _
    rw [depth]
    rfl
  · intro view other known twin ahead
    have twinInside := atDepth twin (congrArg (· + 1) twin.depth)
    obtain ⟨later, grows, twinLater, outcome, gained⟩ :=
      twins view _ known twinInside (up.trans rerun.keeps ended.nested ahead)
    refine ⟨later, grows, ?_, outcome, gained⟩
    exact atDepth twinLater (congrArg (· - 1) twinLater.depth)

theorem nested (what : Nested) (enters : setting.Enters session outer scope body)
    (opened : scope ∈ setting.opened) :
    rerun.Mirrors setting session (Run.nested runBlock what body) (Run.nested runBlock what body) id
      (fun _ _ => True) fun _ => {} := by
  unfold Run.nested
  apply get_bind (if Run.nestingLimit ≤ session.depth then
      Run.fail (.reference (.nestingTooDeep what Run.nestingLimit))
    else do
      modify fun session => { session with depth := session.depth + 1 }
      Run.andFinally (runBlock body) fun session => { session with depth := session.depth - 1 })
  · intro view other known twin _
    rw [twin.depth]
  · split
    · exact fail _
    · exact deeper plays enters opened

omit plays in
/-- The body of a placeholder stands in the global scope and belongs to no loop. -/
theorem enters_placeholder
    (settled : session.Settled rerun.environment rerun.called) {key : Placeholder.Key}
    {placeholder : Placeholder} (found : session.placeholders.get? key = some placeholder) :
    setting.Enters session .global (session.block placeholder.body).scope placeholder.body := by
  have nested := settled.nested
  obtain ⟨present, cases⟩ := settled.tops key placeholder found
  obtain ⟨block, isThere, isRole⟩ := nested.valid.placeholders key placeholder found
  have role : (session.block placeholder.body).role = .placeholder :=
    (congrArg Block.role (Session.block_eq_of_getElem? isThere)).trans isRole
  have owns : (session.block placeholder.body).role.ownsScope = true := by
    rw [role]
    rfl
  have parent : (session.store.heap.scope (session.block placeholder.body).scope).parent =
      some .global := by
    rcases cases with ⟨isRoot, -⟩ | ⟨-, parent⟩
    · rw [role] at isRoot
      cases isRoot
    · exact parent
  constructor
  · constructor
    · exact ⟨nested.placeholders key placeholder found, owns, rfl, fun _ => trivial⟩
    · exact parent
    · apply Nat.pos_of_ne_zero
      intro isZero
      exact nested.own _ present owns (congrArg ScopeRef.mk isZero)
  · exact List.mem_cons_self
  · intro target encloses
    have none : (session.block placeholder.body).enclosingLoop = none := by
      rcases nested.valid.origin _ _
        (Session.getElem?_of_lt present) with whole | ⟨parent, -, child⟩
      · exact whole.enclosing
      · rw [child.enclosingLoop, role]
        rfl
    rw [none] at encloses
    cases encloses

theorem runPlaceholder (key : Placeholder.Key) (argument : Option Value)
    (isKnown : ∀ value ∈ argument, value ∈ setting.values) :
    rerun.Mirrors setting session (Run.runPlaceholder runBlock key argument)
      (Run.runPlaceholder runBlock key (argument.map rerun.shift.value)) id (fun _ _ => True)
      fun _ => {} := by
  unfold Run.runPlaceholder
  apply of_settled
  intro settled
  cases found : session.placeholders.get? key with
  | none =>
      apply get_bind (Run.fail (.reference (.placeholderUndefined key)))
      · intro view other known twin _
        rw [twin.placeholders, found]
      · rw [found]
        exact fail _
  | some placeholder =>
      have enters : setting.Enters session .global (session.block placeholder.body).scope
        placeholder.body := enters_placeholder settled found
      have present := (settled.tops key placeholder found).1
      apply look
      · intro view other known twin ahead
        rw [twin.placeholders, found]
        dsimp only
        rw [twin.scope settled ahead present]
      · rw [found]
        apply bind (clear enters.inner enters.opened)
        intro _ cleared reads settledCleared _
        have entersCleared := enters.later settled reads
          { scopes := [(session.block placeholder.body).scope] }
        have opened : (session.block placeholder.body).scope ∈ (setting.also
            { scopes := [(session.block placeholder.body).scope] }).opened :=
          Setting.mem_opened_also.mpr (.inr List.mem_cons_self)
        cases argument with
        | none => exact nested plays _ entersCleared opened
        | some value =>
            apply bind
            · apply bindName entersCleared.inner.owns opened
                (settled.only.parameters key placeholder found)
              intro view heap known
              exact known.values value (Setting.value_also (isKnown value rfl) _)
            · intro _ named readsNamed _ _
              exact nested plays _ (entersCleared.later settledCleared readsNamed _)
                (Setting.opened_also opened _)

theorem emit {value : Value} (isKnown : value ∈ setting.values) :
    rerun.Mirrors setting session (Run.emit runBlock value)
      (Run.emit runBlock (rerun.shift.value value)) id (fun _ _ => True) fun _ => {} := by
  unfold Run.emit
  rw [Shift.string?_value, Shift.kind_value]
  cases value.string? with
  | some text => exact write text
  | none =>
      apply get_bind (if session.placeholders.contains (.default value.kind.name) then
          Run.runPlaceholder runBlock (.default value.kind.name) (some (rerun.shift.value value))
        else Run.write (session.store.heap.display value))
      · intro view other known twin _
        rw [twin.placeholders, ← twin.shift, twin.alike.display (known.values value isKnown)]
      · split
        · apply runPlaceholder plays (.default value.kind.name) (some value)
          rintro _ ⟨⟩
          exact isKnown
        · exact write _

omit plays in
/-- Both runs clear the scope of a loop and go on unless the loop was left. -/
theorem pass (enters : setting.Enters session outer scope body) (marked : body ∈ setting.marks)
    {next next' : Run η Unit}
    (later : ∀ (begun : Session η) (known : Setting), begun.Settled rerun.environment rerun.called →
      known.Enters begun outer scope body → scope ∈ known.opened → body ∈ known.marks →
      (∀ value ∈ setting.values, value ∈ known.values) →
      rerun.Mirrors known begun next next' id (fun _ _ => True) fun _ => {}) :
    rerun.Mirrors setting session (do if ← Run.beginPass scope body then return () else next)
      (do if ← Run.beginPass scope body then return () else next') id (fun _ _ => True)
      fun _ => {} := by
  unfold Run.beginPass
  apply of_settled
  intro settled
  rw [bind_assoc, bind_assoc]
  apply bind (clear enters.inner enters.opened)
  intro _ cleared reads settledCleared _
  have entersCleared := enters.later settled reads { scopes := [scope] }
  have markedCleared := Setting.mark_also marked { scopes := [scope] }
  have opened : scope ∈ (setting.also { scopes := [scope] }).opened :=
    Setting.mem_opened_also.mpr (.inr List.mem_cons_self)
  apply bind
  · apply wasLeft
    rintro _ ⟨⟩
    exact markedCleared
  · intro left begun readsBegun settledBegun _
    cases left with
    | true => exact done
    | false =>
        apply later begun _ settledBegun (entersCleared.later settledCleared readsBegun {})
        · exact Setting.opened_also opened {}
        · exact Setting.mark_also markedCleared {}
        · exact fun value isKnown => Setting.value_also (Setting.value_also isKnown _) _

theorem conditionalLoop (enters : setting.Enters session outer scope body)
    (marked : body ∈ setting.marks) {test : Condition}
    (calls : ∀ name ∈ test.calls, name ∈ rerun.called) (fuel : Nat) :
    rerun.Mirrors setting session
      (Run.conditionalLoop rerun.environment runBlock scope body test fuel)
      (Run.conditionalLoop rerun.environment runBlock scope body test fuel) id
      (fun _ _ => True) fun _ => {} := by
  induction fuel generalizing session setting with
  | zero => exact stop _
  | succ fuel induction =>
      unfold Run.conditionalLoop
      apply pass enters marked
      intro begun known settledBegun entersBegun opened marked _
      apply bind (condition opened test calls)
      intro isTrue asked readsAsked settledAsked _
      cases isTrue with
      | false => exact done
      | true =>
          have entersAsked := entersBegun.later settledBegun readsAsked {}
          apply bind (enter plays entersAsked (Setting.opened_also opened _))
          intro _ passed readsPassed _ _
          apply induction (entersAsked.later settledAsked readsPassed {})
          exact Setting.mark_also (Setting.mark_also marked _) _

theorem numberedLoop (enters : setting.Enters session outer scope body)
    (marked : body ∈ setting.marks) {name : String} (unused : name ∉ rerun.called)
    (comparison : Comparison) (bound : Int32)
    (operator : Operator) (step : Int32) (fuel : Nat) (counter : Int32) :
    rerun.Mirrors setting session
      (Run.numberedLoop runBlock scope body name comparison bound operator step fuel counter)
      (Run.numberedLoop runBlock scope body name comparison bound operator step fuel counter) id
      (fun _ _ => True) fun _ => {} := by
  induction fuel generalizing session setting counter with
  | zero => exact stop _
  | succ fuel induction =>
      unfold Run.numberedLoop
      apply pass enters marked
      intro begun known settledBegun entersBegun opened marked _
      apply bind (lift _)
      intro isTrue asked readsAsked settledAsked _
      cases isTrue with
      | false => exact done
      | true =>
          have entersAsked := entersBegun.later settledBegun readsAsked {}
          have opened := Setting.opened_also opened {}
          apply bind (bindName entersAsked.inner.owns opened unused (.int counter)
            fun _ _ _ => trivial)
          intro _ named readsNamed settledNamed _
          have entersNamed := entersAsked.later settledAsked readsNamed {}
          apply bind (enter plays entersNamed (Setting.opened_also opened _))
          intro _ passed readsPassed settledPassed _
          have entersPassed := entersNamed.later settledNamed readsPassed {}
          apply bind (lift _)
          intro next later readsLater _ _
          apply induction (entersPassed.later settledPassed readsLater {})
          simp only [Setting.mem_marks_also, marked, true_or]

theorem iterableLoop (enters : setting.Enters session outer scope body)
    (marked : body ∈ setting.marks) {element : String} {index : Option String}
    (unused : ∀ name ∈ element :: index.toList, name ∉ rerun.called) {list : ListRef}
    (isKnown : .list list ∈ setting.values) (places : List Nat) :
    rerun.Mirrors setting session
      (Run.iterableLoop runBlock scope body element index list places)
      (Run.iterableLoop runBlock scope body element index (rerun.shift.list list) places) id
      (fun _ _ => True) fun _ => {} := by
  induction places generalizing session setting with
  | nil => exact done
  | cons place places induction =>
      unfold Run.iterableLoop
      apply pass enters marked
      intro begun known settledBegun entersBegun opened marked stillKnown
      have isKnown := stillKnown _ isKnown
      cases found : (begun.store.heap.items list)[place]? with
      | none =>
          apply get_bind (Run.fail (.reference (.elementMissing place)))
          · intro view other known twin _
            have same := (twin.alike.items list (known.values _ isKnown)).1
            rw [twin.shift] at same
            rw [same, List.getElem?_map, found]
            rfl
          · rw [found]
            exact fail _
      | some item =>
          apply get_bind
          · intro view other known twin _
            have same := (twin.alike.items list (known.values _ isKnown)).1
            rw [twin.shift] at same
            rw [same, List.getElem?_map, found, Option.map_some]
          · rw [found]
            have goOn {named : Session η} {known : Setting}
                (enters : known.Enters named outer scope body) (opened : scope ∈ known.opened)
                (marked : body ∈ known.marks) (isKnown : .list list ∈ known.values) :
                rerun.Mirrors known named
                  (do
                    runBlock body
                    Run.iterableLoop runBlock scope body element index list places)
                  (do
                    runBlock body
                    Run.iterableLoop runBlock scope body element index
                      (rerun.shift.list list) places)
                  id (fun _ _ => True) fun _ => {} := by
              apply of_settled
              intro settled
              apply bind (enter plays enters opened)
              intro _ passed reads _ _
              apply induction (enters.later settled reads {})
              · exact Setting.mark_also marked _
              · exact Setting.value_also isKnown _
            apply learn { values := [item] }
            · intro view other knownHere twin
              have itemsKnown := (twin.alike.items list (knownHere.values _ isKnown)).2
              exact knownHere.ofValue (itemsKnown item (List.mem_of_getElem? found))
            apply bind
            · apply bindName entersBegun.inner.owns (Setting.opened_also opened _)
                (unused element List.mem_cons_self)
              intro view heap knownHere
              exact knownHere.values item Setting.gained_value
            · intro _ named readsNamed settledNamed _
              have entersNamed := (entersBegun.more { values := [item] }).later settledBegun
                readsNamed {}
              have openedNamed := Setting.opened_also
                (Setting.opened_also opened { values := [item] }) {}
              have markedNamed := Setting.mark_also
                (Setting.mark_also marked { values := [item] }) {}
              have stillKnown := Setting.value_also
                (Setting.value_also isKnown { values := [item] }) {}
              cases index with
              | none => exact goOn entersNamed openedNamed markedNamed stillKnown
              | some name =>
                  have unusedIndex := unused name (List.mem_cons_of_mem element List.mem_cons_self)
                  apply bind (bindName entersNamed.inner.owns openedNamed unusedIndex
                    (.int (Int32.ofNat place)) fun _ _ _ => trivial)
                  intro _ numbered readsNumbered _ _
                  exact goOn (entersNamed.later settledNamed readsNumbered {})
                    (Setting.opened_also openedNamed _) (Setting.mark_also markedNamed _)
                    (Setting.value_also stillKnown _)

end

/-- The int of a start, bound or step. -/
theorem loopNumber (opened : outer ∈ setting.opened) (what : String) {number : Expression}
    (calls : ∀ name ∈ number.calls, name ∈ rerun.called) :
    rerun.Mirrors setting session (Run.loopNumber rerun.environment outer what number)
      (Run.loopNumber rerun.environment outer what number) id (fun _ _ => True)
      fun _ => {} := by
  unfold Run.loopNumber
  apply bind (expression outer number setting session opened calls)
  intro value evaluated _ _ _
  rw [Shift.int?_value, Shift.kind_value]
  cases value.int? with
  | some number => exact pure rfl trivial fun _ _ known => known.none
  | none => exact fail _

section

variable {runBlock : BlockRef → Run η Unit} (plays : rerun.Plays runBlock)

include plays

theorem passes (enters : setting.Enters session outer (session.block body).scope body)
    (marked : body ∈ setting.marks) {header : LoopHeader}
    (calls : ∀ name ∈ header.calls, name ∈ rerun.called)
    (unused : ∀ name ∈ header.binds, name ∉ rerun.called) (fuel : Nat) :
    rerun.Mirrors setting session
      (Run.passes rerun.environment runBlock fuel outer body header)
      (Run.passes rerun.environment runBlock fuel outer body header) id (fun _ _ => True)
      fun _ => {} := by
  unfold Run.passes
  apply of_settled
  intro settled
  have present := enters.inner.owns.live.lt settled.nested
  have opened := enters.opened
  apply look
  · intro view other known twin ahead
    rw [twin.scope settled ahead present]
  cases header with
  | conditional test => exact conditionalLoop plays enters marked calls fuel
  | numbered name start comparison bound operator step =>
      have callsStart (name : String) (member : name ∈ start.calls) : name ∈ rerun.called :=
        calls name (List.mem_append_left _ (List.mem_append_left _ member))
      have callsBound (name : String) (member : name ∈ bound.calls) : name ∈ rerun.called :=
        calls name (List.mem_append_left _ (List.mem_append_right _ member))
      have callsStep (name : String) (member : name ∈ step.calls) : name ∈ rerun.called :=
        calls name (List.mem_append_right _ member)
      apply bind (loopNumber opened "loop start" callsStart)
      intro counter started readsStarted settledStarted _
      have entersStarted := enters.later settled readsStarted {}
      apply bind (loopNumber entersStarted.opened "loop bound" callsBound)
      intro limit bounded readsBounded settledBounded _
      have entersBounded := entersStarted.later settledStarted readsBounded {}
      apply bind (loopNumber entersBounded.opened "loop step" callsStep)
      intro increment stepped readsStepped settledStepped _
      have entersStepped := entersBounded.later settledBounded readsStepped {}
      apply numberedLoop plays entersStepped _ (unused name List.mem_cons_self)
      simp only [Setting.mem_marks_also, marked, true_or]
  | iterable element index iterable =>
      apply bind (expression outer iterable setting session opened calls)
      intro value asked reads settledAsked _
      have entersAsked := enters.later settled reads { values := [value] }
      cases value with
      | primitive value => exact fail _
      | object object => exact fail _
      | function function => exact fail _
      | list list =>
          apply get_bind (Run.iterableLoop runBlock (session.block body).scope body element index
            (rerun.shift.list list) (List.range (asked.store.heap.items list).length))
          · intro view other known twin _
            have same := (twin.alike.items list (known.values _ Setting.gained_value)).1
            rw [twin.shift] at same
            rw [same, List.length_map]
          · apply iterableLoop plays entersAsked _ unused Setting.gained_value
            exact Setting.mark_also marked _

/-- Both runs run a loop and clear its scope. -/
theorem loop (inner : session.Inner outer (session.block body).scope body)
    (opened : outer ∈ setting.opened) (isLoop : (session.block body).enclosingLoop = some body)
    {header : LoopHeader} (calls : ∀ name ∈ header.calls, name ∈ rerun.called)
    (unused : ∀ name ∈ header.binds, name ∉ rerun.called) (fuel : Nat) :
    rerun.Mirrors setting session
      (Run.loop rerun.environment runBlock fuel outer header body)
      (Run.loop rerun.environment runBlock fuel outer header body) id (fun _ _ => True)
      fun _ => {} := by
  unfold Run.loop
  apply of_settled
  intro settled
  have present := inner.owns.live.lt settled.nested
  apply bind (marking present false)
  intro _ begun reads settledBegun _
  have innerBegun := inner.mono rerun.keeps settled.nested reads
  have presentBegun := innerBegun.owns.live.lt settledBegun.nested
  rw [← innerBegun.owns.isScope] at innerBegun
  have marked : body ∈ (setting.also { marks := [body] }).marks :=
    Setting.mem_marks_also.mpr (.inr List.mem_cons_self)
  have enters : (setting.also { marks := [body] }).Enters begun outer (begun.block body).scope
      body := by
    constructor
    · exact innerBegun
    · exact Setting.opened_also opened _
    · rw [reads.enclosingLoop settled present, isLoop]
      rintro _ ⟨⟩
      exact marked
  apply look
  · intro view other known twin ahead
    rw [twin.scope settledBegun ahead presentBegun]
  · apply andFinally (passes plays enters marked calls unused fuel)
    intro ended readsEnded
    have innerEnded := innerBegun.mono rerun.keeps settledBegun.nested readsEnded
    exact clear innerEnded enters.opened

/-- Both runs enter the body of a branch after they cleared its scope. -/
theorem cleared (enters : setting.Enters session outer (session.block body).scope body) :
    rerun.Mirrors setting session (Run.cleared runBlock body) (Run.cleared runBlock body) id
      (fun _ _ => True) fun _ => {} := by
  unfold Run.cleared
  apply of_settled
  intro settled
  have present := enters.inner.owns.live.lt settled.nested
  apply look
  · intro view other known twin ahead
    rw [twin.scope settled ahead present]
  · apply bind (clear enters.inner enters.opened)
    intro _ emptied reads _ _
    apply enter plays (enters.later settled reads _)
    exact Setting.mem_opened_also.mpr (.inr List.mem_cons_self)

theorem branches {otherwise : Option BlockRef} {conditions : List (Condition × BlockRef)}
    (opened : outer ∈ setting.opened)
    (calls : ∀ branch ∈ conditions, ∀ name ∈ branch.1.calls, name ∈ rerun.called)
    (enters : ∀ branch ∈ conditions,
      setting.Enters session outer (session.block branch.2).scope branch.2)
    (entersLast : ∀ body, otherwise = some body →
      setting.Enters session outer (session.block body).scope body) :
    rerun.Mirrors setting session
      (Run.branches rerun.environment runBlock outer otherwise conditions)
      (Run.branches rerun.environment runBlock outer otherwise conditions) id
      (fun _ _ => True) fun _ => {} := by
  induction conditions generalizing session setting with
  | nil =>
      unfold Run.branches
      cases otherwise with
      | none => exact done
      | some body => exact cleared plays (entersLast body rfl)
  | cons branch conditions induction =>
      obtain ⟨test, body⟩ := branch
      unfold Run.branches
      apply of_settled
      intro settled
      apply bind (condition opened test (calls _ List.mem_cons_self))
      intro isTrue asked reads _ _
      have later {body : BlockRef}
          (enters : setting.Enters session outer (session.block body).scope body) :
          (setting.also {}).Enters asked outer (asked.block body).scope body := by
        have entersAsked := enters.later settled reads {}
        rw [← entersAsked.inner.owns.isScope] at entersAsked
        exact entersAsked
      cases isTrue with
      | true => exact cleared plays (later (enters _ List.mem_cons_self))
      | false =>
          apply induction (Setting.opened_also opened _)
          · exact fun branch member => calls branch (List.mem_cons_of_mem _ member)
          · exact fun branch member => later (enters branch (List.mem_cons_of_mem _ member))
          · exact fun body isLast => later (entersLast body isLast)

end

end Mirrors

end Rerun

end Stencil
