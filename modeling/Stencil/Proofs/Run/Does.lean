import Stencil.Proofs.Run.Deeds

/-!
# What runs do

If the blocks that a piece of a run comes to obey rules, the piece takes a session only through the
deeds that the rules allow.
-/

namespace Stencil

open Text

variable {η : Type}

/-- An outcome counts if every placeholder body may be entered; else only a success does, since a
run may fail after it cleared the scope of a body that it must not enter. -/
def Run.Counts {α : Type} (mayEnter : BlockRef → Prop) (outcome : Except Stop α) : Prop :=
  (∀ id, mayEnter id) ∨ ∃ answer, outcome = .ok answer

/-- The nodes of a block, with its source at its start. -/
def Run.openBlock (environment : Environment η) (id : BlockRef) : Run η (Block × List Node) := do
  let parsed ← nodesOf environment id
  let block := (← get).block id
  seek block.source block.start
  return (block, parsed)

/-- Runs a block, given how to run its nodes in its scope. -/
def Run.blockBy (environment : Environment η) (runNode : ScopeRef → Node → Run η Unit)
    (id : BlockRef) : Run η Unit := do
  let (block, parsed) ← openBlock environment id
  nodes (runNode block.scope) block.enclosingLoop parsed
  seek block.source block.finish

theorem Run.blockWith_eq (environment : Environment η) (runBlock : BlockRef → Run η Unit)
    (fuel : Nat) (id : BlockRef) :
    blockWith environment runBlock fuel id =
        blockBy environment (node environment runBlock fuel) id := by
  simp only [blockWith, blockBy, openBlock, bind_assoc, pure_bind]

/-- If the outcome of a piece of a run counts, it takes a session only through deeds that the rules
allow, and its answer has a property. -/
def Run.Does {α : Type} (environment : Environment η) (rules : Run.Rules η)
    (session : Session η) (run : Run η α) (answers : α → Session η → Prop) : Prop :=
  rules.holds session → Run.Counts rules.enters (run.run.run session).1 →
    session.Deeds environment rules (run.run.run session).2 ∧
      ∀ answer, (run.run.run session).1 = .ok answer → answers answer (run.run.run session).2

namespace Run.Does

variable {environment : Environment η} {rules : Run.Rules η} {session : Session η}
  {α β : Type}

theorem of_holds {run : Run η α} {answers : α → Session η → Prop}
    (does : rules.holds session → Run.Does environment rules session run answers) :
    Run.Does environment rules session run answers :=
  fun begun => does begun begun

theorem of_counts {run : Run η α} {answers : α → Session η → Prop}
    (does : Run.Counts rules.enters (run.run.run session).1 →
      Run.Does environment rules session run answers) :
    Run.Does environment rules session run answers :=
  fun begun counts => does counts begun counts

theorem pure {answer : α} {answers : α → Session η → Prop} (isAnswer : answers answer session) :
    Run.Does environment rules session (Pure.pure answer) answers := by
  refine fun _ _ => ⟨.refl, fun found same => ?_⟩
  cases same
  exact isAnswer

theorem stop {reason : Stop} {answers : α → Session η → Prop} :
    Run.Does environment rules session (throw reason : Run η α) answers :=
  fun _ _ => ⟨.refl, fun _ same => nomatch same⟩

theorem fail {error : TemplateError} {answers : α → Session η → Prop} :
    Run.Does environment rules session (Run.fail error : Run η α) answers :=
  stop

theorem weaken {run : Run η α} {answers weaker : α → Session η → Prop}
    (does : Run.Does environment rules session run answers)
    (implies : ∀ answer after, answers answer after → weaker answer after) :
    Run.Does environment rules session run weaker := by
  intro begun counts
  obtain ⟨deeds, isAnswer⟩ := does begun counts
  exact ⟨deeds, fun answer found => implies answer _ (isAnswer answer found)⟩

theorem bind (lawful : rules.Lawful environment) {first : Run η α} {next : α → Run η β}
    {middle : α → Session η → Prop} {answers : β → Session η → Prop}
    (here : Run.Does environment rules session first middle)
    (later : ∀ answer after, session.Deeds environment rules after → middle answer after →
      Run.Does environment rules after (next answer) answers) :
    Run.Does environment rules session (first >>= next) answers := by
  intro begun counts
  have split : (first >>= next).run.run session =
      (ExceptT.bindCont next (first.run.run session).1).run (first.run.run session).2 := rfl
  rw [split] at counts ⊢
  cases outcome : (first.run.run session).1 with
  | error stop =>
      rw [outcome] at counts
      have all : Run.Counts rules.enters (first.run.run session).1 := by
        rcases counts with all | ⟨answer, same⟩
        · exact .inl all
        · cases same
      exact ⟨(here begun all).1, fun _ same => nomatch same⟩
  | ok answer =>
      rw [outcome] at counts
      obtain ⟨deeds, isAnswer⟩ := here begun (.inr ⟨answer, outcome⟩)
      obtain ⟨deedsLater, isAnswerLater⟩ :=
        later answer _ deeds (isAnswer answer outcome) (deeds.holds lawful begun) counts
      exact ⟨deeds.trans deedsLater, isAnswerLater⟩

/-- What comes next may look at the session. -/
theorem get_bind {next : Session η → Run η β} {answers : β → Session η → Prop}
    (later : Run.Does environment rules session (next session) answers) :
    Run.Does environment rules session (get >>= next) answers :=
  later

theorem update {change : Session η → Session η}
    (deed : session.Deed environment rules (change session)) :
    Run.Does environment rules session (modify change) fun _ _ => True :=
  fun _ _ => ⟨.single deed, fun _ _ => trivial⟩

theorem onStore {evaluator : Evaluator η α} (changes : evaluator.Changes environment.host) :
    Run.Does environment rules session (Run.onStore evaluator) fun _ _ => True :=
  fun _ _ => ⟨.single (.evaluate _ (changes.store session.store)), fun _ _ => trivial⟩

theorem andFinally {run : Run η α}
    {after : Session η → Session η}
    {answers : α → Session η → Prop} (does : Run.Does environment rules session run answers)
    (last : ∀ ended, session.Deeds environment rules ended →
      ended.Deed environment rules (after ended)) :
    Run.Does environment rules session (Run.andFinally run after) fun _ _ => True := by
  intro begun counts
  have ran : (Run.andFinally run after).run.run session =
      ((run.run.run session).1, after (run.run.run session).2) := rfl
  rw [ran] at counts ⊢
  obtain ⟨deeds, -⟩ := does begun counts
  exact ⟨deeds.trans (.single (last _ deeds)), fun _ _ => trivial⟩

section

variable {scope : ScopeRef} {id : BlockRef} {nodes : List Node}

theorem clear (owns : rules.Owns session scope id) :
    Run.Does environment rules session (Run.clear scope) fun _ _ => True := by
  obtain ⟨comes, isOwn, rfl, may⟩ := owns
  exact update (.clear id comes isOwn may)

theorem bindName (owns : rules.Owns session scope id) (name : String) (value : Value) :
    Run.Does environment rules session (Run.bindName scope name value) fun _ _ => True := by
  obtain ⟨comes, isOwn, rfl, may⟩ := owns
  exact update (.bind id name value comes isOwn may)

theorem write (text : String) :
    Run.Does environment rules session (Run.write text) fun _ _ => True :=
  update (.write text)

theorem wasLeft (enclosingLoop : Option BlockRef) :
    Run.Does environment rules session (Run.wasLeft enclosingLoop) fun _ _ => True :=
  get_bind (pure trivial)

theorem pointer_of_seek {source : AnySource} {offset : Nat}
    (found : (Source.seek offset source).1 = true) :
    Source.pointer (Source.seek offset source).2 = offset := by
  have same := Tracked.seek_eq offset source
  have moved := Tracked.cursor_seek offset source
  change (Source.seek offset source).1 = (source.cursor.seek? offset).isSome at same
  change (Source.seek offset source).2.cursor = (source.cursor.seek? offset).getD _ at moved
  rw [found] at same
  obtain ⟨place, reached⟩ := Option.isSome_iff_exists.mp same.symm
  rw [reached] at moved
  exact (congrArg Cursor.offset moved).trans (Cursor.seek?_eq_some_iff.mp reached).2

theorem seek (source : SourceRef) (offset : Nat) :
    Run.Does environment rules session (Run.seek source offset) fun _ after =>
      session.Quiet after ∧ (source.index < session.sources.size →
        Source.pointer (after.source source) = offset) := by
  have unfolded : (Run.seek source offset).run.run session =
      (if (Source.seek offset (session.source source)).1 then
        set (session.setSource source (Source.seek offset (session.source source)).2)
      else Run.fail (.parse (.cannotSeek offset)
        (Source.position (Source.seek offset (session.source source)).2)) : Run η Unit).run.run
          session := rfl
  rw [Run.Does, unfolded]
  split
  · rename_i found
    refine fun _ _ => ⟨.single (.seek source offset found), fun _ _ => ?_⟩
    refine ⟨session.quiet_seek source offset, fun present => ?_⟩
    change Source.pointer ((session.setSource source _).source source) = offset
    rw [Session.source_setSource_self _ present, pointer_of_seek found]
  · exact fun _ _ => ⟨.refl, fun _ same => nomatch same⟩

end

section

variable (lawful : rules.Lawful environment)

include lawful

theorem nodesOf {id : BlockRef} (comes : rules.comes session id) :
    Run.Does environment rules session (Run.nodesOf environment id) fun nodes after =>
      (after.block id).nodes? = some nodes := by
  unfold Run.nodesOf
  refine of_holds fun begun => get_bind ?_
  have present := lawful.lt begun comes
  have sourcePresent := (lawful.nested session begun).valid.source_lt
    (Session.getElem?_of_lt present)
  dsimp only
  cases parsed : (session.block id).nodes? with
  | some nodes => exact .pure parsed
  | none =>
      refine (seek _ _).bind lawful fun _ sought deeds ⟨quiet, atStart⟩ => ?_
      have ext := quiet.toExtends
      have outline := ext.outline_block present
      have source := Block.eq_of_outline Block.source (fun _ => rfl) outline
      have start := Block.eq_of_outline Block.start (fun _ => rfl) outline
      have unparsed : (sought.block id).nodes? = none :=
        (Block.eq_of_unmarked Block.nodes? (fun _ => rfl) (quiet.block id)).trans parsed
      have standing := atStart sourcePresent
      rw [← source, ← start] at standing
      have comesSought := deeds.comes lawful begun comes
      refine fun begunSought _ => ⟨.single (.parse id comesSought unparsed standing), ?_⟩
      rintro nodes ⟨⟩
      have soughtSource := (lawful.nested sought begunSought).valid.source_lt
        (Session.getElem?_of_lt (ext.lt present))
      have parsing := @Session.parsing_parseBlock _ _ environment.embeddings _ (ext.lt present)
        soughtSource unparsed standing
      change ((sought.parseBlock environment.embeddings id).2.block id).nodes? = _
      rw [parsing.block_self]
      rfl

theorem nodes {runNode : Node → Run η Unit} (enclosingLoop : Option BlockRef) {listed : List Node}
    (each : ∀ node ∈ listed, ∀ after, session.Deeds environment rules after →
      Run.Does environment rules after (runNode node) fun _ _ => True) :
    Run.Does environment rules session (Run.nodes runNode enclosingLoop listed)
      fun _ _ => True := by
  induction listed generalizing session with
  | nil => exact .pure trivial
  | cons node rest induction =>
      unfold Run.nodes
      refine (wasLeft enclosingLoop).bind lawful fun left asked deeds _ => ?_
      cases left with
      | true => exact .pure trivial
      | false =>
          refine (each node List.mem_cons_self asked deeds).bind lawful fun _ ran deedsRan _ => ?_
          exact induction fun later member after deedsAfter =>
            each later (List.mem_cons_of_mem _ member) after
              ((deeds.trans deedsRan).trans deedsAfter)

variable {scope : ScopeRef} {body : BlockRef} {runBlock : BlockRef → Run η Unit} {fuel : Nat}

theorem beginPass (owns : rules.Owns session scope body) :
    Run.Does environment rules session (Run.beginPass scope body) fun _ _ => True :=
  (clear owns).bind lawful fun _ _ _ _ => wasLeft _

theorem loopNumber (outer : ScopeRef) (what : String) (expression : Expression) :
    Run.Does environment rules session (Run.loopNumber environment outer what expression)
      fun _ _ => True := by
  unfold Run.loopNumber
  refine (onStore (.evaluate outer expression)).bind lawful fun value _ _ _ => ?_
  cases value.int? with
  | some number => exact .pure trivial
  | none => exact .fail

end

end Run.Does

theorem Run.ok_of_bind {α β : Type} {first : Run η α} {next : α → Run η β}
    {session after : Session η} {answer : β}
    (ran : (first >>= next).run.run session = (.ok answer, after)) :
    ∃ between middle, first.run.run session = (.ok between, middle) ∧
      (next between).run.run middle = (.ok answer, after) := by
  have split : (first >>= next).run.run session =
      (ExceptT.bindCont next (first.run.run session).1).run (first.run.run session).2 := rfl
  rw [split] at ran
  cases outcome : (first.run.run session).1 with
  | error stop =>
      rw [outcome] at ran
      cases ran
  | ok between =>
      rw [outcome] at ran
      exact ⟨between, _, Prod.ext outcome rfl, ran⟩

/-- Whether a run from a session succeeds and its answer and session have a property. -/
def Run.succeeds {α : Type} (run : Run η α) (session : Session η) (holds : α → Session η → Bool) :
    Bool :=
  match run.run.run session with
  | (.ok answer, after) => holds answer after
  | (.error _, _) => false

theorem Run.ok_of_succeeds {α : Type} {run : Run η α} {holds : α → Session η → Bool}
    (check : run.succeeds session holds = true) :
    ∃ answer after, run.run.run session = (.ok answer, after) ∧ holds answer after = true := by
  unfold succeeds at check
  split at check
  · rename_i answer after ran
    exact ⟨answer, after, ran, check⟩
  · cases check

/-- The blocks that a run comes to obey the rules, and none but those that may be entered
succeeds. -/
structure Run.Performs (environment : Environment η) (rules : Run.Rules η)
    (runBlock : BlockRef → Run η Unit) : Prop where
  does : ∀ (session : Session η) (id : BlockRef), rules.comes session id →
    Run.Does environment rules session (runBlock id) fun _ _ => True
  may : ∀ (session : Session η) (id : BlockRef) (answer : Unit),
    ((runBlock id).run.run session).1 = .ok answer → rules.enters id

namespace Run.Does

variable {environment : Environment η} {rules : Run.Rules η} {session : Session η}
  {scope outer : ScopeRef} {body : BlockRef} {runBlock : BlockRef → Run η Unit} {fuel : Nat}
  (lawful : rules.Lawful environment) (performs : Run.Performs environment rules runBlock)

include lawful performs

theorem nested (what : Nested) (comes : rules.comes session body) :
    Run.Does environment rules session (Run.nested runBlock what body) fun _ _ => True := by
  unfold Run.nested
  refine of_holds fun begun => get_bind ?_
  split
  · exact .fail
  · refine (update (.depth _)).bind lawful fun _ inside deeds _ => ?_
    have here := performs.does inside body (deeds.comes lawful begun comes)
    exact here.andFinally fun ended _ => .depth _

omit lawful in
/-- A use of a placeholder that counts may enter its body. -/
theorem may_of_counts {key : Placeholder.Key} {argument : Option Value} {placeholder : Placeholder}
    (found : session.placeholders.get? key = some placeholder)
    (counts : Run.Counts rules.enters
      ((Run.runPlaceholder runBlock key argument).run.run session).1) :
    rules.enters placeholder.body := by
  have entered {what : Nested} {start after : Session η}
      (ran : (Run.nested runBlock what placeholder.body).run.run start = (.ok (), after)) :
      rules.enters placeholder.body := by
    unfold Run.nested at ran
    obtain ⟨current, _, -, ran⟩ := Run.ok_of_bind ran
    split at ran
    · cases ran
    · obtain ⟨_, _, -, ran⟩ := Run.ok_of_bind ran
      exact performs.may _ _ () (congrArg Prod.fst ran)
  rcases counts with all | ⟨answer, ended⟩
  · exact all _
  · have ran : (Run.runPlaceholder runBlock key argument).run.run session = (.ok (), _) :=
      Prod.ext ended rfl
    cases argument with
    | none =>
        rw [Run.ran_runPlaceholder_none found] at ran
        obtain ⟨_, _, -, ran⟩ := Run.ok_of_bind ran
        exact entered ran
    | some value =>
        rw [Run.ran_runPlaceholder_some value found] at ran
        obtain ⟨_, _, -, ran⟩ := Run.ok_of_bind ran
        obtain ⟨_, _, -, ran⟩ := Run.ok_of_bind ran
        exact entered ran

theorem runPlaceholder (key : Placeholder.Key) (argument : Option Value) :
    Run.Does environment rules session (Run.runPlaceholder runBlock key argument)
      fun _ _ => True := by
  refine of_holds fun begun => of_counts fun counts => ?_
  have may {placeholder : Placeholder}
      (found : session.placeholders.get? key = some placeholder) :=
        may_of_counts performs found counts
  clear counts
  unfold Run.runPlaceholder
  refine get_bind ?_
  dsimp only
  cases found : session.placeholders.get? key with
  | none => exact .fail
  | some placeholder =>
      have comes := lawful.placeholder session key placeholder begun found
      obtain ⟨block, isThere, role⟩ :=
        (lawful.nested session begun).valid.placeholders key placeholder found
      have isRole : (session.block placeholder.body).role = .placeholder := by
        rw [Session.block_eq_of_getElem? isThere, role]
      have owns : rules.Owns session (session.block placeholder.body).scope
          placeholder.body := ⟨comes, by rw [isRole]; rfl, rfl, fun _ => may found⟩
      refine (Run.Does.clear owns).bind lawful fun _ emptied deeds _ => ?_
      have comesEmptied := deeds.comes lawful begun comes
      cases argument with
      | none => exact nested lawful performs _ comesEmptied
      | some value =>
          have ownsEmptied := owns.mono lawful deeds begun
          refine of_holds fun begunEmptied => ?_
          refine (bindName ownsEmptied _ value).bind lawful fun _ named deedsNamed _ => ?_
          exact nested lawful performs _ (deedsNamed.comes lawful begunEmptied comesEmptied)

theorem emit (value : Value) :
    Run.Does environment rules session (Run.emit runBlock value) fun _ _ => True := by
  unfold Run.emit
  cases value.string? with
  | some text => exact write text
  | none =>
      refine get_bind ?_
      split
      · exact runPlaceholder lawful performs _ _
      · exact write _

theorem pass (owns : rules.Owns session scope body) {next : Run η Unit}
    (later : ∀ after, session.Deeds environment rules after →
      Run.Does environment rules after next fun _ _ => True) :
    Run.Does environment rules session (do runBlock body; next) fun _ _ => True :=
  (performs.does session body owns.comes).bind lawful fun _ after deeds _ => later after deeds

theorem conditionalLoop (owns : rules.Owns session scope body)
    (condition : Condition) :
    Run.Does environment rules session
      (Run.conditionalLoop environment runBlock scope body condition fuel) fun _ _ => True := by
  induction fuel generalizing session with
  | zero => exact .stop
  | succ fuel induction =>
      unfold Run.conditionalLoop
      refine of_holds fun begun =>
        (beginPass lawful owns).bind lawful fun left begunPass deeds _ => ?_
      cases left with
      | true => exact .pure trivial
      | false =>
          refine (onStore (.condition scope condition)).bind lawful fun isTrue asked
            deedsAsked _ => ?_
          cases isTrue with
          | false => exact .pure trivial
          | true =>
              have toAsked := deeds.trans deedsAsked
              refine pass lawful performs
                (owns.mono lawful toAsked begun) fun passed deedsPassed => ?_
              exact induction (owns.mono lawful (toAsked.trans deedsPassed) begun)

theorem numberedLoop (owns : rules.Owns session scope body) (name : String)
    (comparison : Comparison) (bound : Int32) (operator : Operator) (step counter : Int32) :
    Run.Does environment rules session
      (Run.numberedLoop runBlock scope body name comparison bound operator step fuel counter)
      fun _ _ => True := by
  induction fuel generalizing session counter with
  | zero => exact .stop
  | succ fuel induction =>
      unfold Run.numberedLoop
      refine of_holds fun begun =>
        (beginPass lawful owns).bind lawful fun left begunPass deeds _ => ?_
      cases left with
      | true => exact .pure trivial
      | false =>
          refine (onStore (.lift (.compares _ _ _))).bind lawful fun isTrue asked deedsAsked _ => ?_
          cases isTrue with
          | false => exact .pure trivial
          | true =>
              have toAsked := deeds.trans deedsAsked
              refine (bindName (owns.mono lawful toAsked begun) name _).bind lawful
                fun _ named deedsNamed _ => ?_
              have toNamed := toAsked.trans deedsNamed
              refine pass lawful performs
                (owns.mono lawful toNamed begun) fun passed deedsPassed => ?_
              refine (onStore (.lift (.nextCounter _ _ _ _))).bind lawful fun next later
                deedsLater _ => ?_
              have toLater := (toNamed.trans deedsPassed).trans deedsLater
              exact induction (owns.mono lawful toLater begun) next

theorem iterableLoop (owns : rules.Owns session scope body) (element : String)
    (index : Option String) (list : ListRef) (places : List Nat) :
    Run.Does environment rules session
      (Run.iterableLoop runBlock scope body element index list places) fun _ _ => True := by
  induction places generalizing session with
  | nil => exact .pure trivial
  | cons place places induction =>
      unfold Run.iterableLoop
      refine of_holds fun begun =>
        (beginPass lawful owns).bind lawful fun left begunPass deeds _ => ?_
      cases left with
      | true => exact .pure trivial
      | false =>
          refine get_bind ?_
          have goOn {named : Session η} (toNamed : session.Deeds environment rules named) :
              Run.Does environment rules named
                (do
                  runBlock body
                  Run.iterableLoop runBlock scope body element index list places)
                fun _ _ => True :=
            pass lawful performs (owns.mono lawful toNamed begun) fun passed deedsPassed =>
              induction (owns.mono lawful (toNamed.trans deedsPassed) begun)
          cases (begunPass.store.heap.items list)[place]? with
          | none => exact .fail
          | some item =>
              refine (bindName (owns.mono lawful deeds begun) element item).bind lawful
                fun _ named deedsNamed _ => ?_
              have toNamed := deeds.trans deedsNamed
              cases index with
              | none => exact goOn toNamed
              | some name =>
                  refine (bindName (owns.mono lawful toNamed begun) name _).bind lawful
                    fun _ numbered deedsNumbered _ => ?_
                  exact goOn (toNamed.trans deedsNumbered)

theorem passes (owns : rules.Owns session (session.block body).scope body)
    (header : LoopHeader) :
    Run.Does environment rules session
      (Run.passes environment runBlock fuel outer body header) fun _ _ => True := by
  unfold Run.passes
  refine of_holds fun begun => get_bind ?_
  cases header with
  | conditional condition => exact conditionalLoop lawful performs owns condition
  | numbered name start comparison bound operator step =>
      refine (loopNumber lawful outer "loop start" start).bind lawful fun counter
        started first _ => ?_
      refine (loopNumber lawful outer "loop bound" bound).bind lawful fun limit bounded
        second _ => ?_
      refine (loopNumber lawful outer "loop step" step).bind lawful fun increment
        stepped third _ => ?_
      have toStepped := (first.trans second).trans third
      exact numberedLoop lawful performs (owns.mono lawful toStepped begun) _ _ _ _ _ _
  | iterable element index iterable =>
      refine (onStore (.evaluate outer iterable)).bind lawful fun value asked deeds _ => ?_
      cases value with
      | list list =>
          exact get_bind (iterableLoop lawful performs (owns.mono lawful deeds begun) _ _ _ _)
      | primitive value => exact .fail
      | object object => exact .fail
      | function function => exact .fail

theorem loop (owns : rules.Owns session (session.block body).scope body)
    (header : LoopHeader) :
    Run.Does environment rules session
      (Run.loop environment runBlock fuel outer header body) fun _ _ => True := by
  unfold Run.loop
  refine of_holds fun begun => (update (.mark body false)).bind lawful fun _ begunPass deeds _ => ?_
  refine of_holds fun beginsPass => get_bind ?_
  have ownsBegun := owns.mono lawful deeds begun
  rw [← ownsBegun.isScope] at ownsBegun
  refine (passes lawful performs ownsBegun header).andFinally fun ended deedsEnded => ?_
  obtain ⟨comes, isOwn, isScope, may⟩ := ownsBegun.mono lawful deedsEnded beginsPass
  rw [← isScope]
  exact .clear body comes isOwn may

theorem cleared (owns : rules.Owns session (session.block body).scope body) :
    Run.Does environment rules session (Run.cleared runBlock body) fun _ _ => True := by
  unfold Run.cleared
  refine of_holds fun begun => get_bind ?_
  refine (clear owns).bind lawful fun _ emptied deeds _ => ?_
  exact performs.does emptied body (deeds.comes lawful begun owns.comes)

theorem branches {otherwise : Option BlockRef} {conditions : List (Condition × BlockRef)}
    (owns : ∀ branch ∈ conditions,
      rules.Owns session (session.block branch.2).scope branch.2)
    (ownsLast : ∀ body, otherwise = some body →
      rules.Owns session (session.block body).scope body) :
    Run.Does environment rules session
      (Run.branches environment runBlock outer otherwise conditions) fun _ _ => True := by
  induction conditions generalizing session with
  | nil =>
      unfold Run.branches
      cases otherwise with
      | none => exact .pure trivial
      | some body => exact cleared lawful performs (ownsLast body rfl)
  | cons branch conditions induction =>
      obtain ⟨condition, body⟩ := branch
      unfold Run.branches
      refine of_holds fun begun => (onStore (.condition outer condition)).bind lawful
        fun isTrue asked deeds _ => ?_
      have later {body : BlockRef}
          (owns : rules.Owns session (session.block body).scope body) :
          rules.Owns asked (asked.block body).scope body := by
        have ownsAsked := owns.mono lawful deeds begun
        rw [← ownsAsked.isScope] at ownsAsked
        exact ownsAsked
      cases isTrue with
      | true => exact cleared lawful performs (later (owns _ List.mem_cons_self))
      | false =>
          exact induction (fun branch member => later (owns branch (List.mem_cons_of_mem _ member)))
            fun body isLast => later (ownsLast body isLast)

omit performs in
theorem evaluateArgument (argument : Option Expression) :
    Run.Does environment rules session
      (argument.mapM fun expression => Run.onStore (expression.evaluate environment.host outer))
      fun _ _ => True := by
  cases argument with
  | none => exact .pure trivial
  | some expression => exact
      (onStore (.evaluate outer expression)).bind lawful fun _ _ _ _ => .pure trivial

section

variable {id : BlockRef} {nodes : List Node} (runsIn : rules.RunsIn session scope id nodes)

include runsIn

omit performs in
theorem declare {name : String} {expression : Expression} {constant : Bool} (value : Value)
    (member : .declare name expression constant ∈ nodes)
    (runs : rules.runs id (.declare name expression constant)) :
    Run.Does environment rules session (Run.declare scope name value) fun _ _ => True := by
  obtain ⟨comes, rfl, parsed⟩ := runsIn
  have inserted : Run.Does environment rules session
      (Run.onHeap (·.insert (session.block id).scope name value)) fun _ _ => True :=
    fun _ _ => ⟨.single (.declare id nodes name expression constant value comes parsed member runs),
      fun _ _ => trivial⟩
  unfold Run.declare
  refine inserted.bind lawful fun isNew _ _ _ => ?_
  cases isNew with
  | true => exact .pure trivial
  | false => exact get_bind .fail

omit performs in
theorem assign {name : String} {expression : Expression} (value : Value)
    (member : .assign name expression ∈ nodes) (runs : rules.runs id (.assign name expression)) :
    Run.Does environment rules session (Run.assign scope name value) fun _ _ => True := by
  obtain ⟨comes, rfl, parsed⟩ := runsIn
  have assigned : Run.Does environment rules session
      (Run.onHeap (·.assign (session.block id).scope name value)) fun _ _ => True :=
    fun _ _ => ⟨.single (.assign id nodes name expression value comes parsed member runs),
      fun _ _ => trivial⟩
  unfold Run.assign
  refine assigned.bind lawful fun isDeclared _ _ _ => ?_
  cases isDeclared with
  | true => exact .pure trivial
  | false => exact .fail

/-- A node that may run does what the rules allow the block and those that it runs. -/
theorem node {node : Node} (member : node ∈ nodes) (runs : rules.runs id node) :
    Run.Does environment rules session (Run.node environment runBlock fuel scope node)
      fun _ _ => True := by
  refine of_holds fun begun => ?_
  have owns {role : BlockRole} {body : BlockRef} (refers : node.Refers role body)
      (isOwn : role.ownsScope = true) (other : role ≠ .placeholder) :
      rules.Owns session (session.block body).scope body :=
    Rules.owns_of_refers lawful begun runsIn member runs refers isOwn other
  cases node with
  | text content => exact write content
  | read path =>
      refine (onStore (.followFrom scope none path)).bind lawful fun value _ _ _ => ?_
      split
      · exact .pure trivial
      · exact emit lawful performs value
  | declare name value constant =>
      refine (onStore (.evaluate scope value)).bind lawful fun found _ deeds _ => ?_
      exact declare lawful (runsIn.mono lawful deeds begun) found member runs
  | assign name value =>
      refine (onStore (.evaluate scope value)).bind lawful fun found _ deeds _ => ?_
      exact assign lawful (runsIn.mono lawful deeds begun) found member runs
  | loop header body => exact loop lawful performs (owns (.loop header body) rfl nofun) header
  | leave target => exact update (.mark target true)
  | branches conditions otherwise =>
      refine branches lawful performs (fun branch isBranch => ?_) fun body isLast => ?_
      · exact owns (.branch conditions otherwise branch isBranch) rfl nofun
      · subst isLast
        exact owns (.otherwise conditions body) rfl nofun
  | definePlaceholder key parameter body =>
      exact update (.define id nodes key parameter body runsIn.comes runsIn.parsed member runs)
  | usePlaceholder key argument =>
      exact (evaluateArgument lawful argument).bind lawful fun value _ _ _ =>
        runPlaceholder lawful performs key value
  | embed block =>
      have comes := lawful.inner session id nodes begun runsIn.comes runsIn.parsed _ member runs _ _
        (.embed block)
      exact nested lawful performs _ comes
  | malformed error => exact .fail

end

omit performs in
theorem openBlock {id : BlockRef} (comes : rules.comes session id) :
    Run.Does environment rules session (Run.openBlock environment id) fun opened after =>
      rules.RunsIn after opened.1.scope id opened.2 := by
  unfold Run.openBlock
  refine of_holds fun begun => ?_
  refine (nodesOf lawful comes).bind lawful fun parsed ready deeds isParsed => ?_
  refine of_holds fun begunReady => get_bind ?_
  have runsIn : rules.RunsIn ready (ready.block id).scope id parsed :=
    ⟨deeds.comes lawful begun comes, rfl, isParsed⟩
  refine (seek _ _).bind lawful fun _ started deedsStarted _ => .pure ?_
  exact runsIn.mono lawful deedsStarted begunReady

omit performs in
theorem blockBy {id : BlockRef} (comes : rules.comes session id)
    {runNode : ScopeRef → Node → Run η Unit}
    (each : ∀ (after : Session η) (scope : ScopeRef) (nodes : List Node),
      rules.RunsIn after scope id nodes → ∀ node ∈ nodes,
        Run.Does environment rules after (runNode scope node) fun _ _ => True) :
    Run.Does environment rules session (Run.blockBy environment runNode id) fun _ _ => True := by
  unfold Run.blockBy
  refine (openBlock lawful comes).bind lawful fun ⟨block, parsed⟩ started _ runsIn => ?_
  refine of_holds fun begun => (nodes lawful _ fun node member after deeds => ?_).bind lawful
    fun _ _ _ _ => (seek _ _).weaken fun _ _ _ => trivial
  exact each after block.scope parsed (runsIn.mono lawful deeds begun) node member

end Run.Does

namespace Run

variable {environment : Environment η} {rules : Run.Rules η} {runBlock : BlockRef → Run η Unit}

theorem does_blockWith (lawful : rules.Lawful environment)
    (performs : Run.Performs environment rules runBlock) (all : ∀ id node, rules.runs id node)
    {session : Session η} {id : BlockRef} (comes : rules.comes session id) (fuel : Nat) :
    Run.Does environment rules session (Run.blockWith environment runBlock fuel id)
      fun _ _ => True := by
  rw [blockWith_eq]
  exact .blockBy lawful comes fun after scope nodes runsIn node member =>
    .node lawful performs runsIn member (all id node)

/-- Blocks obey rules by which all may be entered and every node may run. -/
theorem performs_block (lawful : rules.Lawful environment) (enters : ∀ id, rules.enters id)
    (all : ∀ id node, rules.runs id node) (fuel : Nat) :
    Run.Performs environment rules (Run.block environment fuel) := by
  refine ⟨fun session id comes => ?_, fun _ id _ _ => enters id⟩
  induction fuel generalizing session id with
  | zero => exact .stop
  | succ fuel induction =>
      exact does_blockWith lawful ⟨induction, fun _ id _ _ => enters id⟩ all comes fuel

/-- Runs a block, and stops as soon as a node that must not run is about to. -/
def blockOnly (mayRun : BlockRef → Node → Bool) (environment : Environment η) :
    Nat → BlockRef → Run η Unit
  | 0, _ => throw .outOfFuel
  | fuel + 1, id =>
      blockBy environment (fun scope next =>
        if mayRun id next then
          node environment (blockOnly mayRun environment fuel) fuel scope next
        else throw .outOfFuel) id

/-- A run of certain nodes only obeys rules by which these may run. -/
theorem performs_blockOnly (lawful : rules.Lawful environment) (enters : ∀ id, rules.enters id)
    {mayRun : BlockRef → Node → Bool}
    (may : ∀ id node, mayRun id node = true → rules.runs id node) (fuel : Nat) :
    Run.Performs environment rules (Run.blockOnly mayRun environment fuel) := by
  refine ⟨fun session id comes => ?_, fun _ id _ _ => enters id⟩
  induction fuel generalizing session id with
  | zero => exact .stop
  | succ fuel induction =>
      refine .blockBy lawful comes fun after scope nodes runsIn node member => ?_
      split
      · rename_i isAllowed
        have performs : Run.Performs environment rules (Run.blockOnly mayRun environment fuel) :=
          ⟨induction, fun _ id _ _ => enters id⟩
        exact .node lawful performs runsIn member (may id node isAllowed)
      · exact .stop

end Run

end Stencil
