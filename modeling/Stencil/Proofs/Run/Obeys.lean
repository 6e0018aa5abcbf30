import Stencil.Proofs.Run.Policy

/-!
# Runs that keep to a policy

Every piece of a run takes a sound session only through steps that the policy allows, and fails only
with errors that the policy allows.
-/

namespace Stencil

open Text

variable {η : Type}

/-- A piece of a run that begins in a sound session keeps to a policy, and its answer has a
property. -/
def Policy.Obeys {α : Type} (policy : Policy η) (embeddings : Embeddings) (session : Session η)
    (run : Run η α) (answers : α → Session η → Prop) : Prop :=
  policy.Sound embeddings session →
    session.Chain policy embeddings (run.run.run session).2 ∧
      (∀ answer, (run.run.run session).1 = .ok answer → answers answer (run.run.run session).2) ∧
      ∀ error, (run.run.run session).1 = .error (.failed error) → policy.raises error

theorem Run.run_bind_of_ok {α β : Type} {run : Run η α} {next : α → Run η β} {answer : α}
    {session after : Session η} (ran : run.run.run session = pure (.ok answer, after)) :
    (run >>= next).run.run session = (next answer).run.run after := by
  have split : (run >>= next).run.run session =
      (ExceptT.bindCont next (run.run.run session).1).run (run.run.run session).2 := rfl
  rw [split, ran]
  rfl

/-- An evaluation runs in the store of a session. -/
theorem Run.ran_onStore {α : Type} {evaluator : Evaluator η α} {session : Session η}
    {outcome : Except TemplateError α} {store : Store η}
    (ran : evaluator.run.run session.store = (outcome, store)) :
    (Run.onStore evaluator).run.run session =
      (outcome.mapError .failed, { session with store }) := by
  have split : (Run.onStore evaluator).run.run session =
      ((evaluator.run.run session.store).1.mapError .failed,
        { session with store := (evaluator.run.run session.store).2 }) := rfl
  rw [split, ran]

/-- A source goes to every place of its text. -/
theorem Run.ran_seek {session : Session η} {id : SourceRef} {offset : Nat}
    (place : IsPlace (session.text id) offset) :
    (Source.seek offset (session.source id)).1 = true ∧
      Source.pointer (Source.seek offset (session.source id)).2 = offset ∧
      (Run.seek id offset).run.run session =
        (.ok (), session.setSource id (Source.seek offset (session.source id)).2) := by
  obtain ⟨target, isText, isOffset⟩ := place
  have sought : (session.source id).cursor.seek? offset = some target :=
    Cursor.seek?_eq_some_iff.mpr ⟨isText, isOffset⟩
  have found : (Source.seek offset (session.source id)).1 = true := by
    have same := Tracked.seek_eq offset (session.source id)
    change _ = ((session.source id).cursor.seek? offset).isSome at same
    rw [sought] at same
    exact same
  have moved : (Source.seek offset (session.source id)).2.cursor = target := by
    have same := Tracked.cursor_seek offset (session.source id)
    change _ = ((session.source id).cursor.seek? offset).getD _ at same
    rw [sought] at same
    exact same
  have unfolded : (Run.seek id offset).run.run session =
      (if (Source.seek offset (session.source id)).1 then
        set (session.setSource id (Source.seek offset (session.source id)).2)
      else Run.fail (.parse (.cannotSeek offset)
        (Source.position (Source.seek offset (session.source id)).2)) : Run η Unit).run.run
          session := rfl
  rw [unfolded, if_pos found]
  exact ⟨found, (congrArg Cursor.offset moved).trans isOffset, rfl⟩

/-- A block that was parsed is not parsed again. -/
theorem Run.ran_nodesOf_of_parsed
    (environment : Environment η) {session : Session η} {id : BlockRef}
    {nodes : List Node} (parsed : (session.block id).nodes? = some nodes) :
    (Run.nodesOf environment id).run.run session = (.ok nodes, session) := by
  have read : (get : Run η (Session η)).run.run session = pure (.ok session, session) := rfl
  rw [Run.nodesOf, run_bind_of_ok read]
  dsimp only
  rw [parsed]
  rfl

/-- A block that was not parsed is parsed from its start on. -/
theorem Run.ran_nodesOf_of_unparsed (environment : Environment η) {session sought : Session η}
    {id : BlockRef} (unparsed : (session.block id).nodes? = none)
    (ran : (Run.seek (session.block id).source (session.block id).start).run.run session =
      (.ok (), sought)) :
    (Run.nodesOf environment id).run.run session =
      (.ok (sought.parseBlock environment.embeddings id).1,
        (sought.parseBlock environment.embeddings id).2) := by
  have read : (get : Run η (Session η)).run.run session = pure (.ok session, session) := rfl
  rw [Run.nodesOf, run_bind_of_ok read]
  dsimp only
  rw [unparsed]
  exact run_bind_of_ok ran

/-- A placeholder without an argument runs its body after its scope was emptied. -/
theorem Run.ran_runPlaceholder_none {runBlock : BlockRef → Run η Unit} {session : Session η}
    {key : Placeholder.Key} {placeholder : Placeholder}
    (found : session.placeholders.get? key = some placeholder) :
    (Run.runPlaceholder runBlock key none).run.run session =
      (do
        Run.clear (session.block placeholder.body).scope
        Run.nested runBlock (.placeholder key) placeholder.body : Run η Unit).run.run session := by
  have read : (get : Run η (Session η)).run.run session = pure (.ok session, session) := rfl
  rw [Run.runPlaceholder, run_bind_of_ok read, found]

/-- An argument is bound in the scope of the body before. -/
theorem Run.ran_runPlaceholder_some {runBlock : BlockRef → Run η Unit} {session : Session η}
    {key : Placeholder.Key} {placeholder : Placeholder} (argument : Value)
    (found : session.placeholders.get? key = some placeholder) :
    (Run.runPlaceholder runBlock key (some argument)).run.run session =
      (do
        Run.clear (session.block placeholder.body).scope
        Run.bindName (session.block placeholder.body).scope placeholder.parameter argument
        Run.nested runBlock (.placeholder key) placeholder.body : Run η Unit).run.run session := by
  have read : (get : Run η (Session η)).run.run session = pure (.ok session, session) := rfl
  rw [Run.runPlaceholder, run_bind_of_ok read, found]

namespace Policy.Obeys

variable {policy : Policy η} {embeddings : Embeddings} {host : Host η} {session : Session η}
  {α β : Type}

theorem of_sound {run : Run η α} {answers : α → Session η → Prop}
    (obeys : policy.Sound embeddings session → policy.Obeys embeddings session run answers) :
    policy.Obeys embeddings session run answers :=
  fun sound => obeys sound sound

theorem pure {answer : α} {answers : α → Session η → Prop} (isAnswer : answers answer session) :
    policy.Obeys embeddings session (Pure.pure answer) answers := by
  refine fun _ => ⟨.refl, fun found same => ?_, fun _ same => nomatch same⟩
  cases same
  exact isAnswer

theorem outOfFuel {answers : α → Session η → Prop} :
    policy.Obeys embeddings session (throw .outOfFuel : Run η α) answers :=
  fun _ => ⟨.refl, fun _ same => (nomatch same), fun _ same => nomatch same⟩

theorem fail {error : TemplateError} {answers : α → Session η → Prop}
    (raises : policy.raises error) :
    policy.Obeys embeddings session (Run.fail error : Run η α) answers := by
  refine fun _ => ⟨.refl, fun _ same => (nomatch same), fun found same => ?_⟩
  cases same
  exact raises

theorem weaken {run : Run η α} {answers weaker : α → Session η → Prop}
    (obeys : policy.Obeys embeddings session run answers)
    (implies : ∀ answer after, session.Chain policy embeddings after → answers answer after →
      weaker answer after) : policy.Obeys embeddings session run weaker := by
  intro sound
  obtain ⟨chain, isAnswer, raised⟩ := obeys sound
  exact ⟨chain, fun answer found => implies answer _ chain (isAnswer answer found), raised⟩

theorem bind (lawful : policy.Lawful host) {first : Run η α} {next : α → Run η β}
    {middle : α → Session η → Prop} {answers : β → Session η → Prop}
    (here : policy.Obeys embeddings session first middle)
    (later : ∀ answer after, session.Chain policy embeddings after → middle answer after →
      policy.Obeys embeddings after (next answer) answers) :
    policy.Obeys embeddings session (first >>= next) answers := by
  intro sound
  obtain ⟨chain, isAnswer, raised⟩ := here sound
  have split : (first >>= next).run.run session =
      (ExceptT.bindCont next (first.run.run session).1).run (first.run.run session).2 := rfl
  cases outcome : (first.run.run session).1 with
  | error stop =>
      rw [outcome] at split
      rw [split]
      refine ⟨chain, fun _ same => (nomatch same), fun error same => ?_⟩
      cases same
      exact raised error outcome
  | ok answer =>
      obtain ⟨chainLater, isAnswerLater, raisedLater⟩ :=
        later answer _ chain (isAnswer answer outcome) (chain.sound lawful sound)
      rw [outcome] at split
      rw [split]
      exact ⟨chain.trans chainLater, isAnswerLater, raisedLater⟩

/-- What comes next may look at the session. -/
theorem get_bind {next : Session η → Run η β} {answers : β → Session η → Prop}
    (later : policy.Obeys embeddings session (next session) answers) :
    policy.Obeys embeddings session (get >>= next) answers :=
  later

theorem update {change : Session η → Session η} {answers : Unit → Session η → Prop}
    (step : policy.Sound embeddings session → session.Step policy embeddings (change session))
    (isAnswer : answers () (change session)) :
    policy.Obeys embeddings session (modify change) answers := by
  refine fun sound => ⟨.single (step sound), fun found same => ?_, fun _ same => nomatch same⟩
  cases same
  exact isAnswer

theorem onStore {evaluator : Evaluator η α} {answers : α → Store η → Prop}
    (works : policy.Sound embeddings session →
      policy.Works session.store evaluator answers) :
    policy.Obeys embeddings session (Run.onStore evaluator)
      fun answer after => answers answer after.store := by
  intro sound
  obtain ⟨becomes, isAnswer, raised⟩ := works sound
  have ran : (Run.onStore evaluator).run.run session =
      ((evaluator.run.run session.store).1.mapError Stop.failed,
        { session with store := (evaluator.run.run session.store).2 }) := rfl
  rw [ran]
  refine ⟨.single (.store _ becomes), fun answer same => ?_, fun error same => ?_⟩
  · cases outcome : (evaluator.run.run session.store).1 with
    | error problem =>
        rw [outcome] at same
        cases same
    | ok found =>
        rw [outcome] at same
        cases same
        exact isAnswer _ outcome
  · cases outcome : (evaluator.run.run session.store).1 with
    | error problem =>
        rw [outcome] at same
        cases same
        exact raised _ outcome
    | ok found =>
        rw [outcome] at same
        cases same

theorem andFinally (lawful : policy.Lawful host) {run : Run η α} {after : Session η → Session η}
    {answers : α → Session η → Prop} (obeys : policy.Obeys embeddings session run answers)
    (last : ∀ ended, session.Chain policy embeddings ended → policy.Sound embeddings ended →
      ended.Step policy embeddings (after ended)) :
    policy.Obeys embeddings session (Run.andFinally run after) fun _ _ => True := by
  intro sound
  obtain ⟨chain, -, raised⟩ := obeys sound
  have ran : (Run.andFinally run after).run.run session =
      ((run.run.run session).1, after (run.run.run session).2) := rfl
  rw [ran]
  exact ⟨chain.trans (.single (last _ chain (chain.sound lawful sound))), fun _ _ =>
    trivial, raised⟩

theorem onHeap {change : Heap → α × Heap} {answers : α → Session η → Prop}
    (becomes : policy.Sound embeddings session →
      policy.Becomes session.store { session.store with heap := (change session.store.heap).2 })
    (isAnswer : answers (change session.store.heap).1
      { session with store := { session.store with heap := (change session.store.heap).2 } }) :
    policy.Obeys embeddings session (Run.onHeap change) answers := by
  refine fun sound => ⟨.single (.store _ (becomes sound)), fun found same => ?_,
    fun _ same => nomatch same⟩
  cases same
  exact isAnswer

theorem clear (lawful : policy.Lawful host) {scope : ScopeRef}
    (has : policy.hasScope session.store scope) :
    policy.Obeys embeddings session (Run.clear scope) fun _ _ => True :=
  .update (fun sound => .store _ (lawful.clear _ _ sound.store has)) trivial

theorem bindName (lawful : policy.Lawful host) {scope : ScopeRef} {name : String} {value : Value}
    (has : policy.hasScope session.store scope) (hasValue : policy.hasValue session.store value) :
    policy.Obeys embeddings session (Run.bindName scope name value) fun _ _ => True :=
  .update (fun sound => .store _ (lawful.put _ _ _ _ sound.store has hasValue)) trivial

theorem write (text : String) :
    policy.Obeys embeddings session (Run.write text) fun _ _ => True :=
  .update (fun _ => .write text) trivial

theorem wasLeft (enclosingLoop : Option BlockRef) :
    policy.Obeys embeddings session (Run.wasLeft enclosingLoop) fun _ _ => True :=
  get_bind (.pure trivial)

theorem seek {id : SourceRef} {offset : Nat} (present : id.index < session.sources.size)
    (place : IsPlace (session.text id) offset) :
    policy.Obeys embeddings session (Run.seek id offset) fun _ after =>
      session.Quiet after ∧ Source.pointer (after.source id) = offset := by
  obtain ⟨found, pointer, ran⟩ := Run.ran_seek place
  rw [Policy.Obeys, ran]
  refine fun _ => ⟨.single (.seek id offset found), fun _ _ => ⟨session.quiet_seek id offset, ?_⟩,
    fun _ same => nomatch same⟩
  rw [Session.source_setSource_self _ present]
  exact pointer

/-- The nodes of a block that is parsed, or that may be. -/
theorem nodesOf (lawful : policy.Lawful host) {environment : Environment η} {id : BlockRef}
    (present : id.index < session.blocks.size)
    (may : policy.mayParse id ∨ (session.block id).nodes?.isSome = true) :
    policy.Obeys environment.embeddings session (Run.nodesOf environment id) fun nodes after =>
      (after.block id).nodes? = some nodes := by
  unfold Run.nodesOf
  refine of_sound fun sound => get_bind ?_
  have isThere := Session.getElem?_of_lt present
  have sourcePresent := sound.valid.source_lt isThere
  dsimp only
  cases parsed : (session.block id).nodes? with
  | some nodes => exact .pure parsed
  | none =>
      have allowed : policy.mayParse id := by
        rcases may with may | isParsed
        · exact may
        · rw [parsed] at isParsed
          cases isParsed
      have fits := sound.valid.fits isThere
      refine (seek sourcePresent fits.start).bind lawful fun _ sought chain ⟨quiet, atStart⟩ => ?_
      obtain ⟨block, presentLater, unmarked⟩ := quiet.exists_block isThere
      have isBlock := Session.block_eq_of_getElem? presentLater
      have source : (sought.block id).source = (session.block id).source := by
        rw [isBlock]
        exact Block.eq_of_unmarked Block.source (fun _ => rfl) unmarked
      have start : (sought.block id).start = (session.block id).start := by
        rw [isBlock]
        exact Block.eq_of_unmarked Block.start (fun _ => rfl) unmarked
      have unparsed : (sought.block id).nodes? = none := by
        rw [isBlock, ← parsed]
        exact Block.eq_of_unmarked Block.nodes? (fun _ => rfl) unmarked
      rw [← source, ← start] at atStart
      have soughtPresent := Session.lt_of_getElem? presentLater
      intro soundLater
      refine ⟨.single (.parse id allowed soughtPresent unparsed atStart), fun nodes same => ?_,
        fun _ same => nomatch same⟩
      cases same
      have soughtSource := soundLater.valid.source_lt (Session.getElem?_of_lt soughtPresent)
      have parsing := @Session.parsing_parseBlock _ _ environment.embeddings _ soughtPresent
        soughtSource unparsed atStart
      change ((sought.parseBlock environment.embeddings id).2.block id).nodes? = _
      rw [Session.block_eq_of_getElem? parsing.self]
      rfl

end Policy.Obeys

end Stencil
