import Stencil.Proofs.Reading.Frame

/-!
# Two runs of the same blocks

After a run has ended, another one begins on what it left.  At each point of the first run there is
a session of the second one that looks alike, as far as the first run can tell.
-/

namespace Stencil

variable {η : Type}

/-- A run that has ended and is repeated. -/
structure Rerun (η : Type) where
  environment : Environment η
  keeps : environment.host.KeepsParents
  /-- The names that may be called. -/
  called : List String
  /-- The session when the first run ended. -/
  final : Session η
  shift : Shift

/-- What a piece of a run has to know: scopes that names are looked up in, blocks that may be left,
and values. -/
structure Setting where
  scopes : List ScopeRef := []
  marks : List BlockRef := []
  values : List Value := []

/-- A session of a template that only reads, whose placeholders are bodies next to the global scope,
and in which no function is stored under a name that is called. -/
structure Session.Settled (environment : Environment η) (called : List String)
    (session : Session η) : Prop where
  nested : session.Nested environment.embeddings
  tops : ∀ key placeholder, session.placeholders.get? key = some placeholder →
    session.IsTop placeholder.body
  only : session.ReadsOnly called environment.embeddings
  lacks : session.store.heap.LacksFunctions called

theorem Session.Reads.settled {environment : Environment η} {called : List String}
    {before after : Session η} (keeps : environment.host.KeepsParents)
    (reads : before.Reads environment called after) (settled : before.Settled environment called) :
    after.Settled environment called := by
  have nested := settled.nested
  constructor
  · exact reads.effects.nested keeps nested
  · intro key placeholder found
    rw [reads.placeholders] at found
    have isTop := settled.tops key placeholder found
    apply isTop.mono (reads.effects.toExtends keeps nested)
      (reads.effects.keepsParents keeps nested)
    exact nested.inRange _ isTop.1
  · exact settled.only.later (reads.effects.chain keeps nested) reads.placeholders
  · exact reads.lacks settled.lacks

theorem View.Opens.mono {view later : View} {heap after other : Heap} {scope : ScopeRef}
    (opens : view.Opens heap scope) (alike : view.Alike heap other) (grows : view.Grows later)
    (keeps : heap.Keeps after) : later.Opens after scope := by
  induction opens with
  | outermost scope known last =>
      have parent := (keeps.scopes scope (alike.scopes scope known).1).2.1
      apply View.Opens.outermost scope (grows.scopes scope known)
      rw [parent, last]
  | inner scope parent known isParent earlier _ induction =>
      have same := (keeps.scopes scope (alike.scopes scope known).1).2.1
      apply View.Opens.inner scope parent (grows.scopes scope known) _ earlier induction
      rw [same, isParent]

namespace Setting

/-- The scopes of a setting and the global one. -/
def opened (setting : Setting) : List ScopeRef := .global :: setting.scopes

def also (setting more : Setting) : Setting where
  scopes := setting.scopes ++ more.scopes
  marks := setting.marks ++ more.marks
  values := setting.values ++ more.values

/-- A run knows what a setting lists. -/
structure Known (setting : Setting) (view : View) (heap : Heap) : Prop where
  scopes : ∀ scope ∈ setting.opened, view.Opens heap scope
  marks : ∀ id ∈ setting.marks, view.marks id
  values : ∀ value ∈ setting.values, view.Knows heap value

variable {setting more : Setting} {view later : View} {heap after other : Heap}

@[simp]
theorem mem_opened_also {scope : ScopeRef} :
    scope ∈ (setting.also more).opened ↔ scope ∈ setting.opened ∨ scope ∈ more.scopes := by
  simp [opened, also, or_assoc]

@[simp]
theorem mem_marks_also {id : BlockRef} :
    id ∈ (setting.also more).marks ↔ id ∈ setting.marks ∨ id ∈ more.marks := by
  simp [also]

@[simp]
theorem mem_values_also {value : Value} :
    value ∈ (setting.also more).values ↔ value ∈ setting.values ∨ value ∈ more.values := by
  simp [also]

theorem opened_also {scope : ScopeRef} (opened : scope ∈ setting.opened) (more : Setting) :
    scope ∈ (setting.also more).opened :=
  mem_opened_also.mpr (.inl opened)

theorem value_also {value : Value} (isKnown : value ∈ setting.values) (more : Setting) :
    value ∈ (setting.also more).values :=
  mem_values_also.mpr (.inl isKnown)

theorem mark_also {id : BlockRef} (marked : id ∈ setting.marks) (more : Setting) :
    id ∈ (setting.also more).marks :=
  mem_marks_also.mpr (.inl marked)

theorem gained_value {value : Value} : value ∈ (setting.also { values := [value] }).values :=
  mem_values_also.mpr (.inr List.mem_cons_self)

theorem Known.also (known : setting.Known view heap) (knownMore : more.Known view heap) :
    (setting.also more).Known view heap := by
  constructor
  · intro scope member
    rcases mem_opened_also.mp member with here | there
    · exact known.scopes scope here
    · exact knownMore.scopes scope (List.mem_cons_of_mem _ there)
  · intro id member
    rcases mem_marks_also.mp member with here | there
    · exact known.marks id here
    · exact knownMore.marks id there
  · intro value member
    rcases mem_values_also.mp member with here | there
    · exact known.values value here
    · exact knownMore.values value there

theorem Known.mono (known : setting.Known view heap) (alike : view.Alike heap other)
    (grows : view.Grows later) (keeps : heap.Keeps after) : setting.Known later after := by
  constructor
  · exact fun scope member => (known.scopes scope member).mono alike grows keeps
  · exact fun id member => grows.marks id (known.marks id member)
  · exact fun value member => (grows.knows (known.values value member)).mono keeps.covers

/-- What is known wherever the global scope is. -/
theorem Known.none (known : setting.Known view heap) : ({} : Setting).Known view heap := by
  constructor
  · intro scope member
    rw [List.mem_singleton.mp member]
    exact known.scopes .global List.mem_cons_self
  · exact fun _ member => nomatch member
  · exact fun _ member => nomatch member

theorem Known.ofValues (known : setting.Known view heap) {values : List Value}
    (areKnown : ∀ value ∈ values, view.Knows heap value) :
    ({ values } : Setting).Known view heap :=
  ⟨known.none.scopes, known.none.marks, areKnown⟩

theorem Known.ofValue (known : setting.Known view heap) {value : Value}
    (isKnown : view.Knows heap value) : ({ values := [value] } : Setting).Known view heap := by
  apply known.ofValues
  intro other member
  rw [List.mem_singleton.mp member]
  exact isKnown

theorem Known.ofScope (known : setting.Known view heap) {scope : ScopeRef}
    (opens : view.Opens heap scope) : ({ scopes := [scope] } : Setting).Known view heap := by
  constructor
  · intro around member
    rcases List.mem_cons.mp member with rfl | isScope
    · exact known.scopes .global List.mem_cons_self
    · rw [List.mem_singleton.mp isScope]
      exact opens
  · exact fun _ member => nomatch member
  · exact fun _ member => nomatch member

theorem Known.ofMark (known : setting.Known view heap) {id : BlockRef} (marked : view.marks id) :
    ({ marks := [id] } : Setting).Known view heap := by
  constructor
  · exact known.none.scopes
  · intro other member
    rw [List.mem_singleton.mp member]
    exact marked
  · exact fun _ member => nomatch member

end Setting

namespace Rerun

/-- At one point of both runs the sessions look alike, as far as the first run can tell. -/
structure Twin (rerun : Rerun η) (view : View) (session other : Session η) : Prop where
  shift : view.shift = rerun.shift
  alike : view.Alike session.store.heap other.store.heap
  depth : other.depth = session.depth
  writes : other.writes = session.writes
  placeholders : other.placeholders = session.placeholders
  marks : ∀ id : BlockRef, view.marks id → id.index < session.blocks.size ∧
    id.index < other.blocks.size ∧ (other.block id).wasLeft = (session.block id).wasLeft
  /-- The second run parses nothing. -/
  quiet : rerun.final.Quiet other
  heap : rerun.final.store.heap.Keeps other.store.heap

variable {rerun : Rerun η} {view : View} {session other : Session η}

/-- Of a block that both runs know, the second one has what the first one will have at its end. -/
theorem Twin.block (twin : rerun.Twin view session other)
    (settled : session.Settled rerun.environment rerun.called)
    (ahead : session.Reads rerun.environment rerun.called rerun.final) {id : BlockRef}
    (present : id.index < session.blocks.size) :
    (other.block id).outline = (session.block id).outline ∧
      ∀ nodes, (session.block id).nodes? = some nodes → (other.block id).nodes? = some nodes := by
  have ext := ahead.effects.toExtends rerun.keeps settled.nested
  have quiet := twin.quiet.toExtends
  constructor
  · exact (quiet.outline_block (ext.lt present)).trans (ext.outline_block present)
  · exact fun nodes parsed => quiet.nodes? (ext.nodes? parsed)

theorem Twin.scope (twin : rerun.Twin view session other)
    (settled : session.Settled rerun.environment rerun.called)
    (ahead : session.Reads rerun.environment rerun.called rerun.final) {id : BlockRef}
    (present : id.index < session.blocks.size) :
    (other.block id).scope = (session.block id).scope :=
  Block.eq_of_outline Block.scope (fun _ => rfl) (twin.block settled ahead present).1

/-- Scopes of the first run have the same parents and names in the second one. -/
theorem Twin.scopes (twin : rerun.Twin view session other)
    (ahead : session.Reads rerun.environment rerun.called rerun.final) {scope : ScopeRef}
    (present : scope.index < session.store.heap.scopes.size) :
    (other.store.heap.scope scope).parent = (session.store.heap.scope scope).parent ∧
      (other.store.heap.scope scope).name = (session.store.heap.scope scope).name := by
  obtain ⟨later, parent, name⟩ := ahead.heap.scopes scope present
  obtain ⟨-, parentOther, nameOther⟩ := twin.heap.scopes scope later
  exact ⟨parentOther.trans parent, nameOther.trans name⟩

/-- A piece of the first run does to a session only what a run that only reads does, and its answer
has a property; and the same piece of the second run does alike, as far as the first one knows what
the setting lists, and so gets to know what the answer gives. -/
def Mirrors {α β : Type} (rerun : Rerun η) (setting : Setting) (session : Session η)
    (here : Run η α) (there : Run η β) (change : α → β) (answers : α → Session η → Prop)
    (gains : α → Setting) : Prop :=
  session.Settled rerun.environment rerun.called →
    session.Reads rerun.environment rerun.called (here.run.run session).2 ∧
    (here.run.run session).2.depth = session.depth ∧
    (∀ answer, (here.run.run session).1 = .ok answer → answers answer (here.run.run session).2) ∧
    ∀ view other, setting.Known view session.store.heap → rerun.Twin view session other →
      (here.run.run session).2.Reads rerun.environment rerun.called rerun.final →
      ∃ later, view.Grows later ∧
        rerun.Twin later (here.run.run session).2 (there.run.run other).2 ∧
        (there.run.run other).1 = (here.run.run session).1.map change ∧
        ∀ answer, (here.run.run session).1 = .ok answer →
          (gains answer).Known later (here.run.run session).2.store.heap

namespace Mirrors

variable {α β γ δ : Type} {setting : Setting} {here : Run η α} {there : Run η β} {change : α → β}
  {answers : α → Session η → Prop} {gains : α → Setting}

theorem of_settled
    (mirrors : session.Settled rerun.environment rerun.called →
      rerun.Mirrors setting session here there change answers gains) :
    rerun.Mirrors setting session here there change answers gains :=
  fun settled => mirrors settled settled

theorem pure {answer : α} {answer' : β} (same : answer' = change answer)
    (isAnswer : answers answer session)
    (gained : ∀ view heap, setting.Known view heap → (gains answer).Known view heap) :
    rerun.Mirrors setting session (Pure.pure answer) (Pure.pure answer') change answers gains := by
  intro settled
  subst same
  refine ⟨.refl session, rfl, ?_, ?_⟩
  · rintro found ⟨⟩
    exact isAnswer
  · intro view other known twin _
    refine ⟨view, .refl view, twin, rfl, ?_⟩
    rintro found ⟨⟩
    exact gained view _ known

theorem stop (reason : Stop) :
    rerun.Mirrors setting session (throw reason : Run η α) (throw reason : Run η β) change answers
      gains := by
  intro settled
  refine ⟨.refl session, rfl, fun _ same => (nomatch same), ?_⟩
  intro view other known twin _
  exact ⟨view, .refl view, twin, rfl, fun _ same => nomatch same⟩

theorem fail (error : TemplateError) :
    rerun.Mirrors setting session (Run.fail error : Run η α) (Run.fail error : Run η β) change
      answers gains :=
  stop _

theorem weaken {answers' : α → Session η → Prop} {gains' : α → Setting}
    (mirrors : rerun.Mirrors setting session here there change answers gains)
    (implies : ∀ answer after, answers answer after → answers' answer after)
    (gained : ∀ answer view heap, (setting.also (gains answer)).Known view heap →
      (gains' answer).Known view heap) :
    rerun.Mirrors setting session here there change answers' gains' := by
  intro settled
  obtain ⟨reads, depth, isAnswer, twins⟩ := mirrors settled
  refine ⟨reads, depth, fun answer found => implies answer _ (isAnswer answer found), ?_⟩
  intro view other known twin ahead
  obtain ⟨later, grows, twinLater, outcome, gain⟩ := twins view other known twin ahead
  refine ⟨later, grows, twinLater, outcome, fun answer found => ?_⟩
  exact gained answer later _ ((known.mono twin.alike grows reads.heap).also (gain answer found))

/-- What holds of the answer of the first run may be found out from that run alone. -/
theorem found {property : α → Prop}
    (mirrors : rerun.Mirrors setting session here there change answers gains)
    (holds : session.Settled rerun.environment rerun.called →
      ∀ answer, (here.run.run session).1 = .ok answer → property answer) :
    rerun.Mirrors setting session here there change
      (fun answer after => answers answer after ∧ property answer) gains := by
  intro settled
  obtain ⟨reads, depth, isAnswer, twins⟩ := mirrors settled
  exact ⟨reads, depth, fun answer ran => ⟨isAnswer answer ran, holds settled answer ran⟩, twins⟩

theorem forget (mirrors : rerun.Mirrors setting session here there change answers gains) :
    rerun.Mirrors setting session here there change (fun _ _ => True) fun _ => {} :=
  mirrors.weaken (fun _ _ _ => trivial) fun _ _ _ known => known.none

/-- What both runs have in common may be found out before a piece. -/
theorem learn (more : Setting)
    (learned : ∀ view other, setting.Known view session.store.heap →
      rerun.Twin view session other → more.Known view session.store.heap)
    (mirrors : rerun.Mirrors (setting.also more) session here there change answers gains) :
    rerun.Mirrors setting session here there change answers gains := by
  intro settled
  obtain ⟨reads, depth, isAnswer, twins⟩ := mirrors settled
  refine ⟨reads, depth, isAnswer, fun view other known twin ahead => ?_⟩
  exact twins view other (known.also (learned view other known twin)) twin ahead

theorem bind {first : Run η α} {first' : Run η β} {next : α → Run η γ} {next' : β → Run η δ}
    {change' : γ → δ} {answers' : γ → Session η → Prop} {gains' : γ → Setting}
    (here : rerun.Mirrors setting session first first' change answers gains)
    (later : ∀ answer after, session.Reads rerun.environment rerun.called after →
      after.Settled rerun.environment rerun.called → answers answer after →
      rerun.Mirrors (setting.also (gains answer)) after (next answer)
        (next' (change answer)) change'
        answers' gains') :
    rerun.Mirrors setting session (first >>= next) (first' >>= next') change' answers' gains' := by
  intro settled
  obtain ⟨reads, depth, isAnswer, twins⟩ := here settled
  have settledLater := reads.settled rerun.keeps settled
  have split : (first >>= next).run.run session =
      (ExceptT.bindCont next (first.run.run session).1).run (first.run.run session).2 := rfl
  have splitOther (other : Session η) : (first' >>= next').run.run other =
      (ExceptT.bindCont next' (first'.run.run other).1).run (first'.run.run other).2 := rfl
  cases outcome : (first.run.run session).1 with
  | error reason =>
      rw [outcome] at split
      rw [split]
      refine ⟨reads, depth, fun _ same => (nomatch same), fun view other known twin ahead => ?_⟩
      obtain ⟨view', grows, twinLater, same, -⟩ := twins view other known twin ahead
      rw [outcome] at same
      rw [splitOther, same]
      exact ⟨view', grows, twinLater, rfl, fun _ same => nomatch same⟩
  | ok answer =>
      obtain ⟨readsLater, depthLater, isAnswerLater, twinsLater⟩ :=
        later answer _ reads settledLater (isAnswer answer outcome) settledLater
      rw [outcome] at split
      rw [split]
      have allReads := reads.trans rerun.keeps settled.nested readsLater
      refine ⟨allReads, depthLater.trans depth, isAnswerLater,
        fun view other known twin ahead => ?_⟩
      obtain ⟨middle, grows, twinMiddle, same, gained⟩ :=
        twins view other known twin (readsLater.trans rerun.keeps settledLater.nested ahead)
      have knownMiddle := (known.mono twin.alike grows reads.heap).also (gained answer outcome)
      obtain ⟨view', growsLater, twinLater, sameLater, gainedLater⟩ :=
        twinsLater middle _ knownMiddle twinMiddle ahead
      rw [outcome] at same
      rw [splitOther, same]
      exact ⟨view', grows.trans growsLater, twinLater, sameLater, gainedLater⟩

/-- On the sessions at hand both pieces may be replaced by others that do the same there. -/
theorem congr {here' : Run η α} {there' : Run η β}
    (same : here.run.run session = here'.run.run session)
    (sameThere : ∀ view other, setting.Known view session.store.heap →
      rerun.Twin view session other → session.Reads rerun.environment rerun.called rerun.final →
      there.run.run other = there'.run.run other)
    (mirrors : rerun.Mirrors setting session here' there' change answers gains) :
    rerun.Mirrors setting session here there change answers gains := by
  intro settled
  obtain ⟨reads, depth, isAnswer, twins⟩ := mirrors settled
  rw [same]
  refine ⟨reads, depth, isAnswer, fun view other known twin ahead => ?_⟩
  rw [sameThere view other known twin (reads.trans rerun.keeps settled.nested ahead)]
  exact twins view other known twin ahead

/-- What comes next may look at the session. -/
theorem get_bind {next : Session η → Run η α} {next' : Session η → Run η β} (there : Run η β)
    (same : ∀ view other, setting.Known view session.store.heap → rerun.Twin view session other →
      session.Reads rerun.environment rerun.called rerun.final → next' other = there)
    (later : rerun.Mirrors setting session (next session) there change answers gains) :
    rerun.Mirrors setting session (get >>= next) (get >>= next') change answers gains := by
  apply congr _ _ later
  · rfl
  · intro view other known twin ahead
    rw [← same view other known twin ahead]
    rfl

/-- What comes next does the same for the sessions of both runs. -/
theorem look {next : Session η → Run η α} {next' : Session η → Run η β}
    (same : ∀ view other, setting.Known view session.store.heap → rerun.Twin view session other →
      session.Reads rerun.environment rerun.called rerun.final → next' other = next' session)
    (later : rerun.Mirrors setting session (next session) (next' session) change answers gains) :
    rerun.Mirrors setting session (get >>= next) (get >>= next') change answers gains :=
  get_bind _ same later

theorem update {change change' : Session η → Session η} {gains : Setting}
    (reads : session.Settled rerun.environment rerun.called →
      session.Reads rerun.environment rerun.called (change session))
    (depth : (change session).depth = session.depth)
    (twins : session.Settled rerun.environment rerun.called →
      session.Reads rerun.environment rerun.called rerun.final →
      ∀ view other, setting.Known view session.store.heap → rerun.Twin view session other →
      ∃ later, view.Grows later ∧ rerun.Twin later (change session) (change' other) ∧
        gains.Known later (change session).store.heap) :
    rerun.Mirrors setting session (modify change) (modify change') id (fun _ _ => True)
      fun _ => gains := by
  intro settled
  refine ⟨reads settled, depth, fun _ _ => trivial, fun view other known twin ahead => ?_⟩
  have fromHere := (reads settled).trans rerun.keeps settled.nested ahead
  obtain ⟨later, grows, twinLater, gained⟩ := twins settled fromHere view other known twin
  exact ⟨later, grows, twinLater, rfl, fun _ _ => gained⟩

theorem andFinally {after after' : Session η → Session η}
    {gained : Setting} (mirrors : rerun.Mirrors setting session here there change answers gains)
    (last : ∀ ended, session.Reads rerun.environment rerun.called ended →
      rerun.Mirrors setting ended (modify after : Run η Unit) (modify after' : Run η Unit) id
        (fun _ _ => True) fun _ => gained) :
    rerun.Mirrors setting session (Run.andFinally here after) (Run.andFinally there after') change
      (fun _ _ => True) fun _ => {} := by
  intro settled
  obtain ⟨reads, depth, -, twins⟩ := mirrors settled
  have settledEnded := reads.settled rerun.keeps settled
  obtain ⟨readsLast, depthLast, -, twinsLast⟩ := last _ reads settledEnded
  have allReads := reads.trans rerun.keeps settled.nested readsLast
  refine ⟨allReads, depthLast.trans depth, fun _ _ => trivial,
    fun view other known twin ahead => ?_⟩
  obtain ⟨middle, grows, twinMiddle, same, -⟩ :=
    twins view other known twin (readsLast.trans rerun.keeps settledEnded.nested ahead)
  have knownMiddle := known.mono twin.alike grows reads.heap
  obtain ⟨later, growsLater, twinLater, -, gainedLater⟩ :=
    twinsLast middle _ knownMiddle twinMiddle ahead
  exact ⟨later, grows.trans growsLater, twinLater, same, fun _ _ => (gainedLater () rfl).none⟩

end Mirrors

end Rerun

end Stencil
