import Stencil.Proofs.Error
import Stencil.Proofs.Session.Parse
import Stencil.Proofs.Session.Place
import Stencil.Run

/-!
# What a run may do

A policy says what may become of the store while blocks run and which blocks may still be parsed.
`Session.Step` lists what a run does to a session; a session that is sound under the policy stays
sound whatever steps follow.
-/

namespace Stencil

open Text

variable {η : Type}

/-- What is asked of the store while blocks run and of the errors that may come up, which blocks may
still be parsed, and whether marks of left loops and placeholders may change. -/
structure Policy (η : Type) where
  holds : Store η → Prop
  grows : Store η → Store η → Prop
  hasScope : Store η → ScopeRef → Prop
  hasValue : Store η → Value → Prop
  raises : TemplateError → Prop
  mayParse : BlockRef → Prop
  mayMark : Prop
  mayDefine : Prop

namespace Policy

/-- A policy that lets every block be parsed, every loop be left and every placeholder be
defined. -/
structure Permissive (policy : Policy η) : Prop where
  parse : ∀ id, policy.mayParse id
  mark : policy.mayMark
  define : policy.mayDefine

/-- A store may become another one. -/
def Becomes (policy : Policy η) (before after : Store η) : Prop :=
  policy.holds after ∧ policy.grows before after

/-- A computation on a store keeps to the policy, and its answer has a property. -/
def Works {α : Type} (policy : Policy η) (store : Store η) (evaluator : Evaluator η α)
    (answers : α → Store η → Prop) : Prop :=
  policy.Becomes store (evaluator.run.run store).2 ∧
    (∀ answer, (evaluator.run.run store).1 = .ok answer →
      answers answer (evaluator.run.run store).2) ∧
    ∀ error, (evaluator.run.run store).1 = .error error → policy.raises error

/-- A policy under which stores may stay as they are and change again and again, and any error but
those of seeking may come up. -/
structure Regular (policy : Policy η) : Prop where
  refl : ∀ store, policy.grows store store
  trans : ∀ first second third, policy.grows first second → policy.grows second third →
    policy.grows first third
  raises : ∀ error : TemplateError, error.OtherThanSeek → policy.raises error

/-- The operations that a run is made of keep to a policy. -/
structure Lawful (policy : Policy η) (host : Host η) : Prop extends policy.Regular where
  hasScope_mono : ∀ before after scope, policy.grows before after →
    policy.hasScope before scope → policy.hasScope after scope
  hasValue_mono : ∀ before after value, policy.grows before after →
    policy.hasValue before value → policy.hasValue after value
  primitive : ∀ store value, policy.hasValue store (.primitive value)
  item : ∀ store list, policy.holds store → ∀ value ∈ store.heap.items list,
    policy.hasValue store value
  newScope : ∀ store name parent, policy.holds store → policy.hasScope store parent →
    policy.Becomes store { store with heap := (store.heap.newScope name (some parent)).2 } ∧
      policy.hasScope { store with heap := (store.heap.newScope name (some parent)).2 }
        ⟨store.heap.scopes.size⟩
  clear : ∀ store scope, policy.holds store → policy.hasScope store scope →
    policy.Becomes store { store with heap := store.heap.clear scope }
  put : ∀ store scope name value, policy.holds store → policy.hasScope store scope →
    policy.hasValue store value →
    policy.Becomes store { store with heap := store.heap.put scope name value }
  assign : ∀ store scope name value, policy.holds store → policy.hasScope store scope →
    policy.hasValue store value →
    policy.Becomes store { store with heap := (store.heap.assign scope name value).2 }
  evaluate : ∀ store scope (expression : Expression), policy.holds store →
    policy.hasScope store scope →
    policy.Works store (expression.evaluate host scope) fun value after =>
      policy.hasValue after value
  follow : ∀ store scope (path : Path), policy.holds store → policy.hasScope store scope →
    policy.Works store (path.follow host scope) fun value after => policy.hasValue after value

/-- The policy that asks nothing of the store and lets some blocks be parsed. -/
def free (mayParse : BlockRef → Prop) (mayChange : Prop := True) : Policy η where
  holds _ := True
  grows _ _ := True
  hasScope _ _ := True
  hasValue _ _ := True
  raises _ := True
  mayParse := mayParse
  mayMark := mayChange
  mayDefine := mayChange

theorem permissive_free : (free fun _ => True : Policy η).Permissive :=
  ⟨fun _ => trivial, trivial, trivial⟩

theorem lawful_free (mayParse : BlockRef → Prop) (mayChange : Prop) (host : Host η) :
    (free mayParse mayChange : Policy η).Lawful host where
  refl _ := trivial
  trans _ _ _ _ _ := trivial
  hasScope_mono _ _ _ _ _ := trivial
  hasValue_mono _ _ _ _ _ := trivial
  raises _ _ := trivial
  primitive _ _ := trivial
  item _ _ _ _ _ := trivial
  newScope _ _ _ _ _ := ⟨⟨trivial, trivial⟩, trivial⟩
  clear _ _ _ _ := ⟨trivial, trivial⟩
  put _ _ _ _ _ _ _ := ⟨trivial, trivial⟩
  assign _ _ _ _ _ _ _ := ⟨trivial, trivial⟩
  evaluate _ _ _ _ _ := ⟨⟨trivial, trivial⟩, fun _ _ => trivial, fun _ _ => trivial⟩
  follow _ _ _ _ _ := ⟨⟨trivial, trivial⟩, fun _ _ => trivial, fun _ _ => trivial⟩

section

variable {policy : Policy η} {host : Host η} {store : Store η} {α β : Type}

theorem Becomes.trans (regular : policy.Regular) {first second third : Store η}
    (before : policy.Becomes first second) (after : policy.Becomes second third) :
    policy.Becomes first third :=
  ⟨after.1, regular.trans _ _ _ before.2 after.2⟩

namespace Works

theorem pure (regular : policy.Regular) (holds : policy.holds store) {answer : α}
    {answers : α → Store η → Prop} (isAnswer : answers answer store) :
    policy.Works store (Pure.pure answer) answers := by
  refine ⟨⟨holds, regular.refl store⟩, fun found same => ?_, fun _ same => nomatch same⟩
  cases same
  exact isAnswer

theorem bind (regular : policy.Regular) {first : Evaluator η α} {next : α → Evaluator η β}
    {middle : α → Store η → Prop} {answers : β → Store η → Prop}
    (here : policy.Works store first middle)
    (later : ∀ answer after, policy.Becomes store after → middle answer after →
      policy.Works after (next answer) answers) :
    policy.Works store (first >>= next) answers := by
  obtain ⟨becomes, isAnswer, raised⟩ := here
  have split : (first >>= next).run.run store =
      (ExceptT.bindCont next (first.run.run store).1).run (first.run.run store).2 := rfl
  cases outcome : (first.run.run store).1 with
  | error error =>
      rw [outcome] at split
      rw [Works, split]
      refine ⟨becomes, fun _ same => (nomatch same), fun problem same => ?_⟩
      cases same
      exact raised error outcome
  | ok answer =>
      obtain ⟨becomesLater, isAnswerLater, raisedLater⟩ :=
        later answer _ becomes (isAnswer answer outcome)
      rw [outcome] at split
      rw [Works, split]
      exact ⟨becomes.trans regular becomesLater, isAnswerLater, raisedLater⟩

theorem weaken {evaluator : Evaluator η α} {answers weaker : α → Store η → Prop}
    (works : policy.Works store evaluator answers)
    (implies : ∀ answer after, policy.Becomes store after → answers answer after →
      weaker answer after) : policy.Works store evaluator weaker :=
  ⟨works.1, fun answer found => implies answer _ works.1 (works.2.1 answer found), works.2.2⟩

theorem throw (regular : policy.Regular) (holds : policy.holds store) {error : TemplateError}
    {answers : α → Store η → Prop} (other : error.OtherThanSeek) :
    policy.Works store (MonadExcept.throw error) answers := by
  refine ⟨⟨holds, regular.refl store⟩, fun _ same => (nomatch same), fun found same => ?_⟩
  cases same
  exact regular.raises error other

/-- A computation that leaves the store alone only has to fail for a reason other than seeking. -/
theorem lift (regular : policy.Regular) (holds : policy.holds store)
    {outcome : Except TemplateError α} (never : NeverParses outcome) :
    policy.Works store (liftM outcome : Evaluator η α) fun _ _ => True := by
  cases outcome with
  | ok answer => exact pure regular holds trivial
  | error error => exact throw regular holds (never error rfl).otherThanSeek

theorem condition (lawful : policy.Lawful host) (holds : policy.holds store) {scope : ScopeRef}
    (has : policy.hasScope store scope) (condition : Condition) :
    policy.Works store (condition.evaluate host scope) fun _ _ => True := by
  cases condition with
  | compare left comparison right =>
      refine (lawful.evaluate store scope left holds has).bind lawful.toRegular fun _ between
        becomes _ => ?_
      have hasBetween := lawful.hasScope_mono _ _ scope becomes.2 has
      refine (lawful.evaluate between scope right becomes.1 hasBetween).bind lawful.toRegular
        fun _ after becomesAfter _ => ?_
      exact lift lawful.toRegular becomesAfter.1 (.compareValues _ _ _ _)
  | value expression =>
      refine (lawful.evaluate store scope expression holds has).bind lawful.toRegular
        fun value after becomes _ => ?_
      cases value.boolean? with
      | some truth => exact pure lawful.toRegular becomes.1 trivial
      | none => exact throw lawful.toRegular becomes.1 nofun

end Works

end

end Policy

/-- What a run does to a session. -/
inductive Session.Step (policy : Policy η) (embeddings : Embeddings) (session : Session η) :
    Session η → Prop where
  | begin : Step policy embeddings session { session with writes := #[] }
  | write (text : String) :
      Step policy embeddings session { session with writes := session.writes.push text }
  | depth (depth : Nat) : Step policy embeddings session { session with depth }
  | store (store : Store η) (becomes : policy.Becomes session.store store) :
      Step policy embeddings session { session with store }
  | mark (target : BlockRef) (left : Bool) (may : policy.mayMark) :
      Step policy embeddings session (session.modifyBlock target ({ · with wasLeft := left }))
  | seek (id : SourceRef) (offset : Nat)
      (found : (Source.seek offset (session.source id)).1 = true) :
      Step policy embeddings session
        (session.setSource id (Source.seek offset (session.source id)).2)
  | define (key : Placeholder.Key) (placeholder : Placeholder) (may : policy.mayDefine)
      (has : session.HasRole .placeholder placeholder.body) :
      Step policy embeddings session
        { session with placeholders := session.placeholders.put key placeholder }
  | parse (id : BlockRef) (may : policy.mayParse id) (present : id.index < session.blocks.size)
      (unparsed : (session.block id).nodes? = none)
      (atStart : Source.pointer (session.source (session.block id).source) =
        (session.block id).start) :
      Step policy embeddings session (session.parseBlock embeddings id).2

/-- Any number of steps. -/
def Session.Chain (policy : Policy η) (embeddings : Embeddings) : Session η → Session η → Prop :=
  Relation.ReflTransGen (Session.Step policy embeddings)

/-- A session that came about by parsing and whose store is as the policy asks. -/
structure Policy.Sound (policy : Policy η) (embeddings : Embeddings) (session : Session η) :
    Prop where
  valid : session.Valid embeddings
  store : policy.holds session.store
  scopes : ∀ (index : Nat) (block : Block), session.blocks[index]? = some block →
    policy.hasScope session.store block.scope

namespace Session

variable {session before after : Session η} {policy : Policy η} {embeddings : Embeddings}
  {host : Host η}

theorem quiet_modifyBlock (session : Session η) (id : BlockRef) {change : Block → Block}
    (keeps : ∀ block, (change block).unmarked = block.unmarked) :
    session.Quiet (session.modifyBlock id change) := by
  refine ⟨?_, rfl, fun _ => rfl, fun _ => rfl⟩
  apply Array.ext_getElem?
  intro index
  simp only [modifyBlock, Array.getElem?_map, Array.getElem?_modify]
  split
  · cases session.blocks[index]? with
    | none => rfl
    | some block => exact congrArg some (keeps block)
  · rfl

theorem reads?_seek (source : AnySource) (offset : Nat) :
    (Source.seek offset source).2.reads? = source.reads? := by
  cases source <;> rfl

theorem text_seek (source : AnySource) (offset : Nat) :
    (Source.seek offset source).2.cursor.text = source.cursor.text := by
  have moved := Tracked.cursor_seek offset source
  change (Source.seek offset source).2.cursor = _ at moved
  rw [moved]
  cases found : source.cursor.seek? offset with
  | none => rfl
  | some place => exact (Cursor.seek?_eq_some_iff.mp found).1

theorem source_setSource (session : Session η) (id other : SourceRef) (source : AnySource) :
    (session.setSource id source).source other = source ∧ other = id ∨
      (session.setSource id source).source other = session.source other := by
  by_cases same : other = id
  · subst same
    by_cases present : other.index < session.sources.size
    · exact .inl ⟨source_setSource_self source present, rfl⟩
    · refine .inr ?_
      simp [Session.source, setSource, present]
  · exact .inr (source_setSource_of_ne source same)

theorem quiet_seek (session : Session η) (id : SourceRef) (offset : Nat) :
    session.Quiet (session.setSource id (Source.seek offset (session.source id)).2) := by
  refine ⟨rfl, by simp [setSource], fun other => ?_, fun other => ?_⟩
  · rcases session.source_setSource id other (Source.seek offset (session.source id)).2 with
      ⟨sought, rfl⟩ | stays
    · rw [text, sought, text_seek]
      rfl
    · rw [text, stays]
      rfl
  · rcases session.source_setSource id other (Source.seek offset (session.source id)).2 with
      ⟨sought, rfl⟩ | stays
    · rw [sought, reads?_seek]
    · rw [stays]

/-- A step parses a block or leaves blocks and texts alone. -/
theorem Step.cases_parse (step : session.Step policy embeddings after) :
    session.Quiet after ∨ ∃ id, policy.mayParse id ∧ id.index < session.blocks.size ∧
      (session.block id).nodes? = none ∧
      Source.pointer (session.source (session.block id).source) = (session.block id).start ∧
      after = (session.parseBlock embeddings id).2 := by
  cases step with
  | begin => exact .inl ⟨rfl, rfl, fun _ => rfl, fun _ => rfl⟩
  | write text => exact .inl ⟨rfl, rfl, fun _ => rfl, fun _ => rfl⟩
  | depth depth => exact .inl ⟨rfl, rfl, fun _ => rfl, fun _ => rfl⟩
  | store store becomes => exact .inl ⟨rfl, rfl, fun _ => rfl, fun _ => rfl⟩
  | mark target left _ => exact .inl (session.quiet_modifyBlock target fun _ => rfl)
  | seek id offset found => exact .inl (session.quiet_seek id offset)
  | define key placeholder _ has => exact .inl ⟨rfl, rfl, fun _ => rfl, fun _ => rfl⟩
  | parse id may present unparsed atStart =>
      exact .inr ⟨id, may, present, unparsed, atStart, rfl⟩

theorem Step.placeholders (step : session.Step policy embeddings after) {key : Placeholder.Key}
    {placeholder : Placeholder} (found : after.placeholders.get? key = some placeholder) :
    session.placeholders.get? key = some placeholder ∨
      session.HasRole .placeholder placeholder.body := by
  cases step with
  | begin => exact .inl found
  | write text => exact .inl found
  | depth depth => exact .inl found
  | store store becomes => exact .inl found
  | mark target left _ => exact .inl found
  | seek id offset _ => exact .inl found
  | define other added _ has =>
      by_cases same : key = other
      · subst same
        rw [Dictionary.get?_put_self] at found
        cases found
        exact .inr has
      · rw [Dictionary.get?_put_of_ne _ _ same] at found
        exact .inl found
  | parse id may present unparsed atStart => exact .inl found

theorem Step.valid (step : session.Step policy embeddings after)
    (valid : session.Valid embeddings) : after.Valid embeddings := by
  rcases step.cases_parse with quiet | ⟨id, -, present, unparsed, atStart, rfl⟩
  · refine quiet.valid valid fun key placeholder found => ?_
    rcases step.placeholders found with earlier | has
    · exact valid.placeholders key placeholder earlier
    · exact has
  · have sourcePresent := valid.source_lt (getElem?_of_lt present)
    exact (parsing_parseBlock present sourcePresent unparsed atStart).valid present unparsed valid

theorem Step.toExtends (step : session.Step policy embeddings after)
    (valid : session.Valid embeddings) : session.Extends after := by
  rcases step.cases_parse with quiet | ⟨id, -, present, unparsed, atStart, rfl⟩
  · exact quiet.toExtends
  · have sourcePresent := valid.source_lt (getElem?_of_lt present)
    exact (parsing_parseBlock present sourcePresent unparsed atStart).toExtends

end Session

section

variable {policy : Policy η} {host : Host η} {embeddings : Embeddings} {session after : Session η}

/-- Scopes made while a block is parsed are inside the scope of the block. -/
theorem Policy.Lawful.draft (lawful : policy.Lawful host) {context : BlockContext}
    {anchor : Cursor} {before after : Draft Cursor} (grows : before.Grows context anchor after)
    (state : η) (holds : policy.holds ⟨before.heap, state⟩)
    (has : policy.hasScope ⟨before.heap, state⟩ context.scope) :
    policy.Becomes ⟨before.heap, state⟩ ⟨after.heap, state⟩ ∧
      ∀ (index : Nat) (block : Block), before.blocks.size ≤ index →
        after.blocks[index]? = some block →
        policy.hasScope ⟨after.heap, state⟩ block.scope := by
  induction grows with
  | refl =>
      refine ⟨⟨holds, lawful.refl _⟩, fun index block isNew present => ?_⟩
      have within := (Array.getElem?_eq_some_iff.mp present).1
      omega
  | @tail middle after earlier step induction =>
      obtain ⟨becomes, scopes⟩ := induction
      cases step with
      | move source within => exact ⟨becomes, scopes⟩
      | body name role cut finish closes =>
          have hasMiddle := lawful.hasScope_mono _ _ _ becomes.2 has
          obtain ⟨added, hasNew⟩ := lawful.newScope ⟨middle.heap, state⟩ name context.scope
            becomes.1 hasMiddle
          refine ⟨becomes.trans lawful.toRegular added, fun index block isNew present => ?_⟩
          rcases eq_or_of_getElem?_push present with there | ⟨-, rfl⟩
          · exact lawful.hasScope_mono _ _ _ added.2 (scopes index block isNew there)
          · exact hasNew
      | embed path text found =>
          refine ⟨becomes, fun index block isNew present => ?_⟩
          rcases eq_or_of_getElem?_push present with there | ⟨-, rfl⟩
          · exact scopes index block isNew there
          · exact lawful.hasScope_mono _ _ _ becomes.2 has

theorem Policy.Sound.parseBlock (lawful : policy.Lawful host) {id : BlockRef}
    (sound : policy.Sound embeddings session) (present : id.index < session.blocks.size) :
    policy.Becomes session.store (session.parseBlock embeddings id).2.store ∧
      ∀ (index : Nat) (block : Block),
        (session.parseBlock embeddings id).2.blocks[index]? = some block →
        policy.hasScope (session.parseBlock embeddings id).2.store block.scope := by
  obtain ⟨nodes, made, source, ran, -, eq⟩ := session.parseBlock_eq embeddings id
  obtain ⟨grows, -⟩ := Directive.nodes_make ran
  have has := sound.scopes id.index _ (Session.getElem?_of_lt present)
  obtain ⟨becomes, scopes⟩ := lawful.draft grows session.store.state sound.store has
  rw [eq]
  refine ⟨becomes, fun index block isThere => ?_⟩
  have original : ∃ earlier, made.blocks[index]? = some earlier ∧ earlier.scope = block.scope := by
    rw [Session.blocks_adopt] at isThere
    split at isThere
    · obtain ⟨earlier, isEarlier, rfl⟩ := Option.map_eq_some_iff.mp isThere
      exact ⟨earlier, isEarlier, rfl⟩
    · exact ⟨block, isThere, rfl⟩
  obtain ⟨earlier, isEarlier, scope⟩ := original
  rw [← scope]
  by_cases isNew : session.blocks.size ≤ index
  · exact scopes index earlier isNew isEarlier
  · have there : session.blocks[index]? = some session.blocks[index] :=
      Array.getElem?_eq_getElem (by omega)
    have kept := grows.block_kept there
    rw [isEarlier] at kept
    rw [Option.some.inj kept]
    exact lawful.hasScope_mono _ _ _ becomes.2 (sound.scopes index _ there)

/-- A change that leaves blocks alone keeps their scopes, whatever becomes of the store. -/
theorem Policy.Sound.scopes_of_quiet (lawful : policy.Lawful host)
    (sound : policy.Sound embeddings session) (quiet : session.Quiet after)
    (becomes : policy.Becomes session.store after.store) (index : Nat) (block : Block)
    (isThere : after.blocks[index]? = some block) : policy.hasScope after.store block.scope := by
  obtain ⟨earlier, isEarlier, unmarked⟩ := quiet.symm.exists_block isThere
  have scope := Block.eq_of_unmarked Block.scope (fun _ => rfl) unmarked
  rw [← scope]
  exact lawful.hasScope_mono _ _ _ becomes.2 (sound.scopes index earlier isEarlier)

theorem Session.Step.becomes (lawful : policy.Lawful host)
    (step : session.Step policy embeddings after) (sound : policy.Sound embeddings session) :
    policy.Becomes session.store after.store := by
  cases step with
  | begin => exact ⟨sound.store, lawful.refl _⟩
  | write text => exact ⟨sound.store, lawful.refl _⟩
  | depth depth => exact ⟨sound.store, lawful.refl _⟩
  | store store becomes => exact becomes
  | mark target left _ => exact ⟨sound.store, lawful.refl _⟩
  | seek id offset found => exact ⟨sound.store, lawful.refl _⟩
  | define key placeholder _ has => exact ⟨sound.store, lawful.refl _⟩
  | parse id may present unparsed atStart => exact (sound.parseBlock lawful present).1

/-- What is sound stays sound. -/
theorem Session.Step.sound (lawful : policy.Lawful host)
    (step : session.Step policy embeddings after) (sound : policy.Sound embeddings session) :
    policy.Sound embeddings after := by
  have becomes := step.becomes lawful sound
  refine ⟨step.valid sound.valid, becomes.1, ?_⟩
  rcases step.cases_parse with quiet | ⟨id, -, present, -, -, rfl⟩
  · exact sound.scopes_of_quiet lawful quiet becomes
  · exact (sound.parseBlock lawful present).2

namespace Session.Chain

variable {before middle : Session η}

theorem refl : before.Chain policy embeddings before := Relation.ReflTransGen.refl

theorem trans (first : before.Chain policy embeddings middle)
    (second : middle.Chain policy embeddings after) : before.Chain policy embeddings after :=
  Relation.ReflTransGen.trans first second

theorem single (step : before.Step policy embeddings after) :
    before.Chain policy embeddings after :=
  Relation.ReflTransGen.single step

theorem sound (lawful : policy.Lawful host) (chain : before.Chain policy embeddings after)
    (sound : policy.Sound embeddings before) : policy.Sound embeddings after := by
  induction chain with
  | refl => exact sound
  | tail _ step induction => exact step.sound lawful induction

theorem valid (chain : before.Chain policy embeddings after) (valid : before.Valid embeddings) :
    after.Valid embeddings := by
  induction chain with
  | refl => exact valid
  | tail _ step induction => exact step.valid induction

theorem toExtends (chain : before.Chain policy embeddings after)
    (valid : before.Valid embeddings) : before.Extends after := by
  induction chain with
  | refl => exact .refl _
  | tail earlier step induction =>
      exact induction.trans (step.toExtends (Chain.valid earlier valid))

theorem becomes (lawful : policy.Lawful host) (chain : before.Chain policy embeddings after)
    (sound : policy.Sound embeddings before) : policy.Becomes before.store after.store := by
  induction chain with
  | refl => exact ⟨sound.store, lawful.refl _⟩
  | tail earlier step induction =>
      exact induction.trans lawful.toRegular
        (step.becomes lawful (Chain.sound lawful earlier sound))

end Session.Chain

end

end Stencil
