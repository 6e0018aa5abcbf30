import Stencil.Proofs.Session.Begin
import Stencil.Proofs.Template

/-!
# Sessions without placeholder definitions

In a calm session no text defines a placeholder, so values are written through none but the
placeholders that their kinds begin with.
-/

namespace Stencil

open Text

variable {η : Type}

/-- No placeholder definition begins in a text. -/
def LacksDefinitions (text : List Char) : Prop :=
  ¬"@define_placeholder(".toList <:+: text

namespace Session

/-- A block is the body of a placeholder that a kind begins with. -/
def IsDefault (session : Session η) (id : BlockRef) : Prop :=
  ∃ block, session.blocks[id.index]? = some block ∧ session.Whole block ∧ block.role = .placeholder

/-- A block is the body of a loop, which its own directives leave. -/
def IsLoopBody (session : Session η) (id : BlockRef) : Prop :=
  id.index < session.blocks.size ∧ (session.block id).enclosingLoop = some id

/-- A block was made for an earlier block and leaves a loop. -/
def IsPart (session : Session η) (earlier : BlockRef) (loop : Option BlockRef) (id : BlockRef) :
    Prop :=
  earlier.index < id.index ∧ id.index < session.blocks.size ∧
    (session.block id).enclosingLoop = loop

structure Calm (session : Session η) (embeddings : Embeddings) : Prop where
  valid : session.Valid embeddings
  embeddings : ∀ path text, embeddings path = some text → LacksDefinitions text.toList
  texts : ∀ (id : BlockRef) (block : Block), session.blocks[id.index]? = some block →
    LacksDefinitions (session.text block.source)
  placeholders : ∀ key placeholder, session.placeholders.get? key = some placeholder →
    session.IsDefault placeholder.body

/-- Whether the loop that a block would leave was left. -/
def isLeft (session : Session η) (loop : Option BlockRef) : Bool :=
  loop.any fun target => (session.block target).wasLeft

variable {session before after : Session η} {embeddings : Embeddings} {host : Host η}
  {id : BlockRef} {nodes : List Node}

theorem Extends.isDefault (ext : before.Extends after) (default : before.IsDefault id) :
    after.IsDefault id := by
  obtain ⟨block, isThere, whole, role⟩ := default
  obtain ⟨later, isLater, outline, -⟩ := ext.block id.index block isThere
  have same := Block.eq_of_outline Block.role (fun _ => rfl) outline
  exact ⟨later, isLater, ext.whole whole outline, same.trans role⟩

theorem Extends.enclosingLoop (ext : before.Extends after)
    (present : id.index < before.blocks.size) :
    (after.block id).enclosingLoop = (before.block id).enclosingLoop :=
  Block.eq_of_outline Block.enclosingLoop (fun _ => rfl) (ext.outline_block present)

theorem Extends.isLoopBody (ext : before.Extends after) (isBody : before.IsLoopBody id) :
    after.IsLoopBody id :=
  ⟨ext.lt isBody.1, (ext.enclosingLoop isBody.1).trans isBody.2⟩

theorem Extends.isPart (ext : before.Extends after) {earlier : BlockRef} {loop : Option BlockRef}
    (isPart : before.IsPart earlier loop id) : after.IsPart earlier loop id :=
  ⟨isPart.1, ext.lt isPart.2.1, (ext.enclosingLoop isPart.2.1).trans isPart.2.2⟩

theorem IsDefault.hasRole (isDefault : session.IsDefault id) : session.HasRole .placeholder id := by
  obtain ⟨block, isThere, -, role⟩ := isDefault
  exact ⟨block, isThere, role⟩

theorem Calm.textsAre (calm : session.Calm embeddings) : session.TextsAre LacksDefinitions :=
  calm.texts

theorem Calm.of_quiet (calm : before.Calm embeddings) (quiet : before.Quiet after)
    (placeholders : ∀ key placeholder, after.placeholders.get? key = some placeholder →
      before.IsDefault placeholder.body) : after.Calm embeddings := by
  refine ⟨?_, calm.embeddings, calm.textsAre.of_quiet quiet, ?_⟩
  · exact quiet.valid calm.valid fun key placeholder found =>
      (placeholders key placeholder found).hasRole
  · exact fun key placeholder found =>
      quiet.toExtends.isDefault (placeholders key placeholder found)

theorem Calm.parse (calm : before.Calm embeddings)
    (parsing : Parsing embeddings before id nodes after) (present : id.index < before.blocks.size)
    (unparsed : (before.block id).nodes? = none) : after.Calm embeddings := by
  have texts := calm.textsAre.parse calm.valid (fun _ _ _ => calm.embeddings) parsing present
  refine ⟨parsing.valid present unparsed calm.valid, calm.embeddings, texts, ?_⟩
  rw [parsing.placeholders]
  exact fun key placeholder found =>
    parsing.toExtends.isDefault (calm.placeholders key placeholder found)

theorem Calm.addText {source : AnySource} {scope : ScopeRef} {role : BlockRole}
    (calm : session.Calm embeddings) (lacks : LacksDefinitions source.cursor.text)
    (isWhole : role = .root ∨ role = .placeholder ∧
      ∃ kind, source.cursor.text = (defaultBody kind).toList) :
    (session.addText source scope role).2.Calm embeddings := by
  refine ⟨calm.valid.addText isWhole, calm.embeddings, calm.textsAre.addText calm.valid lacks, ?_⟩
  exact fun key placeholder found =>
    (session.extends_addText source scope role).isDefault (calm.placeholders key placeholder found)

theorem Calm.addDefaultPlaceholder (calm : session.Calm embeddings) (kind : Kind)
    (lacks : LacksDefinitions (defaultBody kind).toList) :
    (session.addDefaultPlaceholder kind).Calm embeddings := by
  have isBody : BlockRole.placeholder = .root ∨ BlockRole.placeholder = .placeholder ∧
      ∃ other, (AnySource.plain (.ofString (defaultBody kind))).cursor.text =
        (defaultBody other).toList := .inr ⟨rfl, kind, rfl⟩
  unfold Session.addDefaultPlaceholder
  generalize session.store.heap.newScope s!"placeholder {kind.name}" (some .global) = opened
  obtain ⟨scope, heap⟩ := opened
  dsimp only
  have withScope : (session.modifyHeap fun _ => heap).Calm embeddings :=
    calm.of_quiet ⟨rfl, rfl, fun _ => rfl, fun _ => rfl⟩ calm.placeholders
  have added : ((session.modifyHeap fun _ => heap).addText
      (.plain (.ofString (defaultBody kind))) scope .placeholder).2.Calm embeddings :=
    withScope.addText lacks isBody
  refine added.of_quiet ⟨rfl, rfl, fun _ => rfl, fun _ => rfl⟩ ?_
  intro key placeholder found
  by_cases same : key = .default kind.name
  · subst same
    rw [Dictionary.get?_put_self] at found
    cases found
    exact ⟨_, block_addText, whole_addText isBody, rfl⟩
  · rw [Dictionary.get?_put_of_ne _ _ same] at found
    exact added.placeholders key placeholder found

/-- No mark of a left loop changed but those that may. -/
def KeepsMarks (mayMark : BlockRef → Prop) (before after : Session η) : Prop :=
  ∀ id, ¬mayMark id → (after.block id).wasLeft = (before.block id).wasLeft

variable {mayMark mayMark' : BlockRef → Prop} {middle : Session η}

theorem KeepsMarks.trans (first : KeepsMarks mayMark before middle)
    (second : KeepsMarks mayMark middle after) : KeepsMarks mayMark before after :=
  fun id may => (second id may).trans (first id may)

theorem KeepsMarks.mono (keeps : KeepsMarks mayMark before after)
    (covers : ∀ id, mayMark id → mayMark' id) : KeepsMarks mayMark' before after :=
  fun id may => keeps id fun here => may (covers id here)

theorem KeepsMarks.isLeft (keeps : KeepsMarks mayMark before after) {loop : Option BlockRef}
    (apart : ∀ target, loop = some target → ¬mayMark target) :
    after.isLeft loop = before.isLeft loop := by
  cases loop with
  | none => rfl
  | some target => exact keeps target (apart target rfl)

/-- No mark changed at all. -/
abbrev SameMarks (before after : Session η) : Prop := KeepsMarks (fun _ => False) before after

theorem KeepsMarks.all (keeps : SameMarks before after) (mayMark : BlockRef → Prop) :
    KeepsMarks mayMark before after :=
  keeps.mono fun _ nothing => nothing.elim

theorem KeepsMarks.isLeft_eq (keeps : SameMarks before after) (loop : Option BlockRef) :
    after.isLeft loop = before.isLeft loop :=
  KeepsMarks.isLeft keeps fun _ _ => id

/-- The policy that leaves marks and placeholders alone. -/
abbrev still (η : Type) : Policy η := .free (fun _ => True) False

theorem Calm.sound (calm : session.Calm embeddings) : (still η).Sound embeddings session :=
  ⟨calm.valid, trivial, fun _ _ _ => trivial⟩

theorem Step.calm (step : before.Step (still η) embeddings after) (calm : before.Calm embeddings) :
    after.Calm embeddings ∧ SameMarks before after := by
  have untouched (quiet : before.Quiet after)
    (placeholders : after.placeholders = before.placeholders)
      (blocks : after.blocks = before.blocks) : after.Calm embeddings ∧ SameMarks before after := by
    refine ⟨calm.of_quiet quiet (placeholders ▸ calm.placeholders), fun id _ => ?_⟩
    rw [Session.block, Session.block, blocks]
  cases step with
  | begin => exact untouched ⟨rfl, rfl, fun _ => rfl, fun _ => rfl⟩ rfl rfl
  | write text => exact untouched ⟨rfl, rfl, fun _ => rfl, fun _ => rfl⟩ rfl rfl
  | depth depth => exact untouched ⟨rfl, rfl, fun _ => rfl, fun _ => rfl⟩ rfl rfl
  | store store becomes => exact untouched ⟨rfl, rfl, fun _ => rfl, fun _ => rfl⟩ rfl rfl
  | seek source offset found => exact untouched (before.quiet_seek source offset) rfl rfl
  | mark target left may => exact absurd may id
  | define key placeholder may has => exact absurd may id
  | parse id may present unparsed atStart =>
      have sourcePresent := calm.valid.source_lt (getElem?_of_lt present)
      have parsing := @parsing_parseBlock _ _ embeddings _ present sourcePresent unparsed atStart
      exact ⟨calm.parse parsing present unparsed, fun other _ => parsing.wasLeft other⟩

theorem Chain.calm (chain : before.Chain (still η) embeddings after)
    (calm : before.Calm embeddings) : after.Calm embeddings ∧ SameMarks before after := by
  induction chain with
  | refl => exact ⟨calm, fun _ _ => rfl⟩
  | tail earlier step induction =>
      obtain ⟨between, marks⟩ := induction
      obtain ⟨later, same⟩ := step.calm between
      exact ⟨later, marks.trans same⟩

end Session

end Stencil
