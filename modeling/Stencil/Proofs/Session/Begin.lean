import Stencil.Proofs.Run.Policy

/-!
# The session that a template begins with

Every block of it covers a text of its own from a place to the end, so it is sound under every
policy that its store satisfies.  Blocks stand in the text of a template, in embedded ones and in
the bodies of the placeholders that kinds begin with, and in no others.
-/

namespace Stencil

open Text

variable {η : Type}

namespace Session

variable {session : Session η} {embeddings : Embeddings} {source : AnySource} {scope : ScopeRef}
  {role : BlockRole}

theorem extends_addText (session : Session η) (source : AnySource) (scope : ScopeRef)
    (role : BlockRole) : session.Extends (session.addText source scope role).2 := by
  constructor
  · intro index block present
    exact ⟨block, getElem?_push_of_some _ present, rfl, fun _ parsed => parsed⟩
  · intro id present
    refine ⟨?_, ?_⟩
    · rw [addText, Array.size_push]
      exact Nat.lt_succ_of_lt present
    · rw [text, text, addText, Session.source, Session.source, Array.getD_eq_getD_getElem?,
        Array.getD_eq_getD_getElem?, Array.getElem?_push_lt present,
          Array.getElem?_eq_getElem present]

theorem extends_addDefaultPlaceholder (session : Session η) (kind : Kind) :
    session.Extends (session.addDefaultPlaceholder kind) := by
  let heap := (session.store.heap.newScope s!"placeholder {kind.name}" (some .global)).2
  have withScope : session.Quiet (session.modifyHeap fun _ => heap) :=
    ⟨rfl, rfl, fun _ => rfl, fun _ => rfl⟩
  have withBody := (session.modifyHeap fun _ => heap).extends_addText
    (.plain (.ofString (defaultBody kind))) ⟨session.store.heap.scopes.size⟩ .placeholder
  have registered : ((session.modifyHeap fun _ => heap).addText
      (.plain (.ofString (defaultBody kind))) ⟨session.store.heap.scopes.size⟩
      .placeholder).2.Quiet (session.addDefaultPlaceholder kind) :=
    ⟨rfl, rfl, fun _ => rfl, fun _ => rfl⟩
  exact withScope.toExtends.trans (withBody.trans registered.toExtends)

theorem block_addText :
    (session.addText source scope role).2.blocks[session.blocks.size]? =
      some (.ofSource source ⟨session.sources.size⟩ scope role) :=
  Array.getElem?_push_size

theorem text_addText :
    (session.addText source scope role).2.text ⟨session.sources.size⟩ = source.cursor.text := by
  simp [text, addText, Session.source]

theorem whole_addText
    (isWhole : role = .root ∨ role = .placeholder ∧
      ∃ kind, source.cursor.text = (defaultBody kind).toList) :
    (session.addText source scope role).2.Whole
      (.ofSource source ⟨session.sources.size⟩ scope role) := by
  refine ⟨?_, rfl, ?_, ?_⟩
  · simp [addText, Block.ofSource]
  · rcases isWhole with isRoot | ⟨isPlaceholder, kind, isBody⟩
    · exact .inl isRoot
    · exact .inr ⟨isPlaceholder, kind, text_addText.trans isBody⟩
  · exact ⟨source.cursor, text_addText.symm, rfl, Block.limit_ofSource _ _ _ _,
      Block.finish_ofSource _ _ _ _⟩

theorem Valid.addText (valid : session.Valid embeddings)
    (isWhole : role = .root ∨ role = .placeholder ∧
      ∃ kind, source.cursor.text = (defaultBody kind).toList) :
    (session.addText source scope role).2.Valid embeddings := by
  have ext := session.extends_addText source scope role
  have cases {id : BlockRef} {block : Block}
      (present : (session.addText source scope role).2.blocks[id.index]? = some block) :
      session.blocks[id.index]? = some block ∨
        block = .ofSource source ⟨session.sources.size⟩ scope role := by
    rcases eq_or_of_getElem?_push present with earlier | ⟨-, isNew⟩
    · exact .inl earlier
    · exact .inr isNew
  constructor
  · intro id block present
    rcases cases present with earlier | rfl
    · rcases valid.origin id block earlier with whole | ⟨parent, parsed, child⟩
      · exact .inl (ext.whole whole rfl)
      · refine .inr ⟨parent, ext.isSome_nodes ?_ parsed, ext.child child⟩
        exact Nat.lt_trans child.lt (lt_of_getElem? earlier)
    · exact .inl (whole_addText isWhole)
  · intro id block present isUnparsed
    rcases cases present with earlier | rfl
    · exact valid.unparsed id block earlier isUnparsed
    · rfl
  · intro id block nodes present isParsed
    rcases cases present with earlier | rfl
    · obtain ⟨once, origins⟩ := valid.parsed id block nodes earlier isParsed
      rw [(ext.source _ (valid.source_lt earlier)).2]
      exact ⟨once, fun node member => (origins node member).mono fun _ _ child => ext.child child⟩
    · cases isParsed
  · intro key placeholder found
    exact ext.hasRole (valid.placeholders key placeholder found)

theorem valid_ofGlobal (name : String) (state : η) : (ofGlobal name state).Valid embeddings := by
  constructor
  · intro id block present
    cases present
  · intro id block present
    cases present
  · intro id block nodes present
    cases present
  · intro key placeholder found
    cases found

end Session

namespace Policy.Sound

variable {policy : Policy η} {host : Host η} {session : Session η} {embeddings : Embeddings}
  {source : AnySource} {scope : ScopeRef} {role : BlockRole}

theorem addText (sound : policy.Sound embeddings session)
    (has : policy.hasScope session.store scope)
    (isWhole : role = .root ∨ role = .placeholder ∧
      ∃ kind, source.cursor.text = (defaultBody kind).toList) :
    policy.Sound embeddings (session.addText source scope role).2 := by
  refine ⟨sound.valid.addText isWhole, sound.store, fun index block present => ?_⟩
  rcases eq_or_of_getElem?_push present with earlier | ⟨-, rfl⟩
  · exact sound.scopes index block earlier
  · exact has

theorem addDefaultPlaceholder (lawful : policy.Lawful host) (mayDefine : policy.mayDefine)
    (sound : policy.Sound embeddings session) (has : policy.hasScope session.store .global)
    (kind : Kind) : policy.Sound embeddings (session.addDefaultPlaceholder kind) ∧
      policy.hasScope (session.addDefaultPlaceholder kind).store .global := by
  obtain ⟨becomes, hasNew⟩ := lawful.newScope session.store s!"placeholder {kind.name}" .global
    sound.store has
  have withScope := Session.Step.sound lawful (.store _ becomes) sound
  have isWhole : BlockRole.placeholder = .root ∨ BlockRole.placeholder = .placeholder ∧
      ∃ other, (AnySource.plain (.ofString (defaultBody kind))).cursor.text =
        (defaultBody other).toList := .inr ⟨rfl, kind, rfl⟩
  have withBody := withScope.addText hasNew isWhole
  refine ⟨Session.Step.sound lawful (.define (.default kind.name)
    ⟨⟨session.blocks.size⟩, none⟩ mayDefine ?_) withBody, ?_⟩
  · exact ⟨_, Session.block_addText, rfl⟩
  · exact lawful.hasScope_mono _ _ _ becomes.2 has

end Policy.Sound

namespace Session

variable {session before after : Session η} {policy : Policy η} {embeddings : Embeddings}
  {property : List Char → Prop} {id : BlockRef} {nodes : List Node}

/-- Every block stands in a text with a property. -/
def TextsAre (session : Session η) (property : List Char → Prop) : Prop :=
  ∀ (id : BlockRef) (block : Block), session.blocks[id.index]? = some block →
    property (session.text block.source)

/-- Texts with a property embed only texts that have it as well. -/
def EmbedsOnly (embeddings : Embeddings) (property : List Char → Prop) : Prop :=
  ∀ outer, property outer → "@embed ".toList <:+: outer → ∀ path text,
    embeddings path = some text → property text.toList

theorem TextsAre.of_quiet (texts : before.TextsAre property) (quiet : before.Quiet after) :
    after.TextsAre property := by
  intro id block isThere
  obtain ⟨earlier, isEarlier, unmarked⟩ := quiet.symm.exists_block isThere
  have source := Block.eq_of_unmarked Block.source (fun _ => rfl) unmarked
  rw [← source, quiet.text]
  exact texts id earlier isEarlier

/-- Parsing adds bodies, which stand in the text of the block, and embedded texts. -/
theorem TextsAre.parse (texts : before.TextsAre property) (valid : before.Valid embeddings)
    (embedded : EmbedsOnly embeddings property)
    (parsing : Parsing embeddings before id nodes after) (present : id.index < before.blocks.size) :
    after.TextsAre property := by
  have earlierText {other : BlockRef} {block : Block}
      (isThere : before.blocks[other.index]? = some block) :
          property (after.text block.source) := by
    rw [(parsing.toExtends.source _ (valid.source_lt isThere)).2]
    exact texts other block isThere
  have own : property (after.text (before.block id).source) := earlierText (getElem?_of_lt present)
  intro other block isThere
  rcases parsing.cases isThere with ⟨rfl, rfl⟩ | earlier | ⟨-, child⟩
  · exact own
  · exact earlierText earlier
  · rcases child.source with same | ⟨opening, path, content, found, isText⟩
    · rw [block_eq_of_getElem? isThere, block_eq_of_getElem? parsing.self] at same
      rw [same]
      exact own
    · rw [block_eq_of_getElem? isThere] at isText
      rw [isText]
      rw [block_eq_of_getElem? parsing.self] at opening
      exact embedded _ own opening path content found

theorem TextsAre.addText {source : AnySource} {scope : ScopeRef} {role : BlockRole}
    (texts : session.TextsAre property) (valid : session.Valid embeddings)
    (added : property source.cursor.text) :
    (session.addText source scope role).2.TextsAre property := by
  intro id block isThere
  rcases eq_or_of_getElem?_push isThere with earlier | ⟨-, rfl⟩
  · rw [((session.extends_addText source scope role).source _ (valid.source_lt earlier)).2]
    exact texts id block earlier
  · exact text_addText ▸ added

theorem TextsAre.addDefaultPlaceholder (texts : session.TextsAre property)
    (valid : session.Valid embeddings) (kind : Kind)
    (added : property (defaultBody kind).toList) :
    (session.addDefaultPlaceholder kind).TextsAre property := by
  unfold Session.addDefaultPlaceholder
  generalize session.store.heap.newScope s!"placeholder {kind.name}" (some .global) = opened
  obtain ⟨scope, heap⟩ := opened
  dsimp only
  have quiet : session.Quiet (session.modifyHeap fun _ => heap) :=
    ⟨rfl, rfl, fun _ => rfl, fun _ => rfl⟩
  have withBody : ((session.modifyHeap fun _ => heap).addText
      (.plain (.ofString (defaultBody kind))) scope .placeholder).2.TextsAre property :=
    (texts.of_quiet quiet).addText (quiet.valid valid valid.placeholders) added
  exact withBody.of_quiet ⟨rfl, rfl, fun _ => rfl, fun _ => rfl⟩

theorem Step.textsAre (step : before.Step policy embeddings after) (valid : before.Valid embeddings)
    (embedded : EmbedsOnly embeddings property)
    (texts : before.TextsAre property) : after.TextsAre property := by
  rcases step.cases_parse with quiet | ⟨id, -, present, unparsed, atStart, rfl⟩
  · exact texts.of_quiet quiet
  · have sourcePresent := valid.source_lt (getElem?_of_lt present)
    exact texts.parse valid embedded
      (parsing_parseBlock present sourcePresent unparsed atStart) present

theorem Chain.textsAre (chain : before.Chain policy embeddings after)
    (valid : before.Valid embeddings)
    (embedded : EmbedsOnly embeddings property)
    (texts : before.TextsAre property) : after.TextsAre property := by
  induction chain with
  | refl => exact texts
  | tail earlier step induction =>
      exact step.textsAre (Chain.valid earlier valid) embedded induction

end Session

end Stencil
