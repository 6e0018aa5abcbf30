import Stencil.Proofs.Run.Block
import Stencil.Proofs.Session.Begin
import Stencil.Template

/-!
# Templates over any number of renders

A template is rendered again and again, and in between its host may change the store.  All of this
is a chain of steps of the session, so whatever is sound at the beginning stays so.
-/

namespace Stencil

open Text

variable {η : Type}

/-- A template with another store. -/
def Template.withStore (template : Template η) (store : Store η) : Template η :=
  { template with session := { template.session with store } }

/-- What becomes of a template by renders, of which some may fail, and by changes of the host. -/
inductive Template.Evolves (mayChange : Store η → Store η → Prop) (first : Template η) :
    Template η → Prop where
  | refl : Evolves mayChange first first
  | render {template : Template η} (earlier : Evolves mayChange first template) (fuel : Nat) :
      Evolves mayChange first (template.render fuel).2
  | change {template : Template η} (earlier : Evolves mayChange first template) (store : Store η)
      (may : mayChange template.session.store store) :
      Evolves mayChange first (template.withStore store)

namespace Template

variable {policy : Policy η} {mayChange : Store η → Store η → Prop} {first template : Template η}
  {source : AnySource} {options : Options} {host : Host η} {state : η}

theorem Evolves.same (evolves : first.Evolves mayChange template) :
    template.environment = first.environment ∧ template.root = first.root := by
  induction evolves with
  | refl => exact ⟨rfl, rfl⟩
  | render earlier fuel induction => exact induction
  | change earlier store may induction => exact induction

theorem Evolves.environment (evolves : first.Evolves mayChange template) :
    template.environment = first.environment := evolves.same.1

theorem Evolves.root (evolves : first.Evolves mayChange template) :
    template.root = first.root := evolves.same.2

theorem Evolves.mono {mayChange' : Store η → Store η → Prop}
    (evolves : first.Evolves mayChange template)
    (implies : ∀ before after, mayChange before after → mayChange' before after) :
    first.Evolves mayChange' template := by
  induction evolves with
  | refl => exact .refl
  | render earlier fuel induction => exact .render induction fuel
  | change earlier store may induction => exact .change induction store (implies _ _ may)

theorem Evolves.trans {later : Template η} (evolves : first.Evolves mayChange template)
    (continues : template.Evolves mayChange later) : first.Evolves mayChange later := by
  induction continues with
  | refl => exact evolves
  | render earlier fuel induction => exact .render induction fuel
  | change earlier store may induction => exact .change induction store may

/-- The session that a template adds its text to. -/
def seeded (options : Options) (state : η) : Session η :=
  let empty := Session.ofGlobal options.globalName state
  if options.defaultPlaceholders then empty.addDefaultPlaceholders else empty

/-- What holds of a session with nothing in it, and goes on holding when the placeholders of kinds
are added, holds of the session that a template adds its text to. -/
theorem seeded_induction (holds : Session η → Prop) (options : Options) (state : η)
    (empty : holds (.ofGlobal options.globalName state))
    (kind : ∀ session kind, holds session → holds (session.addDefaultPlaceholder kind)) :
    holds (seeded options state) := by
  have added (kinds : List Kind) (session : Session η) (holdsHere : holds session) :
      holds (kinds.foldl Session.addDefaultPlaceholder session) := by
    induction kinds generalizing session with
    | nil => exact holdsHere
    | cons next kinds induction => exact induction _ (kind _ _ holdsHere)
  unfold seeded
  cases options.defaultPlaceholders with
  | true => exact added _ _ empty
  | false => exact empty

/-- What holds of a session with nothing in it, and goes on holding when the placeholders of kinds
and the text are added, holds of a new template. -/
theorem ofSource_induction (holds : Session η → Prop) (source : AnySource) (options : Options)
    (host : Host η) (state : η) (empty : holds (.ofGlobal options.globalName state))
    (kind : ∀ session kind, holds session → holds (session.addDefaultPlaceholder kind))
    (text : ∀ session, holds session → holds (session.addText source .global .root).2) :
    holds (ofSource source options host state).session :=
  text _ (seeded_induction holds options state empty kind)

/-- Blocks of a session that a template adds its text to are of known texts and not parsed. -/
theorem seeded_blocks (options : Options) (state : η) {id : BlockRef} {block : Block}
    (present : (seeded options state).blocks[id.index]? = some block) :
    block.source.index < (seeded options state).sources.size ∧ block.nodes? = none := by
  refine seeded_induction (fun session => ∀ (id : BlockRef) block,
    session.blocks[id.index]? = some block →
      block.source.index < session.sources.size ∧ block.nodes? = none) options state
    (fun _ _ present => nomatch present) (fun session kind earlier id block present => ?_) id block
    present
  rcases eq_or_of_getElem?_push present with isEarlier | ⟨-, rfl⟩
  · obtain ⟨isThere, unparsed⟩ := earlier id block isEarlier
    exact ⟨Nat.lt_of_lt_of_eq (Nat.lt_succ_of_lt isThere) (Array.size_push _).symm, unparsed⟩
  · exact ⟨Nat.lt_of_lt_of_eq (Nat.lt_succ_self _) (Array.size_push _).symm, rfl⟩

/-- A new template is sound, and its root covers its text. -/
theorem sound_ofSource (lawful : policy.Lawful host) (mayDefine : policy.mayDefine)
    (holds : policy.holds ⟨.ofGlobal options.globalName, state⟩)
    (has : policy.hasScope ⟨.ofGlobal options.globalName, state⟩ .global) :
    policy.Sound options.embeddings (ofSource source options host state).session := by
  refine (ofSource_induction (fun session => policy.Sound options.embeddings session ∧
    policy.hasScope session.store .global) source options host state ?_ ?_ ?_).1
  · exact ⟨⟨Session.valid_ofGlobal _ _, holds, fun _ _ present => nomatch present⟩, has⟩
  · exact fun session kind here => here.1.addDefaultPlaceholder lawful mayDefine here.2 kind
  · exact fun session here => ⟨here.1.addText here.2 (.inl rfl), here.2⟩

theorem valid_ofSource (source : AnySource) (options : Options) (host : Host η) (state : η) :
    (ofSource source options host state).session.Valid options.embeddings :=
  (sound_ofSource (Policy.lawful_free (fun _ => True) True host) trivial trivial trivial).valid

/-- The blocks of a new template stand in its own text and in the bodies that values are written
with. -/
theorem textsAre_ofSource {property : List Char → Prop} (source : AnySource) (options : Options)
    (host : Host η) (state : η) (own : property source.cursor.text)
    (defaults : ∀ kind, property (defaultBody kind).toList) :
    (ofSource source options host state).session.TextsAre property := by
  have both : (ofSource source options host state).session.Valid options.embeddings ∧
      (ofSource source options host state).session.TextsAre property := by
    refine ofSource_induction (fun session => session.Valid options.embeddings ∧
      session.TextsAre property) source options host state ?_ ?_ ?_
    · exact ⟨Session.valid_ofGlobal _ _, fun _ _ present => nomatch present⟩
    · rintro session kind ⟨valid, texts⟩
      have sound : (Policy.free fun _ => True : Policy η).Sound options.embeddings session :=
        ⟨valid, trivial, fun _ _ _ => trivial⟩
      exact ⟨(sound.addDefaultPlaceholder (Policy.lawful_free _ True host) trivial trivial
        kind).1.valid, texts.addDefaultPlaceholder valid kind (defaults kind)⟩
    · rintro session ⟨valid, texts⟩
      exact ⟨valid.addText (.inl rfl), texts.addText valid own⟩
  exact both.2

/-- The root of a new template is a block of its own source. -/
theorem root_ofSource (source : AnySource) (options : Options) (host : Host η) (state : η) :
    ∃ id, id.index < (ofSource source options host state).session.sources.size ∧
      (ofSource source options host state).session.text id = source.cursor.text ∧
      (ofSource source options host state).session.blocks[
        (ofSource source options host state).root.index]? =
        some (.ofSource source id .global .root) := by
  unfold ofSource
  dsimp only
  refine ⟨_, ?_, Session.text_addText, Session.block_addText⟩
  simp [Session.addText]

/-- A render is a chain of steps. -/
theorem chain_render (lawful : policy.Lawful template.environment.host)
    (permits : policy.Permissive)
    (sound : policy.Sound template.environment.embeddings template.session)
    (present : template.root.index < template.session.blocks.size) (fuel : Nat) :
    template.session.Chain policy template.environment.embeddings
      (template.render fuel).2.session := by
  have begun : template.session.Step policy template.environment.embeddings _ := .begin
  have runs := lawful.runs permits fuel
  obtain ⟨chain, -⟩ := runs { template.session with writes := #[] } template.root present
    (begun.sound lawful sound)
  exact (Session.Chain.single begun).trans chain

/-- Renders and changes that the policy allows are a chain of steps. -/
theorem Evolves.chain (evolves : first.Evolves policy.Becomes template)
    (lawful : policy.Lawful first.environment.host) (permits : policy.Permissive)
    (sound : policy.Sound first.environment.embeddings first.session)
    (present : first.root.index < first.session.blocks.size) :
    first.session.Chain policy first.environment.embeddings template.session := by
  induction evolves with
  | refl => exact .refl
  | @render template earlier fuel induction =>
      obtain ⟨environment, root⟩ := earlier.same
      have soundLater := induction.sound lawful sound
      have presentLater := induction.lt sound.valid present
      rw [← environment] at lawful induction soundLater ⊢
      rw [← root] at presentLater
      exact induction.trans (chain_render lawful permits soundLater presentLater fuel)
  | change earlier store becomes induction => exact induction.trans (.single (.store store becomes))

/-- Whatever becomes of a new template is sound, and its root stays there. -/
theorem Evolves.sound
    (evolves : (ofSource source options host state).Evolves policy.Becomes template)
    (lawful : policy.Lawful host) (permits : policy.Permissive)
    (holds : policy.holds ⟨.ofGlobal options.globalName, state⟩)
    (has : policy.hasScope ⟨.ofGlobal options.globalName, state⟩ .global) :
    template.environment = ⟨host, options.embeddings⟩ ∧
      policy.Sound options.embeddings template.session ∧
      template.root.index < template.session.blocks.size := by
  have sound := @sound_ofSource _ _ source _ _ _ lawful permits.define holds has
  obtain ⟨_, _, _, isThere⟩ := root_ofSource source options host state
  have present := Session.lt_of_getElem? isThere
  have chain := evolves.chain lawful permits sound present
  refine ⟨evolves.environment, chain.sound lawful sound, ?_⟩
  rw [evolves.root]
  exact chain.lt sound.valid present

theorem Evolves.freely {later : Template η} (evolves : template.Evolves mayChange later) :
    template.Evolves (Policy.free fun _ => True).Becomes later :=
  evolves.mono fun _ _ _ => ⟨trivial, trivial⟩

/-- A template that evolves from a new one is sound, whatever its host does to the store. -/
theorem Evolves.free_sound (mayParse : BlockRef → Prop)
    (evolves : (ofSource source options host state).Evolves (fun _ _ => True) template) :
    template.environment = ⟨host, options.embeddings⟩ ∧
      (Policy.free mayParse).Sound options.embeddings template.session ∧
      template.root.index < template.session.blocks.size := by
  have lawful := Policy.lawful_free (fun _ => True) True host
  have freely := evolves.freely
  obtain ⟨environment, sound, present⟩ :=
    freely.sound lawful Policy.permissive_free trivial trivial
  exact ⟨environment, ⟨sound.valid, trivial, fun _ _ _ => trivial⟩, present⟩

/-- What becomes of a new template under whatever its host does is a chain of steps. -/
theorem Evolves.free_chain
    (evolves : (ofSource source options host state).Evolves (fun _ _ => True) template) :
    (ofSource source options host state).session.Valid options.embeddings ∧
      (ofSource source options host state).session.Chain (Policy.free fun _ => True)
        options.embeddings template.session := by
  have lawful := Policy.lawful_free (fun _ => True) True host
  have sound := @sound_ofSource _ _ source options _ state lawful trivial trivial trivial
  obtain ⟨_, _, _, isThere⟩ := root_ofSource source options host state
  exact ⟨valid_ofSource source options host state, evolves.freely.chain lawful
    Policy.permissive_free sound (Session.lt_of_getElem? isThere)⟩

/-- The root goes on covering the source that the template was made of. -/
theorem Evolves.root_outline
    (evolves : (ofSource source options host state).Evolves policy.Becomes template)
    (lawful : policy.Lawful host) (permits : policy.Permissive)
    (holds : policy.holds ⟨.ofGlobal options.globalName, state⟩)
    (has : policy.hasScope ⟨.ofGlobal options.globalName, state⟩ .global) :
    ∃ id, (template.session.block template.root).outline = .ofSource source id .global .root := by
  obtain ⟨id, -, -, isThere⟩ := root_ofSource source options host state
  have present := Session.lt_of_getElem? isThere
  have sound := @sound_ofSource _ _ source _ _ _ lawful permits.define holds has
  have ext := (evolves.chain lawful permits sound present).toExtends sound.valid
  refine ⟨id, ?_⟩
  rw [evolves.root, ext.outline_block present, Session.block_eq_of_getElem? isThere]
  rfl

end Template

end Stencil
