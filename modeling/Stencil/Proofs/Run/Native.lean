import Stencil.Proofs.Confinement
import Stencil.Proofs.DefaultPlaceholders

/-!
# Sessions with the placeholders of kinds only

Where no text defines a placeholder, a session keeps the placeholders that it began with.  Their
bodies read their argument and do nothing else.
-/

namespace Stencil

open Text

variable {η : Type}

namespace Session

/-- Every placeholder has the body that some kind begins with. -/
def Native (session : Session η) : Prop :=
  ∀ key placeholder, session.placeholders.get? key = some placeholder →
    ∃ kind, session.Seeds kind placeholder

/-- A block is the body of a placeholder. -/
def IsRegistered (session : Session η) (id : BlockRef) : Prop :=
  ∃ key placeholder, session.placeholders.get? key = some placeholder ∧ placeholder.body = id

variable {environment : Environment η} {mayEnter : BlockRef → Prop} {embeddings : Embeddings}
  {session before after : Session η} {id other : BlockRef} {nodes : List Node} {node : Node}

theorem Native.nodes_eq (native : session.Native) (registered : session.IsRegistered id)
    (parsed : (session.block id).nodes? = some nodes) :
        ∃ kind, nodes = [.read (Kind.textPath kind)] := by
  obtain ⟨key, placeholder, found, rfl⟩ := registered
  obtain ⟨kind, seeds⟩ := native key placeholder found
  exact ⟨kind, seeds.nodes nodes parsed⟩

theorem Native.not_refers (native : session.Native) (registered : session.IsRegistered id)
    (parsed : (session.block id).nodes? = some nodes) (member : node ∈ nodes) {role : BlockRole} :
    ¬node.Refers role other := by
  obtain ⟨kind, rfl⟩ := native.nodes_eq registered parsed
  rw [List.mem_singleton.mp member]
  exact nofun

theorem Native.not_assign (native : session.Native) (registered : session.IsRegistered id)
    (parsed : (session.block id).nodes? = some nodes) {name : String} {expression : Expression} :
    .assign name expression ∉ nodes := by
  obtain ⟨kind, rfl⟩ := native.nodes_eq registered parsed
  exact fun member => nomatch List.mem_singleton.mp member

theorem Native.eq_of_within (native : session.Native) (registered : session.IsRegistered id)
    (within : session.Within id other) : other = id := by
  induction within with
  | self => rfl
  | inner parent nodes node role child _ parsed member refers induction =>
      subst induction
      exact absurd refers (native.not_refers registered parsed member)

theorem IsRegistered.role (registered : session.IsRegistered id)
    (valid : session.Valid embeddings) : (session.block id).role = .placeholder := by
  obtain ⟨key, placeholder, found, rfl⟩ := registered
  obtain ⟨block, isThere, role⟩ := valid.placeholders key placeholder found
  rw [block_eq_of_getElem? isThere, role]

/-- A change that parses nothing and registers nothing keeps a session native. -/
theorem Native.of_quiet (native : before.Native) (quiet : before.Quiet after)
    (keeps : before.store.KeepsParents after.store)
    (same : after.placeholders = before.placeholders) :
    after.Native := by
  intro key placeholder found
  rw [same] at found
  obtain ⟨kind, seeds⟩ := native key placeholder found
  refine ⟨kind, seeds.mono quiet.toExtends keeps fun listed parsed => seeds.nodes listed ?_⟩
  rw [← parsed]
  exact (Block.eq_of_unmarked Block.nodes? (fun _ => rfl) (quiet.block placeholder.body)).symm

/-- No node of a calm session defines a placeholder. -/
theorem Calm.definePlaceholder_notMem (calm : session.Calm embeddings)
    (parsed : (session.block id).nodes? = some nodes) {key : Placeholder.Key}
    {parameter : Option String} {body : BlockRef} :
    .definePlaceholder key parameter body ∉ nodes := by
  intro member
  have isThere := getElem?_of_lt (lt_of_nodes? parsed)
  obtain ⟨-, origins⟩ := calm.valid.parsed id _ nodes isThere parsed
  cases origins _ member with
  | definePlaceholder _ _ _ opening isMade => exact calm.texts id _ isThere opening

theorem Effect.placeholders_eq (calm : session.Calm environment.embeddings)
    (effect : session.Effect environment mayEnter after) :
    after.placeholders = session.placeholders := by
  cases effect with
  | parse id present unparsed atStart =>
      have sourcePresent := calm.valid.source_lt (getElem?_of_lt present)
      exact (parsing_parseBlock present sourcePresent unparsed atStart).placeholders
  | define id nodes key parameter body live parsed member =>
      exact absurd member (calm.definePlaceholder_notMem parsed)
  | _ => rfl

section

variable (keeps : environment.host.KeepsParents)
  (effects : before.Effects environment mayEnter after)
  (nested : before.Nested environment.embeddings) (calm : before.Calm environment.embeddings)

include keeps effects nested calm

theorem Effects.placeholders_eq : after.placeholders = before.placeholders := by
  induction effects with
  | refl => rfl
  | tail earlier effect induction =>
      have calmEarlier := Effects.calm keeps earlier nested calm
      exact (effect.placeholders_eq calmEarlier).trans induction

theorem Effects.native (native : before.Native) : after.Native := by
  intro key placeholder found
  rw [effects.placeholders_eq keeps nested calm] at found
  obtain ⟨kind, seeds⟩ := native key placeholder found
  have chain := effects.chain keeps nested
  have stays := chain.holdsOnly nested.valid seeds.covers (parsesInto_defaultBody kind) seeds.nodes
  exact ⟨kind, seeds.mono (effects.toExtends keeps nested)
    (effects.keepsParents keeps nested) stays⟩

end

end Session

namespace Template

variable {source : AnySource} {options : Options} {host : Host η} {state : η}
  {template : Template η}

theorem native_ofSource : (ofSource source options host state).session.Native := by
  have named : ∀ key placeholder,
      (ofSource source options host state).session.placeholders.get? key = some placeholder →
        ∃ kind : Kind, key = .default kind.name := by
    refine ofSource_induction (fun session => ∀ key placeholder,
      session.placeholders.get? key = some placeholder → ∃ kind : Kind, key = .default kind.name)
      source options host state (fun _ _ found => nomatch found) ?_ fun _ earlier => earlier
    intro session kind earlier key placeholder found
    by_cases same : key = .default kind.name
    · exact ⟨kind, same⟩
    · have registry : (session.addDefaultPlaceholder kind).placeholders =
          session.placeholders.put (.default kind.name) ⟨⟨session.blocks.size⟩, none⟩ := rfl
      rw [registry, Dictionary.get?_put_of_ne _ _ same] at found
      exact earlier key placeholder found
  intro key placeholder found
  obtain ⟨kind, rfl⟩ := named key placeholder found
  exact ⟨kind, seeded_ofSource kind placeholder found⟩

theorem Evolves.native
    (evolves : (ofSource source options host state).Evolves Store.KeepsParents template)
    (keeps : host.KeepsParents) (lacks : LacksDefinitions source.cursor.text)
    (embeddings : ∀ path text, options.embeddings path = some text →
      LacksDefinitions text.toList) : template.session.Native := by
  induction evolves with
  | refl => exact native_ofSource
  | @render template earlier fuel induction =>
      have begun := earlier.begun keeps
      have calm := earlier.calm keeps lacks embeddings
      have effects := effects_render earlier.environment keeps begun fuel
      exact effects.native keeps begun.1
        (calm.of_quiet ⟨rfl, rfl, fun _ => rfl, fun _ => rfl⟩ calm.placeholders)
        (induction.of_quiet ⟨rfl, rfl, fun _ => rfl, fun _ => rfl⟩ (.refl _) rfl)
  | change earlier store may induction =>
      exact induction.of_quiet ⟨rfl, rfl, fun _ => rfl, fun _ => rfl⟩ may rfl

/-- While a template renders, its session stays calm and its placeholders native. -/
theorem Evolves.calm_native
    (evolves : (ofSource source options host state).Evolves Store.KeepsParents template)
    (keeps : host.KeepsParents) (lacks : LacksDefinitions source.cursor.text)
    (embeddings : ∀ path text, options.embeddings path = some text →
      LacksDefinitions text.toList) {session : Session η}
    (during : Session.Effects ⟨host, options.embeddings⟩ (fun _ => True)
      { template.session with writes := #[] } session) :
    session.Calm options.embeddings ∧ session.Native := by
  have nested := (evolves.begun keeps).1
  have earlier := evolves.calm keeps lacks embeddings
  have calm : Session.Calm { template.session with writes := #[] } options.embeddings :=
    earlier.of_quiet ⟨rfl, rfl, fun _ => rfl, fun _ => rfl⟩ earlier.placeholders
  have native : Session.Native { template.session with writes := #[] } :=
    (evolves.native keeps lacks embeddings).of_quiet ⟨rfl, rfl, fun _ => rfl, fun _ => rfl⟩
      (.refl _) rfl
  exact ⟨during.calm keeps nested calm, during.native keeps nested calm native⟩

end Template

end Stencil
