import Stencil.Proofs.Run.Live
import Stencil.Proofs.Template

/-!
# Scopes of templates

Whatever becomes of a template, its blocks lie in each other as their scopes do, and the bodies of
the placeholders that it began with stay next to the global scope.
-/

namespace Stencil

open Text

variable {η : Type}

namespace Template

variable {source : AnySource} {options : Options} {host : Host η} {state : η}
  {template : Template η}

theorem nested_ofSource :
    (ofSource source options host state).session.Nested options.embeddings :=
  ofSource_induction (·.Nested options.embeddings) source options host state
    (Session.nested_ofGlobal _ _) (fun _ kind nested => nested.addDefaultPlaceholder kind)
    fun _ nested => nested.addText nested.global.1 (.inl rfl) fun owns => nomatch owns

theorem nested_of_quiet {before after : Session η} {root : BlockRef}
    (nested : before.Nested options.embeddings ∧ before.Live root) (quiet : before.Quiet after)
    (keeps : before.store.KeepsParents after.store)
    (same : after.placeholders = before.placeholders) :
    after.Nested options.embeddings ∧ after.Live root := by
  obtain ⟨isNested, live⟩ := nested
  refine ⟨isNested.of_quiet quiet keeps fun key placeholder found => ?_,
    live.mono isNested quiet.toExtends keeps⟩
  rw [same] at found
  exact ⟨isNested.placeholders key placeholder found,
    isNested.valid.placeholders key placeholder found⟩

/-- A render is a number of effects. -/
theorem effects_render (same : template.environment = ⟨host, options.embeddings⟩)
    (keeps : host.KeepsParents)
    (begun : ({ template.session with writes := #[] } : Session η).Nested options.embeddings ∧
      Session.Live { template.session with writes := #[] } template.root) (fuel : Nat) :
    Session.Effects ⟨host, options.embeddings⟩ (fun _ => True)
      { template.session with writes := #[] } (template.render fuel).2.session := by
  have lawful : (Run.Rules.live ⟨host, options.embeddings⟩ (fun _ => True)
      fun _ _ => True).Lawful ⟨host, options.embeddings⟩ := Run.Rules.lawful_live keeps
  have performs := Run.performs_block lawful (fun _ => trivial) (fun _ _ => trivial) fuel
  obtain ⟨deeds, -⟩ := performs.does _ _ begun.2 begun.1 (.inl fun _ => trivial)
  rw [Template.render, same]
  exact deeds.effects lawful begun.1

/-- Whatever becomes of a new template, its blocks lie in each other as their scopes do. -/
theorem Evolves.nested
    (evolves : (ofSource source options host state).Evolves Store.KeepsParents template)
    (keeps : host.KeepsParents) :
    template.session.Nested options.embeddings ∧ template.session.Live template.root := by
  induction evolves with
  | refl =>
      obtain ⟨id, -, -, isThere⟩ := root_ofSource source options host state
      have isRoot := Session.block_eq_of_getElem? isThere
      refine ⟨nested_ofSource, _, ⟨Session.lt_of_getElem? isThere, .inl ⟨?_, ?_⟩⟩, .self⟩
      · rw [isRoot]
        rfl
      · rw [isRoot]
        rfl
  | @render template earlier fuel induction =>
      have begun : ({ template.session with writes := #[] } : Session η).Nested
          options.embeddings ∧ Session.Live { template.session with writes := #[] } template.root :=
        nested_of_quiet induction ⟨rfl, rfl, fun _ => rfl, fun _ => rfl⟩ (.refl _) rfl
      have effects := effects_render earlier.environment keeps begun fuel
      exact ⟨effects.nested keeps begun.1, effects.live keeps begun.1 begun.2⟩
  | change earlier store may induction =>
      exact nested_of_quiet induction ⟨rfl, rfl, fun _ => rfl, fun _ => rfl⟩ may rfl

/-- When a render begins, blocks lie in each other as their scopes do. -/
theorem Evolves.begun
    (evolves : (ofSource source options host state).Evolves Store.KeepsParents template)
    (keeps : host.KeepsParents) :
    ({ template.session with writes := #[] } : Session η).Nested options.embeddings ∧
      Session.Live { template.session with writes := #[] } template.root :=
  nested_of_quiet (evolves.nested keeps) ⟨rfl, rfl, fun _ => rfl, fun _ => rfl⟩ (.refl _) rfl

/-- A new template has placeholders next to the global scope only. -/
theorem tops_ofSource {key : Placeholder.Key} {placeholder : Placeholder}
    (found : (ofSource source options host state).session.placeholders.get? key =
      some placeholder) :
    (ofSource source options host state).session.IsTop placeholder.body := by
  have seeded (kinds : List Kind) (session : Session η)
      (nested : session.Nested options.embeddings)
      (tops : ∀ key placeholder, session.placeholders.get? key = some placeholder →
        session.IsTop placeholder.body) :
      (kinds.foldl Session.addDefaultPlaceholder session).Nested options.embeddings ∧
        ∀ key placeholder,
          (kinds.foldl Session.addDefaultPlaceholder session).placeholders.get? key =
            some placeholder →
          (kinds.foldl Session.addDefaultPlaceholder session).IsTop placeholder.body := by
    induction kinds generalizing session with
    | nil => exact ⟨nested, tops⟩
    | cons kind kinds induction =>
        apply induction
        · exact nested.addDefaultPlaceholder kind
        · exact fun _ _ found => Session.tops_addDefaultPlaceholder nested tops kind found
  have empty : (Session.ofGlobal options.globalName state).Nested options.embeddings :=
    Session.nested_ofGlobal _ _
  have none : ∀ key placeholder, (Session.ofGlobal options.globalName state).placeholders.get? key =
      some placeholder → (Session.ofGlobal options.globalName state).IsTop placeholder.body :=
    fun _ _ found => nomatch found
  have begun (session : Session η) (nested : session.Nested options.embeddings)
      (tops : ∀ key placeholder, session.placeholders.get? key = some placeholder →
        session.IsTop placeholder.body)
      (found : (session.addText source .global .root).2.placeholders.get? key = some placeholder) :
      (session.addText source .global .root).2.IsTop placeholder.body := by
    have isTop := tops key placeholder found
    exact isTop.mono (session.extends_addText source .global .root) (.refl _)
      (nested.inRange _ isTop.1)
  have started := seeded placeholderKinds _ empty none
  apply begun (if options.defaultPlaceholders then
    (Session.ofGlobal options.globalName state).addDefaultPlaceholders
    else Session.ofGlobal options.globalName state) _ _ found
  · split
    · exact started.1
    · exact empty
  · split
    · exact started.2
    · exact none

/-- Whatever becomes of a new template is a chain of steps that keep the parents of scopes. -/
theorem Evolves.chain_parents
    (evolves : (ofSource source options host state).Evolves Store.KeepsParents template)
    (keeps : host.KeepsParents) :
    (ofSource source options host state).session.Chain Policy.parents options.embeddings
      template.session := by
  have lawful := Policy.lawful_parents keeps
  have sound : Policy.parents.Sound options.embeddings
      (ofSource source options host state).session := sound_ofSource lawful trivial trivial trivial
  obtain ⟨_, _, _, isThere⟩ := root_ofSource source options host state
  have becomes : (ofSource source options host state).Evolves Policy.parents.Becomes template :=
    evolves.mono fun _ _ keeps => ⟨trivial, keeps⟩
  exact becomes.chain lawful Policy.permissive_parents sound (Session.lt_of_getElem? isThere)

/-- Along such a chain blocks keep their outlines and scopes their parents. -/
theorem keepsScopes_of_chain {session : Session η}
    (chain : (ofSource source options host state).session.Chain Policy.parents options.embeddings
      session) :
    (ofSource source options host state).session.Extends session ∧
      (ofSource source options host state).session.store.KeepsParents session.store := by
  let silent : Host η := ⟨fun _ _ _ store => (.error (.reference (.reported "")), store)⟩
  have keeps : silent.KeepsParents := fun _ _ _ store => .refl store.heap
  have lawful := Policy.lawful_parents keeps
  have sound : Policy.parents.Sound options.embeddings
      (ofSource source options host state).session :=
        ⟨valid_ofSource _ _ _ _, trivial, fun _ _ _ => trivial⟩
  exact ⟨chain.toExtends sound.valid, (chain.becomes lawful sound).2⟩

/-- Whatever becomes of a new template, blocks keep their outlines and scopes their parents. -/
theorem Evolves.keepsScopes
    (evolves : (ofSource source options host state).Evolves Store.KeepsParents template)
    (keeps : host.KeepsParents) :
    (ofSource source options host state).session.Extends template.session ∧
      (ofSource source options host state).session.store.KeepsParents template.session.store :=
  keepsScopes_of_chain (evolves.chain_parents keeps)

/-- The placeholders that a template began with stay next to the global scope. -/
theorem Evolves.tops
    (evolves : (ofSource source options host state).Evolves Store.KeepsParents template)
    (keeps : host.KeepsParents) {key : Placeholder.Key} {placeholder : Placeholder}
    (found : (ofSource source options host state).session.placeholders.get? key =
      some placeholder) : template.session.IsTop placeholder.body := by
  have isTop := tops_ofSource found
  obtain ⟨ext, parents⟩ := evolves.keepsScopes keeps
  exact isTop.mono ext parents (nested_ofSource.inRange _ isTop.1)

/-- The host whose one function binds a name in the global scope. -/
def globalBinder (name : String) : Host Unit where
  call _ _ _ store :=
    (.ok (.boolean true), { store with heap := store.heap.put .global name (.int 7) })

/-- A global scope with a name for the function of such a host and what else is put there. -/
def withFunction (stock : Heap → Heap) : Heap :=
  let (function, heap) := (stock (.ofGlobal "Global")).newFunction (.host ⟨"call", .exactly 0, 0⟩)
  heap.put .global "call" (.function function)

/-- A global scope with names for a list that may change. -/
def withList (names : List String) : Heap :=
  let (list, heap) := (Heap.ofGlobal "Global").newList true []
  names.foldl (fun heap name => heap.put .global name (.list list)) heap

/-- A template over a stocked global scope, with its root parsed, when it is rendered again. -/
def rerun (text : String) (host : Host Unit) (heap : Heap) : Session Unit :=
  let template := (ofString text { defaultPlaceholders := false } host ()).withStore ⟨heap, ()⟩
  { (template.render 1).2.session with writes := #[] }

/-- The only node of such a template ends well. -/
def Reruns (text : String) (host : Host Unit) (heap : Heap) (node : Node) (after : Session Unit) :
    Prop :=
  ((rerun text host heap).block ⟨0⟩).nodes? = some [node] ∧
    (Run.node ⟨host, fun _ => none⟩ (Run.block ⟨host, fun _ => none⟩ 3) 3 .global node).run.run
      (rerun text host heap) = (.ok (), after)

/-- Whether the only node of such a template is as asked for and ends well in a session with a
property. -/
def rerunEnds (text : String) (host : Host Unit) (heap : Heap) (isNode : Node → Bool)
    (holds : Session Unit → Bool) : Bool :=
  match ((rerun text host heap).block ⟨0⟩).nodes? with
  | some [node] =>
      isNode node && (Run.node ⟨host, fun _ => none⟩ (Run.block ⟨host, fun _ => none⟩ 3) 3 .global
        node).succeeds (rerun text host heap) fun _ after => holds after
  | _ => false

theorem exists_reruns (text : String) (host : Host Unit) (heap : Heap) (isNode : Node → Bool)
    (holds : Session Unit → Bool) (check : rerunEnds text host heap isNode holds = true) :
    ∃ node after, Reruns text host heap node after ∧ isNode node = true ∧ holds after = true := by
  unfold rerunEnds at check
  split at check
  case h_2 => cases check
  case h_1 node parsed =>
    obtain ⟨isAsked, succeeds⟩ := Bool.and_eq_true_iff.mp check
    obtain ⟨_, after, ran, isTrue⟩ := Run.ok_of_succeeds succeeds
    exact ⟨node, after, ⟨parsed, ran⟩, isAsked, isTrue⟩

end Template

end Stencil
