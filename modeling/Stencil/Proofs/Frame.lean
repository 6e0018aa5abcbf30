import Stencil.Proofs.Heap.Revised
import Stencil.Proofs.Run.Live
import Stencil.Proofs.Run.Refines
import Stencil.Proofs.Template.Scopes

/-!
# What a render leaves alone

A render writes to the own scopes of its blocks and to the global scope only, and in the global
scope to no other names than those that its nodes declare or assign.
-/

namespace Stencil

open Text

variable {η : Type}

namespace Session

/-- A scope that no block runs in, such as that of an object of the host. -/
structure Foreign (session : Session η) (scope : ScopeRef) : Prop where
  present : scope.index < session.store.heap.scopes.size
  notGlobal : scope ≠ .global
  apart : ∀ id : BlockRef, id.index < session.blocks.size → (session.block id).scope ≠ scope

/-- A node that may run gives a name another value. -/
def Assigns (session : Session η) (mayRun : BlockRef → Node → Bool) (name : String) : Prop :=
  ∃ id nodes expression, (session.block id).nodes? = some nodes ∧ .assign name expression ∈ nodes ∧
    mayRun id (.assign name expression) = true

/-- A node that may run declares a name in the root or in a text that shares its scope. -/
def DeclaresGlobally (session : Session η) (mayRun : BlockRef → Node → Bool) (name : String) :
    Prop :=
  ∃ id nodes expression constant, (session.block id).nodes? = some nodes ∧
    .declare name expression constant ∈ nodes ∧
    mayRun id (.declare name expression constant) = true ∧ (session.block id).scope = .global ∧
    ((session.block id).role = .root ∨ (session.block id).role = .embedded)

/-- What a run of certain nodes leaves of a session: foreign scopes stay as they are, and the global
one keeps its keys in place, but for the values of assigned names and the declared ones at its
end. -/
structure Framed (mayRun : BlockRef → Node → Bool) (before after : Session η) : Prop where
  foreign : ∀ scope, before.Foreign scope →
    after.store.heap.scope scope = before.store.heap.scope scope ∧ after.Foreign scope
  global : Dictionary.Revised (after.Assigns mayRun) (after.DeclaresGlobally mayRun)
    (before.store.heap.entries .global) (after.store.heap.entries .global)

variable {environment : Environment η} {mayRun : BlockRef → Node → Bool}
  {session before middle after : Session η} {id : BlockRef} {scope : ScopeRef} {name : String}

namespace Foreign

theorem of_quiet (foreign : before.Foreign scope) (quiet : before.Quiet after)
    (keeps : before.store.KeepsParents after.store) : after.Foreign scope := by
  refine ⟨(keeps scope foreign.present).1, foreign.notGlobal, fun id present => ?_⟩
  have presentBefore : id.index < before.blocks.size := quiet.size_blocks ▸ present
  rw [quiet.toExtends.scope presentBefore]
  exact foreign.apart id presentBefore

theorem parseBlock {embeddings : Embeddings} (foreign : session.Foreign scope)
    (present : id.index < session.blocks.size) (ext : session.Extends
      (session.parseBlock embeddings id).2) :
      (session.parseBlock embeddings id).2.Foreign scope := by
  obtain ⟨keeps, -, places, -, -⟩ := @furnishes_parseBlock _ _ embeddings _ present
  refine ⟨(keeps scope foreign.present).1, foreign.notGlobal, fun child within same => ?_⟩
  by_cases isOld : child.index < session.blocks.size
  · rw [ext.scope isOld] at same
    exact foreign.apart child isOld same
  · have place := places child (Nat.le_of_not_lt isOld) within
    split at place
    · rw [same] at place
      exact absurd foreign.present (Nat.not_lt.mpr place.1)
    · exact foreign.apart id present (place.symm.trans same)

/-- A foreign scope is around no block. -/
theorem not_around {embeddings : Embeddings} (foreign : session.Foreign scope)
    (nested : session.Nested embeddings) (live : session.Live id) :
    scope ∉ session.store.heap.chain (session.block id).scope := by
  intro around
  rcases nested.around live around with isGlobal | ⟨outer, present, -, isScope, -⟩
  · exact foreign.notGlobal isGlobal
  · exact foreign.apart outer present isScope

end Foreign

/-- A deed revises every scope that is the own one of no block that a run may come to. -/
theorem Deed.revised {rules : Run.Rules η} {mayReplace mayAdd : String → Prop}
    (keeps : environment.host.KeepsParents) (spares : environment.host.Spares scope)
    (nested : before.Nested environment.embeddings)
    (live : ∀ id, rules.comes before id → before.Live id)
    (deed : before.Deed environment rules after)
    (present : scope.index < before.store.heap.scopes.size)
    (unowned : ∀ id, rules.comes before id → (before.block id).role.ownsScope = true →
      (before.block id).scope ≠ scope)
    (assigns : ∀ id nodes name expression, (before.block id).nodes? = some nodes →
      .assign name expression ∈ nodes → rules.runs id (.assign name expression) → mayReplace name)
    (declares : ∀ id nodes name expression constant, rules.comes before id →
      (before.block id).nodes? = some nodes → .declare name expression constant ∈ nodes →
      rules.runs id (.declare name expression constant) → (before.block id).scope = scope →
      mayAdd name) :
    Dictionary.Revised mayReplace mayAdd (before.store.heap.entries scope)
      (after.store.heap.entries scope) := by
  have same (stays : after.store.heap.entries scope = before.store.heap.entries scope) :
      Dictionary.Revised mayReplace mayAdd (before.store.heap.entries scope)
        (after.store.heap.entries scope) := by
    rw [stays]
    exact .refl _
  cases deed with
  | write text => exact same rfl
  | depth depth => exact same rfl
  | mark target left => exact same rfl
  | seek id offset found => exact same rfl
  | define => exact same rfl
  | parse id comes unparsed atStart =>
      exact same (entries_parseBlock ((live id comes).lt nested) present)
  | evaluate store changes => exact same (changes.entries keeps spares present)
  | clear id comes owns may =>
      exact same (Heap.entries_modifyEntries_of_ne _ (unowned id comes owns).symm)
  | bind id name value comes owns may =>
      exact same (Heap.entries_modifyEntries_of_ne _ (unowned id comes owns).symm)
  | declare id nodes name expression constant value comes parsed member may =>
      by_cases isScope : (before.block id).scope = scope
      · have declared := declares id nodes name expression constant comes parsed member may isScope
        subst isScope
        exact before.store.heap.revised_insert _ declared present
      · exact same (congrArg Scope.entries (Heap.scope_insert_of_ne (Ne.symm isScope)))
  | assign id nodes name expression value comes parsed member may =>
      have assigned := assigns id nodes name expression parsed member may
      exact before.store.heap.revised_assign _ scope assigned present

section

variable (keeps : environment.host.KeepsScopes) (nested : before.Nested environment.embeddings)
  (deed : before.Deed environment
    (.live environment (fun _ => True) fun id node => mayRun id node = true) after)

include keeps nested deed

theorem Deed.foreign (foreign : before.Foreign scope) : after.Foreign scope := by
  have effects := Effects.single (deed.effect_live nested)
  have keepsParents := effects.keepsParents keeps.keepsParents nested
  cases deed with
  | parse id live unparsed atStart =>
      exact foreign.parseBlock (live.lt nested) (effects.toExtends keeps.keepsParents nested)
  | mark target left =>
      exact foreign.of_quiet (before.quiet_modifyBlock target fun _ => rfl) keepsParents
  | seek id offset found => exact foreign.of_quiet (before.quiet_seek id offset) keepsParents
  | _ => exact foreign.of_quiet ⟨rfl, rfl, fun _ => rfl, fun _ => rfl⟩ keepsParents

/-- A foreign scope stays as it is. -/
theorem Deed.scope_eq (foreign : before.Foreign scope) :
    after.store.heap.scope scope = before.store.heap.scope scope := by
  have apart {id : BlockRef} (live : before.Live id) : scope ≠ (before.block id).scope :=
    (foreign.apart id (live.lt nested)).symm
  cases deed with
  | write text => rfl
  | depth depth => rfl
  | mark target left => rfl
  | seek id offset found => rfl
  | parse id live unparsed atStart =>
      exact (furnishes_parseBlock (live.lt nested)).scope scope foreign.present
  | define => rfl
  | evaluate store changes => exact (changes.keepsScopes keeps scope foreign.present).2
  | clear id live owns may => exact Heap.scope_modifyEntries_of_ne _ (apart live)
  | bind id name value live owns may => exact Heap.scope_modifyEntries_of_ne _ (apart live)
  | declare id nodes name expression constant value live parsed member may =>
      exact Heap.scope_insert_of_ne (apart live)
  | assign id nodes name expression value live parsed member may =>
      exact Heap.scope_assign_of_not_mem (foreign.not_around nested live)

end

/-- What a run leaves of a scope that is the own one of no block that it may come to. -/
theorem Deeds.revised {rules : Run.Rules η} {mayReplace mayAdd : String → Prop}
    (lawful : rules.Lawful environment) (spares : environment.host.Spares scope)
    (deeds : before.Deeds environment rules after) (begun : rules.holds before)
    (present : scope.index < before.store.heap.scopes.size)
    (unowned : ∀ id, rules.comes after id → (after.block id).role.ownsScope = true →
      (after.block id).scope ≠ scope)
    (assigns : ∀ id nodes name expression, (after.block id).nodes? = some nodes →
      .assign name expression ∈ nodes → rules.runs id (.assign name expression) → mayReplace name)
    (declares : ∀ id nodes name expression constant, rules.comes after id →
      (after.block id).nodes? = some nodes → .declare name expression constant ∈ nodes →
      rules.runs id (.declare name expression constant) → (after.block id).scope = scope →
      mayAdd name) :
    Dictionary.Revised mayReplace mayAdd (before.store.heap.entries scope)
      (after.store.heap.entries scope) := by
  induction deeds with
  | refl => exact .refl _
  | @tail middle after earlier deed induction =>
      have toMiddle : before.Deeds environment rules middle := earlier
      have holds := toMiddle.holds lawful begun
      have nested := lawful.nested middle holds
      have ext := (Deeds.single deed).toExtends lawful holds
      have presentMiddle :=
        ((toMiddle.effects lawful begun).keepsParents lawful.keeps (lawful.nested before begun)
          scope present).1
      -- What is said of the blocks of the last session holds of them in the one before.
      have later {id : BlockRef} (comes : rules.comes middle id) :
          rules.comes after id ∧ (after.block id).role = (middle.block id).role ∧
            (after.block id).scope = (middle.block id).scope :=
        have within := lawful.lt holds comes
        ⟨lawful.stays middle after id holds deed comes, ext.role within, ext.scope within⟩
      have unownedMiddle (id : BlockRef) (comes : rules.comes middle id)
          (owns : (middle.block id).role.ownsScope = true) : (middle.block id).scope ≠ scope := by
        obtain ⟨comesLater, role, isScope⟩ := later comes
        rw [← role] at owns
        rw [← isScope]
        exact unowned id comesLater owns
      have assignsMiddle (id : BlockRef) (nodes : List Node) (name : String)
          (expression : Expression) (parsed : (middle.block id).nodes? = some nodes) :=
        assigns id nodes name expression (ext.nodes? parsed)
      have declaresMiddle (id : BlockRef) (nodes : List Node) (name : String)
          (expression : Expression) (constant : Bool) (comes : rules.comes middle id)
          (parsed : (middle.block id).nodes? = some nodes)
          (member : .declare name expression constant ∈ nodes)
          (runs : rules.runs id (.declare name expression constant))
          (isScope : (middle.block id).scope = scope) : mayAdd name := by
        obtain ⟨comesLater, -, same⟩ := later comes
        exact declares id nodes name expression constant comesLater (ext.nodes? parsed) member runs
          (same.trans isScope)
      exact (induction unownedMiddle assignsMiddle declaresMiddle).trans
        (deed.revised lawful.keeps spares nested
          (fun id => lawful.live middle id holds) presentMiddle
          unownedMiddle assignsMiddle declaresMiddle)

section

variable (keeps : environment.host.KeepsScopes)
  (lawful : (Run.Rules.live environment (fun _ => True) fun id node =>
    mayRun id node = true).Lawful environment)
  (deeds : before.Deeds environment
    (.live environment (fun _ => True) fun id node => mayRun id node = true) after)
  (nested : before.Nested environment.embeddings)

include keeps lawful deeds nested

theorem Deeds.foreign (foreign : before.Foreign scope) :
    after.store.heap.scope scope = before.store.heap.scope scope ∧ after.Foreign scope := by
  induction deeds with
  | refl => exact ⟨rfl, foreign⟩
  | tail earlier deed induction =>
      obtain ⟨same, foreignMiddle⟩ := induction
      have nestedMiddle := Deeds.holds lawful earlier nested
      exact ⟨(deed.scope_eq keeps nestedMiddle foreignMiddle).trans same,
        deed.foreign keeps nestedMiddle foreignMiddle⟩

/-- Deeds of certain nodes keep a session within its frame. -/
theorem Deeds.framed : Framed mayRun before after := by
  refine ⟨fun scope foreign => deeds.foreign keeps lawful nested foreign, ?_⟩
  have nestedAfter := deeds.holds lawful nested
  apply deeds.revised lawful (keeps.spares .global) nested nested.global.1
  · exact fun id live owns => nestedAfter.own id (live.lt nestedAfter) owns
  · exact fun id nodes name expression parsed member may =>
      ⟨id, nodes, expression, parsed, member, may⟩
  · intro id nodes name expression constant live parsed member may isGlobal
    refine ⟨id, nodes, expression, constant, parsed, member, may, isGlobal, ?_⟩
    have shares := fun owns => nestedAfter.own id (live.lt nestedAfter) owns isGlobal
    cases role : (after.block id).role with
    | root => exact .inl rfl
    | embedded => exact .inr rfl
    | loopBody => exact absurd (by rw [role]; rfl) shares
    | branch => exact absurd (by rw [role]; rfl) shares
    | placeholder => exact absurd (by rw [role]; rfl) shares

end

theorem framed_blockOnly (mayRun : BlockRef → Node → Bool) (keeps : environment.host.KeepsScopes)
    (nested : session.Nested environment.embeddings) (live : session.Live id) (fuel : Nat) :
    Framed mayRun session ((Run.blockOnly mayRun environment fuel id).run session).2 := by
  have lawful : (Run.Rules.live environment (fun _ => True) fun id node =>
      mayRun id node = true).Lawful environment := Run.Rules.lawful_live keeps.keepsParents
  have performs := Run.performs_blockOnly lawful (fun _ => trivial) (fun _ _ may => may) fuel
  obtain ⟨deeds, -⟩ := performs.does session id live nested (.inl fun _ => trivial)
  exact deeds.framed keeps lawful nested

end Session

namespace Template

variable {source : AnySource} {options : Options} {host : Host η} {state : η}
  {template : Template η} {mayRun : BlockRef → Node → Bool} {fuel : Nat}

/-- Renders the template, and stops as soon as a node that must not run is about to. -/
def renderOnly (mayRun : BlockRef → Node → Bool) (template : Template η) (fuel : Nat) :
    Rendering × Template η :=
  let session := { template.session with writes := #[] }
  let (outcome, session) :=
    (Run.blockOnly mayRun template.environment fuel template.root).run session
  ({ outcome, writes := session.writes }, { template with session })

/-- A render runs no other nodes than certain ones. -/
def RunsOnly (template : Template η) (mayRun : BlockRef → Node → Bool) (fuel : Nat) : Prop :=
  template.render fuel = template.renderOnly mayRun fuel

/-- A run of certain nodes that finishes shows that the render runs no others. -/
theorem runsOnly_of_outcome
    (finishes : (template.renderOnly mayRun fuel).1.outcome ≠ .error .outOfFuel) :
    template.RunsOnly mayRun fuel := by
  rcases Run.Refines.blockOnly template.environment mayRun fuel template.root
    { template.session with writes := #[] } with same | stopped
  · change (Run.blockOnly mayRun template.environment fuel template.root).run
      { template.session with writes := #[] } = _ at same
    rw [RunsOnly, render, renderOnly, same]
    rfl
  · exact absurd stopped finishes

/-- Scopes that the host adds are foreign, and those that are foreign stay so. -/
theorem Evolves.foreign_withStore
    (evolves : (ofSource source options host state).Evolves Store.KeepsParents template)
    (keeps : host.KeepsParents) {store : Store η} (may : template.session.store.KeepsParents store)
    {scope : ScopeRef} (present : scope.index < store.heap.scopes.size)
    (isForeign : template.session.store.heap.scopes.size ≤ scope.index ∨
      template.session.Foreign scope) : (template.withStore store).session.Foreign scope := by
  obtain ⟨nested, -⟩ := evolves.nested keeps
  rcases isForeign with isNew | foreign
  · have apart (id : BlockRef) (within : id.index < template.session.blocks.size) :
        (template.session.block id).scope ≠ scope := by
      rintro rfl
      exact absurd (nested.inRange id within) (Nat.not_lt.mpr isNew)
    refine ⟨present, ?_, apart⟩
    rintro rfl
    exact absurd nested.global.1 (Nat.not_lt.mpr isNew)
  · exact foreign.of_quiet ⟨rfl, rfl, fun _ => rfl, fun _ => rfl⟩ may

/-- Rendering touches only what the template declares or assigns.  Whatever the render runs and
however it ends, the objects of the host stay as they are, and the global scope keeps every key in
place.  Only a name that a node assigns may get another value there, and only names that the root or
a text embedded next to it declares are added, at its end. -/
theorem render_frame
    (evolves : (ofSource source options host state).Evolves Store.KeepsParents template)
    (keeps : host.KeepsScopes) (only : template.RunsOnly mayRun fuel) :
    template.session.Framed mayRun (template.render fuel).2.session ∧
      ∀ store, template.session.store.KeepsParents store → ∀ scope : ScopeRef,
        scope.index < store.heap.scopes.size →
        template.session.store.heap.scopes.size ≤ scope.index ∨ template.session.Foreign scope →
        (template.withStore store).session.Foreign scope := by
  constructor
  · have environment : template.environment = ⟨host, options.embeddings⟩ := evolves.environment
    have begun := evolves.begun keeps.keepsParents
    have framed := @Session.framed_blockOnly _ ⟨host, options.embeddings⟩ _ _ mayRun keeps begun.1
      begun.2 fuel
    rw [only, renderOnly, environment]
    exact ⟨fun scope foreign =>
      framed.foreign scope ⟨foreign.present, foreign.notGlobal, foreign.apart⟩,
      framed.global⟩
  · exact fun store may scope present isForeign =>
      evolves.foreign_withStore keeps.keepsParents may present isForeign

/-- A template that counts a total up to the limit of an account of the host, as an example. -/
def counting : Template Unit :=
  ofString ("@var step = 2\n@for(total < account.limit)@var next = total + step\n" ++
    "@set_var total = next\n@var(total);@endfor") {} Host.none ()

/-- The template with the account and the total in the global scope. -/
def opened : Template Unit :=
  let (account, heap) := counting.session.store.heap.addObject .global "account"
  counting.withStore
    { heap := (heap.put account "limit" (.int 5)).put .global "total" (.int 0), state := () }

/-- A rendering of the example assigns nothing but the total and declares no other names. -/
def counts (_ : BlockRef) : Node → Bool
  | .assign name _ => name = "total"
  | .declare name _ _ => name = "step" || name = "next"
  | .definePlaceholder _ _ _ | .embed _ => false
  | _ => true

theorem render_frame_opened :
    (opened.render 5).1.writes = #["2", ";", "4", ";", "6", ";"] ∧
      ∃ account, opened.session.store.heap.get? .global "account" = some (.object account) ∧
        (opened.render 5).2.session.store.heap.get? .global "account" = some (.object account) ∧
        (opened.render 5).2.session.store.heap.scope account =
          opened.session.store.heap.scope account := by
  have succeeds : (opened.renderOnly counts 5).1.outcome.toOption = some () := by decide +kernel
  have only : opened.RunsOnly counts 5 := by
    refine runsOnly_of_outcome fun stopped => ?_
    rw [stopped] at succeeds
    cases succeeds
  have added : counting.session.store.heap.KeepsParents
      (counting.session.store.heap.addObject .global "account").2 :=
    (Heap.KeepsParents.newScope _ _ _).trans (.modifyEntries _ _ _)
  have keeps : Store.KeepsParents counting.session.store opened.session.store :=
    (added.trans (.modifyEntries _ _ _)).trans (.modifyEntries _ _ _)
  have evolves : counting.Evolves Store.KeepsParents opened := .change .refl _ keeps
  obtain ⟨⟨foreign, global⟩, -⟩ := render_frame evolves Host.keepsScopes_none only
  have isForeign : opened.session.Foreign ⟨counting.session.store.heap.scopes.size⟩ :=
    Evolves.refl.foreign_withStore Host.keepsParents_none keeps (by decide +kernel)
      (.inl (Nat.le_refl _))
  have isAccount : opened.session.store.heap.get? .global "account" =
      some (.object ⟨counting.session.store.heap.scopes.size⟩) := by decide +kernel
  refine ⟨by decide +kernel, _, isAccount, ?_, (foreign _ isForeign).1⟩
  rcases global.values "account" _ isAccount with kept | ⟨_, _, _, _, _, isAssigned⟩
  · exact kept
  · simp [counts] at isAssigned

end Template

end Stencil
