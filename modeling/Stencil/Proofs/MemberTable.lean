import Stencil.Proofs.Expression.Listed
import Stencil.Proofs.Template

/-!
# The table of members over any number of renders

Whatever becomes of a template, its function values run functions of the host and listed members
only. So no path ever calls a member that is not defined for its receiver, neither by its name nor
as a value that was taken before.
-/

namespace Stencil

open Text

variable {η : Type} {host : Host η}

/-- The policy that function values run functions of the host and listed members only. -/
def Policy.tabled : Policy η where
  holds store := store.heap.Tabled
  grows _ _ := True
  hasScope _ _ := True
  hasValue _ _ := True
  raises _ := True
  mayParse _ := True
  mayMark := True
  mayDefine := True

namespace Policy

theorem permissive_tabled : (tabled : Policy η).Permissive :=
  ⟨fun _ => trivial, trivial, trivial⟩

theorem becomes_tabled {store : Store η} {after : Heap} (holds : store.heap.Tabled)
    (same : after.functions = store.heap.functions) :
    tabled.Becomes store { store with heap := after } :=
  ⟨holds.of_functions same, trivial⟩

theorem works_tabled {α : Type} {evaluator : Evaluator η α} {answers : α → Prop} {store : Store η}
    (keeps : evaluator.KeepsTable host answers) (holds : store.heap.Tabled) :
    tabled.Works store evaluator fun _ _ => True :=
  ⟨⟨(keeps store holds).1, trivial⟩, fun _ _ => trivial, fun _ _ => trivial⟩

/-- Runs keep to the table if the functions of the host do. -/
theorem lawful_tabled (keeps : host.KeepsTable) : tabled.Lawful host where
  refl _ := trivial
  trans _ _ _ _ _ := trivial
  raises _ _ := trivial
  hasScope_mono _ _ _ _ _ := trivial
  hasValue_mono _ _ _ _ _ := trivial
  primitive _ _ := trivial
  item _ _ _ _ _ := trivial
  newScope _ _ _ holds _ := ⟨becomes_tabled holds rfl, trivial⟩
  clear _ _ holds _ := becomes_tabled holds rfl
  put _ _ _ _ holds _ _ := becomes_tabled holds rfl
  assign store scope name value holds _ _ := by
    apply becomes_tabled holds
    unfold Heap.assign
    split
    · rfl
    · rfl
  evaluate _ scope expression holds _ := works_tabled (.evaluate keeps scope expression) holds
  follow _ scope path holds _ := works_tabled (.followFrom keeps scope none path) holds

end Policy

namespace Template

variable {template : Template η} {source : AnySource} {options : Options} {state : η}

/-- The table of members and their code agree: a call of a member that the table lists for its
receiver never fails because the member is not defined, and a call of one that it does not list
fails and changes nothing.  A path comes to members through the table only, after the own entries of
objects, so at every moment of whatever becomes of a new template no member that a path calls is
undefined, be it called where it is found or taken as a value before. -/
theorem members_defined (keeps : host.KeepsTable)
    (evolves : (ofSource source options host state).Evolves Policy.tabled.Becomes template) :
    let start := (ofSource source options host state).session
    (∀ (method : Member) (receiver : Value) (reached : Option Value) (arguments : List Value)
      (store : Store η),
      let ran := ((Callable.member receiver method).invoke host reached arguments).run.run store
      (receiver.kind ∈ method.kinds → ∀ error, ran.1 = .error error → error.OtherThanUndefined) ∧
        (receiver.kind ∉ method.kinds → ∃ error, ran = (.error error, store))) ∧
    (∀ (heap : Heap) (scope : ScopeRef) (reached : Option Value) (name : String) (owner : Value)
      (method : Member), heap.find? scope reached name = some (.member owner method) →
      method.name = name ∧ owner.kind ∈ method.kinds ∧
        ∀ object, owner = .object object → heap.get? object name = none) ∧
    start.Chain .tabled options.embeddings template.session ∧
    (∀ fuel, template.session.Chain .tabled options.embeddings (template.render fuel).2.session) ∧
    ∀ session, start.Chain .tabled options.embeddings session →
      session.store.heap.Tabled ∧
      ∀ (scope : ScopeRef) (path : Path),
        (∀ call, Path.Makes host scope call none path session.store →
          call.Listed ∧ ∀ receiver method, call.callable = .member receiver method →
            ∀ error, (call.run host).1 = .error error → error.OtherThanUndefined) ∧
        ∀ error, ((path.follow host scope).run.run session.store).1 = .error error →
          error.OtherThanUndefined ∨ host.Raises error := by
  have lawful := Policy.lawful_tabled keeps
  have empty : (Store.mk (.ofGlobal options.globalName) state).heap.Tabled := Heap.tabled_ofGlobal _
  have startSound := @sound_ofSource _ _ source options _ state lawful trivial empty trivial
  obtain ⟨_, _, _, isThere⟩ := root_ofSource source options host state
  have chain := evolves.chain lawful Policy.permissive_tabled startSound
    (Session.lt_of_getElem? isThere)
  obtain ⟨environment, sound, present⟩ :=
    evolves.sound lawful Policy.permissive_tabled empty trivial
  refine ⟨fun method receiver reached arguments store => ⟨fun listed error failed => ?_,
    fun unlisted => ?_⟩, fun _ _ _ _ _ _ => Heap.of_find?_member, chain, fun fuel => ?_,
    fun session during => ?_⟩
  · exact (Callable.ordinary_of_listed listed failed).otherThanUndefined
  · obtain ⟨error, failed⟩ := (method.checks_invoke receiver arguments store.heap).fails unlisted
    rw [Callable.run_invoke_member, failed]
    exact ⟨error, rfl⟩
  · have runs := chain_render (environment ▸ lawful) Policy.permissive_tabled
      (environment ▸ sound) present fuel
    rw [environment] at runs
    exact runs
  · have tabled : session.store.heap.Tabled := (during.sound lawful startSound).store
    refine ⟨tabled, fun scope path => ⟨fun call makes => ?_, fun error failed => ?_⟩⟩
    · have listed := makes.listed keeps tabled
      refine ⟨listed, fun receiver method isMember error failed => ?_⟩
      obtain ⟨callable, reached, arguments, store⟩ := call
      obtain rfl : callable = .member receiver method := isMember
      exact (Callable.ordinary_of_listed listed.1 failed).otherThanUndefined
    · have ends := (Evaluator.KeepsTable.followFrom keeps scope none path session.store tabled).2
      change ((followFrom host scope none path).run.run session.store).1 = .error error at failed
      rw [failed] at ends
      exact ends.imp_left TemplateError.Ordinary.otherThanUndefined

/-- A template that takes a member of a list as a value. -/
def taking : Template Unit :=
  ofString "@var xs = @mutable_list(1)\n@var count = xs.size" { defaultPlaceholders := false }
    Host.none ()

theorem members_defined_taking :
    ∃ call, Path.Makes Host.none .global call none
        [.call "count" [.literal (.int 1)] false false] (taking.render 5).2.session.store ∧
      call.callable = .member (.list ⟨true, 0⟩) .size ∧ call.callable.Listed ∧
      ∃ error, (call.run Host.none).1 = .error error ∧ error.OtherThanUndefined := by
  obtain ⟨-, -, -, renders, moments⟩ :=
    members_defined Host.keepsTable_none (.refl : taking.Evolves Policy.tabled.Becomes taking)
  obtain ⟨-, paths⟩ := moments _ (renders 5)
  obtain ⟨calls, -⟩ := paths .global [.call "count" [.literal (.int 1)] false false]
  obtain ⟨isFunction, isMember⟩ :
      (taking.render 5).2.session.store.heap.find? .global none "count" =
          some (.entry (.function ⟨0⟩)) ∧
        (taking.render 5).2.session.store.heap.callable ⟨0⟩ =
          .member (.list ⟨true, 0⟩) .size := by
    decide +kernel
  have found : (taking.render 5).2.session.store.heap.target .global none "count" false =
      .ok (.member (.list ⟨true, 0⟩) .size) := by
    rw [Heap.target, isFunction]
    exact congrArg Except.ok isMember
  have makes : Path.Makes Host.none .global _ none
      [.call "count" [.literal (.int 1)] false false] _ :=
    .here none _ [] _ (.itself none "count" [.literal (.int 1)] false false _ _ _ _ found rfl rfl)
  obtain ⟨listed, defined⟩ := calls _ makes
  exact ⟨_, makes, rfl, listed.1, _, rfl, defined _ _ rfl _ rfl⟩

end Template

end Stencil
