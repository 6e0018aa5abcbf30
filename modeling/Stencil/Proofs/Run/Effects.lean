import Stencil.Proofs.Run.Block
import Stencil.Proofs.Session.Scopes

/-!
# What blocks do to a session

`Session.Effect` lists what a run does to a session, each time with the block that does it.  So what
becomes of one scope can be read off the blocks that may touch it.
-/

namespace Stencil

open Text

variable {η : Type}

/-- What a run does to a session, as long as it enters only some placeholder bodies. -/
inductive Session.Effect (environment : Environment η) (mayEnter : BlockRef → Prop)
    (session : Session η) : Session η → Prop where
  | write (text : String) :
      Effect environment mayEnter session { session with writes := session.writes.push text }
  | depth (depth : Nat) : Effect environment mayEnter session { session with depth }
  | mark (target : BlockRef) (left : Bool) :
      Effect environment mayEnter session
        (session.modifyBlock target ({ · with wasLeft := left }))
  | seek (id : SourceRef) (offset : Nat)
      (found : (Source.seek offset (session.source id)).1 = true) :
      Effect environment mayEnter session
        (session.setSource id (Source.seek offset (session.source id)).2)
  | parse (id : BlockRef) (present : id.index < session.blocks.size)
      (unparsed : (session.block id).nodes? = none)
      (atStart : Source.pointer (session.source (session.block id).source) =
        (session.block id).start) :
      Effect environment mayEnter session (session.parseBlock environment.embeddings id).2
  /-- A node of a block defines a placeholder. -/
  | define (id : BlockRef) (nodes : List Node) (key : Placeholder.Key)
      (parameter : Option String) (body : BlockRef) (live : session.Live id)
      (parsed : (session.block id).nodes? = some nodes)
      (member : .definePlaceholder key parameter body ∈ nodes) :
      Effect environment mayEnter session
        { session with placeholders := session.placeholders.put key ⟨body, parameter⟩ }
  /-- Something is evaluated. -/
  | evaluate (store : Store η) (changes : Store.Changes environment.host session.store store) :
      Effect environment mayEnter session { session with store }
  /-- The own scope of a block is cleared, of a placeholder body when it is entered. -/
  | clear (id : BlockRef) (live : session.Live id)
      (owns : (session.block id).role.ownsScope = true)
      (may : (session.block id).role = .placeholder → mayEnter id) :
      Effect environment mayEnter session (session.modifyHeap (·.clear (session.block id).scope))
  /-- A loop or the use of a placeholder binds a name in the own scope of a block. -/
  | bind (id : BlockRef) (name : String) (value : Value) (live : session.Live id)
      (owns : (session.block id).role.ownsScope = true)
      (may : (session.block id).role = .placeholder → mayEnter id) :
      Effect environment mayEnter session
        (session.modifyHeap (·.put (session.block id).scope name value))
  /-- A node of a block declares a name. -/
  | declare (id : BlockRef) (nodes : List Node) (name : String) (expression : Expression)
      (constant : Bool) (value : Value) (live : session.Live id)
      (parsed : (session.block id).nodes? = some nodes)
      (member : .declare name expression constant ∈ nodes) :
      Effect environment mayEnter session
        (session.modifyHeap fun heap => (heap.insert (session.block id).scope name value).2)
  /-- A node of a block gives a name another value. -/
  | assign (id : BlockRef) (nodes : List Node) (name : String) (expression : Expression)
      (value : Value) (live : session.Live id)
      (parsed : (session.block id).nodes? = some nodes) (member : .assign name expression ∈ nodes) :
      Effect environment mayEnter session
        (session.modifyHeap fun heap => (heap.assign (session.block id).scope name value).2)

/-- Any number of effects. -/
def Session.Effects (environment : Environment η) (mayEnter : BlockRef → Prop) :
    Session η → Session η → Prop :=
  Relation.ReflTransGen (Session.Effect environment mayEnter)

namespace Session

variable {environment : Environment η} {mayEnter : BlockRef → Prop}
  {session before middle after : Session η}

theorem Placed.hasRole {parent id : BlockRef} {role : BlockRole}
    (placed : session.Placed parent role id) : session.HasRole role id :=
  ⟨_, getElem?_of_lt placed.present, placed.isRole⟩

/-- As far as the parents of scopes are concerned, effects are steps that are always allowed. -/
theorem Effect.step (keeps : environment.host.KeepsParents)
    (nested : session.Nested environment.embeddings)
    (effect : session.Effect environment mayEnter after) :
    session.Step Policy.parents environment.embeddings after := by
  cases effect with
  | write text => exact .write text
  | depth depth => exact .depth depth
  | mark target left => exact .mark target left trivial
  | seek id offset found => exact .seek id offset found
  | parse id present unparsed atStart => exact .parse id trivial present unparsed atStart
  | define id nodes key parameter body live parsed member =>
      have placed := nested.placed id nodes parsed _ member _ _
        (.definePlaceholder key parameter body)
      exact .define key ⟨body, parameter⟩ trivial placed.hasRole
  | evaluate store changes => exact .store store ⟨trivial, changes.keepsParents keeps⟩
  | clear id live owns may =>
      exact .store _ ⟨trivial, Heap.KeepsParents.modifyEntries session.store.heap _ _⟩
  | bind id name value live owns may =>
      exact .store _ ⟨trivial, Heap.KeepsParents.modifyEntries session.store.heap _ _⟩
  | declare id nodes name expression constant value live parsed member =>
      refine .store _ ⟨trivial, ?_⟩
      exact Heap.KeepsParents.insert session.store.heap _ _ _
  | assign id nodes name expression value live parsed member =>
      exact .store _ ⟨trivial, Heap.KeepsParents.assign session.store.heap _ _ _⟩

theorem Effect.nested (keeps : environment.host.KeepsParents)
    (effect : session.Effect environment mayEnter after)
    (nested : session.Nested environment.embeddings) : after.Nested environment.embeddings := by
  have step := effect.step keeps nested
  have stay (quiet : session.Quiet after) (same : after.placeholders = session.placeholders) :
      after.Nested environment.embeddings := by
    have becomes := step.becomes (Policy.lawful_parents keeps)
      ⟨nested.valid, trivial, fun _ _ _ => trivial⟩
    refine nested.of_quiet quiet becomes.2 fun key placeholder found => ?_
    rw [same] at found
    exact ⟨nested.placeholders key placeholder found,
      nested.valid.placeholders key placeholder found⟩
  cases effect with
  | parse id present unparsed atStart => exact nested.parseBlock present unparsed atStart
  | mark target left => exact stay (session.quiet_modifyBlock target fun _ => rfl) rfl
  | seek id offset found => exact stay (session.quiet_seek id offset) rfl
  | define id nodes key parameter body live parsed member =>
      have refers := Node.Refers.definePlaceholder key parameter body
      refine nested.of_quiet ⟨rfl, rfl, fun _ => rfl, fun _ => rfl⟩ (.refl _) ?_
      intro other placeholder found
      by_cases same : other = key
      · subst same
        rw [Dictionary.get?_put_self] at found
        cases found
        exact ⟨live.inner parsed member refers,
          (nested.placed id nodes parsed _ member _ _ refers).hasRole⟩
      · rw [Dictionary.get?_put_of_ne _ _ same] at found
        exact ⟨nested.placeholders other placeholder found,
          nested.valid.placeholders other placeholder found⟩
  | _ => exact stay ⟨rfl, rfl, fun _ => rfl, fun _ => rfl⟩ rfl

namespace Effects

theorem refl : session.Effects environment mayEnter session := Relation.ReflTransGen.refl

theorem trans (first : before.Effects environment mayEnter middle)
    (second : middle.Effects environment mayEnter after) :
    before.Effects environment mayEnter after :=
  Relation.ReflTransGen.trans first second

theorem single (effect : before.Effect environment mayEnter after) :
    before.Effects environment mayEnter after :=
  Relation.ReflTransGen.single effect

variable (keeps : environment.host.KeepsParents)
  (effects : before.Effects environment mayEnter after)
  (isNested : before.Nested environment.embeddings)

include keeps effects isNested

theorem nested : after.Nested environment.embeddings := by
  induction effects with
  | refl => exact isNested
  | tail _ effect induction => exact effect.nested keeps induction

theorem chain : before.Chain Policy.parents environment.embeddings after := by
  induction effects with
  | refl => exact .refl
  | tail earlier effect induction =>
      exact induction.trans (.single (effect.step keeps (Effects.nested keeps earlier isNested)))

theorem toExtends : before.Extends after := (chain keeps effects isNested).toExtends isNested.valid

theorem keepsParents : before.store.KeepsParents after.store :=
  ((chain keeps effects isNested).becomes (Policy.lawful_parents keeps)
    ⟨isNested.valid, trivial, fun _ _ _ => trivial⟩).2

theorem live {id : BlockRef} (live : before.Live id) : after.Live id :=
  live.mono isNested (toExtends keeps effects isNested) (keepsParents keeps effects isNested)

end Effects

/-- A scope is the own one of a block, which is no placeholder body that must not be entered. -/
structure Owns (mayEnter : BlockRef → Prop) (session : Session η) (scope : ScopeRef)
    (id : BlockRef) : Prop where
  live : session.Live id
  owns : (session.block id).role.ownsScope = true
  isScope : (session.block id).scope = scope
  may : (session.block id).role = .placeholder → mayEnter id

/-- A scope is the one that the nodes of a block run in. -/
structure Holds (session : Session η) (scope : ScopeRef) (id : BlockRef) (nodes : List Node) :
    Prop where
  live : session.Live id
  isScope : (session.block id).scope = scope
  parsed : (session.block id).nodes? = some nodes

section

variable {scope : ScopeRef} {id : BlockRef} {nodes : List Node}
  (keeps : environment.host.KeepsParents) (effects : before.Effects environment mayEnter after)
  (nested : before.Nested environment.embeddings)

include keeps effects nested

theorem Owns.mono (owns : Owns mayEnter before scope id) : Owns mayEnter after scope id := by
  have ext := effects.toExtends keeps nested
  have present := owns.live.lt nested
  refine ⟨effects.live keeps nested owns.live, ?_, ?_, ?_⟩
  · rw [ext.role present]
    exact owns.owns
  · rw [ext.scope present]
    exact owns.isScope
  · rw [ext.role present]
    exact owns.may

theorem Holds.mono (holds : before.Holds scope id nodes) : after.Holds scope id nodes := by
  have ext := effects.toExtends keeps nested
  refine ⟨effects.live keeps nested holds.live, ?_, ext.nodes? holds.parsed⟩
  rw [ext.scope (holds.live.lt nested)]
  exact holds.isScope

end

end Session

end Stencil
