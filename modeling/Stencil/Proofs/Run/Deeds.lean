import Stencil.Proofs.Run.Effects

/-!
# Runs that are held to rules

Rules say which blocks a run may come to, which placeholder bodies it may enter and which nodes it
may run.  `Session.Deed` lists what such a run does to a session, each time with the block and the
node that do it.
-/

namespace Stencil

open Text

variable {η : Type}

/-- What a run is held to, as long as something holds of its sessions. -/
structure Run.Rules (η : Type) where
  holds : Session η → Prop
  comes : Session η → BlockRef → Prop
  enters : BlockRef → Prop
  runs : BlockRef → Node → Prop

/-- What a run that is held to rules does to a session. -/
inductive Session.Deed (environment : Environment η) (rules : Run.Rules η) (session : Session η) :
    Session η → Prop where
  | write (text : String) :
      Deed environment rules session { session with writes := session.writes.push text }
  | depth (depth : Nat) : Deed environment rules session { session with depth }
  | mark (target : BlockRef) (left : Bool) :
      Deed environment rules session (session.modifyBlock target ({ · with wasLeft := left }))
  | seek (id : SourceRef) (offset : Nat)
      (found : (Source.seek offset (session.source id)).1 = true) :
      Deed environment rules session
        (session.setSource id (Source.seek offset (session.source id)).2)
  | parse (id : BlockRef) (comes : rules.comes session id)
      (unparsed : (session.block id).nodes? = none)
      (atStart : Source.pointer (session.source (session.block id).source) =
        (session.block id).start) :
      Deed environment rules session (session.parseBlock environment.embeddings id).2
  | define (id : BlockRef) (nodes : List Node) (key : Placeholder.Key)
      (parameter : Option String) (body : BlockRef) (comes : rules.comes session id)
      (parsed : (session.block id).nodes? = some nodes)
      (member : .definePlaceholder key parameter body ∈ nodes)
      (runs : rules.runs id (.definePlaceholder key parameter body)) :
      Deed environment rules session
        { session with placeholders := session.placeholders.put key ⟨body, parameter⟩ }
  | evaluate (store : Store η) (changes : Store.Changes environment.host session.store store) :
      Deed environment rules session { session with store }
  | clear (id : BlockRef) (comes : rules.comes session id)
      (owns : (session.block id).role.ownsScope = true)
      (may : (session.block id).role = .placeholder → rules.enters id) :
      Deed environment rules session (session.modifyHeap (·.clear (session.block id).scope))
  | bind (id : BlockRef) (name : String) (value : Value) (comes : rules.comes session id)
      (owns : (session.block id).role.ownsScope = true)
      (may : (session.block id).role = .placeholder → rules.enters id) :
      Deed environment rules session
        (session.modifyHeap (·.put (session.block id).scope name value))
  | declare (id : BlockRef) (nodes : List Node) (name : String) (expression : Expression)
      (constant : Bool) (value : Value) (comes : rules.comes session id)
      (parsed : (session.block id).nodes? = some nodes)
      (member : .declare name expression constant ∈ nodes)
      (runs : rules.runs id (.declare name expression constant)) :
      Deed environment rules session
        (session.modifyHeap fun heap => (heap.insert (session.block id).scope name value).2)
  | assign (id : BlockRef) (nodes : List Node) (name : String) (expression : Expression)
      (value : Value) (comes : rules.comes session id)
      (parsed : (session.block id).nodes? = some nodes) (member : .assign name expression ∈ nodes)
      (runs : rules.runs id (.assign name expression)) :
      Deed environment rules session
        (session.modifyHeap fun heap => (heap.assign (session.block id).scope name value).2)

/-- Any number of deeds. -/
def Session.Deeds (environment : Environment η) (rules : Run.Rules η) :
    Session η → Session η → Prop :=
  Relation.ReflTransGen (Session.Deed environment rules)

namespace Run.Rules

/-- Rules that every run can be held to: what holds stays so whatever the rules allow, and a block
is come to through a node that runs or as the body of a placeholder. -/
structure Lawful (rules : Rules η) (environment : Environment η) : Prop where
  keeps : environment.host.KeepsParents
  nested : ∀ session, rules.holds session → session.Nested environment.embeddings
  live : ∀ session id, rules.holds session → rules.comes session id → session.Live id
  holds : ∀ session after, rules.holds session → session.Deed environment rules after →
    rules.holds after
  stays : ∀ session after id, rules.holds session → session.Deed environment rules after →
    rules.comes session id → rules.comes after id
  inner : ∀ session id nodes, rules.holds session → rules.comes session id →
    (session.block id).nodes? = some nodes → ∀ node ∈ nodes, rules.runs id node →
    ∀ role child, node.Refers role child → rules.comes session child
  placeholder : ∀ session key placeholder, rules.holds session →
    session.placeholders.get? key = some placeholder → rules.comes session placeholder.body

variable {environment : Environment η} {rules : Rules η} {session before middle after : Session η}
  {id : BlockRef}

/-- A scope is the own one of a block that a run comes to, which is no placeholder body that must
not be entered. -/
structure Owns (rules : Rules η) (session : Session η) (scope : ScopeRef) (id : BlockRef) :
    Prop where
  comes : rules.comes session id
  owns : (session.block id).role.ownsScope = true
  isScope : (session.block id).scope = scope
  may : (session.block id).role = .placeholder → rules.enters id

/-- A scope is the one that the nodes of a block run in. -/
structure RunsIn (rules : Rules η) (session : Session η) (scope : ScopeRef) (id : BlockRef)
    (nodes : List Node) : Prop where
  comes : rules.comes session id
  isScope : (session.block id).scope = scope
  parsed : (session.block id).nodes? = some nodes

end Run.Rules

namespace Session

variable {environment : Environment η} {rules : Run.Rules η}
  {session before middle after : Session η} {id : BlockRef}

/-- What the rules allow is an effect, since the blocks that they let a run come to are live. -/
theorem Deed.effect (nested : session.Nested environment.embeddings)
    (live : ∀ id, rules.comes session id → session.Live id)
    (deed : session.Deed environment rules after) :
    session.Effect environment rules.enters after := by
  cases deed with
  | write text => exact .write text
  | depth depth => exact .depth depth
  | mark target left => exact .mark target left
  | seek id offset found => exact .seek id offset found
  | parse id comes unparsed atStart =>
      exact .parse id ((live id comes).lt nested) unparsed atStart
  | define id nodes key parameter body comes parsed member _ =>
      exact .define id nodes key parameter body (live id comes) parsed member
  | evaluate store changes => exact .evaluate store changes
  | clear id comes owns may => exact .clear id (live id comes) owns may
  | bind id name value comes owns may => exact .bind id name value (live id comes) owns may
  | declare id nodes name expression constant value comes parsed member _ =>
      exact .declare id nodes name expression constant value (live id comes) parsed member
  | assign id nodes name expression value comes parsed member _ =>
      exact .assign id nodes name expression value (live id comes) parsed member

namespace Deeds

theorem refl : session.Deeds environment rules session := Relation.ReflTransGen.refl

theorem trans (first : before.Deeds environment rules middle)
    (second : middle.Deeds environment rules after) : before.Deeds environment rules after :=
  Relation.ReflTransGen.trans first second

theorem single (deed : before.Deed environment rules after) :
    before.Deeds environment rules after :=
  Relation.ReflTransGen.single deed

variable (lawful : rules.Lawful environment) (deeds : before.Deeds environment rules after)
  (begun : rules.holds before)

include lawful deeds begun

theorem holds : rules.holds after := by
  induction deeds with
  | refl => exact begun
  | tail _ deed induction => exact lawful.holds _ _ induction deed

theorem effects : before.Effects environment rules.enters after := by
  induction deeds with
  | refl => exact .refl
  | tail earlier deed induction =>
      have holds := Deeds.holds lawful earlier begun
      have effect := deed.effect (lawful.nested _ holds) fun id => lawful.live _ id holds
      exact induction.trans (.single effect)

theorem toExtends : before.Extends after :=
  (effects lawful deeds begun).toExtends lawful.keeps (lawful.nested before begun)

theorem comes (comes : rules.comes before id) : rules.comes after id := by
  induction deeds with
  | refl => exact comes
  | tail earlier deed induction =>
      exact lawful.stays _ _ id (Deeds.holds lawful earlier begun) deed induction

end Deeds

end Session

namespace Run.Rules

variable {environment : Environment η} {rules : Rules η} {before after session : Session η}
  {scope : ScopeRef} {id : BlockRef} {nodes : List Node}

theorem Lawful.lt (lawful : rules.Lawful environment) (holds : rules.holds session)
    (comes : rules.comes session id) : id.index < session.blocks.size :=
  (lawful.live session id holds comes).lt (lawful.nested session holds)

section

variable (lawful : rules.Lawful environment) (deeds : before.Deeds environment rules after)
  (holds : rules.holds before)

include lawful deeds holds

theorem Owns.mono (owns : rules.Owns before scope id) : rules.Owns after scope id := by
  have ext := deeds.toExtends lawful holds
  have present := lawful.lt holds owns.comes
  refine ⟨deeds.comes lawful holds owns.comes, ?_, ?_, ?_⟩
  · rw [ext.role present]
    exact owns.owns
  · rw [ext.scope present]
    exact owns.isScope
  · rw [ext.role present]
    exact owns.may

theorem RunsIn.mono (runsIn : rules.RunsIn before scope id nodes) :
    rules.RunsIn after scope id nodes := by
  have ext := deeds.toExtends lawful holds
  refine ⟨deeds.comes lawful holds runsIn.comes, ?_, ext.nodes? runsIn.parsed⟩
  rw [ext.scope (lawful.lt holds runsIn.comes)]
  exact runsIn.isScope

end

/-- The body of a loop or a branch owns its scope. -/
theorem owns_of_refers {body : BlockRef} {role : BlockRole} {node : Node}
    (lawful : rules.Lawful environment) (holds : rules.holds session)
    (runsIn : rules.RunsIn session scope id nodes) (member : node ∈ nodes)
    (runs : rules.runs id node) (refers : node.Refers role body) (owns : role.ownsScope = true)
    (other : role ≠ .placeholder) :
    rules.Owns session (session.block body).scope body := by
  have placed := (lawful.nested session holds).placed id nodes runsIn.parsed node member role body
    refers
  refine ⟨?_, ?_, rfl, fun isPlaceholder => ?_⟩
  · exact lawful.inner session id nodes holds runsIn.comes runsIn.parsed node member runs role body
      refers
  · rw [placed.isRole]
    exact owns
  · exact absurd (placed.isRole.symm.trans isPlaceholder) other

end Run.Rules

end Stencil
