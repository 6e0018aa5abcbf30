import Stencil.Proofs.Run.Does

/-!
# Runs through live blocks

A run that begins in a live block comes to live blocks only, whatever it runs and enters.
-/

namespace Stencil

variable {η : Type} {environment : Environment η} {enters : BlockRef → Prop}
  {runs : BlockRef → Node → Prop} {session after : Session η}

/-- The rules by which a run of nested scopes may come to all live blocks. -/
def Run.Rules.live (environment : Environment η) (enters : BlockRef → Prop)
    (runs : BlockRef → Node → Prop) : Run.Rules η where
  holds session := session.Nested environment.embeddings
  comes := Session.Live
  enters := enters
  runs := runs

namespace Session

theorem Deed.effect_live (nested : session.Nested environment.embeddings)
    (deed : session.Deed environment (.live environment enters runs) after) :
    session.Effect environment enters after :=
  deed.effect nested fun _ live => live

theorem Holds.runsIn {scope : ScopeRef} {id : BlockRef} {nodes : List Node}
    (holds : session.Holds scope id nodes) :
    (Run.Rules.live environment enters runs).RunsIn session scope id nodes :=
  ⟨holds.live, holds.isScope, holds.parsed⟩

end Session

namespace Run

theorem Rules.lawful_live (keeps : environment.host.KeepsParents) :
    (Rules.live environment enters runs).Lawful environment where
  keeps := keeps
  nested _ nested := nested
  live _ _ _ live := live
  holds _ _ nested deed := (deed.effect_live nested).nested keeps nested
  stays _ _ _ nested deed live :=
    (Session.Effects.single (deed.effect_live nested)).live keeps nested live
  inner _ _ _ _ live parsed _ member _ _ _ refers := live.inner parsed member refers
  placeholder _ key placeholder nested found := nested.placeholders key placeholder found

/-- Runs a block, and stops as soon as one certain block is about to run. -/
def sparing (environment : Environment η) (spared : BlockRef) : Nat → BlockRef → Run η Unit
  | 0, _ => throw .outOfFuel
  | fuel + 1, id =>
      if id = spared then throw .outOfFuel
      else blockWith environment (sparing environment spared fuel) fuel id

/-- A run that spares a block enters none but other bodies. -/
theorem performs_sparing (keeps : environment.host.KeepsParents) (spared : BlockRef) (fuel : Nat) :
    Run.Performs environment (.live environment (· ≠ spared) fun _ _ => True)
      (Run.sparing environment spared fuel) := by
  have may (fuel : Nat) (session : Session η) (id : BlockRef) (answer : Unit)
      (ran : ((Run.sparing environment spared fuel id).run.run session).1 = .ok answer) :
      id ≠ spared := by
    rintro rfl
    cases fuel with
    | zero => cases ran
    | succ fuel =>
        rw [sparing, if_pos rfl] at ran
        cases ran
  refine ⟨fun session id live => ?_, may fuel⟩
  induction fuel generalizing session id with
  | zero => exact .stop
  | succ fuel induction =>
      unfold sparing
      split
      · exact .stop
      · exact does_blockWith (Rules.lawful_live keeps) ⟨induction, may fuel⟩ (fun _ _ => trivial)
          live fuel

end Run

/-- The body of a loop or a branch owns its scope. -/
theorem Session.owns_of_refers {scope : ScopeRef} {id body : BlockRef} {nodes : List Node}
    {node : Node} {role : BlockRole} (keeps : environment.host.KeepsParents)
    (nested : session.Nested environment.embeddings) (holds : session.Holds scope id nodes)
    (member : node ∈ nodes) (refers : node.Refers role body) (owns : role.ownsScope = true)
    (other : role ≠ .placeholder) :
        Session.Owns enters session (session.block body).scope body := by
  have runsIn : (Run.Rules.live environment enters fun _ _ => True).RunsIn session scope id nodes :=
    holds.runsIn
  obtain ⟨live, isOwn, isScope, may⟩ :=
    Run.Rules.owns_of_refers (Run.Rules.lawful_live keeps) nested
    runsIn member trivial refers owns other
  exact ⟨live, isOwn, isScope, may⟩

end Stencil
