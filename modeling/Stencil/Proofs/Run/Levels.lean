import Stencil.Proofs.Run.Lockstep

/-!
# Levels of nesting

Placeholder bodies and embedded texts run inside each other on a bounded number of levels.  A run
that hands the blocks below its last level to something else never gets there, and every run ends on
the level where it began.
-/

namespace Stencil

open Text

variable {η α β : Type}

namespace Run

/-- A piece of a run that stays on its level and never runs out of fuel. -/
structure Plain (run : Run η α) : Prop where
  depth : ∀ session, (run.run.run session).2.depth = session.depth
  ends : ∀ session, (run.run.run session).1 ≠ .error .outOfFuel

namespace Plain

theorem pure (answer : α) : Plain (Pure.pure answer : Run η α) := ⟨fun _ => rfl, fun _ => nofun⟩

theorem fail (error : TemplateError) : Plain (Run.fail error : Run η α) :=
  ⟨fun _ => rfl, fun _ => nofun⟩

theorem get : Plain (MonadState.get : Run η (Session η)) := ⟨fun _ => rfl, fun _ => nofun⟩

theorem update {change : Session η → Session η}
    (keeps : ∀ session, (change session).depth = session.depth) : Plain (modify change) :=
  ⟨keeps, fun _ => nofun⟩

theorem bind {first : Run η α} {next : α → Run η β} (here : Plain first)
    (later : ∀ answer, Plain (next answer)) : Plain (first >>= next) := by
  have split (session : Session η) : (first >>= next).run.run session =
      (ExceptT.bindCont next (first.run.run session).1).run (first.run.run session).2 := rfl
  constructor
  · intro session
    rw [split, ← here.depth session]
    cases (first.run.run session).1 with
    | error stop => rfl
    | ok answer => exact (later answer).depth _
  · intro session
    rw [split]
    have ends := here.ends session
    cases outcome : (first.run.run session).1 with
    | error stop =>
        rw [outcome] at ends
        exact fun same => ends (congrArg Except.error (Except.error.inj same))
    | ok answer => exact (later answer).ends _

theorem onStore (evaluator : Evaluator η α) : Plain (Run.onStore evaluator) := by
  refine ⟨fun _ => rfl, fun session => ?_⟩
  change (evaluator.run.run session.store).1.mapError Stop.failed ≠ _
  cases (evaluator.run.run session.store).1 with
  | error error => exact nofun
  | ok answer => exact nofun

theorem clear (scope : ScopeRef) : Plain (Run.clear scope : Run η Unit) := update fun _ => rfl

theorem bindName (scope : ScopeRef) (name : String) (value : Value) :
    Plain (Run.bindName scope name value : Run η Unit) := update fun _ => rfl

theorem wasLeft (enclosingLoop : Option BlockRef) :
    Plain (Run.wasLeft enclosingLoop : Run η Bool) :=
  get.bind fun _ => pure _

theorem seek (id : SourceRef) (offset : Nat) : Plain (Run.seek id offset : Run η Unit) := by
  have ran (session : Session η) : (Run.seek id offset).run.run session =
      if (Source.seek offset (session.source id)).1 then
        (.ok (), session.setSource id (Source.seek offset (session.source id)).2)
      else (.error (.failed (.parse (.cannotSeek offset)
        (Source.position (Source.seek offset (session.source id)).2))), session) := by
    change (if (Source.seek offset (session.source id)).1 then _ else _ : Run η Unit).run.run _ = _
    split <;> rfl
  constructor
  · intro session
    rw [ran]
    split <;> rfl
  · intro session
    rw [ran]
    split <;> exact nofun

theorem nodesOf (environment : Environment η) (id : BlockRef) :
    Plain (Run.nodesOf environment id) := by
  refine get.bind fun session => ?_
  dsimp only
  split
  · exact pure _
  · exact (seek _ _).bind fun _ => ⟨fun _ => rfl, fun _ => nofun⟩

theorem openBlock (environment : Environment η) (id : BlockRef) :
    Plain (Run.openBlock environment id) :=
  (nodesOf environment id).bind fun _ => get.bind fun _ => (seek _ _).bind fun _ => pure _

theorem declare (scope : ScopeRef) (name : String) (value : Value) :
    Plain (Run.declare scope name value : Run η Unit) := by
  refine (onStore _).bind fun declared => ?_
  split
  · exact pure _
  · exact get.bind fun _ => fail _

theorem assign (scope : ScopeRef) (name : String) (value : Value) :
    Plain (Run.assign scope name value : Run η Unit) := by
  refine (onStore _).bind fun assigned => ?_
  split
  · exact pure _
  · exact fail _

/-- A piece that stays on a level is in lockstep with itself there. -/
theorem lockstep {run : Run η α} (plain : Plain run) {pairing : Run.Pairing η} {level : Nat}
    (refl : ∀ session stop, pairing.stops session stop stop)
    (related : ∀ before before', pairing.related before before' ↔
      before' = before ∧ before.depth = level) :
    Lockstep pairing run run Eq := by
  intro before before' same
  obtain ⟨rfl, depth⟩ := (related _ _).mp same
  refine .inr ⟨(related _ _).mpr ⟨rfl, (plain.depth _).trans depth⟩, ?_⟩
  cases (run.run.run before').1 with
  | error stop => exact .error (refl _ stop)
  | ok answer => exact .ok rfl

end Plain

/-- Runs a block with so many levels below it, and hands the blocks below the last one to something
else. -/
def blockWithin (environment : Environment η) (escape : BlockRef → Run η Unit) :
    Nat → Nat → BlockRef → Run η Unit
  | 0, _, _ => throw .outOfFuel
  | fuel + 1, levels, id =>
      blockBy environment (fun scope next =>
        if next.nests then
          match levels with
          | 0 => node environment escape fuel scope next
          | levels + 1 => node environment
              (blockWithin environment escape fuel levels) fuel scope next
        else node environment (blockWithin environment escape fuel levels) fuel scope next) id

/-- The pairing of each session on a level with itself. -/
def onLevel (level : Nat) : Run.Pairing η where
  related before before' := before' = before ∧ before.depth = level
  stops _ := Eq
  excused _ := False

theorem lawful_onLevel (level : Nat) (host : Host η) :
    (onLevel level : Run.Pairing η).Lawful host where
  plain _ _ _ := rfl
  stops _ _ _ _ _ same := same
  store := by rintro _ _ ⟨rfl, -⟩; rfl
  placeholders := by rintro _ _ ⟨rfl, -⟩; rfl
  scope := by rintro _ _ ⟨rfl, -⟩ _; rfl
  wasLeft := by rintro _ _ ⟨rfl, -⟩ _; rfl
  withStore := by rintro _ _ ⟨rfl, depth⟩ _; exact ⟨rfl, depth⟩
  write := by rintro _ _ ⟨rfl, depth⟩ _; exact ⟨rfl, depth⟩
  mark := by rintro _ _ ⟨rfl, depth⟩ _ _; exact ⟨rfl, depth⟩
  bodies _ _ _ _ _ _ := trivial

theorem admits_onLevel (level : Nat) (node : Node) :
    (onLevel level : Run.Pairing η).Admits node where
  runs _ _ _ _ _ := trivial
  defines := by rintro _ _ _ - _ _ ⟨rfl, depth⟩; exact ⟨rfl, depth⟩
  fails _ _ _ _ _ := rfl

/-- Blocks in lockstep one level deeper are in lockstep when they are entered, if the limit allows
that at all. -/
theorem Lockstep.nested_onLevel {runBlock runBlock' : BlockRef → Run η Unit} {level : Nat}
    (host : Host η) (what : Nested) (id : BlockRef)
    (block : level < nestingLimit →
      Lockstep (onLevel (level + 1)) (runBlock id) (runBlock' id) fun _ _ => True) :
    Lockstep (onLevel level) (Run.nested runBlock what id) (Run.nested runBlock' what id)
      fun _ _ => True := by
  rintro _ before ⟨rfl, rfl⟩
  refine Lockstep.nested (lawful_onLevel _ host) (onLevel (before.depth + 1)).related what id
    ⟨rfl, rfl⟩ .inl (fun below => ⟨below, block below _ _ ⟨rfl, rfl⟩⟩) ?_
  · rintro after _ ⟨rfl, depth⟩
    exact ⟨rfl, congrArg (· - 1) depth⟩

/-- A run with enough levels below it does what the run without such a bound does. -/
theorem lockstep_blockWithin (environment : Environment η) (escape : BlockRef → Run η Unit)
    (fuel : Nat) {levels level : Nat} (enough : nestingLimit ≤ level + levels) (id : BlockRef) :
    Lockstep (onLevel level) (block environment fuel id)
      (blockWithin environment escape fuel levels id) fun _ _ => True := by
  induction fuel generalizing levels level id with
  | zero => exact .stop fun _ _ _ => rfl
  | succ fuel induction =>
      have lawful : (onLevel level : Run.Pairing η).Lawful environment.host :=
        lawful_onLevel level _
      rw [block, blockWith_eq, blockWithin]
      unfold blockBy
      refine ((Plain.openBlock environment id).lockstep (fun _ _ => rfl) fun _ _ => .rfl).bind ?_
      rintro ⟨opened, parsed⟩ _ rfl
      refine (Lockstep.nodes lawful _ (List.forall₂_same.mpr fun next _ => ?_)).bind fun _ _ _ => ?_
      · dsimp only
        cases nests : next.nests with
        | false =>
            rw [if_neg Bool.false_ne_true]
            exact .node_of_not_nests lawful
              (fun id before before' related _ => induction enough id before before' related)
              (.inl rfl) _ (admits_onLevel level next) nests
        | true =>
            rw [if_pos rfl]
            cases levels with
            | zero =>
                refine .node_of_nests lawful (fun what id before before' related _ => ?_) _
                  (admits_onLevel level next) nests
                exact Lockstep.nested_onLevel environment.host what id
                  (fun below => absurd enough (Nat.not_le.mpr below)) before before' related
            | succ levels =>
                refine .node_of_nests lawful (fun what id before before' related _ => ?_) _
                  (admits_onLevel level next) nests
                exact Lockstep.nested_onLevel environment.host what id
                  (fun _ => induction (by omega) id) before before' related
      · exact ((Plain.seek _ _).lockstep (fun _ _ => rfl) fun _ _ => .rfl).weaken fun _
          _ _ => trivial

/-- A run with enough levels below it does what the run without such a bound does, and ends on its
level. -/
theorem block_eq_blockWithin (environment : Environment η) (escape : BlockRef → Run η Unit)
    (fuel : Nat) {levels : Nat} {session : Session η}
    (enough : nestingLimit ≤ session.depth + levels)
    (id : BlockRef) :
    (block environment fuel id).run.run session =
        (blockWithin environment escape fuel levels id).run.run session ∧
      ((block environment fuel id).run.run session).2.depth = session.depth := by
  rcases lockstep_blockWithin environment escape fuel enough id session session ⟨rfl, rfl⟩ with
    ⟨_, _, never⟩ | ⟨⟨after, depth⟩, alike⟩
  · cases never
  · exact ⟨Prod.ext alike.eq after.symm, depth⟩

/-- A nested execution ends on the level where it began. -/
theorem depth_nested (environment : Environment η) (fuel : Nat) (what : Nested) (id : BlockRef)
    (session : Session η) :
    ((nested (block environment fuel) what id).run.run session).2.depth = session.depth := by
  have stays : Lockstep (onLevel session.depth) (nested (block environment fuel) what id) _ _ :=
    .nested_onLevel environment.host what id fun _ =>
      lockstep_blockWithin environment (fun _ => throw .outOfFuel) fuel
      (Nat.le_add_left nestingLimit _) id
  rcases stays session session ⟨rfl, rfl⟩ with ⟨_, _, never⟩ | ⟨⟨-, depth⟩, -⟩
  · cases never
  · exact depth

end Run

end Stencil
