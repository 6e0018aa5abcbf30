import Stencil.Proofs.Run.Does

/-!
# Runs that may stop earlier

A run may stop, without an answer, where another one goes on.  If the blocks inside a piece of a run
only do so, then so does the piece.
-/

namespace Stencil

variable {η α β : Type}

/-- A run does what another one does, unless it stops without an answer. -/
def Run.Refines (careful plain : Run η α) : Prop :=
  ∀ session, careful.run.run session = plain.run.run session ∨
    (careful.run.run session).1 = .error .outOfFuel

namespace Run.Refines

section

variable {careful plain : Run η α}

theorem refl (run : Run η α) : run.Refines run := fun _ => .inl rfl

theorem stop (plain : Run η α) : Run.Refines (throw .outOfFuel) plain := fun _ => .inr rfl

theorem bind {first first' : Run η α} {next next' : α → Run η β} (here : first.Refines first')
    (later : ∀ answer, (next answer).Refines (next' answer)) :
    (first >>= next).Refines (first' >>= next') := by
  intro session
  have split (run : Run η α) (next : α → Run η β) : (run >>= next).run.run session =
      (ExceptT.bindCont next (run.run.run session).1).run (run.run.run session).2 := rfl
  rcases here session with same | stopped
  · rw [split, split, same]
    cases (first'.run.run session).1 with
    | error stop => exact .inl rfl
    | ok answer => exact later answer _
  · right
    rw [split, stopped]
    rfl

theorem andFinally (refines : careful.Refines plain) (after : Session η → Session η) :
    (Run.andFinally careful after).Refines (Run.andFinally plain after) := by
  intro session
  have ran (run : Run η α) : (Run.andFinally run after).run.run session =
      ((run.run.run session).1, after (run.run.run session).2) := rfl
  rw [ran, ran]
  rcases refines session with same | stopped
  · exact .inl (by rw [same])
  · exact .inr stopped

end

section

variable {environment : Environment η} {runBlock runBlock' : BlockRef → Run η Unit}
  (blocks : ∀ id, (runBlock id).Refines (runBlock' id))

include blocks

theorem nested (what : Nested) (id : BlockRef) :
    (Run.nested runBlock what id).Refines (Run.nested runBlock' what id) := by
  unfold Run.nested
  apply (refl _).bind
  intro session
  split
  · exact refl _
  · apply (refl _).bind
    exact fun _ => (blocks id).andFinally _

theorem runPlaceholder (key : Placeholder.Key) (argument : Option Value) :
    (Run.runPlaceholder runBlock key argument).Refines
      (Run.runPlaceholder runBlock' key argument) := by
  unfold Run.runPlaceholder
  apply (refl _).bind
  intro session
  cases session.placeholders.get? key with
  | none => exact refl _
  | some placeholder =>
      apply (refl _).bind
      intro _
      cases argument with
      | none => exact nested blocks _ _
      | some value => exact (refl _).bind fun _ => nested blocks _ _

theorem emit (value : Value) : (Run.emit runBlock value).Refines (Run.emit runBlock' value) := by
  unfold Run.emit
  cases value.string? with
  | some text => exact refl _
  | none =>
      apply (refl _).bind
      intro session
      split
      · exact runPlaceholder blocks _ _
      · exact refl _

theorem conditionalLoop (scope : ScopeRef) (body : BlockRef) (test : Condition)
    {fuel fuel' : Nat} (le : fuel ≤ fuel') :
    (Run.conditionalLoop environment runBlock scope body test fuel).Refines
      (Run.conditionalLoop environment runBlock' scope body test fuel') := by
  induction fuel generalizing fuel' with
  | zero => exact stop _
  | succ fuel induction =>
      obtain ⟨more, rfl⟩ : ∃ more, fuel' = more + 1 := Nat.exists_eq_add_one.mpr (by omega)
      unfold Run.conditionalLoop
      apply (refl _).bind
      intro left
      split
      · exact refl _
      · apply (refl _).bind
        intro holds
        split
        · exact (blocks body).bind fun _ => induction (by omega)
        · exact refl _

theorem numberedLoop (scope : ScopeRef) (body : BlockRef) (name : String) (comparison : Comparison)
    (bound : Int32) (operator : Operator) (step counter : Int32) {fuel fuel' : Nat}
    (le : fuel ≤ fuel') :
    (Run.numberedLoop runBlock scope body name comparison bound operator step fuel counter).Refines
      (Run.numberedLoop runBlock' scope body name comparison bound operator step fuel'
          counter) := by
  induction fuel generalizing fuel' counter with
  | zero => exact stop _
  | succ fuel induction =>
      obtain ⟨more, rfl⟩ : ∃ more, fuel' = more + 1 := Nat.exists_eq_add_one.mpr (by omega)
      unfold Run.numberedLoop
      apply (refl _).bind
      intro left
      split
      · exact refl _
      · apply (refl _).bind
        intro holds
        split
        · apply (refl _).bind
          intro _
          apply (blocks body).bind
          intro _
          apply (refl _).bind
          exact fun next => induction next (by omega)
        · exact refl _

theorem iterableLoop (scope : ScopeRef) (body : BlockRef) (element : String)
    (index : Option String) (list : ListRef) (places : List Nat) :
    (Run.iterableLoop runBlock scope body element index list places).Refines
      (Run.iterableLoop runBlock' scope body element index list places) := by
  induction places with
  | nil => exact refl _
  | cons place places induction =>
      unfold Run.iterableLoop
      apply (refl _).bind
      intro left
      split
      · exact refl _
      · apply (refl _).bind
        intro session
        split
        · exact refl _
        · apply (refl _).bind
          intro _
          cases index with
          | none => exact (blocks body).bind fun _ => induction
          | some name =>
              apply (refl _).bind
              exact fun _ => (blocks body).bind fun _ => induction

theorem passes (scope : ScopeRef) (body : BlockRef) (header : LoopHeader) {fuel fuel' : Nat}
    (le : fuel ≤ fuel') :
    (Run.passes environment runBlock fuel scope body header).Refines
      (Run.passes environment runBlock' fuel' scope body header) := by
  unfold Run.passes
  apply (refl _).bind
  intro session
  cases header with
  | conditional test => exact conditionalLoop blocks _ body test le
  | numbered name start comparison bound operator step =>
      apply (refl _).bind
      intro counter
      apply (refl _).bind
      intro bound
      apply (refl _).bind
      intro step
      exact numberedLoop blocks _ body name comparison bound operator step counter le
  | iterable element index iterable =>
      apply (refl _).bind
      intro value
      cases value with
      | list list =>
          apply (refl _).bind
          exact fun session => iterableLoop blocks _ body element index list _
      | primitive value => exact refl _
      | object object => exact refl _
      | function function => exact refl _

theorem loop (scope : ScopeRef) (header : LoopHeader) (body : BlockRef) {fuel fuel' : Nat}
    (le : fuel ≤ fuel') :
    (Run.loop environment runBlock fuel scope header body).Refines
      (Run.loop environment runBlock' fuel' scope header body) := by
  unfold Run.loop
  apply (refl _).bind
  intro _
  apply (refl _).bind
  exact fun session => (passes blocks scope body header le).andFinally _

theorem cleared (id : BlockRef) :
    (Run.cleared runBlock id).Refines (Run.cleared runBlock' id) := by
  unfold Run.cleared
  apply (refl _).bind
  intro session
  apply (refl _).bind
  exact fun _ => blocks id

theorem branches (scope : ScopeRef) (otherwise : Option BlockRef)
    (conditions : List (Condition × BlockRef)) :
    (Run.branches environment runBlock scope otherwise conditions).Refines
      (Run.branches environment runBlock' scope otherwise conditions) := by
  induction conditions with
  | nil =>
      unfold Run.branches
      cases otherwise with
      | none => exact refl _
      | some id => exact cleared blocks id
  | cons first conditions induction =>
      unfold Run.branches
      apply (refl _).bind
      intro holds
      split
      · exact cleared blocks first.2
      · exact induction

theorem node (scope : ScopeRef) (node : Node) {fuel fuel' : Nat} (le : fuel ≤ fuel') :
    (Run.node environment runBlock fuel scope node).Refines
      (Run.node environment runBlock' fuel' scope node) := by
  cases node with
  | read path =>
      apply (refl _).bind
      intro value
      split
      · exact refl _
      · exact emit blocks value
  | loop header body => exact loop blocks scope header body le
  | branches conditions otherwise => exact branches blocks scope otherwise conditions
  | usePlaceholder key argument =>
      apply (refl _).bind
      exact fun value => runPlaceholder blocks key value
  | embed block => exact nested blocks _ block
  | text content => exact refl _
  | declare name value constant => exact refl _
  | assign name value => exact refl _
  | leave target => exact refl _
  | definePlaceholder key parameter body => exact refl _
  | malformed error => exact refl _

omit blocks in
theorem nodes {runNode runNode' : Node → Run η Unit}
    (each : ∀ node, (runNode node).Refines (runNode' node)) (enclosingLoop : Option BlockRef)
    (list : List Node) :
    (Run.nodes runNode enclosingLoop list).Refines (Run.nodes runNode' enclosingLoop list) := by
  induction list with
  | nil => exact refl _
  | cons first rest induction =>
      unfold Run.nodes
      apply (refl _).bind
      intro left
      split
      · exact refl _
      · exact (each first).bind fun _ => induction

omit blocks in
theorem blockBy {runNode runNode' : ScopeRef → Node → Run η Unit}
    (each : ∀ scope node, (runNode scope node).Refines (runNode' scope node)) (id : BlockRef) :
    (Run.blockBy environment runNode id).Refines (Run.blockBy environment runNode' id) := by
  unfold Run.blockBy
  apply (refl _).bind
  intro opened
  exact (nodes (each opened.1.scope) _ opened.2).bind fun _ => refl _

theorem blockWith {fuel fuel' : Nat} (le : fuel ≤ fuel') (id : BlockRef) :
    (Run.blockWith environment runBlock fuel id).Refines
      (Run.blockWith environment runBlock' fuel' id) := by
  rw [Run.blockWith_eq, Run.blockWith_eq]
  exact blockBy (fun scope next => node blocks scope next le) id

end

/-- A run of certain nodes only does what the run of all does, unless it stops before another
node. -/
theorem blockOnly (environment : Environment η) (mayRun : BlockRef → Node → Bool) (fuel : Nat)
    (id : BlockRef) :
    (Run.blockOnly mayRun environment fuel id).Refines (Run.block environment fuel id) := by
  induction fuel generalizing id with
  | zero => exact stop _
  | succ fuel induction =>
      change (Run.blockBy environment _ id).Refines (Run.blockWith environment _ fuel id)
      rw [Run.blockWith_eq]
      apply blockBy
      intro scope next
      split
      · exact node induction scope next (Nat.le_refl fuel)
      · exact stop _

/-- More fuel makes no difference to a run that has enough. -/
theorem block (environment : Environment η) {fuel fuel' : Nat} (le : fuel ≤ fuel')
    (id : BlockRef) :
    (Run.block environment fuel id).Refines (Run.block environment fuel' id) := by
  induction fuel generalizing fuel' id with
  | zero => exact stop _
  | succ fuel induction =>
      obtain ⟨more, rfl⟩ : ∃ more, fuel' = more + 1 := Nat.exists_eq_add_one.mpr (by omega)
      exact blockWith (fun other => induction (by omega) other) (by omega) id

end Run.Refines

end Stencil
