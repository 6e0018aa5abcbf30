/-!
# Computations that follow each other

A computation follows another one when, from related states, it gives the answers of the other one,
changed in a fixed way, and leads to related states again.
-/

namespace Stencil

variable {σ τ ε α β γ δ : Type} {related : σ → τ → Prop}

/-- From related states `right` answers what `left` answers, changed, and both lead to related
states. -/
def Follows (related : σ → τ → Prop) (change : α → β) (left : StateM σ α) (right : StateM τ β) :
    Prop :=
  ∀ state other, related state other →
    change (left.run state).1 = (right.run other).1 ∧
      related (left.run state).2 (right.run other).2

namespace Follows

theorem pure (change : α → β) (answer : α) :
    Follows related change (Pure.pure answer : StateM σ α) (Pure.pure (change answer)) :=
  fun _ _ stands => ⟨rfl, stands⟩

theorem bind {change : α → γ} {changeNext : β → δ} {first : StateM σ α} {firstRight : StateM τ γ}
    {next : α → StateM σ β} {nextRight : γ → StateM τ δ}
    (here : Follows related change first firstRight)
    (later : ∀ answer, Follows related changeNext (next answer) (nextRight (change answer))) :
    Follows related changeNext (first >>= next) (firstRight >>= nextRight) := by
  intro state other stands
  obtain ⟨answers, standsAfter⟩ := here state other stands
  have rest := later (first.run state).1 (first.run state).2 (firstRight.run other).2 standsAfter
  rw [answers] at rest
  exact rest

theorem andThen {change : α → γ} {changeNext : β → δ} {first : StateM σ α}
    {firstRight : StateM τ γ} {second : StateM σ β} {secondRight : StateM τ δ}
    (here : Follows related change first firstRight)
    (later : Follows related changeNext second secondRight) :
    Follows related changeNext (do let _ ← first; second) (do let _ ← firstRight; secondRight) :=
  here.bind fun _ => later

/-- The tests of the two may be different as long as both hold or both fail. -/
theorem ite {change : α → β} {condition conditionRight : Prop} [Decidable condition]
    [Decidable conditionRight] {yes no : StateM σ α} {yesRight noRight : StateM τ β}
    (same : condition ↔ conditionRight) (holds : Follows related change yes yesRight)
    (fails : Follows related change no noRight) :
    Follows related change (if condition then yes else no)
      (if conditionRight then yesRight else noRight) := by
  by_cases isTrue : condition
  · rw [if_pos isTrue, if_pos (same.mp isTrue)]
    exact holds
  · rw [if_neg isTrue, if_neg fun isTrueRight => isTrue (same.mpr isTrueRight)]
    exact fails

/-- It is enough that for all related states some pair of computations does there what the two
do. -/
theorem of_state {change : α → β} {left : StateM σ α} {right : StateM τ β}
    (choice : ∀ state other, related state other → ∃ chosen chosenRight,
      Follows related change chosen chosenRight ∧ left.run state = chosen.run state ∧
        right.run other = chosenRight.run other) :
    Follows related change left right := by
  intro state other stands
  obtain ⟨chosen, chosenRight, follows, same, sameRight⟩ := choice state other stands
  rw [same, sameRight]
  exact follows state other stands

end Follows

/-- A computation that may fail follows another one, also where that one fails: its errors are those
of the other one, changed, and are among the expected ones. -/
def FollowsOrFails (related : σ → τ → Prop) (raises : ε → Prop) (blame : ε → ε) (change : α → β)
    (left : ExceptT ε (StateM σ) α) (right : ExceptT ε (StateM τ) β) : Prop :=
  Follows related (fun outcome => (outcome.mapError blame).map change) left.run right.run ∧
    ∀ state other, related state other → ∀ error, (left.run.run state).1 = .error error →
      raises error

namespace FollowsOrFails

variable {raises : ε → Prop} {blame : ε → ε}

theorem pure (change : α → β) (answer : α) :
    FollowsOrFails related raises blame change (Pure.pure answer : ExceptT ε (StateM σ) α)
      (Pure.pure (change answer)) :=
  ⟨Follows.pure _ (Except.ok answer), fun _ _ _ _ same => nomatch same⟩

theorem throw {change : α → β} (error : ε) (expected : raises error) :
    FollowsOrFails related raises blame change
      (MonadExcept.throw error : ExceptT ε (StateM σ) α) (MonadExcept.throw (blame error)) := by
  refine ⟨Follows.pure _ (Except.error error), fun state _ _ raised same => ?_⟩
  cases same
  exact expected

theorem bind {change : α → γ} {changeNext : β → δ} {first : ExceptT ε (StateM σ) α}
    {firstRight : ExceptT ε (StateM τ) γ} {next : α → ExceptT ε (StateM σ) β}
    {nextRight : γ → ExceptT ε (StateM τ) δ}
    (here : FollowsOrFails related raises blame change first firstRight)
    (later : ∀ answer, FollowsOrFails related raises blame changeNext (next answer)
      (nextRight (change answer))) :
    FollowsOrFails related raises blame changeNext (first >>= next) (firstRight >>= nextRight) := by
  constructor
  · change Follows related _ (first.run >>= ExceptT.bindCont next)
      (firstRight.run >>= ExceptT.bindCont nextRight)
    refine Follows.bind here.1 fun outcome => ?_
    cases outcome with
    | error error => exact Follows.pure _ (Except.error error)
    | ok answer => exact (later answer).1
  · intro state other stands error failed
    obtain ⟨-, standsAfter⟩ := here.1 state other stands
    have split : ((first >>= next).run.run state) =
        (ExceptT.bindCont next (first.run.run state).1).run (first.run.run state).2 := rfl
    rw [split] at failed
    cases outcome : (first.run.run state).1 with
    | error earlier =>
        rw [outcome] at failed
        cases failed
        exact here.2 state other stands error outcome
    | ok answer =>
        rw [outcome] at failed
        exact (later answer).2 _ _ standsAfter error failed

theorem ite {change : α → β} {condition conditionRight : Prop} [Decidable condition]
    [Decidable conditionRight] {yes no : ExceptT ε (StateM σ) α}
    {yesRight noRight : ExceptT ε (StateM τ) β} (same : condition ↔ conditionRight)
    (holds : FollowsOrFails related raises blame change yes yesRight)
    (fails : FollowsOrFails related raises blame change no noRight) :
    FollowsOrFails related raises blame change (if condition then yes else no)
      (if conditionRight then yesRight else noRight) := by
  by_cases isTrue : condition
  · rw [if_pos isTrue, if_pos (same.mp isTrue)]
    exact holds
  · rw [if_neg isTrue, if_neg fun isTrueRight => isTrue (same.mpr isTrueRight)]
    exact fails

theorem lift {change : α → β} {run : StateM σ α} {runRight : StateM τ β}
    (inner : Follows related change run runRight) :
    FollowsOrFails related raises blame change (ExceptT.lift run : ExceptT ε (StateM σ) α)
      (ExceptT.lift runRight) :=
  ⟨fun state other stands => ⟨congrArg Except.ok (inner state other stands).1,
    (inner state other stands).2⟩, fun _ _ _ _ same => nomatch same⟩

theorem of_state {change : α → β} {left : ExceptT ε (StateM σ) α}
    {right : ExceptT ε (StateM τ) β}
    (choice : ∀ state other, related state other → ∃ chosen chosenRight,
      FollowsOrFails related raises blame change chosen chosenRight ∧
        left.run.run state = chosen.run.run state ∧
        right.run.run other = chosenRight.run.run other) :
    FollowsOrFails related raises blame change left right := by
  constructor
  · refine Follows.of_state fun state other stands => ?_
    obtain ⟨chosen, chosenRight, follows, same, sameRight⟩ := choice state other stands
    exact ⟨chosen.run, chosenRight.run, follows.1, same, sameRight⟩
  · intro state other stands error failed
    obtain ⟨chosen, chosenRight, follows, same, -⟩ := choice state other stands
    rw [same] at failed
    exact follows.2 state other stands error failed

end FollowsOrFails

end Stencil
