import Stencil.Run

/-!
# Errors that no parsing causes

Only parsing can fail with an error that names a place of a source, and only going to an offset with
the error that there is no such place.  Only a call of a member can fail because the member is not
defined for its receiver.  Computing with values fails for other reasons.
-/

namespace Stencil

/-- Whether an error does not name a place of a source. -/
def TemplateError.OtherThanParse (error : TemplateError) : Prop :=
  ∀ problem position, error ≠ .parse problem position

/-- Whether an error does not complain about a place of a source. -/
def TemplateError.OtherThanSeek (error : TemplateError) : Prop :=
  ∀ offset position, error ≠ .parse (.cannotSeek offset) position

theorem TemplateError.OtherThanParse.otherThanSeek {error : TemplateError}
    (other : error.OtherThanParse) : error.OtherThanSeek :=
  fun _ position => other _ position

/-- Whether an error does not say that a member is not defined for a value. -/
def TemplateError.OtherThanUndefined (error : TemplateError) : Prop :=
  ∀ member kind, error ≠ .type (.memberUndefined member kind)

/-- An error that neither names a place of a source nor a member that is not defined. -/
structure TemplateError.Ordinary (error : TemplateError) : Prop where
  otherThanParse : error.OtherThanParse
  otherThanUndefined : error.OtherThanUndefined

/-- A computation that, if it fails, fails with an error of some sort. -/
def FailsOnly {α : Type} (sort : TemplateError → Prop) (outcome : Except TemplateError α) : Prop :=
  ∀ error, outcome = .error error → sort error

/-- A computation that, if it fails, fails for another reason than parsing. -/
def NeverParses {α : Type} (outcome : Except TemplateError α) : Prop :=
  ∀ error, outcome = .error error → error.OtherThanParse

open TemplateError (Ordinary)

namespace FailsOnly

variable {α β : Type} {sort wider : TemplateError → Prop}

theorem ok (answer : α) : FailsOnly sort (.ok answer) :=
  fun _ same => nomatch same

theorem error {problem : TemplateError} (fits : sort problem) :
    FailsOnly sort (.error problem : Except TemplateError α) := by
  rintro _ ⟨⟩
  exact fits

theorem mono {outcome : Except TemplateError α} (fails : FailsOnly sort outcome)
    (implies : ∀ error, sort error → wider error) : FailsOnly wider outcome :=
  fun problem same => implies problem (fails problem same)

theorem map {outcome : Except TemplateError α} (change : α → β) (fails : FailsOnly sort outcome) :
    FailsOnly sort (outcome.map change) := by
  cases outcome with
  | ok answer => exact ok _
  | error problem => exact error (fails problem rfl)

theorem bind {outcome : Except TemplateError α} {next : α → Except TemplateError β}
    (fails : FailsOnly sort outcome) (later : ∀ answer, FailsOnly sort (next answer)) :
    FailsOnly sort (outcome >>= next) := by
  cases outcome with
  | ok answer => exact later answer
  | error problem => exact error (fails problem rfl)

theorem ite {condition : Prop} [Decidable condition] {yes no : Except TemplateError α}
    (holds : FailsOnly sort yes) (otherwise : FailsOnly sort no) :
    FailsOnly sort (if condition then yes else no) := by
  split
  · exact holds
  · exact otherwise

theorem onWords {ω : Type} [Add ω] [Sub ω] [Mul ω] [Div ω] [Mod ω] [OfNat ω 0] [DecidableEq ω]
    (operator : Operator) (left right : ω) : FailsOnly Ordinary (operator.onWords left right) := by
  cases operator with
  | plus => exact ok _
  | minus => exact ok _
  | times => exact ok _
  | divide => exact ite (error ⟨nofun, nofun⟩) (ok _)
  | modulo => exact ite (error ⟨nofun, nofun⟩) (ok _)

theorem charOfCode (code : Int) : FailsOnly Ordinary (Stencil.charOfCode code) := by
  unfold Stencil.charOfCode
  split
  · exact ok _
  · exact error ⟨nofun, nofun⟩

theorem computeOnTexts (operator : Operator) (left right : Primitive) :
    FailsOnly Ordinary (Primitive.computeOnTexts operator left right) :=
  ite (ite (ok _) (error ⟨nofun, nofun⟩)) (error ⟨nofun, nofun⟩)

theorem compute (operator : Operator) (left right : Primitive) :
    FailsOnly Ordinary (left.compute operator right) := by
  unfold Primitive.compute
  split
  · exact map _ (onWords _ _ _)
  · exact map _ (onWords _ _ _)
  · exact map _ (onWords _ _ _)
  · exact map _ (onWords _ _ _)
  · exact ok _
  · exact ok _
  · exact ok _
  · exact ok _
  · exact ok _
  · exact bind (onWords _ _ _) fun _ => bind (charOfCode _) fun _ => ok _
  · exact map _ (onWords _ _ _)
  · exact computeOnTexts _ _ _

theorem order (comparison : Comparison) (left right : Primitive) :
    FailsOnly Ordinary (Primitive.order comparison left right) := by
  unfold Primitive.order
  split
  · exact ite (ok _) (error ⟨nofun, nofun⟩)
  · exact ite (ok _) (error ⟨nofun, nofun⟩)
  · exact ok _
  · split
    · exact ok _
    · exact ite (ok _) (error ⟨nofun, nofun⟩)

theorem compares (comparison : Comparison) (left right : Primitive) :
    FailsOnly Ordinary (left.compares comparison right) :=
  map _ (order comparison left right)

theorem compareValues (heap : Heap) (comparison : Comparison) (left right : Value) :
    FailsOnly Ordinary (heap.compares comparison left right) := by
  unfold Heap.compares
  split
  · exact compares _ _ _
  · exact ite (ok _) (error ⟨nofun, nofun⟩)

theorem equalItems {equal : Value → Value → Except TemplateError Bool}
    (fails : ∀ left right, FailsOnly sort (equal left right)) (lefts rights : List Value) :
    FailsOnly sort (Heap.equalItems equal lefts rights) := by
  induction lefts generalizing rights with
  | nil => cases rights <;> exact ok _
  | cons left lefts induction =>
      cases rights with
      | nil => exact ok _
      | cons right rights => exact bind (fails left right) fun _ => ite (induction rights) (ok _)

theorem equalBeside (heap : Heap) (inUse depth : Nat) (left right : Value) :
    FailsOnly Ordinary (heap.equalBeside inUse depth left right) := by
  induction depth generalizing left right with
  | zero => exact ok _
  | succ depth induction =>
      unfold Heap.equalBeside
      split
      · exact ite (ok _) (ite (error ⟨nofun, nofun⟩) (ite (ok _) (equalItems induction _ _)))
      · exact ok _

theorem placeBeside (heap : Heap) (inUse : Nat) (value : Value) (items : List Value) :
    FailsOnly Ordinary (heap.placeBeside inUse value items) := by
  induction items with
  | nil => exact ok _
  | cons item items induction =>
      refine bind (equalBeside heap inUse _ item value) fun same => ite (ok _) ?_
      exact bind induction fun _ => ok _

theorem accepts (function : HostFunction) (count : Nat) :
    FailsOnly Ordinary (function.accepts count) := by
  unfold HostFunction.accepts
  split
  · exact ite (ok _) (error ⟨nofun, nofun⟩)
  · exact ok _
  · exact ok _

theorem operand (operator : Operator) (value : Value) :
    FailsOnly Ordinary (Stencil.operand operator value) := by
  cases value with
  | primitive value => exact ok _
  | list list => exact error ⟨nofun, nofun⟩
  | object object => exact error ⟨nofun, nofun⟩
  | function function => exact error ⟨nofun, nofun⟩

theorem nextCounter (name : String) (operator : Operator) (step counter : Int32) :
    FailsOnly Ordinary (Run.nextCounter name operator step counter) := by
  unfold Run.nextCounter
  refine bind (compute _ _ _) fun next => ?_
  cases next with
  | int next => exact ok _
  | _ => exact error ⟨nofun, nofun⟩

end FailsOnly

namespace NeverParses

variable {α : Type}

theorem of_ordinary {outcome : Except TemplateError α} (fails : FailsOnly Ordinary outcome) :
    NeverParses outcome :=
  fails.mono fun _ => Ordinary.otherThanParse

theorem compute (operator : Operator) (left right : Primitive) :
    NeverParses (left.compute operator right) :=
  of_ordinary (.compute operator left right)

theorem compares (comparison : Comparison) (left right : Primitive) :
    NeverParses (left.compares comparison right) :=
  of_ordinary (.compares comparison left right)

theorem compareValues (heap : Heap) (comparison : Comparison) (left right : Value) :
    NeverParses (heap.compares comparison left right) :=
  of_ordinary (.compareValues heap comparison left right)

theorem accepts (function : HostFunction) (count : Nat) : NeverParses (function.accepts count) :=
  of_ordinary (.accepts function count)

theorem operand (operator : Operator) (value : Value) :
    NeverParses (Stencil.operand operator value) :=
  of_ordinary (.operand operator value)

theorem nextCounter (name : String) (operator : Operator) (step counter : Int32) :
    NeverParses (Run.nextCounter name operator step counter) :=
  of_ordinary (.nextCounter name operator step counter)

end NeverParses

theorem ordinary_undefinedIn (receiver : Option Value) (name : String) :
    (undefinedIn receiver name).Ordinary := by
  cases receiver with
  | none => exact ⟨nofun, nofun⟩
  | some value => exact ⟨nofun, nofun⟩

theorem undefinedIn_otherThanParse (receiver : Option Value) (name : String) :
    (undefinedIn receiver name).OtherThanParse :=
  (ordinary_undefinedIn receiver name).otherThanParse

end Stencil
