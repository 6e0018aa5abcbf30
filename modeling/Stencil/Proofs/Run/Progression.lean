import Mathlib.Data.Rat.Floor
import Stencil.Operator
import Stencil.Primitive.Arithmetic

/-!
# Progressions of ints

The numbers that an operator and a step make from a first one.  Words wrap around, but not while
they are counted up to a bound that leaves room for one more step.
-/

namespace Stencil

/-- The number after a number by an operator and a step, in words that wrap around. -/
def Operator.next (operator : Operator) (step number : Int32) : Int32 :=
  match operator with
  | plus => number + step
  | minus => number - step
  | times => number * step
  | divide => number / step
  | modulo => number % step

/-- The numbers that follow a first one by an operator and a step. -/
def Operator.progression (operator : Operator) (step first : Int32) (count : Nat) : Int32 :=
  (operator.next step)^[count] first

namespace Operator

variable {operator : Operator} {step first limit : Int32} {count : Nat}

theorem progression_succ (operator : Operator) (step first : Int32) (count : Nat) :
    operator.progression step first (count + 1) =
      operator.next step (operator.progression step first count) :=
  Function.iterate_succ_apply' _ _ _

/-- How many numbers from a first one up to a limit a step leads to. -/
def stepsBelow (step first limit : Int32) : Nat :=
  ⌈((limit.toInt - first.toInt : ℤ) : ℚ) / (step.toInt : ℚ)⌉₊

section

variable (positive : 1 ≤ step.toInt)

include positive

theorem lt_stepsBelow_iff :
    count < stepsBelow step first limit ↔ first.toInt + count * step.toInt < limit.toInt := by
  have above : (0 : ℚ) < (step.toInt : ℚ) := by exact_mod_cast (by omega : 0 < step.toInt)
  rw [stepsBelow, Nat.lt_ceil, lt_div_iff₀ above]
  constructor
  · intro less
    have cast : (count : ℤ) * step.toInt < limit.toInt - first.toInt := by exact_mod_cast less
    omega
  · intro less
    have cast : (count : ℤ) * step.toInt < limit.toInt - first.toInt := by omega
    exact_mod_cast cast

/-- Counting up to a limit that leaves room for one more step, no number wraps around. -/
theorem toInt_progression (room : limit.toInt + step.toInt - 1 ≤ 2147483647)
    (within : count ≤ stepsBelow step first limit) :
    (plus.progression step first count).toInt = first.toInt + count * step.toInt := by
  induction count with
  | zero => simp [progression]
  | succ count induction =>
      have below := (lt_stepsBelow_iff positive).mp within
      have here := induction (Nat.le_of_succ_le within)
      have least := Int32.le_toInt first
      have less : first.toInt + ((count + 1 : Nat) : Int) * step.toInt =
          first.toInt + count * step.toInt + step.toInt := by
        rw [Nat.cast_succ, add_mul, one_mul, add_assoc]
      have nonneg : 0 ≤ (count : Int) * step.toInt := by positivity
      rw [progression_succ, next, Int32.toInt_add, here, less]
      apply Int.bmod_eq_of_le <;> omega

/-- Such numbers are less than the limit as long as there are steps below it. -/
theorem holds_progression_iff (room : limit.toInt + step.toInt - 1 ≤ 2147483647)
    (within : count ≤ stepsBelow step first limit) :
    Comparison.less.holds (compare (plus.progression step first count).toInt limit.toInt) = true ↔
      count < stepsBelow step first limit := by
  have isLess : Comparison.less.holds
      (compare (plus.progression step first count).toInt limit.toInt) = true ↔
        (plus.progression step first count).toInt < limit.toInt :=
    beq_iff_eq.trans Int.compare_eq_lt
  rw [isLess, toInt_progression positive room within, lt_stepsBelow_iff positive]

end

end Operator

end Stencil
