import Mathlib
import Stencil.Primitive.Arithmetic

/-!
# The order of doubles

Two doubles have an ordering unless one of them is not a number, and turning them around turns it
around.  The double that an integer is rounded to is a number.
-/

namespace Stencil

namespace Double

open Float.Model

/-- The ordering of two doubles; there is none with what is not a number. -/
def order? (left right : Float) : Option Ordering :=
  left.toModel.unpack.compare right.toModel.unpack

theorem beq_iff_order? {left right : Float} :
    (left == right) = true ↔ order? left right = some .eq := by
  change (order? left right == some .eq) = true ↔ _
  exact beq_iff_eq

theorem lt_iff_order? {left right : Float} : left < right ↔ order? left right = some .lt := by
  change decide (left.toModel < right.toModel) = true ↔ _
  rw [decide_eq_true_iff]
  change (order? left right == some .lt) = true ↔ _
  exact beq_iff_eq

theorem order?_swap (left right : Float) : order? right left = (order? left right).map .swap := by
  unfold order?
  generalize left.toModel.unpack = left
  generalize right.toModel.unpack = right
  have exponents (first second : Int) : compare second first = (compare first second).swap :=
    Std.OrientedCmp.eq_swap
  have mantissas (first second : Nat) : compare second first = (compare first second).swap :=
    Std.OrientedCmp.eq_swap
  fun_cases UnpackedFloat.compare left right with
  | case1 => cases right <;> rfl
  | case3 first second => cases first <;> cases second <;> rfl
  | case13 mantissa exponent _ mantissa' exponent' =>
      simp [UnpackedFloat.compare, exponents exponent exponent', mantissas mantissa mantissa',
        Ordering.swap_then]
  | case16 mantissa exponent _ mantissa' exponent' =>
      simp [UnpackedFloat.compare, exponents exponent exponent', mantissas mantissa mantissa',
        Ordering.swap_then]
  | _ => simp_all [UnpackedFloat.compare]

theorem order?_eq_none_iff {left right : Float} :
    order? left right = none ↔ left.isNaN = true ∨ right.isNaN = true := by
  change _ ↔ left.toModel.unpack.isNaN = true ∨ right.toModel.unpack.isNaN = true
  unfold order?
  generalize left.toModel.unpack = left
  generalize right.toModel.unpack = right
  fun_cases UnpackedFloat.compare left right <;> simp_all [UnpackedFloat.isNaN]

theorem order_eq (left right : Float) : order left right = (order? left right).getD .lt := by
  unfold order
  simp only [beq_iff_order?, lt_iff_order?, order?_swap left right]
  cases order? left right with
  | none => rfl
  | some ordering => cases ordering <;> rfl

theorem order_swap {left right : Float} (isLeft : left.isNaN = false)
    (isRight : right.isNaN = false) : order right left = (order left right).swap := by
  have comparable : order? left right ≠ none := by
    rw [ne_eq, order?_eq_none_iff, isLeft, isRight]
    simp
  obtain ⟨ordering, found⟩ := Option.ne_none_iff_exists'.mp comparable
  rw [order_eq, order_eq, order?_swap left right, found]
  rfl

theorem isNaN_pack (number : UnpackedFloat) : (pack number).isNaN = number.isNaN := by
  change (UnpackedFloat.unpack Format.binary64 (UnpackedFloat.pack Format.binary64 number)).isNaN
    = _
  have infinite (sign : UnpackedFloat.Sign) : (UnpackedFloat.unpack Format.binary64
      (UnpackedFloat.packedInfinity Format.binary64 sign)).isNaN = false := by
    cases sign <;> decide
  fun_cases UnpackedFloat.pack Format.binary64 number with
  | case1 => decide
  | case2 sign => exact infinite sign
  | case3 sign => cases sign <;> decide
  | case4 sign => exact infinite sign
  | case5 sign mantissa exponent _ bits biased fits normal =>
      have below : biased < 2047 := by
        simp at fits
        omega
      have apart : BitVec.ofNat 11 biased ≠ -1#11 := by
        intro same
        have same := congrArg BitVec.toNat same
        simp at same
        omega
      simp only [UnpackedFloat.unpack, UnpackedFloat.unpackExponent_packComponents]
      rw [if_neg apart]
      split
      · split <;> rfl
      · rfl
  | case6 sign mantissa exponent _ bits biased fits subnormal =>
      have apart : 0#11 ≠ -1#11 := by decide
      simp only [UnpackedFloat.unpack, UnpackedFloat.unpackExponent_packComponents]
      rw [if_neg apart, if_pos trivial]
      split <;> rfl

theorem isNaN_round (sign : UnpackedFloat.Sign) (mantissa : Nat) (exponent : Int)
    (accuracy : UnpackedFloat.Accuracy) :
    (UnpackedFloat.roundWithAccuracy Format.binary64 sign mantissa exponent accuracy).isNaN =
      false := by
  unfold UnpackedFloat.roundWithAccuracy
  dsimp only
  split <;> rfl

theorem isNaN_mul_finite {number : UnpackedFloat} (isNumber : number.isNaN = false)
    (sign : UnpackedFloat.Sign) (mantissa : Nat) (exponent : Int) (positive : 0 < mantissa) :
    (UnpackedFloat.mul Format.binary64 number (.finite sign mantissa exponent positive)).isNaN =
      false := by
  cases number with
  | notANumber => contradiction
  | finite => apply isNaN_round
  | _ => rfl

theorem isNaN_toFloat (word : UInt64) : word.toFloat.isNaN = false := by
  change (pack (UnpackedFloat.normalize Format.binary64 word.toNat 0 .positive)).isNaN = false
  rw [isNaN_pack]
  unfold UnpackedFloat.normalize
  split
  · apply isNaN_round
  · rfl
  · apply isNaN_round

theorem isNaN_neg {number : Float} (isNumber : number.isNaN = false) :
    (-number).isNaN = false := by
  change (pack number.toModel.unpack.neg).isNaN = false
  rw [isNaN_pack]
  change number.toModel.unpack.isNaN = false at isNumber
  cases found : number.toModel.unpack with
  | notANumber =>
      rw [found] at isNumber
      contradiction
  | _ => rfl

theorem isNaN_ofNat (number : Nat) : (Float.ofNat number).isNaN = false := by
  change (Float.ofScientific number false 0).isNaN = false
  unfold Float.ofScientific
  split
  · -- A small number is a word times the double of `10 ^ 0`.
    change (pack (UnpackedFloat.mul Format.binary64 number.toUInt64.toFloat.toModel.unpack
      (Float.ofBits 0x3FF0000000000000).toModel.unpack)).isNaN = false
    rw [isNaN_pack]
    exact isNaN_mul_finite (isNaN_toFloat _) _ _ _ _
  · change (pack (UnpackedFloat.ofScientific Format.binary64 number 0)).isNaN = false
    rw [isNaN_pack]
    unfold UnpackedFloat.ofScientific
    split
    · rfl
    split
    · rfl
    split
    · rfl
    rw [if_pos (Int.le_refl 0)]
    exact isNaN_mul_finite rfl _ _ _ _

theorem isNaN_ofInt (number : Int) : (Float.ofInt number).isNaN = false := by
  cases number with
  | ofNat number => exact isNaN_ofNat number
  | negSucc number => exact isNaN_neg (isNaN_ofNat (number + 1))

end Double

end Stencil
