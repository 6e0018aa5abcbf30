import Mathlib.Algebra.Group.Int.Defs
import Mathlib.Algebra.Group.Nat.Defs
import Stencil.Primitive.Arithmetic

/-!
# Arithmetic on ints, longs and chars

Words compute with the integers they stand for and keep as much of an exact result as fits.  Which
words that are is decided by the kinds of the operands.
-/

namespace Stencil

namespace Operator

/-- The operator on all integers.  Quotients are truncated toward zero, and a remainder is what the
truncated quotient leaves. -/
def exact (operator : Operator) (left right : Int) : Int :=
  match operator with
  | plus => left + right
  | minus => left - right
  | times => left * right
  | divide => left.tdiv right
  | modulo => left.tmod right

/-- An operator refuses to divide by zero. -/
def Refuses (operator : Operator) (right : Int) : Prop :=
  (operator = divide ∨ operator = modulo) ∧ right = 0

instance (operator : Operator) (right : Int) : Decidable (operator.Refuses right) :=
  inferInstanceAs (Decidable (_ ∧ _))

end Operator

namespace Primitive

section Words

variable {ω : Type} [Add ω] [Sub ω] [Mul ω] [Div ω] [Mod ω] [OfNat ω 0]

/-- Words of a size stand for integers, and their operations reduce what those of the integers
give. -/
structure AreWords (toInt : ω → Int) (size : Nat) : Prop where
  injective : ∀ {left right : ω}, toInt left = toInt right → left = right
  reduced : ∀ word : ω, (toInt word).bmod size = toInt word
  zero : toInt 0 = 0
  add : ∀ left right : ω, toInt (left + right) = (toInt left + toInt right).bmod size
  sub : ∀ left right : ω, toInt (left - right) = (toInt left - toInt right).bmod size
  mul : ∀ left right : ω, toInt (left * right) = (toInt left * toInt right).bmod size
  div : ∀ left right : ω, toInt (left / right) = ((toInt left).tdiv (toInt right)).bmod size
  mod : ∀ left right : ω, toInt (left % right) = (toInt left).tmod (toInt right)

theorem areWords_int : AreWords Int32.toInt (2 ^ 32) where
  injective := Int32.toInt_inj.mp
  reduced := Int32.toInt_bmod
  zero := Int32.toInt_zero
  add := Int32.toInt_add
  sub := Int32.toInt_sub
  mul := Int32.toInt_mul
  div := Int32.toInt_div
  mod := Int32.toInt_mod

theorem areWords_long : AreWords Int64.toInt (2 ^ 64) where
  injective := Int64.toInt_inj.mp
  reduced := Int64.toInt_bmod
  zero := Int64.toInt_zero
  add := Int64.toInt_add
  sub := Int64.toInt_sub
  mul := Int64.toInt_mul
  div := Int64.toInt_div
  mod := Int64.toInt_mod

namespace AreWords

variable {toInt : ω → Int} {size : Nat} (words : AreWords toInt size)

include words

theorem toInt_eq_zero_iff {word : ω} : toInt word = 0 ↔ word = 0 := by
  constructor
  · intro isZero
    exact words.injective (isZero.trans words.zero.symm)
  · rintro rfl
    exact words.zero

/-- Quotient and remainder give the dividend back, also where the quotient does not fit. -/
theorem div_mul_add_mod (left right : ω) : left / right * right + left % right = left := by
  apply words.injective
  rw [words.add, words.mul, words.div, words.mod, Int.bmod_mul_bmod, Int.bmod_add_bmod,
    Int.tdiv_mul_add_tmod, words.reduced]

variable [DecidableEq ω]

theorem onWords_of_refuses {operator : Operator} {right : ω}
    (refuses : operator.Refuses (toInt right)) (left : ω) :
    operator.onWords left right = .error (.type .divisionByZero) := by
  obtain ⟨divides, isZero⟩ := refuses
  have zero := words.toInt_eq_zero_iff.mp isZero
  rcases divides with rfl | rfl
  · exact if_pos zero
  · exact if_pos zero

/-- Words keep the exact result as far as it fits. -/
theorem exists_onWords {operator : Operator} {right : ω}
    (accepts : ¬operator.Refuses (toInt right)) (left : ω) : ∃ word,
      operator.onWords left right = .ok word ∧
        toInt word = (operator.exact (toInt left) (toInt right)).bmod size := by
  have nonzero (divides : operator = .divide ∨ operator = .modulo) : right ≠ 0 :=
    fun isZero => accepts ⟨divides, words.toInt_eq_zero_iff.mpr isZero⟩
  cases operator with
  | plus => exact ⟨_, rfl, words.add left right⟩
  | minus => exact ⟨_, rfl, words.sub left right⟩
  | times => exact ⟨_, rfl, words.mul left right⟩
  | divide => exact ⟨_, if_neg (nonzero (.inl rfl)), words.div left right⟩
  | modulo =>
      refine ⟨_, if_neg (nonzero (.inr rfl)), ?_⟩
      rw [words.mod, Operator.exact, ← words.mod, words.reduced]

theorem onWords_divisionByZero_iff {operator : Operator} (left right : ω) {α : Type}
    (result : ω → α) :
    (operator.onWords left right).map result = .error (.type .divisionByZero) ↔
      operator.Refuses (toInt right) := by
  by_cases refuses : operator.Refuses (toInt right)
  · rw [words.onWords_of_refuses refuses]
    exact iff_of_true rfl refuses
  · obtain ⟨word, isOk, -⟩ := words.exists_onWords refuses left
    rw [isOk]
    exact iff_of_false nofun refuses

/-- The quotient times the divisor and the remainder make the dividend. -/
theorem onWords_divides (left : ω) {right : ω} (nonzero : right ≠ 0) :
    Operator.divide.onWords left right = .ok (left / right) ∧
      Operator.times.onWords (left / right) right = .ok (left / right * right) ∧
      Operator.modulo.onWords left right = .ok (left % right) ∧
      Operator.plus.onWords (left / right * right) (left % right) = .ok left :=
  ⟨if_neg nonzero, rfl, if_neg nonzero, congrArg Except.ok (words.div_mul_add_mod left right)⟩

end AreWords

end Words

theorem toInt_widen (value : Int32) : (widen value).toInt = value.toInt := by
  have least := Int32.le_toInt value
  have most := Int32.toInt_lt value
  exact Int64.toInt_ofInt_of_le (by omega) (by omega)

theorem toNat_lt (character : Char) : character.toNat < 0x110000 := by
  have valid : character.toNat.isValidChar := character.valid
  rcases valid with low | ⟨-, high⟩
  · omega
  · exact high

theorem toInt_ofNat_int (character : Char) :
    (Int32.ofNat character.toNat).toInt = character.toNat := by
  have bound := toNat_lt character
  exact Int32.toInt_ofNat_of_lt (by omega)

theorem toInt_ofNat_long (character : Char) :
    (Int64.ofNat character.toNat).toInt = character.toNat := by
  have bound := toNat_lt character
  exact Int64.toInt_ofNat_of_lt (by omega)

/-- The integer that an int, a long or a char stands for. -/
def integer? : Primitive → Option Int
  | int value => some value.toInt
  | long value => some value.toInt
  | char value => some value.toNat
  | _ => none

/-- The kind of the result for operands of two kinds. -/
def resultKind? : Kind → Kind → Option Kind
  | .int, .int | .char, .char => some .int
  | .int, .long | .long, .int | .long, .long => some .long
  | .char, .int => some .char
  | _, _ => none

/-- What an operator makes of operands that stand for two integers. -/
structure ComputesExactly (operator : Operator) (left right : Primitive) (a b : Int) : Prop where
  /-- An int is the exact result reduced to 32 bits. -/
  toInt : resultKind? left.kind right.kind = some .int → ¬operator.Refuses b → ∃ result : Int32,
    compute operator left right = .ok (int result) ∧
      result.toInt = (operator.exact a b).bmod (2 ^ 32)
  /-- A long is the exact result reduced to 64 bits. -/
  toLong : resultKind? left.kind right.kind = some .long → ¬operator.Refuses b → ∃ result : Int64,
    compute operator left right = .ok (long result) ∧
      result.toInt = (operator.exact a b).bmod (2 ^ 64)
  /-- A char has the exact result as its code, which not every integer is. -/
  toChar : resultKind? left.kind right.kind = some .char → ¬operator.Refuses b →
    (∃ result : Char, compute operator left right = .ok (char result) ∧
      (result.toNat : Int) = operator.exact a b) ∨
    (compute operator left right = .error (.type (.invalidCharCode (operator.exact a b))) ∧
      ∀ character : Char, (character.toNat : Int) ≠ operator.exact a b)
  /-- Where there is a result of some kind, nothing but a zero divisor is refused as such. -/
  divisionByZero : compute operator left right = .error (.type .divisionByZero) ↔
    operator.Refuses b ∧ (resultKind? left.kind right.kind).isSome
  /-- The other kinds of operands are refused, whatever they stand for. -/
  undefined : resultKind? left.kind right.kind = none → compute operator left right =
    .error (.type (.operatorUndefined operator left.kind right.kind))

namespace ComputesExactly

variable {operator : Operator} {left right : Primitive} {a b : Int}

theorem of_ints {left32 right32 : Int32}
    (computes : compute operator left right = (operator.onWords left32 right32).map int)
    (kind : resultKind? left.kind right.kind = some .int) :
    ComputesExactly operator left right left32.toInt right32.toInt where
  toInt _ accepts := by
    obtain ⟨word, isOk, reduced⟩ := areWords_int.exists_onWords accepts left32
    exact ⟨word, by rw [computes, isOk]; rfl, reduced⟩
  toLong other := by rw [kind] at other; cases other
  toChar other := by rw [kind] at other; cases other
  divisionByZero := by
    rw [computes, kind, areWords_int.onWords_divisionByZero_iff]
    exact (and_iff_left rfl).symm
  undefined none := by rw [kind] at none; cases none

theorem of_longs {left64 right64 : Int64}
    (computes : compute operator left right = (operator.onWords left64 right64).map long)
    (kind : resultKind? left.kind right.kind = some .long) :
    ComputesExactly operator left right left64.toInt right64.toInt where
  toInt other := by rw [kind] at other; cases other
  toLong _ accepts := by
    obtain ⟨word, isOk, reduced⟩ := areWords_long.exists_onWords accepts left64
    exact ⟨word, by rw [computes, isOk]; rfl, reduced⟩
  toChar other := by rw [kind] at other; cases other
  divisionByZero := by
    rw [computes, kind, areWords_long.onWords_divisionByZero_iff]
    exact (and_iff_left rfl).symm
  undefined none := by rw [kind] at none; cases none

theorem of_undefined (computes : compute operator left right =
      .error (.type (.operatorUndefined operator left.kind right.kind)))
    (kind : resultKind? left.kind right.kind = none) :
    ComputesExactly operator left right a b where
  toInt some := by rw [kind] at some; cases some
  toLong some := by rw [kind] at some; cases some
  toChar some := by rw [kind] at some; cases some
  divisionByZero := by
    rw [computes, kind]
    exact iff_of_false nofun fun both => nomatch both.2
  undefined _ := computes

end ComputesExactly

/-- The results for operands of 32 bits are far from the ends of a long. -/
theorem natAbs_exact_le (operator : Operator) {a b : Int} (left : a.natAbs ≤ 2 ^ 31)
    (right : b.natAbs ≤ 2 ^ 31) : (operator.exact a b).natAbs ≤ 2 ^ 62 := by
  cases operator with
  | plus => simp only [Operator.exact]; omega
  | minus => simp only [Operator.exact]; omega
  | times =>
      have product := Nat.mul_le_mul left right
      rw [Operator.exact, Int.natAbs_mul]
      omega
  | divide =>
      have quotient := Int.natAbs_tdiv_le_natAbs a b
      rw [Operator.exact]
      omega
  | modulo =>
      have rest := Nat.mod_le a.natAbs b.natAbs
      rw [Operator.exact, Int.natAbs_tmod]
      omega

theorem charOfCode?_eq_some_iff {code : Int} {character : Char} :
    charOfCode? code = some character ↔ (character.toNat : Int) = code := by
  unfold charOfCode?
  constructor
  · intro found
    by_cases isCode : 0 ≤ code ∧ code.toNat.isValidChar
    · rw [dif_pos isCode] at found
      obtain rfl := Option.some.inj found
      have same : (Char.ofNatAux code.toNat isCode.2).toNat = code.toNat := rfl
      omega
    · rw [dif_neg isCode] at found
      cases found
  · rintro rfl
    have isCode : 0 ≤ (character.toNat : Int) ∧ (character.toNat : Int).toNat.isValidChar :=
      ⟨Int.natCast_nonneg _, character.valid⟩
    rw [dif_pos isCode]
    exact congrArg some (Char.ext rfl)

theorem charOfCode_run (code : Int) :
    (∃ character, charOfCode code = .ok character ∧ (character.toNat : Int) = code) ∨
      (charOfCode code = .error (.type (.invalidCharCode code)) ∧
        ∀ character : Char, (character.toNat : Int) ≠ code) := by
  unfold charOfCode
  cases found : charOfCode? code with
  | some character => exact .inl ⟨character, rfl, charOfCode?_eq_some_iff.mp found⟩
  | none =>
      refine .inr ⟨rfl, fun character isCode => ?_⟩
      rw [charOfCode?_eq_some_iff.mpr isCode] at found
      cases found

/-- A char is moved by an int to the char of the exact code. -/
theorem compute_char_int (operator : Operator) (character : Char) (value : Int32) :
    ComputesExactly operator (char character) (int value) character.toNat value.toInt := by
  have unfolded : compute operator (char character) (int value) =
      (operator.onWords (Int64.ofNat character.toNat) (widen value)) >>= fun code =>
        charOfCode code.toInt >>= fun result => return char result := rfl
  have divisor := toInt_widen value
  by_cases refuses : operator.Refuses value.toInt
  · have isError := areWords_long.onWords_of_refuses (divisor ▸ refuses)
      (Int64.ofNat character.toNat)
    have computes : compute operator (char character) (int value) =
        .error (.type .divisionByZero) := by
      rw [unfolded, isError]
      rfl
    exact ⟨nofun, nofun, fun _ accepts => absurd refuses accepts,
      iff_of_true computes ⟨refuses, rfl⟩, nofun⟩
  · obtain ⟨code, isOk, reduced⟩ := areWords_long.exists_onWords (divisor ▸ refuses)
      (Int64.ofNat character.toNat)
    have isExact : code.toInt = operator.exact character.toNat value.toInt := by
      have bound := toNat_lt character
      have least := Int32.le_toInt value
      have most := Int32.toInt_lt value
      have fits : (operator.exact character.toNat value.toInt).natAbs ≤ 2 ^ 62 :=
        natAbs_exact_le operator (by omega) (by omega)
      rw [reduced, toInt_ofNat_long, divisor]
      apply Int.bmod_eq_of_le <;> omega
    have computes : compute operator (char character) (int value) =
        (charOfCode (operator.exact character.toNat value.toInt)).map char := by
      rw [unfolded, isOk, ← isExact]
      change (charOfCode code.toInt >>= fun result => .ok (char result)) = _
      cases charOfCode code.toInt <;> rfl
    rcases charOfCode_run (operator.exact character.toNat value.toInt) with
      ⟨result, isChar, isCode⟩ | ⟨isError, none⟩
    · rw [isChar] at computes
      refine ⟨nofun, nofun, fun _ _ => .inl ⟨result, computes, isCode⟩, ?_, nofun⟩
      rw [computes]
      exact iff_of_false nofun fun both => refuses both.1
    · rw [isError] at computes
      refine ⟨nofun, nofun, fun _ _ => .inr ⟨computes, none⟩, ?_, nofun⟩
      rw [computes]
      exact iff_of_false nofun fun both => refuses both.1

/-- On all operands that stand for integers the operators compute with these. -/
theorem computesExactly (operator : Operator) {left right : Primitive} {a b : Int}
    (leftIs : left.integer? = some a) (rightIs : right.integer? = some b) :
    ComputesExactly operator left right a b := by
  cases left with
  | int left =>
      obtain rfl := Option.some.inj leftIs
      cases right with
      | int right =>
          obtain rfl := Option.some.inj rightIs
          exact .of_ints rfl rfl
      | long right =>
          obtain rfl := Option.some.inj rightIs
          rw [← toInt_widen left]
          exact .of_longs rfl rfl
      | char right => exact .of_undefined (by simp [compute, computeOnTexts, kind]) rfl
      | double _ | boolean _ | string _ => cases rightIs
  | long left =>
      obtain rfl := Option.some.inj leftIs
      cases right with
      | int right =>
          obtain rfl := Option.some.inj rightIs
          rw [← toInt_widen right]
          exact .of_longs rfl rfl
      | long right =>
          obtain rfl := Option.some.inj rightIs
          exact .of_longs rfl rfl
      | char right => exact .of_undefined (by simp [compute, computeOnTexts, kind]) rfl
      | double _ | boolean _ | string _ => cases rightIs
  | char left =>
      obtain rfl := Option.some.inj leftIs
      cases right with
      | int right =>
          obtain rfl := Option.some.inj rightIs
          exact compute_char_int operator left right
      | long right => exact .of_undefined (by simp [compute, computeOnTexts, kind]) rfl
      | char right =>
          obtain rfl := Option.some.inj rightIs
          rw [← toInt_ofNat_int left, ← toInt_ofNat_int right]
          exact .of_ints rfl rfl
      | double _ | boolean _ | string _ => cases rightIs
  | double _ | boolean _ | string _ => cases leftIs

/-- An int that did not have to be reduced is the long that the operands widened to longs give. -/
theorem compute_widen {operator : Operator} {a b result : Int32}
    (isResult : compute operator (int a) (int b) = .ok (int result))
    (fits : -2 ^ 31 ≤ operator.exact a.toInt b.toInt ∧ operator.exact a.toInt b.toInt < 2 ^ 31) :
    compute operator (long (widen a)) (long (widen b)) = .ok (long (widen result)) := by
  have onInts : ComputesExactly operator (int a) (int b) a.toInt b.toInt :=
    computesExactly operator rfl rfl
  have onLongs : ComputesExactly operator (long (widen a)) (long (widen b)) (widen a).toInt
      (widen b).toInt := computesExactly operator rfl rfl
  rw [toInt_widen, toInt_widen] at onLongs
  have accepts : ¬operator.Refuses b.toInt := by
    intro refuses
    rw [onInts.divisionByZero.mpr ⟨refuses, rfl⟩] at isResult
    cases isResult
  obtain ⟨word, isWord, reduced⟩ := onInts.toInt rfl accepts
  obtain ⟨wide, isWide, reducedWide⟩ := onLongs.toLong rfl accepts
  obtain rfl : word = result := by
    rw [isWord] at isResult
    simpa using isResult
  have same : wide = widen word := by
    apply Int64.toInt_inj.mp
    rw [toInt_widen, reduced, reducedWide, Int.bmod_eq_of_le, Int.bmod_eq_of_le] <;> omega
  rw [isWide, same]

/-- The quotient of a dividend by a divisor, times the divisor, with the remainder added. -/
def divideAndRestore (dividend divisor : Primitive) : Except TemplateError Primitive := do
  let quotient ← compute .divide dividend divisor
  let product ← compute .times quotient divisor
  let remainder ← compute .modulo dividend divisor
  compute .plus product remainder

theorem divideAndRestore_int (a : Int32) {b : Int32} (nonzero : b ≠ 0) :
    divideAndRestore (int a) (int b) = .ok (int a) := by
  obtain ⟨quotient, product, remainder, sum⟩ := areWords_int.onWords_divides a nonzero
  simp only [divideAndRestore, compute, quotient, product, remainder, sum, Except.map, bind,
    Except.bind]

theorem divideAndRestore_long (a : Int64) {b : Int64} (nonzero : b ≠ 0) :
    divideAndRestore (long a) (long b) = .ok (long a) := by
  obtain ⟨quotient, product, remainder, sum⟩ := areWords_long.onWords_divides a nonzero
  simp only [divideAndRestore, compute, quotient, product, remainder, sum, Except.map, bind,
    Except.bind]

/-- Operators compute exactly on all operands that stand for integers.  Division and remainder
belong together also where the quotient wraps around, and ints may be widened before or after an
operator whose result fits. -/
theorem integers_computed_exactly :
    (∀ (operator : Operator) (left right : Primitive) (a b : Int),
      left.integer? = some a → right.integer? = some b →
        ComputesExactly operator left right a b) ∧
    (∀ a b : Int32, b ≠ 0 → divideAndRestore (int a) (int b) = .ok (int a)) ∧
    (∀ a b : Int64, b ≠ 0 → divideAndRestore (long a) (long b) = .ok (long a)) ∧
    ∀ (operator : Operator) (a b result : Int32),
      compute operator (int a) (int b) = .ok (int result) →
      -2 ^ 31 ≤ operator.exact a.toInt b.toInt ∧ operator.exact a.toInt b.toInt < 2 ^ 31 →
        compute operator (long (widen a)) (long (widen b)) = .ok (long (widen result)) :=
  ⟨fun operator _ _ _ _ leftIs rightIs => computesExactly operator leftIs rightIs,
    fun a _ nonzero => divideAndRestore_int a nonzero,
    fun a _ nonzero => divideAndRestore_long a nonzero,
    fun _ _ _ _ isResult fits => compute_widen isResult fits⟩

/-- The least numbers divided by minus one, and a product close to the largest int. -/
theorem integers_computed_exactly_extremes :
    (∃ quotient : Int32, compute .divide (int Int32.minValue) (int (-1)) = .ok (int quotient) ∧
      quotient.toInt = (2147483648 : Int).bmod (2 ^ 32)) ∧
    divideAndRestore (int Int32.minValue) (int (-1)) = .ok (int Int32.minValue) ∧
    divideAndRestore (long Int64.minValue) (long (-1)) = .ok (long Int64.minValue) ∧
    compute .times (long (widen 46340)) (long (widen 46341)) = .ok (long (widen 2147441940)) := by
  obtain ⟨computes, divideInts, divideLongs, widens⟩ := integers_computed_exactly
  refine ⟨?_, divideInts _ _ (by decide), divideLongs _ _ (by decide),
    widens .times 46340 46341 2147441940 rfl (by decide)⟩
  exact (computes .divide (int Int32.minValue) (int (-1)) (-2147483648) (-1) (by decide)
    (by decide)).toInt rfl (by decide)

/-- A long that is zero does not make a division of a char one by zero: there is no such
division. -/
theorem divide_char_by_long_zero :
    (char 'a').integer? = some 97 ∧ (long 0).integer? = some 0 ∧ Operator.divide.Refuses 0 ∧
      compute .divide (char 'a') (long 0) ≠ .error (.type .divisionByZero) ∧
      compute .divide (char 'a') (long 0) =
        .error (.type (.operatorUndefined .divide .char .long)) :=
  ⟨rfl, rfl, by decide, nofun, rfl⟩

end Primitive

end Stencil
