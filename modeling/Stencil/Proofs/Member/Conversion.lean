import Mathlib.Data.List.Induction
import Stencil.Member.Invocation
import Stencil.Proofs.Primitive.Integers
import Stencil.Proofs.RoundTrip.Spelling

/-!
# Conversions and back

Ints go through longs and texts and come back as they were, and so do chars through ints.  Which
ints are codes of chars and which texts are numerals of ints is decided by the code points and by
the characters that the text is made of.
-/

namespace Stencil

namespace Numeral

/-- A row of digits stands for a number: the last digit for ones, those before it for tens. -/
inductive Denotes : List Char → Nat → Prop where
  | one (digit : Char) (isDigit : digit.isDigit = true) : Denotes [digit] (digit.toNat - '0'.toNat)
  | more (digits : List Char) (value : Nat) (digit : Char) (isDigit : digit.isDigit = true)
      (rest : Denotes digits value) :
      Denotes (digits ++ [digit]) (10 * value + (digit.toNat - '0'.toNat))

/-- Digits with an optional sign stand for an integer. -/
inductive Spells : List Char → Int → Prop where
  | bare (digits : List Char) (value : Nat) (denotes : Denotes digits value) : Spells digits value
  | plus (digits : List Char) (value : Nat) (denotes : Denotes digits value) :
      Spells ('+' :: digits) value
  | minus (digits : List Char) (value : Nat) (denotes : Denotes digits value) :
      Spells ('-' :: digits) (-value)

/-- A text stands for an integer, with nothing around the numeral but blanks. -/
def Stands (text : String) (number : Int) : Prop :=
  ∃ before core after, text.toList = before ++ (core ++ after) ∧
    before.all Text.isBlank = true ∧ after.all Text.isBlank = true ∧ Spells core number

variable {digits characters : List Char} {digit : Char} {total : Nat} {number : Int}

theorem value_append (digits : List Char) (digit : Char) :
    value (digits ++ [digit]) = 10 * value digits + (digit.toNat - '0'.toNat) := by
  rw [value, List.foldl_append]
  rfl

theorem denotes_iff :
    Denotes digits total ↔ digits ≠ [] ∧ digits.all Char.isDigit = true ∧ value digits = total := by
  constructor
  · intro denotes
    induction denotes with
    | one digit isDigit => exact ⟨List.cons_ne_nil _ _, by simp [isDigit], by simp [value]⟩
    | more digits total digit isDigit rest induction =>
        obtain ⟨-, all, isTotal⟩ := induction
        refine ⟨by simp, ?_, ?_⟩
        · rw [List.all_append, all]
          simp [isDigit]
        · rw [value_append, isTotal]
  · rintro ⟨nonempty, all, rfl⟩
    induction digits using List.reverseRecOn with
    | nil => contradiction
    | append_singleton digits digit induction =>
        rw [List.all_append, Bool.and_eq_true] at all
        have isDigit : digit.isDigit = true := by simpa using all.2
        cases digits with
        | nil => simpa [value] using Denotes.one digit isDigit
        | cons first digits =>
            rw [value_append]
            exact .more _ _ _ isDigit (induction (List.cons_ne_nil _ _) all.1)

theorem splitSign_of_all (all : digits.all Char.isDigit = true) :
    splitSign digits = (false, digits) := by
  unfold splitSign
  split
  · cases all
  · cases all
  · rfl

theorem eq_of_splitSign {negative : Bool} (split : splitSign characters = (negative, digits)) :
    negative = true ∧ characters = '-' :: digits ∨
      negative = false ∧ (characters = '+' :: digits ∨ characters = digits) := by
  unfold splitSign at split
  split at split
  · cases split
    exact .inl ⟨rfl, rfl⟩
  · cases split
    exact .inr ⟨rfl, .inl rfl⟩
  · cases split
    exact .inr ⟨rfl, .inr rfl⟩

theorem integer?_of_split {negative : Bool} (split : splitSign characters = (negative, digits))
    (denotes : Denotes digits total) :
    integer? characters = some (if negative then -(total : Int) else total) := by
  obtain ⟨nonempty, all, rfl⟩ := denotes_iff.mp denotes
  have isSome : digits.isEmpty = false := by simpa using nonempty
  simp [integer?, split, isSome, all]

theorem integer?_eq_some_iff : integer? characters = some number ↔ Spells characters number := by
  constructor
  · intro found
    cases split : splitSign characters with
    | mk negative digits =>
        have read : (if digits.isEmpty || !digits.all Char.isDigit then none
            else some (if negative then -(value digits : Int) else value digits)) =
                some number := by
          simpa only [integer?, split] using found
        split at read
        · cases read
        · rename_i areDigits
          simp only [Bool.or_eq_true, Bool.not_eq_true', not_or, Bool.not_eq_false,
            List.isEmpty_iff] at areDigits
          have denotes := denotes_iff.mpr ⟨areDigits.1, areDigits.2, rfl⟩
          cases read
          rcases eq_of_splitSign split with ⟨rfl, rfl⟩ | ⟨rfl, rfl | rfl⟩
          · exact .minus _ _ denotes
          · exact .plus _ _ denotes
          · exact .bare _ _ denotes
  · intro spells
    cases spells with
    | bare _ total denotes =>
        exact integer?_of_split (splitSign_of_all (denotes_iff.mp denotes).2.1) denotes
    | plus digits total denotes => exact integer?_of_split rfl denotes
    | minus digits total denotes => exact integer?_of_split rfl denotes

end Numeral

namespace Text

variable {before core after characters : List Char}

theorem not_isBlank_of_isDigit {character : Char} (digit : character.isDigit = true) :
    isBlank character = false := by
  have bounds : 48 ≤ character.toNat ∧ character.toNat ≤ 57 := by
    simpa [Char.isDigit, UInt32.le_iff_toNat_le] using digit
  simp only [isBlank, blankRanges, CodeRanges.contains]
  grind

theorem exists_trimBlanks (characters : List Char) :
    ∃ before after, characters = before ++ (trimBlanks characters ++ after) ∧
      before.all isBlank = true ∧ after.all isBlank = true := by
  let rest := characters.dropWhile isBlank
  have first : characters.takeWhile isBlank ++ rest = characters :=
    List.takeWhile_append_dropWhile
  have last : trimBlanks characters ++ (rest.reverse.takeWhile isBlank).reverse = rest := by
    rw [trimBlanks, ← List.reverse_append, List.takeWhile_append_dropWhile, List.reverse_reverse]
  refine ⟨characters.takeWhile isBlank, (rest.reverse.takeWhile isBlank).reverse, ?_,
    List.all_takeWhile, ?_⟩
  · rw [last, first]
  · rw [List.all_reverse]
    exact List.all_takeWhile

theorem dropWhile_isBlank_append (nonempty : core ≠ [])
    (solid : ∀ character ∈ core, isBlank character = false) (after : List Char) :
    (core ++ after).dropWhile isBlank = core ++ after := by
  cases core with
  | nil => contradiction
  | cons first core =>
      rw [List.cons_append, List.dropWhile_cons_of_neg]
      rw [solid first List.mem_cons_self]
      exact Bool.false_ne_true

theorem trimBlanks_of_not_blank (isBefore : before.all isBlank = true)
    (isAfter : after.all isBlank = true) (nonempty : core ≠ [])
    (solid : ∀ character ∈ core, isBlank character = false) :
    trimBlanks (before ++ (core ++ after)) = core := by
  have solidBack : ∀ character ∈ core.reverse, isBlank character = false :=
    fun character member => solid character (List.mem_reverse.mp member)
  have nonemptyBack : core.reverse ≠ [] := by simpa using nonempty
  have front : (before ++ (core ++ after)).dropWhile isBlank = core ++ after := by
    rw [List.dropWhile_append_of_pos (List.all_eq_true.mp isBefore),
      dropWhile_isBlank_append nonempty solid]
  have back : (after.reverse ++ core.reverse).dropWhile isBlank = core.reverse := by
    have blanks : ∀ character ∈ after.reverse, isBlank character = true :=
      fun character member => List.all_eq_true.mp isAfter character (List.mem_reverse.mp member)
    rw [List.dropWhile_append_of_pos blanks]
    simpa using dropWhile_isBlank_append nonemptyBack solidBack []
  rw [trimBlanks, front, List.reverse_append, back, List.reverse_reverse]

end Text

namespace Numeral

variable {text : String} {number : Int} {core : List Char}

theorem Spells.solid (spells : Spells core number) :
    core ≠ [] ∧ ∀ character ∈ core, Text.isBlank character = false := by
  have digits {row : List Char} {total : Nat} (denotes : Denotes row total) :
      ∀ character ∈ row, Text.isBlank character = false := by
    obtain ⟨-, all, -⟩ := denotes_iff.mp denotes
    exact fun character member =>
      Text.not_isBlank_of_isDigit (List.all_eq_true.mp all character member)
  cases spells with
  | bare _ total denotes => exact ⟨(denotes_iff.mp denotes).1, digits denotes⟩
  | plus row total denotes =>
      exact ⟨List.cons_ne_nil _ _, List.forall_mem_cons.mpr ⟨by decide, digits denotes⟩⟩
  | minus row total denotes =>
      exact ⟨List.cons_ne_nil _ _, List.forall_mem_cons.mpr ⟨by decide, digits denotes⟩⟩

theorem integer?_trimBlanks_iff :
    integer? (Text.trimBlanks text.toList) = some number ↔ Stands text number := by
  rw [integer?_eq_some_iff]
  constructor
  · intro spells
    obtain ⟨before, after, split, isBefore, isAfter⟩ := Text.exists_trimBlanks text.toList
    exact ⟨before, _, after, split, isBefore, isAfter, spells⟩
  · rintro ⟨before, core, after, split, isBefore, isAfter, spells⟩
    obtain ⟨nonempty, solid⟩ := spells.solid
    rw [split, Text.trimBlanks_of_not_blank isBefore isAfter nonempty solid]
    exact spells

theorem stands_toString (number : Int) : Stands (toString number) number := by
  refine ⟨[], _, [], (List.append_nil _).symm, rfl, rfl, integer?_eq_some_iff.mp ?_⟩
  rw [← Digits.text_ofInt, Digits.integer?_text, Digits.value_ofInt]

/-- A text is read as an int if it stands for one. -/
theorem integerWithin?_eq_some_iff {value : Int32} :
    integerWithin? Int32.minValue.toInt Int32.maxValue.toInt (Text.trimBlanks text.toList) =
      some value.toInt ↔ Stands text value.toInt := by
  have within : (Int32.minValue.toInt ≤ value.toInt && value.toInt ≤ Int32.maxValue.toInt) =
      true := by
    rw [Bool.and_eq_true, decide_eq_true_eq, decide_eq_true_eq]
    exact ⟨value.minValue_le_toInt, value.toInt_le⟩
  rw [← integer?_trimBlanks_iff, integerWithin?, Option.filter_eq_some_iff]
  exact and_iff_left within

theorem exists_int_of_integerWithin?
    (found : integerWithin? Int32.minValue.toInt Int32.maxValue.toInt
      (Text.trimBlanks text.toList) = some number) : ∃ value : Int32, value.toInt = number := by
  obtain ⟨-, within⟩ := Option.filter_eq_some_iff.mp found
  simp only [Bool.and_eq_true, decide_eq_true_eq] at within
  exact ⟨Int32.ofInt number,
    Int32.toInt_ofInt_of_le within.1 (Int.lt_of_le_of_lt within.2 (by decide))⟩

end Numeral

namespace Member

variable (heap : Heap)

theorem invoke_toInt_primitive {value : Primitive} {outcome : Except TemplateError Int32}
    (converts : value.toInt? = some outcome) :
    invoke .toInt (.primitive value) [] heap =
      outcome.map fun number => (Value.int number, heap) := by
  simp only [invoke, answer, expectCount, require, primitive?, converts, Option.bind_some]
  cases outcome <;> rfl

theorem invoke_toChar_int (number : Int32) :
    invoke .toChar (.int number) [] heap =
      (charOfCode number.toInt).map fun character => (Value.char character, heap) := by
  change (charOfCode number.toInt >>= fun character => _) >>= _ = _
  cases charOfCode number.toInt <;> rfl

theorem invoke_toInt_string (text : String) :
    (∀ number : Int32, invoke .toInt (.string text) [] heap = .ok (.int number, heap) ↔
      Numeral.Stands text number.toInt) ∧
    ((∀ number : Int32, ¬Numeral.Stands text number.toInt) →
      invoke .toInt (.string text) [] heap = .error (.type (.notInt text))) := by
  have ran := @invoke_toInt_primitive heap (.string text) _ rfl
  cases found : Numeral.integerWithin? Int32.minValue.toInt Int32.maxValue.toInt
      (Text.trimBlanks text.toList) with
  | none =>
      rw [found] at ran
      refine ⟨fun number => ?_, fun _ => ran⟩
      rw [ran, ← Numeral.integerWithin?_eq_some_iff, found]
      exact ⟨nofun, nofun⟩
  | some total =>
      obtain ⟨value, rfl⟩ := Numeral.exists_int_of_integerWithin? found
      rw [found] at ran
      dsimp only [Except.map] at ran
      rw [Int32.ofInt_toInt] at ran
      refine ⟨fun number => ?_, fun none => absurd ?_ (none value)⟩
      · rw [ran, ← Numeral.integerWithin?_eq_some_iff, found]
        simp [Int32.toInt_inj]
      · exact Numeral.integerWithin?_eq_some_iff.mp found

/-- The Unicode scalar values: code points, without those of surrogates. -/
def IsScalarValue (code : Int) : Prop :=
  0 ≤ code ∧ code < 0xD800 ∨ 0xDFFF < code ∧ code < 0x110000

theorem exists_char_iff {code : Int} :
    (∃ character : Char, (character.toNat : Int) = code) ↔ IsScalarValue code := by
  unfold IsScalarValue
  constructor
  · rintro ⟨character, rfl⟩
    have valid : character.toNat < 0xD800 ∨ 0xDFFF < character.toNat ∧ character.toNat < 0x110000 :=
      character.valid
    omega
  · intro isScalar
    have valid : code.toNat.isValidChar := by
      unfold Nat.isValidChar
      omega
    refine ⟨Char.ofNatAux code.toNat valid, ?_⟩
    have same : (Char.ofNatAux code.toNat valid).toNat = code.toNat := rfl
    omega

theorem invoke_toInt_char {character : Char} {number : Int32}
    (isCode : (character.toNat : Int) = number.toInt) :
    invoke .toInt (.char character) [] heap = .ok (.int number, heap) := by
  have same : Int32.ofNat character.toNat = number := by
    rw [← Int32.toInt_inj, Primitive.toInt_ofNat_int, isCode]
  have ran := @invoke_toInt_primitive heap (.char character) _ rfl
  rwa [same] at ran

theorem invoke_toChar_of_char {character : Char} {number : Int32}
    (isCode : (character.toNat : Int) = number.toInt) :
    invoke .toChar (.int number) [] heap = .ok (.char character, heap) := by
  have found : charOfCode number.toInt = .ok character := by
    rw [charOfCode, Primitive.charOfCode?_eq_some_iff.mpr isCode]
  rw [invoke_toChar_int, found]
  rfl

theorem invoke_toChar_of_no_char {number : Int32} (noScalar : ¬IsScalarValue number.toInt) :
    invoke .toChar (.int number) [] heap = .error (.type (.invalidCharCode number.toInt)) := by
  have none : charOfCode number.toInt = .error (.type (.invalidCharCode number.toInt)) := by
    rcases Primitive.charOfCode_run number.toInt with ⟨character, -, isCode⟩ | ⟨none, -⟩
    · exact absurd (exists_char_iff.mp ⟨character, isCode⟩) noScalar
    · exact none
  rw [invoke_toChar_int, none]
  rfl

/-- Conversions and those back. -/
theorem conversions_round_trip :
    (∀ number : Int32, ∃ wide : Int64, wide.toInt = number.toInt ∧
      invoke .toLong (.int number) [] heap = .ok (.long wide, heap) ∧
      invoke .toInt (.long wide) [] heap = .ok (.int number, heap)) ∧
    (∀ number : Int32, ∃ text : String,
      invoke .toString (.int number) [] heap = .ok (.string text, heap) ∧
      invoke .toInt (.string text) [] heap = .ok (.int number, heap)) ∧
    (∀ number : Int64, ∃ narrow : Int32, narrow.toInt = number.toInt.bmod (2 ^ 32) ∧
      invoke .toInt (.long number) [] heap = .ok (.int narrow, heap)) ∧
    (∀ character : Char, ∃ code : Int32, code.toInt = character.toNat ∧
      invoke .toInt (.char character) [] heap = .ok (.int code, heap) ∧
      invoke .toChar (.int code) [] heap = .ok (.char character, heap)) ∧
    (∀ number : Int32,
      (IsScalarValue number.toInt → ∃ character : Char, (character.toNat : Int) = number.toInt ∧
        invoke .toChar (.int number) [] heap = .ok (.char character, heap) ∧
        invoke .toInt (.char character) [] heap = .ok (.int number, heap)) ∧
      (¬IsScalarValue number.toInt → invoke .toChar (.int number) [] heap =
        .error (.type (.invalidCharCode number.toInt)))) ∧
    ∀ text : String,
      (∀ number : Int32, invoke .toInt (.string text) [] heap = .ok (.int number, heap) ↔
        Numeral.Stands text number.toInt) ∧
      ((∀ number : Int32, ¬Numeral.Stands text number.toInt) →
        invoke .toInt (.string text) [] heap = .error (.type (.notInt text))) := by
  refine ⟨fun number => ?_, fun number => ?_, fun number => ?_, fun character => ?_,
    fun number => ⟨fun isScalar => ?_, fun noScalar => ?_⟩, invoke_toInt_string heap⟩
  · refine ⟨_, Primitive.toInt_widen number, rfl, ?_⟩
    have back : Int32.ofInt (Primitive.widen number).toInt = number := by
      rw [Primitive.toInt_widen, Int32.ofInt_toInt]
    rw [invoke_toInt_primitive heap rfl, back]
    rfl
  · refine ⟨ToString.toString number.toInt, rfl, ?_⟩
    exact ((invoke_toInt_string heap _).1 number).mpr (Numeral.stands_toString _)
  · exact ⟨_, Int32.toInt_ofInt, @invoke_toInt_primitive heap (.long number) _ rfl⟩
  · have isCode := Primitive.toInt_ofNat_int character
    exact ⟨_, isCode, invoke_toInt_char heap isCode.symm, invoke_toChar_of_char heap isCode.symm⟩
  · obtain ⟨character, isCode⟩ := exists_char_iff.mpr isScalar
    exact ⟨character, isCode, invoke_toChar_of_char heap isCode, invoke_toInt_char heap isCode⟩
  · exact invoke_toChar_of_no_char heap noScalar

end Member

end Stencil
