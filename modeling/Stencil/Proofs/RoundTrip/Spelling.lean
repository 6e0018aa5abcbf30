import Stencil.Expression.Literal
import Stencil.Proofs.RoundTrip.Print

/-!
# Spellings of expressions

An expression can be written in many ways: with spaces around its tokens, with parentheses that it
does not need, with escapes and zeros that change nothing.  Its print is one of its spellings.
-/

namespace Stencil

open Text

/-- Spaces between tokens. -/
structure Blanks where
  text : List Char
  areSpaces : text.all isTokenSpace = true

namespace Blanks

def none : Blanks := ⟨[], rfl⟩

def one : Blanks := ⟨[' '], rfl⟩

/-- A text between spaces. -/
def around (before : Blanks) (text : List Char) (after : Blanks) : List Char :=
  before.text ++ (text ++ after.text)

end Blanks

/-- At least one digit, perhaps after a minus. -/
structure Digits where
  isNegative : Bool
  digits : List Char
  nonempty : digits ≠ []
  areDigits : digits.all Char.isDigit = true

namespace Digits

def text (number : Digits) : List Char :=
  (if number.isNegative then ['-'] else []) ++ number.digits

def value (number : Digits) : Int :=
  if number.isNegative then -(Numeral.value number.digits : Int) else Numeral.value number.digits

theorem splitSign_digits (number : Digits) :
    Numeral.splitSign number.digits = (false, number.digits) := by
  have all := number.areDigits
  unfold Numeral.splitSign
  split
  · rename_i digits same
    rw [same] at all
    cases all
  · rename_i digits same
    rw [same] at all
    cases all
  · rfl

theorem integer?_text (number : Digits) : Numeral.integer? number.text = some number.value := by
  have some_digit : number.digits.isEmpty = false := by simpa using number.nonempty
  cases negative : number.isNegative with
  | true => simp [Numeral.integer?, Numeral.splitSign, text, value, negative, some_digit,
      number.areDigits]
  | false => simp [Numeral.integer?, text, value, negative, splitSign_digits, some_digit,
      number.areDigits]

/-- The decimal digits of a number. -/
def ofNat (isNegative : Bool) (number : Nat) : Digits where
  isNegative
  digits := Nat.toDigits 10 number
  nonempty := Nat.toDigits_ne_nil
  areDigits := List.all_eq_true.mpr fun _ member =>
    Nat.isDigit_of_mem_toDigits (by decide) (by decide) member

theorem value_ofNat (isNegative : Bool) (number : Nat) :
    (ofNat isNegative number).value = if isNegative then -(number : Int) else number := by
  have digits : Numeral.value (Nat.toDigits 10 number) = number := Nat.ofDigitChars_ten_toDigits
  simp [value, ofNat, digits]

/-- The digits that an integer is written with. -/
def ofInt : Int → Digits
  | .ofNat number => ofNat false number
  | .negSucc number => ofNat true (number + 1)

theorem text_ofInt (number : Int) : (ofInt number).text = (toString number).toList := by
  cases number with
  | ofNat number =>
      have written : (toString (Int.ofNat number)).toList = Nat.toDigits 10 number :=
        Nat.toList_repr
      rw [written]
      rfl
  | negSucc number =>
      have written : (toString (Int.negSucc number)).toList = '-' ::
          Nat.toDigits 10 (number + 1) := by
        simp [Int.repr]
      rw [written]
      rfl

theorem value_ofInt (number : Int) : (ofInt number).value = number := by
  cases number with
  | ofNat number => exact value_ofNat false number
  | negSucc number => exact value_ofNat true (number + 1)

end Digits

/-- A character between quotes, as it is or after the mark of escapes. -/
inductive Letter (quote : Char) where
  | plain (character : Char) (noQuote : character ≠ quote) (noMark : character ≠ '\x5c')
  | escape (character : Char)

namespace Letter

variable {quote : Char}

def text : Letter quote → List Char
  | plain character _ _ => [character]
  | escape character => ['\x5c', character]

def value : Letter quote → Char
  | plain character _ _ => character
  | escape character => Literal.unescape character

/-- How a character is printed between quotes that stand for themselves in escapes. -/
theorem exists_escaped (quote : Char) (same : Literal.unescape quote = quote) (character : Char) :
    ∃ letter : Letter quote, letter.text = escaped quote character ∧ letter.value = character := by
  unfold escaped
  split
  · rename_i isEscaped
    refine ⟨escape character, rfl, ?_⟩
    rcases isEscaped with rfl | rfl
    · exact same
    · rfl
  · rename_i isPlain
    rw [not_or] at isPlain
    exact ⟨plain character isPlain.1 isPlain.2, rfl, rfl⟩

theorem exists_letters (quote : Char) (same : Literal.unescape quote = quote)
    (content : List Char) :
    ∃ letters : List (Letter quote), letters.flatMap text = content.flatMap (escaped quote) ∧
      letters.map value = content := by
  induction content with
  | nil => exact ⟨[], rfl, rfl⟩
  | cons character content induction =>
      obtain ⟨letter, written, found⟩ := exists_escaped quote same character
      obtain ⟨letters, allWritten, allFound⟩ := induction
      refine ⟨letter :: letters, ?_, ?_⟩
      · rw [List.flatMap_cons, List.flatMap_cons, written, allWritten]
      · rw [List.map_cons, found, allFound]

end Letter

/-- A text spells a primitive that is no double. -/
inductive Primitive.Spelling : Primitive → List Char → Prop where
  | int (number : Digits) {value : Int32} (same : value.toInt = number.value) :
      Primitive.Spelling (.int value) number.text
  | long (number : Digits) {value : Int64} (same : value.toInt = number.value) :
      Primitive.Spelling (.long value) (number.text ++ ['L'])
  /-- A long that is no int needs no letter after its digits. -/
  | wide (number : Digits) {value : Int64} (same : value.toInt = number.value)
      (noInt : value.toInt < Int32.minValue.toInt ∨ Int32.maxValue.toInt < value.toInt) :
      Primitive.Spelling (.long value) number.text
  | boolean (value : Bool) :
      Primitive.Spelling (.boolean value) (if value then "true" else "false").toList
  | char (letter : Letter '\x27') :
      Primitive.Spelling (.char letter.value) ('\x27' :: (letter.text ++ ['\x27']))
  | string (letters : List (Letter '\x22')) :
      Primitive.Spelling (.string (String.ofList (letters.map Letter.value)))
        ('\x22' :: (letters.flatMap Letter.text ++ ['\x22']))

namespace Segment

/-- Whether a segment is a silent call. -/
def isSilent : Segment → Bool
  | .property _ => false
  | .call _ _ silent _ => silent

/-- The mark of silent calls, if a segment is one. -/
def mark (segment : Segment) : List Char :=
  if segment.isSilent then ['@'] else []

/-- What stands between a segment and the one before it. -/
def lead (segment : Segment) : List Char :=
  if segment.isIndex then [] else '.' :: segment.mark

end Segment

mutual

/-- A text spells an expression.  The rank is that of the loosest operator outside of all
parentheses of the text, and zero if there is none. -/
inductive Expression.Spelling : Expression → Nat → List Char → Prop where
  | literal {value : Primitive} {text : List Char} (spelled : Primitive.Spelling value text) :
      Expression.Spelling (.literal value) 0 text
  | bare {path : Path} {text : List Char} (isBare : Path.isBare path = true)
      (spelled : Path.Spelling path text) : Expression.Spelling (.reference path) 0 text
  | marked {path : Path} {text : List Char} (before after : Blanks)
      (spelled : Path.Spelling path text) :
      Expression.Spelling (.reference path) 0
        ("@var(".toList ++ (before.around text after ++ [')']))
  | list (isMutable : Bool) {items : List Expression} {text : List Char}
      (spelled : ArgumentsSpelling items text) :
      Expression.Spelling (.list isMutable items) 0
        ((if isMutable then "@mutable_list(" else "@list(").toList ++ text)
  | group {expression : Expression} {rank : Nat} {text : List Char} (before after : Blanks)
      (spelled : Expression.Spelling expression rank text) :
      Expression.Spelling expression 0 ('(' :: (before.around text after ++ [')']))
  /-- Operators of one rank group to the left without parentheses. -/
  | binary {left right : Expression} {operator : Operator} {leftRank rightRank : Nat}
      {leftText rightText : List Char} (before after : Blanks)
      (leftSpelled : Expression.Spelling left leftRank leftText)
      (leftTight : leftRank ≤ operator.precedence)
      (rightSpelled : Expression.Spelling right rightRank rightText)
      (rightTight : rightRank < operator.precedence) :
      Expression.Spelling (.binary left operator right) operator.precedence
        (leftText ++ (before.around [operator.symbol] after ++ rightText))

/-- A text spells the arguments of a call or the items of a list, with the parenthesis that closes
them. -/
inductive ArgumentsSpelling : List Expression → List Char → Prop where
  | none (blanks : Blanks) : ArgumentsSpelling [] (blanks.text ++ [')'])
  | last {item : Expression} {rank : Nat} {text : List Char} (before after : Blanks)
      (spelled : Expression.Spelling item rank text) :
      ArgumentsSpelling [item] (before.around text after ++ [')'])
  | more {item : Expression} {items : List Expression} {rank : Nat} {text later : List Char}
      (before after : Blanks) (spelled : Expression.Spelling item rank text)
      (nonempty : items ≠ []) (spelledLater : ArgumentsSpelling items later) :
      ArgumentsSpelling (item :: items) (before.around text after ++ ',' :: later)

/-- A text spells a segment, without the point and the mark of silent calls in front of it. -/
inductive Segment.Spelling : Segment → List Char → Prop where
  | property {name : String} (valid : isName name = true) :
      Segment.Spelling (.property name) name.toList
  | call {name : String} {items : List Expression} {text : List Char} (silent : Bool)
      (valid : isName name = true) (spelled : ArgumentsSpelling items text) :
      Segment.Spelling (.call name items silent false) (name.toList ++ '(' :: text)
  /-- An index is a call of `get`. -/
  | index {index : Expression} {rank : Nat} {text : List Char} (before after : Blanks)
      (spelled : Expression.Spelling index rank text) :
      Segment.Spelling (.call "get" [index] false true) ('[' :: (before.around text after ++ [']']))

/-- A text spells the segments behind the first one. -/
inductive Path.FurtherSpelling : List Segment → List Char → Prop where
  | nil : Path.FurtherSpelling [] []
  | cons {segment : Segment} {path : List Segment} {text later : List Char}
      (spelled : Segment.Spelling segment text) (spelledLater : Path.FurtherSpelling path later) :
      Path.FurtherSpelling (segment :: path) (segment.lead ++ (text ++ later))

/-- A text spells a path, which begins with a name. -/
inductive Path.Spelling : Path → List Char → Prop where
  | intro {segment : Segment} {path : List Segment} {text later : List Char}
      (noIndex : segment.isIndex = false) (spelled : Segment.Spelling segment text)
      (spelledLater : Path.FurtherSpelling path later) :
      Path.Spelling (segment :: path) (segment.mark ++ (text ++ later))

end

theorem Primitive.spelling_print {value : Primitive} (valid : value.isWellFormed = true) :
    value.Spelling value.print := by
  cases value with
  | int value =>
      have spelled := Spelling.int (Digits.ofInt value.toInt) (Digits.value_ofInt _).symm
      rwa [Digits.text_ofInt] at spelled
  | long value =>
      have spelled := Spelling.long (Digits.ofInt value.toInt) (Digits.value_ofInt _).symm
      rwa [Digits.text_ofInt] at spelled
  | double value => cases valid
  | char value =>
      obtain ⟨letter, written, rfl⟩ := Letter.exists_escaped '\x27' rfl value
      have spelled := Spelling.char letter
      rw [written] at spelled
      simpa [Primitive.print, quoted] using spelled
  | boolean value => exact .boolean value
  | string value =>
      obtain ⟨letters, written, same⟩ := Letter.exists_letters '\x22' rfl value.toList
      have spelled := Spelling.string letters
      rw [written, same, String.ofList_toList] at spelled
      exact spelled

theorem Expression.Spelling.grouped {expression : Expression} {rank : Nat} {text : List Char}
    (spelled : expression.Spelling rank text) (isGroup : Prop) [Decidable isGroup] :
    expression.Spelling (if isGroup then 0 else rank) (Stencil.grouped isGroup text) := by
  by_cases holds : isGroup
  · have inside := Expression.Spelling.group .none .none spelled
    simpa [Stencil.grouped, holds, Blanks.around, Blanks.none] using inside
  · simpa [Stencil.grouped, holds] using spelled

mutual

theorem Expression.spelling_print (expression : Expression)
    (valid : expression.isWellFormed = true) :
    expression.Spelling expression.rank expression.print := by
  cases expression with
  | literal value => exact .literal (Primitive.spelling_print valid)
  | reference path =>
      have spelled := Path.spelling_print path valid
      rw [Expression.print]
      split
      · rename_i isBare
        exact .bare isBare spelled
      · have marked := Expression.Spelling.marked .none .none spelled
        simpa [Expression.rank, Blanks.around, Blanks.none] using marked
  | list isMutable items =>
      have spelled := argumentsSpelling_print items valid
      rw [Expression.print, List.append_assoc]
      exact .list isMutable spelled
  | binary left operator right =>
      simp only [Expression.isWellFormed, Bool.and_eq_true] at valid
      have leftSpelled := (Expression.spelling_print left valid.1).grouped
        (operator.precedence < left.rank)
      have rightSpelled := (Expression.spelling_print right valid.2).grouped
        (operator.precedence ≤ right.rank)
      have leftTight : (if operator.precedence < left.rank then 0 else left.rank) ≤
          operator.precedence := by
        split <;> omega
      have rightTight : (if operator.precedence ≤ right.rank then 0 else right.rank) <
          operator.precedence := by
        have positive : 0 < operator.precedence := by cases operator <;> decide
        split <;> omega
      have spelled := Expression.Spelling.binary .one .one leftSpelled leftTight rightSpelled
        rightTight
      simpa [Expression.print, Expression.rank, Blanks.around, Blanks.one] using spelled

theorem argumentsSpelling_print (items : List Expression)
    (valid : areWellFormedItems items = true) :
    ArgumentsSpelling items (printItems items ++ [')']) := by
  match items with
  | [] => exact .none .none
  | [item] =>
      simp only [areWellFormedItems, Bool.and_eq_true] at valid
      have spelled := ArgumentsSpelling.last .none .none (Expression.spelling_print item valid.1)
      simpa [printItems, printFurther, Blanks.around, Blanks.none] using spelled
  | item :: next :: items =>
      have both := valid
      rw [areWellFormedItems, Bool.and_eq_true] at both
      have later := argumentsSpelling_print (next :: items) both.2
      have spelled := ArgumentsSpelling.more .none .none (Expression.spelling_print item both.1)
        (List.cons_ne_nil next items) later
      simpa [printItems, printFurther, Blanks.around, Blanks.none] using spelled

theorem Segment.spelling_print (segment : Segment) (valid : segment.isWellFormed = true) :
    ∃ text, segment.print = segment.mark ++ text ∧ segment.Spelling text := by
  cases segment with
  | property name => exact ⟨_, rfl, .property valid⟩
  | call name items silent indexed =>
      simp only [Segment.isWellFormed, Bool.and_eq_true] at valid
      cases indexed with
      | false =>
          simp only [Bool.false_eq_true, if_false, Bool.and_eq_true] at valid
          refine ⟨_, ?_, .call silent valid.2.1 (argumentsSpelling_print items valid.1)⟩
          cases silent <;> simp [Segment.print, Segment.mark, Segment.isSilent]
      | true =>
          simp only [if_true, Bool.and_eq_true, beq_iff_eq, Bool.not_eq_true'] at valid
          obtain ⟨areValid, ⟨rfl, one⟩, rfl⟩ := valid
          match items, one, areValid with
          | [index], _, areValid =>
              simp only [areWellFormedItems, Bool.and_true] at areValid
              refine ⟨_, ?_, .index .none .none (Expression.spelling_print index areValid)⟩
              simp [Segment.print, Segment.mark, Segment.isSilent, printItems, printFurther,
                Blanks.around, Blanks.none]

theorem Path.furtherSpelling_print (path : List Segment)
    (valid : areWellFormedSegments path = true) :
    Path.FurtherSpelling path (printPath false path) := by
  match path with
  | [] => exact .nil
  | segment :: path =>
      simp only [areWellFormedSegments, Bool.and_eq_true] at valid
      obtain ⟨text, printed, spelled⟩ := Segment.spelling_print segment valid.1
      have whole := Path.FurtherSpelling.cons spelled (Path.furtherSpelling_print path valid.2)
      have lead : segment.lead ++ text =
          (if segment.isIndex then [] else ['.']) ++ segment.print := by
        rw [printed]
        cases spelled <;> rfl
      rwa [← List.append_assoc, lead] at whole

theorem Path.spelling_print (path : Path) (valid : path.isWellFormed = true) :
    path.Spelling (printPath true path) := by
  match path with
  | [] => cases valid
  | segment :: path =>
      simp only [Path.isWellFormed, areWellFormedSegments, List.head?_cons, Option.all_some,
        Bool.and_eq_true, Bool.not_eq_true'] at valid
      obtain ⟨text, printed, spelled⟩ := Segment.spelling_print segment valid.2.1
      have whole := Path.Spelling.intro valid.1 spelled
        (Path.furtherSpelling_print path valid.2.2)
      rwa [← List.append_assoc, ← printed] at whole

end

end Stencil
