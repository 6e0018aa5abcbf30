import Stencil.Proofs.RoundTrip.Reads
import Stencil.Proofs.RoundTrip.Spelling

/-!
# Spelled literals are read

Numbers, strings, chars and booleans are read as what they spell, and a name that is not a boolean
is no literal.
-/

namespace Stencil

open Text

namespace Digits

variable (number : Digits)

theorem integerWithin?_text {least greatest : Int} (above : least ≤ number.value)
    (below : number.value ≤ greatest) :
    Numeral.integerWithin? least greatest number.text = some number.value := by
  rw [Numeral.integerWithin?, integer?_text]
  simp [above, below]

theorem integerWithin?_text_none {least greatest : Int}
    (outside : number.value < least ∨ greatest < number.value) :
    Numeral.integerWithin? least greatest number.text = none := by
  rw [Numeral.integerWithin?, integer?_text, Option.filter_some, if_neg]
  simp only [Bool.and_eq_true, decide_eq_true_eq]
  omega

theorem int?_text {value : Int32} (same : value.toInt = number.value) :
    Literal.int? number.text = some value := by
  have within : Numeral.integerWithin? Int32.minValue.toInt Int32.maxValue.toInt number.text =
      some number.value :=
    number.integerWithin?_text (same ▸ value.minValue_le_toInt) (same ▸ value.toInt_le)
  rw [Literal.int?, within, Option.map_some, ← same, Int32.ofInt_toInt]

theorem long?_text {value : Int64} (same : value.toInt = number.value) :
    Literal.long? number.text = some value := by
  have within : Numeral.integerWithin? Int64.minValue.toInt Int64.maxValue.toInt number.text =
      some number.value :=
    number.integerWithin?_text (same ▸ value.minValue_le_toInt) (same ▸ value.toInt_le)
  rw [Literal.long?, within, Option.map_some, ← same, Int64.ofInt_toInt]

theorem integer?_text_int {value : Int32} (same : value.toInt = number.value) :
    Literal.integer? number.text = some (.int value) := by
  rw [Literal.integer?, number.int?_text same]

theorem integer?_text_wide {value : Int64} (same : value.toInt = number.value)
    (noInt : value.toInt < Int32.minValue.toInt ∨ Int32.maxValue.toInt < value.toInt) :
    Literal.integer? number.text = some (.long value) := by
  rw [same] at noInt
  rw [Literal.integer?, Literal.int?, number.integerWithin?_text_none noInt, Option.map_none,
    number.long?_text same, Option.map_some]

end Digits

namespace Text.Reads

open Literal

variable {rest : List Char}

theorem decimals?_none (noPoint : rest.head? ≠ some '.') :
    Reads (decimals? : StateM Cursor (Option String)) [] none rest :=
  orRewind_none [] ((accept_of_ne noPoint).bind_look (pure _ _))

/-- An integer is read on from its digits. -/
theorem number?_digits (number : Digits) (suffix : List Char) {found : Primitive}
    (ends : (suffix ++ rest).head?.any Char.isDigit = false)
    (noPoint : (suffix ++ rest).head? ≠ some '.')
    (later : Reads (do
        if ← Scan.accept 'L' then return (long? number.text).map .long
        else return Literal.integer? number.text)
      suffix (some found) rest) :
    Reads number? (number.text ++ suffix) (some found) rest := by
  have isSome : (String.ofList number.digits).isEmpty = false := by simpa using number.nonempty
  have signed : Reads (Scan.accept '-') (if number.isNegative then ['-'] else [])
      number.isNegative ((number.digits ++ suffix) ++ rest) := by
    cases number.isNegative with
    | true => exact accept '-' _
    | false =>
        apply accept_of_ne
        have all := number.areDigits
        cases written : number.digits with
        | nil => exact absurd written number.nonempty
        | cons digit digits =>
            rw [written] at all
            rintro ⟨⟩
            cases all
  rw [Digits.text, List.append_assoc]
  unfold number?
  apply orRewind
  refine signed.bind ((takeWhile number.areDigits ends).bind ?_)
  dsimp only
  rw [isSome, String.toList_ofList]
  exact (decimals?_none noPoint).look_bind later

theorem noDigit (ends : EndsOperand rest) : rest.head?.any Char.isDigit = false :=
  ends.any_eq_false fun character digit => by
    simp [continuesOperand, isNamePart, isNumeric_of_isDigit digit]

/-- Digits without a letter after them. -/
theorem number?_integer {number : Digits} {found : Primitive}
    (same : Literal.integer? number.text = some found) (ends : EndsOperand rest) :
    Reads number? number.text (some found) rest := by
  have later : Reads (do
      if ← Scan.accept 'L' then return (long? number.text).map .long
      else return Literal.integer? number.text) [] (some found) rest := by
    refine (accept_of_ne (ends.ne (by decide))).look_bind ?_
    rw [same]
    exact pure _ _
  have read := number?_digits number [] (noDigit ends) (ends.ne (by decide)) later
  rwa [List.append_nil] at read

theorem number?_long (number : Digits) {value : Int64} (same : value.toInt = number.value) :
    Reads number? (number.text ++ ['L']) (some (.long value)) rest := by
  apply number?_digits number ['L'] (by simp) (by simp)
  refine (accept 'L' rest).bind_look ?_
  rw [number.long?_text same]
  exact pure _ _

/-- What begins with neither a digit nor a minus is no number. -/
theorem number?_none (noMinus : rest.head? ≠ some '-')
    (noDigit : rest.head?.any Char.isDigit = false) :
    Reads (number? : StateM Cursor (Option Primitive)) [] none rest := by
  apply orRewind_none []
  refine (accept_of_ne noMinus).look_bind ?_
  exact (@takeWhile [] rest Char.isDigit rfl noDigit).look_bind (pure _ _)

theorem boolean?_word (value : Bool) (ends : EndsOperand rest) :
    Reads boolean? (if value then "true" else "false").toList (some value) rest := by
  have word : Reads truth? (if value then "true" else "false").toList (some value) rest := by
    cases value with
    | true => exact (acceptText "true" rest).bind_look (pure _ _)
    | false =>
        have other : ¬"true".toList <+: "false".toList ++ rest := by simp
        refine (acceptText_of_not "true" other).look_bind ?_
        exact (acceptText "false" rest).bind_look (pure _ _)
  apply orRewind
  refine word.bind_look ((currentIs isNamePart rest).look_bind ?_)
  rw [ends.isNamePart]
  exact pure _ _

theorem truth?_none (noTrue : ¬"true".toList <+: rest) (noFalse : ¬"false".toList <+: rest) :
    Reads (truth? : StateM Cursor (Option Bool)) [] none rest := by
  refine (acceptText_of_not "true" noTrue).look_bind ?_
  exact (acceptText_of_not "false" noFalse).look_bind (pure _ _)

theorem boolean?_none (noTrue : ¬"true".toList <+: rest) (noFalse : ¬"false".toList <+: rest) :
    Reads (boolean? : StateM Cursor (Option Bool)) [] none rest :=
  orRewind_none [] ((truth?_none noTrue noFalse).look_bind (pure _ _))

/-- A longer word that begins with the word of a boolean is none. -/
theorem boolean?_longer {word more : List Char} (value : Bool) {next : Char}
    (read : Reads truth? word (some value) (next :: more)) (part : isNamePart next = true) :
    Reads (boolean? : StateM Cursor (Option Bool)) [] none (word ++ next :: more) := by
  apply orRewind_none word
  refine read.bind_look ((currentIs isNamePart (next :: more)).look_bind ?_)
  rw [List.head?_cons, Option.any_some, part]
  exact pure _ _

/-- A name that is none of the words of the booleans is no boolean. -/
theorem boolean?_name {name : List Char} (all : name.all isNamePart = true)
    (noTrue : name ≠ "true".toList) (noFalse : name ≠ "false".toList)
    (ends : rest.head?.any isNamePart = false) :
    Reads (boolean? : StateM Cursor (Option Bool)) [] none (name ++ rest) := by
  by_cases begins : "true".toList <+: name ++ rest
  · obtain ⟨more, rfl⟩ := isPrefix_of_append (by decide) ends begins
    cases more with
    | nil => exact absurd (List.append_nil _) noTrue
    | cons next more =>
        rw [List.append_assoc]
        apply boolean?_longer true ((acceptText "true" _).bind_look (pure _ _))
        simp only [List.all_append, List.all_cons, Bool.and_eq_true] at all
        exact all.2.1
  · by_cases otherwise : "false".toList <+: name ++ rest
    · obtain ⟨more, rfl⟩ := isPrefix_of_append (by decide) ends otherwise
      cases more with
      | nil => exact absurd (List.append_nil _) noFalse
      | cons next more =>
          rw [List.append_assoc] at begins ⊢
          refine boolean?_longer false ?_ ?_
          · refine (acceptText_of_not "true" begins).look_bind ?_
            exact (acceptText "false" _).bind_look (pure _ _)
          · simp only [List.all_append, List.all_cons, Bool.and_eq_true] at all
            exact all.2.1
    · exact boolean?_none begins otherwise

end Text.Reads

namespace Parser.Reads

open Literal

variable {rest : List Char}

theorem stringFrom (start : Position) (letters : List (Letter '\x22')) (taken : List Char)
    (fuel : Nat) (enough : letters.length < fuel) :
    Reads (Literal.stringFrom start fuel taken) (letters.flatMap Letter.text ++ ['\x22'])
      (String.ofList (taken.reverse ++ letters.map Letter.value)) rest := by
  induction letters generalizing taken fuel with
  | nil =>
      obtain ⟨fuel, rfl⟩ : ∃ less, fuel = less + 1 := ⟨fuel - 1, by omega⟩
      unfold Literal.stringFrom
      refine (scan (.current _)).look_bind ?_
      refine (scan (.step _ _)).bind_look ?_
      rw [List.map_nil, List.append_nil]
      exact pure _ _
  | cons letter letters induction =>
      obtain ⟨fuel, rfl⟩ : ∃ less, fuel = less + 1 := ⟨fuel - 1, by omega⟩
      simp only [List.length_cons] at enough
      have later := induction (letter.value :: taken) fuel (by omega)
      rw [List.reverse_cons, List.append_assoc, List.singleton_append] at later
      rw [List.flatMap_cons, List.append_assoc]
      unfold Literal.stringFrom
      cases letter with
      | plain character noQuote noMark =>
          refine (scan (.current _)).look_bind ?_
          refine (scan (.step character _)).bind ?_
          rw [if_neg noQuote, if_neg noMark]
          exact later
      | escape character =>
          refine (scan (.current _)).look_bind ?_
          refine (scan (.step '\x5c' _)).bind ?_
          refine (scan (.current _)).look_bind ?_
          exact (scan (.step character _)).bind later

theorem length_le_letters {quote : Char} (letters : List (Letter quote)) :
    letters.length ≤ (letters.flatMap Letter.text).length := by
  induction letters with
  | nil => exact Nat.le_refl _
  | cons letter letters induction =>
      have one : 1 ≤ letter.text.length := by cases letter <;> simp [Letter.text]
      rw [List.length_cons, List.flatMap_cons, List.length_append]
      omega

theorem string? (letters : List (Letter '\x22')) :
    Reads Literal.string? ('\x22' :: (letters.flatMap Letter.text ++ ['\x22']))
      (some (String.ofList (letters.map Letter.value))) rest := by
  unfold Literal.string?
  refine (scan (.current _)).look_bind ?_
  refine position_bind fun start => remaining_bind fun steps enough => ?_
  have more : letters.length < steps := by
    have bound := length_le_letters letters
    simp only [List.length_append, List.length_cons] at enough
    omega
  refine (scan (.step '\x22' _)).bind ?_
  exact (stringFrom start letters [] steps more).bind_look (pure _ _)

theorem string?_none (noQuote : rest.head? ≠ some '\x22') :
    Reads (Literal.string? : Parser Cursor (Option String)) [] none rest := by
  have differs : (rest.head? == some '\x22') = false := beq_false_of_ne noQuote
  unfold Literal.string?
  refine (scan (.current _)).look_bind ?_
  rw [List.nil_append, differs]
  exact pure _ _

/-- The character between the quotes is looked at, and the mark of escapes in front of it is
consumed. -/
theorem quoted?_letter (letter : Letter '\x27') (rest : List Char) : ∃ mark character,
    letter.text = mark ++ [character] ∧
      Text.Reads Literal.quoted? mark (some letter.value) (character :: rest) := by
  cases letter with
  | plain character noQuote noMark =>
      refine ⟨[], character, rfl, ?_⟩
      unfold Literal.quoted?
      refine Text.Reads.look_bind (.current _) ?_
      split
      · rename_i same
        cases same
        exact absurd rfl noMark
      · exact .pure _ _
  | escape character =>
      refine ⟨['\x5c'], character, rfl, ?_⟩
      unfold Literal.quoted?
      refine Text.Reads.look_bind (.current _) ?_
      refine Text.Reads.bind_look (.step '\x5c' _) ?_
      exact Text.Reads.look_bind (.current _) (.pure _ _)

theorem char? (letter : Letter '\x27') :
    Reads Literal.char? ('\x27' :: (letter.text ++ ['\x27'])) (some letter.value) rest := by
  obtain ⟨mark, character, text, reads⟩ := quoted?_letter letter ('\x27' :: rest)
  have spelled : '\x27' :: (letter.text ++ ['\x27']) =
      ['\x27'] ++ (mark ++ ([character] ++ ['\x27'])) := by
    simp [text]
  rw [spelled]
  unfold Literal.char?
  refine (scan (.current _)).look_bind ?_
  refine position_bind fun start => ?_
  refine (scan (.step '\x27' _)).bind ?_
  refine (scan reads).bind ?_
  refine (scan (.step character _)).bind ?_
  exact (scan (.accept '\x27' _)).bind_look (pure _ _)

theorem char?_none (noQuote : rest.head? ≠ some '\x27') :
    Reads (Literal.char? : Parser Cursor (Option Char)) [] none rest := by
  have differs : (rest.head? == some '\x27') = false := beq_false_of_ne noQuote
  unfold Literal.char?
  refine (scan (.current _)).look_bind ?_
  rw [List.nil_append, differs]
  exact pure _ _

end Parser.Reads

end Stencil
