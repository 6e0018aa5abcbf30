import Stencil.Proofs.RoundTrip.Literal

/-!
# How spellings begin

The first character of a spelling tells what kind of thing it is.
-/

namespace Stencil

open Text

/-- An expression is an operand or an operator between two expressions. -/
theorem Expression.operand_induction {motive : Expression → Prop}
    (literal : ∀ value, motive (.literal value)) (reference : ∀ path, motive (.reference path))
    (list : ∀ isMutable items, motive (.list isMutable items))
    (binary : ∀ left operator right, motive left → motive right →
      motive (.binary left operator right)) (expression : Expression) : motive expression := by
  cases expression with
  | literal value => exact literal value
  | reference path => exact reference path
  | list isMutable items => exact list isMutable items
  | binary left operator right =>
      exact binary left operator right
        (operand_induction literal reference list binary left)
        (operand_induction literal reference list binary right)

/-- Whether a number may begin with a character. -/
def beginsNumber (character : Char) : Bool :=
  character == '-' || character.isDigit

/-- Whether a literal or a path without marks may begin with a character. -/
def beginsPlain (character : Char) : Bool :=
  isNameInitial character || beginsNumber character || ['\x22', '\x27'].contains character

/-- Whether an expression may begin with a character. -/
def beginsExpression (character : Char) : Bool :=
  beginsPlain character || ['@', '('].contains character

theorem beginsPlain_of_isNameInitial {character : Char} (initial : isNameInitial character = true) :
    beginsPlain character = true := by
  simp [beginsPlain, initial]

theorem beginsExpression_of_beginsPlain {character : Char} (plain : beginsPlain character = true) :
    beginsExpression character = true := by
  simp [beginsExpression, plain]

theorem isTokenSpace_of_begins {character : Char} (begins : beginsExpression character = true) :
    isTokenSpace character = false := by
  refine Bool.eq_false_iff.mpr fun space => ?_
  have cases : character = ' ' ∨ character = '\t' := by simpa [isTokenSpace] using space
  rcases cases with rfl | rfl
  · exact absurd begins (by decide)
  · exact absurd begins (by decide)

theorem isDigit_of_isNameInitial {character : Char} (initial : isNameInitial character = true) :
    character.isDigit = false := by
  refine Bool.eq_false_iff.mpr fun digit => ?_
  have bounds : 48 ≤ character.toNat ∧ character.toNat ≤ 57 := by
    simpa [Char.isDigit, UInt32.le_iff_toNat_le] using digit
  simp only [isNameInitial, Bool.or_eq_true, beq_iff_eq] at initial
  rcases initial with letter | rfl
  · have before : character.toNat < 0x41 := by omega
    unfold isAlphabetic alphabeticRanges at letter
    rw [CodeRanges.contains, if_pos before] at letter
    cases letter
  · exact absurd digit (by decide)

/-- A text begins with a character that has a property. -/
def Begins (property : Char → Bool) (text : List Char) : Prop :=
  ∃ character more, text = character :: more ∧ property character = true

namespace Begins

variable {property other : Char → Bool} {text : List Char}

theorem append (begins : Begins property text) (rest : List Char) :
    Begins property (text ++ rest) := by
  obtain ⟨character, more, rfl, has⟩ := begins
  exact ⟨character, more ++ rest, rfl, has⟩

theorem mono (begins : Begins property text)
    (implies : ∀ character, property character = true → other character = true) :
    Begins other text := by
  obtain ⟨character, more, same, has⟩ := begins
  exact ⟨character, more, same, implies character has⟩

theorem head?_ne (begins : Begins property text) {character : Char}
    (lacks : property character = false) : text.head? ≠ some character := by
  obtain ⟨first, more, rfl, has⟩ := begins
  rintro ⟨⟩
  rw [lacks] at has
  cases has

theorem any_eq_false (begins : Begins property text)
    (apart : ∀ character, property character = true → other character = false) :
    text.head?.any other = false := by
  obtain ⟨first, more, rfl, has⟩ := begins
  exact apart first has

theorem any_eq_true (begins : Begins property text) : text.head?.any property = true := by
  obtain ⟨first, more, rfl, has⟩ := begins
  exact has

theorem length_pos (begins : Begins property text) : 0 < text.length := by
  obtain ⟨first, more, rfl, -⟩ := begins
  exact Nat.succ_pos _

end Begins

theorem begins_name {name : String} (valid : isName name = true) :
    Begins isNameInitial name.toList := by
  simp only [isName, Bool.and_eq_true] at valid
  cases letters : name.toList with
  | nil =>
      rw [letters] at valid
      cases valid.1
  | cons first more =>
      rw [letters] at valid
      exact ⟨first, more, rfl, valid.1⟩

theorem all_of_isName {name : String} (valid : isName name = true) :
    name.toList.all isNamePart = true := by
  simp only [isName, Bool.and_eq_true] at valid
  exact valid.2

theorem Digits.begins_text (number : Digits) : Begins beginsNumber number.text := by
  unfold Digits.text
  cases number.isNegative with
  | true => exact ⟨'-', number.digits, rfl, by decide⟩
  | false =>
      have all := number.areDigits
      cases written : number.digits with
      | nil => exact absurd written number.nonempty
      | cons digit digits =>
          rw [written, List.all_cons, Bool.and_eq_true] at all
          exact ⟨digit, digits, rfl, by simp [beginsNumber, all.1]⟩

theorem begins_number (number : Int) : Begins beginsNumber (toString number).toList := by
  rw [← Digits.text_ofInt]
  exact (Digits.ofInt number).begins_text

theorem Primitive.Spelling.begins {value : Primitive} {text : List Char}
    (spelled : value.Spelling text) : Begins beginsPlain text := by
  have digits (number : Digits) : Begins beginsPlain number.text :=
    number.begins_text.mono fun character has => by simp [beginsPlain, has]
  cases spelled with
  | int number same => exact digits number
  | long number same => exact (digits number).append ['L']
  | wide number same noInt => exact digits number
  | boolean value => cases value <;> exact ⟨_, _, rfl, by decide⟩
  | char letter => exact ⟨'\x27', _, rfl, by decide⟩
  | string letters => exact ⟨'\x22', _, rfl, by decide⟩

/-- A segment begins with a name, unless it is an index. -/
theorem Segment.Spelling.begins {segment : Segment} {text : List Char}
    (spelled : segment.Spelling text) (noIndex : segment.isIndex = false) :
    Begins isNameInitial text := by
  cases spelled with
  | property valid => exact begins_name valid
  | call silent valid spelled => exact (begins_name valid).append _
  | index before after spelled => cases noIndex

theorem Path.Spelling.begins {path : Path} {text : List Char} (spelled : path.Spelling text) :
    Begins beginsExpression text := by
  cases spelled with
  | @intro segment path text later noIndex spelled spelledLater =>
      unfold Segment.mark
      cases segment.isSilent with
      | true => exact ⟨'@', _, rfl, by decide⟩
      | false =>
          refine Begins.append ((spelled.begins noIndex).mono fun character has => ?_) later
          exact beginsExpression_of_beginsPlain (beginsPlain_of_isNameInitial has)

/-- Behind a segment comes a point, a bracket or nothing. -/
theorem Path.FurtherSpelling.begins {path : List Segment} {text : List Char}
    (spelled : Path.FurtherSpelling path text) :
    text = [] ∨ Begins (fun character => ['.', '['].contains character) text := by
  cases spelled with
  | nil => exact .inl rfl
  | cons spelled spelledLater =>
      right
      cases spelled with
      | property valid => exact ⟨'.', _, rfl, by decide⟩
      | call silent valid spelled => exact ⟨'.', _, rfl, by decide⟩
      | index before after spelled => exact ⟨'[', _, rfl, by decide⟩

/-- A text is empty or goes on with a path behind a name. -/
def GoesOn (text : List Char) : Prop :=
  text = [] ∨ Begins (fun character => ['.', '[', '('].contains character) text

theorem Path.FurtherSpelling.goesOn {path : List Segment} {text : List Char}
    (spelled : Path.FurtherSpelling path text) : GoesOn text := by
  rcases spelled.begins with nothing | begins
  · exact .inl nothing
  · right
    apply begins.mono
    intro character mark
    have cases : character = '.' ∨ character = '[' := by simpa using mark
    rcases cases with rfl | rfl <;> decide

theorem GoesOn.head?_append {text : List Char} (goesOn : GoesOn text) {rest : List Char}
    (ends : EndsOperand rest) : (text ++ rest).head?.any isNamePart = false := by
  rcases goesOn with rfl | begins
  · exact ends.isNamePart
  · apply (begins.append rest).any_eq_false
    intro character mark
    have cases : character = '.' ∨ character = '[' ∨ character = '(' := by simpa using mark
    rcases cases with rfl | rfl | rfl <;> rfl

theorem Path.FurtherSpelling.length_le {path : List Segment} {text : List Char}
    (spelled : Path.FurtherSpelling path text) : path.length ≤ text.length := by
  induction path generalizing text with
  | nil => exact Nat.zero_le _
  | cons segment path induction =>
      cases spelled with
      | @cons _ _ text later spelled spelledLater =>
          have one : 1 ≤ (segment.lead ++ text).length := by
            cases spelled <;> simp [Segment.lead, Segment.isIndex]
          have further := induction spelledLater
          simp only [List.length_append, List.length_cons] at one ⊢
          omega

theorem Expression.Spelling.begins {expression : Expression} {rank : Nat} {text : List Char}
    (spelled : expression.Spelling rank text) : Begins beginsExpression text := by
  induction expression using operand_induction generalizing rank text with
  | literal value =>
      cases spelled with
      | literal spelled => exact spelled.begins.mono fun _ => beginsExpression_of_beginsPlain
      | group before after spelled => exact ⟨'(', _, rfl, by decide⟩
  | reference path =>
      cases spelled with
      | bare isBare spelled => exact spelled.begins
      | marked before after spelled => exact ⟨'@', _, rfl, by decide⟩
      | group before after spelled => exact ⟨'(', _, rfl, by decide⟩
  | list isMutable items =>
      cases spelled with
      | list isMutable spelled => cases isMutable <;> exact ⟨'@', _, rfl, by decide⟩
      | group before after spelled => exact ⟨'(', _, rfl, by decide⟩
  | binary left operator right inductionLeft inductionRight =>
      cases spelled with
      | binary before after leftSpelled leftTight rightSpelled rightTight =>
          exact (inductionLeft leftSpelled).append _
      | group before after spelled => exact ⟨'(', _, rfl, by decide⟩

theorem Expression.begins_print (expression : Expression)
    (valid : expression.isWellFormed = true) : Begins beginsExpression expression.print :=
  (expression.spelling_print valid).begins

theorem ArgumentsSpelling.length_le {items : List Expression} {text : List Char}
    (spelled : ArgumentsSpelling items text) : items.length ≤ text.length := by
  induction items generalizing text with
  | nil => exact Nat.zero_le _
  | cons item items induction =>
      cases spelled with
      | last before after spelled => simp
      | more before after spelled nonempty spelledLater =>
          have further := induction spelledLater
          simp only [List.length_append, List.length_cons]
          omega

end Stencil
