import Stencil.Text.Position

/-!
# Reading places in a text

A cursor is a text cut in two: the characters already passed, last first, and those to come.  Its
offset is the byte length of the passed part, so every cursor stands on a character boundary of its
text.  `seek?_eq_some_iff` says that a cursor finds the place of an offset exactly if the offset is
such a boundary.
-/

namespace Stencil.Text

/-- Length of the UTF-8 form. -/
def byteLength : List Char → Nat
  | [] => 0
  | character :: characters => character.utf8Size + byteLength characters

theorem byteLength_append (left right : List Char) :
    byteLength (left ++ right) = byteLength left + byteLength right := by
  induction left with
  | nil => simp [byteLength]
  | cons character characters induction =>
      simp [byteLength, induction, Nat.add_assoc]

theorem byteLength_reverse (characters : List Char) :
    byteLength characters.reverse = byteLength characters := by
  induction characters with
  | nil => rfl
  | cons character characters induction =>
      simp [byteLength, byteLength_append, induction, Nat.add_comm]

theorem length_le_byteLength (characters : List Char) :
    characters.length ≤ byteLength characters := by
  induction characters with
  | nil => exact Nat.le_refl _
  | cons character characters induction =>
      have positive := character.utf8Size_pos
      simp only [List.length_cons, byteLength]
      omega

theorem eq_nil_of_byteLength_eq_zero {characters : List Char}
    (empty : byteLength characters = 0) : characters = [] := by
  have bound := length_le_byteLength characters
  exact List.eq_nil_of_length_eq_zero (by omega)

/-- A text with a reading place in it. -/
structure Cursor where
  /-- The characters before the place, last first. -/
  passed : List Char
  /-- The characters from the place on. -/
  rest : List Char
  /-- Bytes before the place. -/
  offset : Nat
  /-- Bytes from the place on. -/
  remaining : Nat
  offset_eq : offset = byteLength passed
  remaining_eq : remaining = byteLength rest

namespace Cursor

theorem eq_of_passed_of_rest {left right : Cursor} (passed : left.passed = right.passed)
    (rest : left.rest = right.rest) : left = right := by
  obtain ⟨leftPassed, leftRest, leftOffset, leftRemaining, leftOffsetEq, leftRemainingEq⟩ := left
  obtain ⟨rightPassed, rightRest, rightOffset, rightRemaining, rightOffsetEq, rightRemainingEq⟩ :=
    right
  simp only at passed rest
  subst passed rest leftOffsetEq leftRemainingEq rightOffsetEq rightRemainingEq
  rfl

/-- The place between two parts of a text. -/
def between (passed rest : List Char) : Cursor :=
  ⟨passed, rest, byteLength passed, byteLength rest, rfl, rfl⟩

/-- The beginning of a text. -/
def ofList (text : List Char) : Cursor :=
  between [] text

/-- The beginning of a text. -/
def ofString (text : String) : Cursor :=
  ofList text.toList

instance : Inhabited Cursor := ⟨ofList []⟩

/-- The whole text. -/
def text (cursor : Cursor) : List Char :=
  cursor.passed.reverse ++ cursor.rest

/-- Bytes of the whole text. -/
def size (cursor : Cursor) : Nat :=
  cursor.offset + cursor.remaining

/-- Line, column and offset of the place. -/
def position (cursor : Cursor) : Position :=
  positionAt cursor.text cursor.offset

/-- The place after the next character; the end stays where it is. -/
def advance (cursor : Cursor) : Cursor :=
  match cursor with
  | ⟨passed, character :: rest, offset, remaining, offset_eq, remaining_eq⟩ =>
      ⟨character :: passed, rest, offset + character.utf8Size, remaining - character.utf8Size,
        by simp [byteLength, offset_eq, Nat.add_comm],
        by simp [byteLength, remaining_eq]⟩
  | cursor => cursor

/-- The place before the last passed character; the beginning stays where it is. -/
def retreat (cursor : Cursor) : Cursor :=
  match cursor with
  | ⟨character :: passed, rest, offset, remaining, offset_eq, remaining_eq⟩ =>
      ⟨passed, character :: rest, offset - character.utf8Size, remaining + character.utf8Size,
        by simp [byteLength, offset_eq],
        by simp [byteLength, remaining_eq, Nat.add_comm]⟩
  | cursor => cursor

/-- Walks back to an offset, if a boundary is there, over at most `fuel` characters. -/
def seekBack? (target : Nat) : Nat → Cursor → Option Cursor
  | 0, cursor => if cursor.offset = target then some cursor else none
  | fuel + 1, cursor =>
      if cursor.offset ≤ target then
        if cursor.offset = target then some cursor else none
      else seekBack? target fuel cursor.retreat

/-- Walks forward to an offset, if a boundary is there, over at most `fuel` characters. -/
def seekForward? (target : Nat) : Nat → Cursor → Option Cursor
  | 0, cursor => if cursor.offset = target then some cursor else none
  | fuel + 1, cursor =>
      if target ≤ cursor.offset then
        if cursor.offset = target then some cursor else none
      else seekForward? target fuel cursor.advance

/-- The place with the given offset, if it is a character boundary of the text. -/
def seek? (target : Nat) (cursor : Cursor) : Option Cursor :=
  if target < cursor.offset then seekBack? target (cursor.offset - target) cursor
  else seekForward? target (target - cursor.offset) cursor

@[simp]
theorem passed_between (passed rest : List Char) : (between passed rest).passed = passed := rfl

@[simp]
theorem rest_between (passed rest : List Char) : (between passed rest).rest = rest := rfl

theorem eq_between (cursor : Cursor) : cursor = between cursor.passed cursor.rest :=
  eq_of_passed_of_rest rfl rfl

theorem text_ofList (text : List Char) : (ofList text).text = text := rfl

theorem advance_between_cons (passed rest : List Char) (character : Char) :
    (between passed (character :: rest)).advance = between (character :: passed) rest :=
  eq_of_passed_of_rest rfl rfl

theorem retreat_between_cons (passed rest : List Char) (character : Char) :
    (between (character :: passed) rest).retreat = between passed (character :: rest) :=
  eq_of_passed_of_rest rfl rfl

theorem advance_of_rest_nil {cursor : Cursor} (ended : cursor.rest = []) :
    cursor.advance = cursor := by
  obtain ⟨passed, rest, offset, remaining, offset_eq, remaining_eq⟩ := cursor
  subst ended
  rfl

theorem retreat_of_passed_nil {cursor : Cursor} (atStart : cursor.passed = []) :
    cursor.retreat = cursor := by
  obtain ⟨passed, rest, offset, remaining, offset_eq, remaining_eq⟩ := cursor
  subst atStart
  rfl

@[simp]
theorem text_advance (cursor : Cursor) : cursor.advance.text = cursor.text := by
  obtain ⟨passed, rest, offset, remaining, offset_eq, remaining_eq⟩ := cursor
  cases rest with
  | nil => rfl
  | cons character rest => simp [advance, text]

@[simp]
theorem text_retreat (cursor : Cursor) : cursor.retreat.text = cursor.text := by
  obtain ⟨passed, rest, offset, remaining, offset_eq, remaining_eq⟩ := cursor
  cases passed with
  | nil => rfl
  | cons character passed => simp [retreat, text]

@[simp]
theorem offset_between (passed rest : List Char) :
    (between passed rest).offset = byteLength passed := rfl

@[simp]
theorem text_between (passed rest : List Char) :
    (between passed rest).text = passed.reverse ++ rest := rfl

/-- Of two places in one text, the later one has passed what the earlier one has, and more. -/
theorem exists_middle {earlier later : Cursor} (text : earlier.text = later.text)
    (order : earlier.offset ≤ later.offset) :
    ∃ middle, later.passed = middle ++ earlier.passed ∧
      earlier.rest = middle.reverse ++ later.rest := by
  rcases List.append_eq_append_iff.mp text with ⟨middle, first, second⟩ | ⟨middle, first, second⟩
  · exact ⟨middle.reverse, by simpa using congrArg List.reverse first, by simpa using second⟩
  · have nothing : middle = [] := eq_nil_of_byteLength_eq_zero (by
      have total := congrArg byteLength first
      rw [byteLength_append, byteLength_reverse, byteLength_reverse, ← earlier.offset_eq,
        ← later.offset_eq] at total
      omega)
    subst nothing
    exact ⟨[], by simpa using first.symm, by simpa using second.symm⟩

theorem seekBack?_sound {target fuel : Nat} {cursor found : Cursor}
    (reached : seekBack? target fuel cursor = some found) :
    found.text = cursor.text ∧ found.offset = target := by
  induction fuel generalizing cursor with
  | zero =>
      obtain ⟨here, rfl⟩ : cursor.offset = target ∧ cursor = found := by
        simpa [seekBack?] using reached
      exact ⟨rfl, here⟩
  | succ fuel induction =>
      rw [seekBack?] at reached
      split at reached
      · obtain ⟨here, rfl⟩ : cursor.offset = target ∧ cursor = found := by simpa using reached
        exact ⟨rfl, here⟩
      · simpa using induction reached

theorem seekForward?_sound {target fuel : Nat} {cursor found : Cursor}
    (reached : seekForward? target fuel cursor = some found) :
    found.text = cursor.text ∧ found.offset = target := by
  induction fuel generalizing cursor with
  | zero =>
      obtain ⟨here, rfl⟩ : cursor.offset = target ∧ cursor = found := by
        simpa [seekForward?] using reached
      exact ⟨rfl, here⟩
  | succ fuel induction =>
      rw [seekForward?] at reached
      split at reached
      · obtain ⟨here, rfl⟩ : cursor.offset = target ∧ cursor = found := by simpa using reached
        exact ⟨rfl, here⟩
      · simpa using induction reached

theorem seekBack?_between (middle passed rest : List Char) (fuel : Nat)
    (enough : byteLength middle ≤ fuel) :
    seekBack? (byteLength passed) fuel (between (middle ++ passed) rest) =
      some (between passed (middle.reverse ++ rest)) := by
  induction middle generalizing fuel rest with
  | nil => cases fuel <;> simp [seekBack?]
  | cons character middle induction =>
      have positive := character.utf8Size_pos
      simp only [byteLength] at enough
      obtain ⟨fuel, rfl⟩ : ∃ less, fuel = less + 1 := ⟨fuel - 1, by omega⟩
      have beyond : ¬ (between (character :: middle ++ passed) rest).offset ≤
          byteLength passed := by
        simp [byteLength, byteLength_append]
        omega
      rw [seekBack?, if_neg beyond, List.cons_append, retreat_between_cons,
        induction (character :: rest) fuel (by omega)]
      simp

theorem seekForward?_between (middle passed rest : List Char) (fuel : Nat)
    (enough : byteLength middle ≤ fuel) :
    seekForward? (byteLength (middle.reverse ++ passed)) fuel (between passed (middle ++ rest)) =
      some (between (middle.reverse ++ passed) rest) := by
  induction middle generalizing fuel passed with
  | nil => cases fuel <;> simp [seekForward?]
  | cons character middle induction =>
      have positive := character.utf8Size_pos
      simp only [byteLength] at enough
      obtain ⟨fuel, rfl⟩ : ∃ less, fuel = less + 1 := ⟨fuel - 1, by omega⟩
      have before : ¬ byteLength ((character :: middle).reverse ++ passed) ≤
          (between passed (character :: middle ++ rest)).offset := by
        simp [byteLength, byteLength_append]
        omega
      rw [seekForward?, if_neg before, List.cons_append, advance_between_cons]
      simpa using induction (character :: passed) fuel (by omega)

theorem seek?_eq_some_iff {cursor found : Cursor} {target : Nat} :
    cursor.seek? target = some found ↔ found.text = cursor.text ∧ found.offset = target := by
  constructor
  · intro reached
    unfold seek? at reached
    split at reached
    · exact seekBack?_sound reached
    · exact seekForward?_sound reached
  · rintro ⟨text, rfl⟩
    unfold seek?
    split
    · obtain ⟨middle, passed, rest⟩ := exists_middle text (by omega)
      have walk := seekBack?_between middle found.passed cursor.rest (byteLength middle) (by omega)
      rw [← passed, ← rest, ← eq_between, ← eq_between, ← found.offset_eq] at walk
      have distance : cursor.offset - found.offset = byteLength middle := by
        rw [cursor.offset_eq, found.offset_eq, passed, byteLength_append]
        omega
      rw [distance, walk]
    · obtain ⟨middle, passed, rest⟩ := exists_middle text.symm (by omega)
      have walk := seekForward?_between middle.reverse cursor.passed found.rest (byteLength middle)
        (Nat.le_of_eq (byteLength_reverse middle))
      rw [List.reverse_reverse, ← passed, ← rest, ← eq_between, ← eq_between, ← found.offset_eq]
        at walk
      have distance : found.offset - cursor.offset = byteLength middle := by
        rw [cursor.offset_eq, found.offset_eq, passed, byteLength_append]
        omega
      rw [distance, walk]

/-- Two cursors at one offset of one text leave the same characters. -/
theorem eq_of_text_of_offset {left right : Cursor} (text : left.text = right.text)
    (offset : left.offset = right.offset) : left = right := by
  have found : left.seek? right.offset = some right := seek?_eq_some_iff.mpr ⟨text.symm, rfl⟩
  have itself : left.seek? right.offset = some left := seek?_eq_some_iff.mpr ⟨rfl, offset⟩
  exact Option.some.inj (itself.symm.trans found)

end Cursor

end Stencil.Text
