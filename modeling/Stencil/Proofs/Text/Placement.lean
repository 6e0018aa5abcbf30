import Stencil.Proofs.Text.Tracked

/-!
# Sources placed in a text

The line of a place is found by halving the table of the offsets at which lines begin.  It is one
more than the newlines in front of the place, and the column is one more than the characters since
the last of them; so a position depends on the characters in front of it only.

A source may be read in place of a later part of a text: it answers as a cursor over the whole text
does, and its places lie a fixed number of bytes before those of the cursor.  A source placed in its
own text is the case where that number is zero.
-/

namespace Stencil.Text

theorem before_append (characters rest : List Char) :
    before (characters ++ rest) (byteLength characters) = characters := by
  induction characters with
  | nil =>
      cases rest with
      | nil => rfl
      | cons character rest =>
          have positive := character.utf8Size_pos
          exact if_neg (by simp only [byteLength]; omega)
  | cons character characters induction =>
      rw [List.cons_append, before, byteLength, if_pos (Nat.le_add_right _ _),
        Nat.add_sub_cancel_left, induction]

theorem newlineEnds_append (offset : Nat) (left right : List Char) :
    newlineEnds offset (left ++ right) =
      newlineEnds offset left ++ newlineEnds (offset + byteLength left) right := by
  induction left generalizing offset with
  | nil => rfl
  | cons character characters induction =>
      simp only [List.cons_append, newlineEnds, byteLength, induction, ← Nat.add_assoc]
      split
      · rename_i isNewline
        subst isNewline
        rfl
      · rfl

theorem length_newlineEnds (offset : Nat) (text : List Char) :
    (newlineEnds offset text).length = text.count '\n' := by
  induction text generalizing offset with
  | nil => rfl
  | cons character characters induction =>
      rw [newlineEnds, List.count_cons]
      split
      · rename_i isNewline
        simp [induction, isNewline]
      · rename_i other
        simp [induction, other]

/-- A newline ends behind the offset that its text begins at, and at the end of the text at most. -/
theorem mem_newlineEnds {offset place : Nat} {text : List Char}
    (member : place ∈ newlineEnds offset text) :
    offset < place ∧ place ≤ offset + byteLength text := by
  induction text generalizing offset with
  | nil => cases member
  | cons character characters induction =>
      have positive := character.utf8Size_pos
      rw [newlineEnds] at member
      rw [byteLength]
      split at member
      · rcases List.mem_cons.mp member with rfl | later
        · omega
        · have bounds := induction later
          omega
      · have bounds := induction member
        omega

/-- Where the entries of a range up to a place are not beyond an offset and those from there on are,
halving the range finds the place. -/
theorem searchBeyond_eq {table : Array Nat} {offset place : Nat}
    (within : ∀ index < place, table.getD index 0 ≤ offset)
    (beyond : ∀ index, place ≤ index → index < table.size → offset < table.getD index 0)
    {fuel low high : Nat} (enough : high ≤ low + fuel) (lower : low ≤ place) (upper : place ≤ high)
    (inTable : high ≤ table.size) : searchBeyond table offset fuel low high = place := by
  induction fuel generalizing low high with
  | zero =>
      rw [searchBeyond]
      omega
  | succ fuel induction =>
      rw [searchBeyond]
      split
      · rename_i more
        dsimp only
        split
        · rename_i passed
          refine induction (by omega) ?_ upper inTable
          refine Nat.lt_of_not_le fun early => ?_
          exact absurd passed (Nat.not_le.mpr (beyond _ early (by omega)))
        · rename_i exceeded
          refine induction (by omega) lower ?_ (by omega)
          exact Nat.le_of_not_lt fun early => exceeded (within _ early)
      · omega

theorem partitionPoint_append {front back : List Nat} {offset : Nat}
    (within : ∀ entry ∈ front, entry ≤ offset) (beyond : ∀ entry ∈ back, offset < entry) :
    partitionPoint (front ++ back).toArray offset = front.length := by
  apply searchBeyond_eq
  · intro index less
    simpa [Array.getD_eq_getD_getElem?, List.getElem?_append_left less, less] using
      within _ (List.getElem_mem less)
  · intro index early less
    have less' : index - front.length < back.length := by
      simp at less
      omega
    simpa [Array.getD_eq_getD_getElem?, List.getElem?_append_right early, less'] using
      beyond _ (List.getElem_mem less')
  · omega
  · omega
  · simp
  · exact Nat.le_refl _

theorem onwards_append (characters rest : List Char) :
    onwards (characters ++ rest) (byteLength characters) = rest := by
  induction characters with
  | nil => cases rest <;> rfl
  | cons character characters induction =>
      have positive := character.utf8Size_pos
      rw [List.cons_append, onwards, byteLength, if_neg (by omega), Nat.add_sub_cancel_left,
        induction]

/-- The last line that begins in a text begins behind its last newline, or with the text. -/
theorem getLast_newlineEnds {lines line : List Char}
    (ends : lines = [] ∨ lines.getLast? = some '\n') (within : '\n' ∉ line) :
    (0 :: newlineEnds 0 (lines ++ line)).getLast? = some (byteLength lines) := by
  have none : newlineEnds (0 + byteLength lines) line = [] := by
    rw [← List.length_eq_zero_iff, length_newlineEnds, List.count_eq_zero]
    exact within
  rw [newlineEnds_append, none, List.append_nil]
  rcases ends with rfl | last
  · rfl
  · obtain ⟨front, rfl⟩ := List.getLast?_eq_some_iff.mp last
    have newline : newlineEnds (0 + byteLength front) ['\n'] = [byteLength front + 1] := by
      rw [Nat.zero_add]
      rfl
    rw [newlineEnds_append, newline, ← List.cons_append, List.getLast?_concat, byteLength_append]
    rfl

/-- The line of a place is one more than the newlines in front of it, and the column is one more
than the characters since the last of them. -/
theorem positionAt_append (rest : List Char) {lines line : List Char}
    (ends : lines = [] ∨ lines.getLast? = some '\n') (within : '\n' ∉ line) :
    positionAt (lines ++ line ++ rest) (byteLength (lines ++ line)) =
      ⟨(lines ++ line).count '\n' + 1, line.length + 1, byteLength (lines ++ line)⟩ := by
  let front := 0 :: newlineEnds 0 (lines ++ line)
  let back := newlineEnds (0 + byteLength (lines ++ line)) rest
  have starts : lineStarts (lines ++ line ++ rest) = (front ++ back).toArray := by
    rw [lineStarts, newlineEnds_append]
    rfl
  have isLine : partitionPoint (front ++ back).toArray (byteLength (lines ++ line)) =
      front.length := by
    apply partitionPoint_append
    · intro entry member
      rcases List.mem_cons.mp member with rfl | later
      · exact Nat.zero_le _
      · have bounds := mem_newlineEnds later
        omega
    · intro entry member
      have bounds := mem_newlineEnds member
      omega
  have size : front.length = (lines ++ line).count '\n' + 1 := by
    rw [List.length_cons, length_newlineEnds]
  have isStart : (front ++ back).toArray.getD (front.length - 1) 0 = byteLength lines := by
    have last := getLast_newlineEnds ends within
    rw [List.getLast?_eq_getElem?] at last
    have less : front.length - 1 < front.length := by omega
    rw [Array.getD_eq_getD_getElem?, List.getElem?_toArray, List.getElem?_append_left less]
    exact congrArg (Option.getD · 0) last
  unfold positionAt
  dsimp only
  rw [starts, isLine, isStart, before_append, onwards_append, size]

/-- A text is split behind its last newline. -/
theorem exists_lastLine (text : List Char) : ∃ lines line, text = lines ++ line ∧
    (lines = [] ∨ lines.getLast? = some '\n') ∧ '\n' ∉ line := by
  refine ⟨(text.reverse.dropWhile (· != '\n')).reverse,
    (text.reverse.takeWhile (· != '\n')).reverse, ?_, ?_, ?_⟩
  · rw [← List.reverse_append, List.takeWhile_append_dropWhile, List.reverse_reverse]
  · rw [List.getLast?_reverse, List.reverse_eq_nil_iff]
    cases ended : text.reverse.dropWhile (· != '\n') with
    | nil => exact .inl rfl
    | cons character characters =>
        have stops := List.head?_dropWhile_not (· != '\n') text.reverse
        rw [ended] at stops
        right
        simpa using stops
  · rw [List.mem_reverse]
    intro member
    have within := List.all_eq_true.mp List.all_takeWhile _ member
    simp at within

namespace Cursor

theorem position_eq (cursor : Cursor) :
    cursor.position = positionAt cursor.text cursor.offset := rfl

/-- The position of a place depends on the characters in front of it only. -/
theorem position_of_passed {left right : Cursor} (same : left.passed = right.passed) :
    left.position = right.position := by
  obtain ⟨lines, line, isPassed, ends, within⟩ := exists_lastLine left.passed.reverse
  have passed : right.passed.reverse = lines ++ line := by
    rw [← same]
    exact isPassed
  rw [position_eq, position_eq, text, text, offset_eq, offset_eq, ← byteLength_reverse left.passed,
    ← byteLength_reverse right.passed, isPassed, passed, positionAt_append _ ends within,
    positionAt_append _ ends within]

/-- The same place in a text that has more characters in front, given last first. -/
def behind (passed : List Char) (cursor : Cursor) : Cursor :=
  between (cursor.passed ++ passed) cursor.rest

variable {passed : List Char} {cursor found : Cursor}

@[simp]
theorem rest_behind : (cursor.behind passed).rest = cursor.rest := rfl

theorem remaining_behind : (cursor.behind passed).remaining = cursor.remaining :=
  cursor.remaining_eq.symm

theorem text_behind : (cursor.behind passed).text = passed.reverse ++ cursor.text := by
  simp [behind, text]

theorem offset_behind : (cursor.behind passed).offset = cursor.offset + byteLength passed := by
  rw [behind, offset_between, byteLength_append, cursor.offset_eq]

theorem advance_behind : (cursor.behind passed).advance = cursor.advance.behind passed := by
  cases next : cursor.rest with
  | nil =>
      rw [advance_of_rest_nil next]
      exact advance_of_rest_nil next
  | cons character rest =>
      have place : cursor = between cursor.passed (character :: rest) := by
        rw [← next, ← eq_between]
      rw [place, advance_between_cons]
      exact advance_between_cons _ _ _

/-- A place behind more characters is reached exactly if it is there. -/
theorem seek?_behind (target : Nat) :
    (cursor.behind passed).seek? (target + byteLength passed) =
      (cursor.seek? target).map (behind passed) := by
  cases sought : cursor.seek? target with
  | some found =>
      obtain ⟨text, offset⟩ := seek?_eq_some_iff.mp sought
      apply seek?_eq_some_iff.mpr
      rw [text_behind, text_behind, offset_behind, text, offset]
      exact ⟨rfl, rfl⟩
  | none =>
      rw [Option.map_none, Option.eq_none_iff_forall_ne_some]
      intro found isFound
      obtain ⟨text, offset⟩ := seek?_eq_some_iff.mp isFound
      have start : (ofList cursor.text |>.behind passed).text = found.text := by
        rw [text_behind, text_ofList, text, text_behind]
      have order : (ofList cursor.text |>.behind passed).offset ≤ found.offset := by
        rw [offset_behind, offset]
        exact Nat.add_le_add_right (Nat.zero_le target) _
      obtain ⟨middle, isPassed, isRest⟩ := exists_middle start order
      have there : cursor.seek? target = some (between middle found.rest) := by
        apply seek?_eq_some_iff.mpr
        constructor
        · rw [text_between, ← isRest]
          rfl
        · have total := congrArg byteLength isPassed
          rw [← found.offset_eq, offset, byteLength_append] at total
          exact (Nat.add_right_cancel total).symm
      rw [sought] at there
      cases there

end Cursor

/-- How a source is read in place of a part of a text. -/
structure Placement (σ : Type) [Source σ] (text : List Char) where
  /-- The cursor over the whole text. -/
  cursor : σ → Cursor
  /-- Bytes in front of the part. -/
  shift : Nat
  /-- Where a place of the part lies in the whole text. -/
  position : Position → Position
  pointer_eq (source : σ) : Source.pointer source + shift = (cursor source).offset
  position_eq (source : σ) : (cursor source).text = text →
    position (Source.position source) = (cursor source).position
  hasEnded_eq (source : σ) : Source.hasEnded source = (cursor source).rest.isEmpty
  remaining_eq (source : σ) : Source.remaining source = (cursor source).remaining
  current_eq (source : σ) :
    ((Source.current : StateM σ (Option Char)).run source).1 = (cursor source).rest.head?
  cursor_current (source : σ) :
    cursor ((Source.current : StateM σ (Option Char)).run source).2 = cursor source
  step_eq (source : σ) :
    ((Source.step : StateM σ Bool).run source).1 = !(cursor source).rest.isEmpty
  cursor_step (source : σ) :
    cursor ((Source.step : StateM σ Bool).run source).2 = (cursor source).advance
  seek_eq (target : Nat) (source : σ) :
    ((Source.seek target : StateM σ Bool).run source).1 =
      ((cursor source).seek? (target + shift)).isSome
  cursor_seek (target : Nat) (source : σ) :
    cursor ((Source.seek target : StateM σ Bool).run source).2 =
      ((cursor source).seek? (target + shift)).getD (cursor source)

namespace Placement

variable {σ : Type} [Source σ]

/-- A source is read in place of its own text. -/
def itself [Tracked σ] (text : List Char) : Placement σ text where
  cursor := Tracked.cursor
  shift := 0
  position := id
  pointer_eq := Tracked.pointer_eq
  position_eq source _ := Tracked.position_eq source
  hasEnded_eq := Tracked.hasEnded_eq
  remaining_eq := Tracked.remaining_eq
  current_eq := Tracked.current_eq
  cursor_current := Tracked.cursor_current
  step_eq := Tracked.step_eq
  cursor_step := Tracked.cursor_step
  seek_eq := Tracked.seek_eq
  cursor_seek := Tracked.cursor_seek

/-- A source is read behind more characters, given last first. -/
def behind [Tracked σ] (passed text : List Char) : Placement σ text where
  cursor source := (Tracked.cursor source).behind passed
  shift := byteLength passed
  position position := positionAt text (position.offset + byteLength passed)
  pointer_eq source := by rw [Cursor.offset_behind, Tracked.pointer_eq]
  position_eq source isText := by
    rw [Cursor.position_eq, isText, Cursor.offset_behind, Tracked.position_eq]
    rfl
  hasEnded_eq := Tracked.hasEnded_eq
  remaining_eq source := (Tracked.remaining_eq source).trans Cursor.remaining_behind.symm
  current_eq := Tracked.current_eq
  cursor_current source := congrArg (Cursor.behind passed) (Tracked.cursor_current source)
  step_eq := Tracked.step_eq
  cursor_step source := by rw [Tracked.cursor_step, Cursor.advance_behind]
  seek_eq target source := by
    rw [Cursor.seek?_behind, Option.isSome_map, Tracked.seek_eq]
  cursor_seek target source := by
    rw [Cursor.seek?_behind, Tracked.cursor_seek]
    cases (Tracked.cursor source).seek? target <;> rfl

/-- A source is read at a place that is at or after an anchor. -/
def Stands {anchor : Cursor} (placement : Placement σ anchor.text) (source : σ)
    (cursor : Cursor) : Prop :=
  placement.cursor source = cursor ∧ anchor.Reaches cursor

end Placement

end Stencil.Text
