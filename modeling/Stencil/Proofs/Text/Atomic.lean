import Stencil.Proofs.Text.Behind
import Stencil.Proofs.Text.Mirror
import Stencil.Proofs.Text.Occurrence

/-!
# Scans consume what they match, or nothing

At every place of a text in memory a scan that answers consumes exactly the characters that it
answers for, and one that declines leaves the place where it was.
-/

namespace Stencil.Text

open Cursor

theorem utf8ByteSize_ofList (characters : List Char) :
    (String.ofList characters).utf8ByteSize = byteLength characters := by
  induction characters with
  | nil => rfl
  | cons character characters induction =>
      have split : String.ofList (character :: characters) =
          String.singleton character ++ String.ofList characters := by
        rw [String.singleton_eq_ofList, ← String.ofList_append]
        rfl
      rw [split, String.utf8ByteSize_append, String.utf8ByteSize_singleton, induction, byteLength]

/-- An offset at which a text can be cut between two characters. -/
def IsBoundary (text : String) (offset : Nat) : Prop :=
  ∃ before after : String, before ++ after = text ∧ before.utf8ByteSize = offset

theorem IsBoundary.le {text : String} {offset : Nat} (boundary : IsBoundary text offset) :
    offset ≤ text.utf8ByteSize := by
  obtain ⟨before, after, rfl, rfl⟩ := boundary
  rw [String.utf8ByteSize_append]
  exact Nat.le_add_right _ _

namespace Cursor

/-- The places that the operations of a source lead to from the beginning of a text. -/
inductive IsReached (text : String) : Cursor → Prop where
  | start : IsReached text (.ofString text)
  | current {cursor : Cursor} (reached : IsReached text cursor) :
      IsReached text ((Scan.current : StateM Cursor (Option Char)).run cursor).2
  | step {cursor : Cursor} (reached : IsReached text cursor) :
      IsReached text ((Scan.step : StateM Cursor Bool).run cursor).2
  | seek {cursor : Cursor} (reached : IsReached text cursor) (target : Nat) :
      IsReached text ((Source.seek target : StateM Cursor Bool).run cursor).2

theorem text_seek (target : Nat) (cursor : Cursor) :
    ((Source.seek target : StateM Cursor Bool).run cursor).2.text = cursor.text := by
  rw [Scan.seek_run]
  cases found : cursor.seek? target with
  | none => rfl
  | some place => exact (seek?_eq_some_iff.mp found).1

/-- All places of a text are reached, and no others. -/
theorem isReached_iff {text : String} {cursor : Cursor} :
    cursor.IsReached text ↔ cursor.text = text.toList := by
  constructor
  · intro reached
    induction reached with
    | start => exact text_ofList text.toList
    | current _ induction => exact induction
    | step _ induction => exact (text_advance _).trans induction
    | seek _ target induction => exact (text_seek target _).trans induction
  · intro isText
    have start : (ofString text).seek? cursor.offset = some cursor :=
      seek?_eq_some_iff.mpr ⟨isText, rfl⟩
    have reached := IsReached.seek (.start : IsReached text (.ofString text)) cursor.offset
    rw [Scan.seek_run, start] at reached
    exact reached

/-- A place cuts its text in two, and its offset is the size of the first part. -/
theorem split {text : String} (cursor : Cursor) (isText : cursor.text = text.toList) :
    String.ofList cursor.passed.reverse ++ String.ofList cursor.rest = text ∧
      (String.ofList cursor.passed.reverse).utf8ByteSize = cursor.offset := by
  constructor
  · rw [← String.ofList_append]
    exact (congrArg String.ofList isText).trans String.ofList_toList
  · rw [utf8ByteSize_ofList, byteLength_reverse, cursor.offset_eq]

theorem isBoundary_offset {text : String} {cursor : Cursor} (isText : cursor.text = text.toList) :
    IsBoundary text cursor.offset :=
  ⟨_, _, cursor.split isText⟩

/-- A place is found at every boundary of its text, and a place is found nowhere else. -/
theorem exists_seek?_iff {text : String} {cursor : Cursor} (isText : cursor.text = text.toList)
    (target : Nat) : (∃ place, cursor.seek? target = some place) ↔ IsBoundary text target := by
  constructor
  · rintro ⟨place, found⟩
    obtain ⟨same, rfl⟩ := seek?_eq_some_iff.mp found
    exact isBoundary_offset (same.trans isText)
  · rintro ⟨before, after, rfl, rfl⟩
    refine ⟨between before.toList.reverse after.toList, seek?_eq_some_iff.mpr ⟨?_, ?_⟩⟩
    · rw [text_between, List.reverse_reverse, isText, String.toList_append]
    · rw [offset_between, byteLength_reverse, ← utf8ByteSize_ofList, String.ofList_toList]

end Cursor

namespace Scan

variable {α ε : Type}

/-- At a place a scan answers and consumes some characters that come next, and nothing else. -/
def Consumes (scan : StateM Cursor α) (cursor : Cursor) (answer : α) (taken : List Char) : Prop :=
  ∃ rest, cursor.rest = taken ++ rest ∧
    scan.run cursor = pure (answer, between (taken.reverse ++ cursor.passed) rest)

theorem consumes_nothing_iff {scan : StateM Cursor α} {cursor : Cursor} {answer : α} :
    Consumes scan cursor answer [] ↔ scan.run cursor = pure (answer, cursor) := by
  constructor
  · rintro ⟨rest, rfl, ran⟩
    rwa [List.reverse_nil, List.nil_append, ← eq_between] at ran
  · intro ran
    exact ⟨cursor.rest, rfl, by rwa [List.reverse_nil, List.nil_append, ← eq_between]⟩

theorem consumes_accept (character : Char) (cursor : Cursor) :
    cursor.rest.head? = some character ∧ Consumes (accept character) cursor true [character] ∨
      cursor.rest.head? ≠ some character ∧ Consumes (accept character) cursor false [] := by
  by_cases next : cursor.rest.head? = some character
  · obtain ⟨rest, split⟩ := List.head?_eq_some_iff.mp next
    have accepted := accept_run_self character cursor.passed rest
    rw [← split, ← eq_between] at accepted
    exact .inl ⟨next, rest, split, accepted⟩
  · exact .inr ⟨next, consumes_nothing_iff.mpr (accept_run_of_ne character cursor next)⟩

theorem consumes_acceptText_of_isPrefix {literal : String} {cursor : Cursor}
    (begins : literal.toList <+: cursor.rest) :
    Consumes (acceptText literal) cursor true literal.toList := by
  obtain ⟨rest, split⟩ := begins
  have accepted := acceptText_run_self literal cursor.passed rest
  rw [split, ← eq_between] at accepted
  exact ⟨rest, split.symm, accepted⟩

theorem consumes_acceptText (literal : String) (cursor : Cursor) :
    literal.toList <+: cursor.rest ∧ Consumes (acceptText literal) cursor true literal.toList ∨
      ¬literal.toList <+: cursor.rest ∧ Consumes (acceptText literal) cursor false [] := by
  by_cases begins : literal.toList <+: cursor.rest
  · exact .inl ⟨begins, consumes_acceptText_of_isPrefix begins⟩
  · have declined := acceptText_run_of_not_isPrefix literal cursor begins
    exact .inr ⟨begins, consumes_nothing_iff.mpr declined⟩

theorem consumes_isAfter (character : Char) (cursor : Cursor) :
    Consumes (isAfter character) cursor (decide ([character] <:+ cursor.passed.reverse)) [] := by
  have last : [character] <:+ cursor.passed.reverse ↔ cursor.passed.head? = some character := by
    rw [← List.reverse_prefix, List.reverse_reverse, List.reverse_singleton]
    cases cursor.passed with
    | nil => simp
    | cons other passed => simp [eq_comm]
  have answer : (cursor.passed.head? == some character) =
      decide ([character] <:+ cursor.passed.reverse) := by
    rw [Bool.eq_iff_iff, beq_iff_eq, decide_eq_true_iff, last]
  rw [consumes_nothing_iff, isAfter_run, answer]

theorem consumes_skipTo {literal : String} (nonempty : literal ≠ "") (cursor : Cursor) :
    (∃ before, StandsFirst literal.toList before cursor.rest ∧
      Consumes (skipTo literal) cursor true before) ∨
    ¬literal.toList <:+: cursor.rest ∧ Consumes (skipTo literal) cursor false [] := by
  rcases (looksFor_looksAt literal).search_run (mt String.toList_eq_nil_iff.mp nonempty) cursor with
    ⟨before, after, first, split, ran⟩ | ⟨absent, ran⟩
  · exact .inl ⟨before, first, after, split, ran⟩
  · exact .inr ⟨absent, consumes_nothing_iff.mpr ran⟩

theorem consumes_skipPast {literal : String} (nonempty : literal ≠ "") (cursor : Cursor) :
    (∃ before, StandsFirst literal.toList before cursor.rest ∧
      Consumes (skipPast literal) cursor true (before ++ literal.toList)) ∨
    ¬literal.toList <:+: cursor.rest ∧ Consumes (skipPast literal) cursor false [] := by
  rcases (looksFor_acceptText literal).search_run (mt String.toList_eq_nil_iff.mp nonempty) cursor
    with ⟨before, after, first, split, ran⟩ | ⟨absent, ran⟩
  · have begins : literal.toList <+: after :=
      (List.prefix_append_right_inj before).mp (split ▸ first.stands)
    obtain ⟨later, rfl⟩ := begins
    rw [past_between] at ran
    refine .inl ⟨before, first, later, by rw [split, List.append_assoc], ?_⟩
    rw [List.reverse_append, List.append_assoc]
    exact ran
  · exact .inr ⟨absent, consumes_nothing_iff.mpr ran⟩

theorem consumes_takeWhile (property : Char → Bool) (cursor : Cursor) :
    Consumes (takeWhile property) cursor (String.ofList (cursor.rest.takeWhile property))
      (cursor.rest.takeWhile property) := by
  have ran := takeWhile_run property cursor.passed cursor.rest
  rw [← eq_between] at ran
  exact ⟨_, List.takeWhile_append_dropWhile.symm, ran⟩

theorem consumes_skipSpaces (cursor : Cursor) :
    Consumes skipSpaces cursor (cursor.rest.head?.any isTokenSpace)
      (cursor.rest.takeWhile isTokenSpace) := by
  have ran := skipSpaces_run cursor.passed cursor.rest
  rw [← eq_between] at ran
  exact ⟨_, List.takeWhile_append_dropWhile.symm, ran⟩

theorem consumes_acceptBreak (cursor : Cursor) :
    (∃ character, isBreak character = true ∧ Consumes acceptBreak cursor true [character]) ∨
      cursor.rest.head?.any isBreak = false ∧ Consumes acceptBreak cursor false [] := by
  have ran := acceptBreak_run cursor
  cases next : cursor.rest.head?.any isBreak with
  | false =>
      rw [next, if_neg Bool.false_ne_true] at ran
      exact .inr ⟨rfl, consumes_nothing_iff.mpr ran⟩
  | true =>
      obtain ⟨character, first, breaks⟩ := (Option.any_eq_true _ _).mp next
      obtain ⟨rest, split⟩ := List.head?_eq_some_iff.mp first
      have moved := advance_between_cons cursor.passed rest character
      rw [← split, ← eq_between] at moved
      rw [next, if_pos rfl, moved] at ran
      exact .inl ⟨character, breaks, rest, split, ran⟩

theorem consumes_closingKeyword? {opening : String} {keywords : List String} {cursor : Cursor}
    (nothing : ((closingKeyword? opening keywords).run cursor).1 = none) :
    Consumes (closingKeyword? opening keywords) cursor none [] := by
  rw [consumes_nothing_iff]
  cases last : keywords.getLast? with
  | none => simp [closingKeyword?, last]
  | some terminator =>
      have reaches : cursor.Reaches ((closingKeywordFrom opening keywords terminator
          (2 * (cursor.remaining + 1)) 0).run cursor).2 :=
        Mirrors.reaches (Placement.simulates.closingKeywordFrom opening keywords terminator _ 0)
      obtain ⟨⟨found, stopped⟩, searched⟩ : ∃ outcome, (closingKeywordFrom opening keywords
          terminator (2 * (cursor.remaining + 1)) 0).run cursor = pure outcome := ⟨_, rfl⟩
      rw [searched] at reaches
      cases found with
      | none =>
          have back := returnTo_run cursor stopped reaches.1.symm
          simp [closingKeyword?, last, searched, back]
      | some index =>
          have found : (closingKeyword? opening keywords).run cursor =
              pure (some index, stopped) := by
            simp [closingKeyword?, last, searched]
          rw [found] at nothing
          cases nothing

theorem restore_checkpoint {saved cursor : Cursor} (text : saved.text = cursor.text) :
    ∃ checkpoint, Scan.checkpoint.run saved = pure (checkpoint, saved) ∧
      (restore checkpoint).run cursor = pure ((), saved) :=
  ⟨⟨saved.offset, saved.position⟩, rfl, returnTo_run saved cursor text⟩

/-- A scan that found nothing is taken back, wherever it went. -/
theorem orRewind_run_none {scan : StateM Cursor (Option α)} {cursor stopped : Cursor}
    (ran : scan.run cursor = pure (none, stopped)) (text : stopped.text = cursor.text) :
    (orRewind scan).run cursor = pure (none, cursor) := by
  simp [orRewind, ran, returnTo_run cursor stopped text.symm]

theorem orRewind_run_some {scan : StateM Cursor (Option α)} {cursor stopped : Cursor} {found : α}
    (ran : scan.run cursor = pure (some found, stopped)) :
    (orRewind scan).run cursor = pure (some found, stopped) := by
  simp [orRewind, ran]

theorem attempt_run_none {scan : ExceptT ε (StateM Cursor) (Option α)} {cursor stopped : Cursor}
    (ran : scan.run.run cursor = pure (.ok none, stopped)) (text : stopped.text = cursor.text) :
    (attempt scan).run.run cursor = pure (.ok none, cursor) := by
  simp [attempt, ExceptT.run_bind, ran, returnTo_run cursor stopped text.symm, Except.map]

theorem attempt_run_some {scan : ExceptT ε (StateM Cursor) (Option α)} {cursor stopped : Cursor}
    {found : α} (ran : scan.run.run cursor = pure (.ok (some found), stopped)) :
    (attempt scan).run.run cursor = pure (.ok (some found), stopped) := by
  simp [attempt, ExceptT.run_bind, ran]

/-- An error leaves the place where it arose. -/
theorem attempt_run_error {scan : ExceptT ε (StateM Cursor) (Option α)} {cursor stopped : Cursor}
    {error : ε} (ran : scan.run.run cursor = pure (.error error, stopped)) :
    (attempt scan).run.run cursor = pure (.error error, stopped) := by
  simp [attempt, ExceptT.run_bind, ran]

/-- What the scans do at a place.  Scans that are attempted may go anywhere in the text. -/
structure AreExact (cursor : Cursor) : Prop where
  accept (character : Char) :
    cursor.rest.head? = some character ∧ Consumes (accept character) cursor true [character] ∨
      cursor.rest.head? ≠ some character ∧ Consumes (Scan.accept character) cursor false []
  acceptText (literal : String) :
    literal.toList <+: cursor.rest ∧ Consumes (acceptText literal) cursor true literal.toList ∨
      ¬literal.toList <+: cursor.rest ∧ Consumes (Scan.acceptText literal) cursor false []
  looksAt (literal : String) :
    Consumes (looksAt literal) cursor (literal.toList.isPrefixOf cursor.rest) []
  looksAtKeyword (keyword : String) :
    Consumes (looksAtKeyword keyword) cursor (standsAt keyword cursor.rest) []
  isAfter (character : Char) :
    Consumes (isAfter character) cursor (decide ([character] <:+ cursor.passed.reverse)) []
  skipTo (literal : String) (nonempty : literal ≠ "") :
    (∃ before, StandsFirst literal.toList before cursor.rest ∧
      Consumes (skipTo literal) cursor true before) ∨
    ¬literal.toList <:+: cursor.rest ∧ Consumes (Scan.skipTo literal) cursor false []
  skipPast (literal : String) (nonempty : literal ≠ "") :
    (∃ before, StandsFirst literal.toList before cursor.rest ∧
      Consumes (skipPast literal) cursor true (before ++ literal.toList)) ∨
    ¬literal.toList <:+: cursor.rest ∧ Consumes (Scan.skipPast literal) cursor false []
  takeWhile (property : Char → Bool) :
    Consumes (takeWhile property) cursor (String.ofList (cursor.rest.takeWhile property))
      (cursor.rest.takeWhile property)
  skipSpaces :
    Consumes skipSpaces cursor (cursor.rest.head?.any isTokenSpace)
      (cursor.rest.takeWhile isTokenSpace)
  acceptBreak :
    (∃ character, isBreak character = true ∧ Consumes acceptBreak cursor true [character]) ∨
      cursor.rest.head?.any isBreak = false ∧ Consumes Scan.acceptBreak cursor false []
  closingKeyword? (opening : String) (keywords : List String) :
    ((closingKeyword? opening keywords).run cursor).1 = none →
      Consumes (Scan.closingKeyword? opening keywords) cursor none []
  restore (saved : Cursor) (text : saved.text = cursor.text) : ∃ checkpoint,
    Scan.checkpoint.run saved = pure (checkpoint, saved) ∧
      (restore checkpoint).run cursor = pure ((), saved)
  orRewind {α : Type} {scan : StateM Cursor (Option α)} {stopped : Cursor} :
    (scan.run cursor = pure (none, stopped) → stopped.text = cursor.text →
      (orRewind scan).run cursor = pure (none, cursor)) ∧
    ∀ found, scan.run cursor = pure (some found, stopped) →
      (Scan.orRewind scan).run cursor = pure (some found, stopped)
  attempt {ε α : Type} {scan : ExceptT ε (StateM Cursor) (Option α)} {stopped : Cursor} :
    (scan.run.run cursor = pure (.ok none, stopped) → stopped.text = cursor.text →
      (attempt scan).run.run cursor = pure (.ok none, cursor)) ∧
    (∀ found, scan.run.run cursor = pure (.ok (some found), stopped) →
      (Scan.attempt scan).run.run cursor = pure (.ok (some found), stopped)) ∧
    ∀ error, scan.run.run cursor = pure (.error error, stopped) →
      (Scan.attempt scan).run.run cursor = pure (.error error, stopped)

theorem areExact (cursor : Cursor) : AreExact cursor where
  accept character := consumes_accept character cursor
  acceptText literal := consumes_acceptText literal cursor
  looksAt literal := consumes_nothing_iff.mpr (looksAt_run literal cursor)
  looksAtKeyword keyword := consumes_nothing_iff.mpr (looksAtKeyword_run keyword cursor)
  isAfter character := consumes_isAfter character cursor
  skipTo _ nonempty := consumes_skipTo nonempty cursor
  skipPast _ nonempty := consumes_skipPast nonempty cursor
  takeWhile property := consumes_takeWhile property cursor
  skipSpaces := consumes_skipSpaces cursor
  acceptBreak := consumes_acceptBreak cursor
  closingKeyword? _ _ := consumes_closingKeyword?
  restore _ text := restore_checkpoint text
  orRewind := ⟨orRewind_run_none, fun _ => orRewind_run_some⟩
  attempt := ⟨attempt_run_none, fun _ => attempt_run_some, fun _ => attempt_run_error⟩

/-- Whatever was looked at, stepped over and sought in a text, the place stands between two parts of
it.  Seeking finds the boundaries of the text and nothing else, and every scan consumes what it
matched or stays, scans that rewind other ones included. -/
theorem scans_exact_and_atomic {text : String} {cursor : Cursor} (reached : cursor.IsReached text) :
    (String.ofList cursor.passed.reverse ++ String.ofList cursor.rest = text ∧
      (String.ofList cursor.passed.reverse).utf8ByteSize = cursor.offset) ∧
    cursor.offset ≤ text.utf8ByteSize ∧
    (∀ target,
      IsBoundary text target ∧ (∃ place : Cursor, place.IsReached text ∧ place.offset = target ∧
        (Source.seek target : StateM Cursor Bool).run cursor = pure (true, place)) ∨
      ¬IsBoundary text target ∧
        (Source.seek target : StateM Cursor Bool).run cursor = pure (false, cursor)) ∧
    AreExact cursor := by
  have isText := isReached_iff.mp reached
  refine ⟨cursor.split isText, (isBoundary_offset isText).le, fun target => ?_, areExact cursor⟩
  cases sought : cursor.seek? target with
  | some place =>
      obtain ⟨same, offset⟩ := seek?_eq_some_iff.mp sought
      have boundary := (exists_seek?_iff isText target).mp ⟨place, sought⟩
      refine .inl ⟨boundary, place, isReached_iff.mpr (same.trans isText), offset, ?_⟩
      rw [seek_run, sought]
      rfl
  | none =>
      refine .inr ⟨fun boundary => ?_, ?_⟩
      · obtain ⟨place, found⟩ := (exists_seek?_iff isText target).mpr boundary
        rw [sought] at found
        cases found
      · rw [seek_run, sought]
        rfl

/-- A scan that goes on and then fails. -/
def stepThenFail : ExceptT Unit (StateM Cursor) (Option Nat) := do
  let _ ← (step : StateM Cursor Bool)
  throw ()

/-- Behind a character of two bytes, in front of a literal that overlaps its own beginning. -/
theorem scans_exact_and_atomic_umlaut : ∃ cursor : Cursor,
    cursor.IsReached "ä@aaab" ∧ cursor.offset = 2 ∧
      (Source.seek 1 : StateM Cursor Bool).run cursor = pure (false, cursor) ∧
      (∃ before, StandsFirst "aab".toList before cursor.rest ∧
        Consumes (skipTo "aab") cursor true before) ∧
      Consumes (looksAtKeyword "@aa") cursor false [] ∧
      (attempt stepThenFail).run.run cursor = pure (.error (), cursor.advance) := by
  have reached : (between ['ä'] "@aaab".toList).IsReached "ä@aaab" := isReached_iff.mpr rfl
  obtain ⟨-, -, -, laws⟩ := scans_exact_and_atomic reached
  refine ⟨_, reached, rfl, rfl, ?_, laws.looksAtKeyword "@aa", laws.attempt.2.2 () rfl⟩
  rcases laws.skipTo "aab" (by decide) with found | ⟨absent, -⟩
  · exact found
  · exact absurd (by decide) absent

end Scan

end Stencil.Text
