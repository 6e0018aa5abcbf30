import Stencil.Proofs.Parser.Run
import Stencil.Proofs.Text.Keyword

/-!
# Reading a text and stopping after it

A scan or parser reads a text if it consumes just that text, whatever was passed before, and
answers as expected.  What it reads may depend on what follows the text.
-/

namespace Stencil

open Text Text.Cursor

variable {α β : Type}

/-- In front of a text and what follows it a scan consumes the text and answers something. -/
def Text.Reads (scan : StateM Cursor α) (text : List Char) (answer : α) (rest : List Char) : Prop :=
  ∀ passed, scan.run (between passed (text ++ rest)) =
    Pure.pure (answer, between (text.reverse ++ passed) rest)

/-- In front of a text and what follows it a parser consumes the text and succeeds. -/
def Parser.Reads (parser : Parser Cursor α) (text : List Char) (answer : α) (rest : List Char) :
    Prop :=
  Text.Reads parser.run text (.ok answer) rest

namespace Text.Reads

variable {scan : StateM Cursor α} {next : α → StateM Cursor β} {text later rest : List Char}
  {answer : α} {result : β}

theorem pure (answer : α) (rest : List Char) :
    Reads (Pure.pure answer : StateM Cursor α) [] answer rest :=
  fun _ => rfl

theorem bind (first : Reads scan text answer (later ++ rest))
    (second : Reads (next answer) later result rest) :
    Reads (scan >>= next) (text ++ later) result rest := by
  intro passed
  rw [StateT.run_bind, List.append_assoc, first passed, List.reverse_append, List.append_assoc]
  exact second _

/-- A part that consumes nothing. -/
theorem look_bind (first : Reads scan [] answer (text ++ rest))
    (second : Reads (next answer) text result rest) : Reads (scan >>= next) text result rest :=
  first.bind second

/-- A part at the end that consumes nothing. -/
theorem bind_look (first : Reads scan text answer rest)
    (second : Reads (next answer) [] result rest) : Reads (scan >>= next) text result rest := by
  have both : Reads (scan >>= next) (text ++ []) result rest := bind first second
  rwa [List.append_nil] at both

theorem pointer_bind {next : Nat → StateM Cursor β}
    (later : ∀ place, Reads (next place) text result rest) :
    Reads (Scan.pointer >>= next) text result rest :=
  fun passed => later _ passed

theorem length_le_remaining (text rest : List Char) : text.length ≤ byteLength (text ++ rest) := by
  have bound := length_le_byteLength (text ++ rest)
  rw [List.length_append] at bound
  exact Nat.le_of_add_right_le bound

theorem remaining_bind {next : Nat → StateM Cursor β}
    (later : ∀ steps, text.length ≤ steps → Reads (next steps) text result rest) :
    Reads (Scan.remaining >>= next) text result rest :=
  later _ (length_le_remaining text rest)

theorem current (rest : List Char) : Reads Scan.current [] rest.head? rest :=
  fun _ => rfl

theorem currentIs (property : Char → Bool) (rest : List Char) :
    Reads (Scan.currentIs property) [] (rest.head?.any property) rest :=
  fun _ => rfl

theorem step (character : Char) (rest : List Char) : Reads Scan.step [character] true rest := by
  intro passed
  rw [Scan.step_run, List.singleton_append, advance_between_cons]
  rfl

theorem accept (character : Char) (rest : List Char) :
    Reads (Scan.accept character) [character] true rest :=
  fun passed => Scan.accept_run_self character passed rest

theorem accept_of_ne {character : Char} (different : rest.head? ≠ some character) :
    Reads (Scan.accept character) [] false rest :=
  fun _ => Scan.accept_run_of_ne character _ different

theorem acceptText (literal : String) (rest : List Char) :
    Reads (Scan.acceptText literal) literal.toList true rest :=
  fun passed => Scan.acceptText_run_self literal passed rest

theorem acceptText_of_not (literal : String) (differs : ¬literal.toList <+: rest) :
    Reads (Scan.acceptText literal) [] false rest :=
  fun _ => Scan.acceptText_run_of_not_isPrefix literal _ differs

theorem acceptBreak (rest : List Char) : Reads Scan.acceptBreak ['\n'] true rest := by
  intro passed
  rw [Scan.acceptBreak_run, List.singleton_append, advance_between_cons]
  rfl

theorem ends_dropWhile (property : Char → Bool) (text : List Char) :
    (text.dropWhile property).head?.any property = false := by
  have stops := List.head?_dropWhile_not property text
  cases next : (text.dropWhile property).head? with
  | none => rfl
  | some character => simpa [next] using stops

theorem exists_spaces (text : List Char) : ∃ spaces later,
    text = spaces ++ later ∧ text.dropWhile isTokenSpace = later ∧
      spaces.all isTokenSpace = true ∧ later.head?.any isTokenSpace = false :=
  ⟨text.takeWhile isTokenSpace, text.dropWhile isTokenSpace,
    List.takeWhile_append_dropWhile.symm, rfl, List.all_takeWhile, ends_dropWhile _ text⟩

theorem run_split {property : Char → Bool} (all : text.all property = true)
    (ends : rest.head?.any property = false) :
    (text ++ rest).takeWhile property = text ∧ (text ++ rest).dropWhile property = rest := by
  have member := List.all_eq_true.mp all
  rw [List.takeWhile_append_of_pos member, List.dropWhile_append_of_pos member]
  cases rest with
  | nil => simp
  | cons character rest =>
      have stops : property character = false := ends
      simp [stops]

/-- A literal of characters of one kind comes first only if it comes first in the run of those. -/
theorem isPrefix_of_append {property : Char → Bool} {literal : List Char}
    (all : literal.all property = true) (ends : rest.head?.any property = false)
    (begins : literal <+: text ++ rest) : literal <+: text := by
  induction literal generalizing text with
  | nil => exact List.nil_prefix
  | cons character literal induction =>
      simp only [List.all_cons, Bool.and_eq_true] at all
      cases text with
      | nil =>
          cases rest with
          | nil => exact absurd begins (by simp)
          | cons next rest =>
              obtain ⟨rfl, -⟩ := List.cons_prefix_cons.mp begins
              rw [List.head?_cons, Option.any_some, all.1] at ends
              cases ends
      | cons next text =>
          obtain ⟨rfl, later⟩ := List.cons_prefix_cons.mp begins
          exact List.cons_prefix_cons.mpr ⟨rfl, induction all.2 later⟩

theorem takeWhile {property : Char → Bool} (all : text.all property = true)
    (ends : rest.head?.any property = false) :
    Reads (Scan.takeWhile property) text (String.ofList text) rest := by
  obtain ⟨taken, left⟩ := run_split all ends
  intro passed
  rw [Scan.takeWhile_run, taken, left]

theorem skipAllSpaces {spaces : List Char} (all : spaces.all isTokenSpace = true)
    (ends : rest.head?.any isTokenSpace = false) :
    Reads Scan.skipSpaces spaces (!spaces.isEmpty) rest := by
  obtain ⟨taken, left⟩ := run_split all ends
  intro passed
  rw [Scan.skipSpaces_run, taken, left]
  cases spaces with
  | nil => rw [List.nil_append, ends, List.isEmpty_nil, Bool.not_true]
  | cons space spaces =>
      simp only [List.all_cons, Bool.and_eq_true] at all
      rw [List.cons_append, List.head?_cons, Option.any_some, all.1, List.isEmpty_cons,
        Bool.not_false]

theorem skipSpaces (ends : rest.head?.any isTokenSpace = false) :
    Reads Scan.skipSpaces [] false rest :=
  skipAllSpaces rfl ends

theorem skipSpace (ends : rest.head?.any isTokenSpace = false) :
    Reads Scan.skipSpaces [' '] true rest :=
  skipAllSpaces rfl ends

theorem returnTo_run (passed read rest : List Char) :
    (Scan.returnTo (byteLength passed)).run (between (read.reverse ++ passed) rest) =
      Pure.pure ((), between passed (read ++ rest)) :=
  Scan.returnTo_run (between passed (read ++ rest)) _ (by simp)

theorem orRewind {scan : StateM Cursor (Option α)} {answer : α}
    (found : Reads scan text (some answer) rest) :
    Reads (Scan.orRewind scan) text (some answer) rest :=
  pointer_bind fun _ => found.bind_look (pure _ _)

/-- A scan that finds nothing leaves the text alone, wherever it stopped. -/
theorem orRewind_none {scan : StateM Cursor (Option α)} (read : List Char)
    (nothing : Reads scan read none later) :
    Reads (Scan.orRewind scan) [] none (read ++ later) := by
  intro passed
  simp [Scan.orRewind, nothing passed, returnTo_run]

end Text.Reads

namespace Parser.Reads

variable {parser : Parser Cursor α} {next : α → Parser Cursor β} {text later rest : List Char}
  {answer : α} {result : β}

theorem pure (answer : α) (rest : List Char) :
    Reads (Pure.pure answer : Parser Cursor α) [] answer rest :=
  fun _ => rfl

theorem scan {run : StateM Cursor α} (reads : Text.Reads run text answer rest) :
    Reads (Parser.scan run) text answer rest :=
  fun passed => run_scan (reads passed)

theorem bind (first : Reads parser text answer (later ++ rest))
    (second : Reads (next answer) later result rest) :
    Reads (parser >>= next) (text ++ later) result rest := by
  intro passed
  rw [List.append_assoc, List.reverse_append, List.append_assoc]
  exact (run_bind_of_ok (first passed)).trans (second _)

/-- A part that consumes nothing. -/
theorem look_bind (first : Reads parser [] answer (text ++ rest))
    (second : Reads (next answer) text result rest) : Reads (parser >>= next) text result rest :=
  first.bind second

/-- A part at the end that consumes nothing. -/
theorem bind_look (first : Reads parser text answer rest)
    (second : Reads (next answer) [] result rest) : Reads (parser >>= next) text result rest := by
  have both : Reads (parser >>= next) (text ++ []) result rest := bind first second
  rwa [List.append_nil] at both

theorem pointer_bind {next : Nat → Parser Cursor β}
    (later : ∀ place, Reads (next place) text result rest) :
    Reads (Parser.scan Scan.pointer >>= next) text result rest :=
  fun passed => later _ passed

theorem position_bind {next : Position → Parser Cursor β}
    (later : ∀ place, Reads (next place) text result rest) :
    Reads (Parser.scan Scan.position >>= next) text result rest :=
  fun passed => later _ passed

theorem remaining_bind {next : Nat → Parser Cursor β}
    (later : ∀ steps, text.length ≤ steps → Reads (next steps) text result rest) :
    Reads (Parser.scan Scan.remaining >>= next) text result rest :=
  later _ (Text.Reads.length_le_remaining text rest)

end Parser.Reads

/-- In front of a text and what follows it a parser consumes the text and goes on as another one. -/
def Parser.LeadsTo (parser : Parser Cursor α) (text rest : List Char) (later : Parser Cursor α) :
    Prop :=
  ∀ passed, parser.run.run (between passed (text ++ rest)) =
    later.run.run (between (text.reverse ++ passed) rest)

namespace Parser.LeadsTo

variable {parser middle last : Parser Cursor α} {text later rest : List Char} {answer : α}

theorem refl (parser : Parser Cursor α) (rest : List Char) : LeadsTo parser [] rest parser :=
  fun _ => rfl

theorem trans (first : LeadsTo parser text (later ++ rest) middle)
    (second : LeadsTo middle later rest last) : LeadsTo parser (text ++ later) rest last := by
  intro passed
  rw [List.append_assoc, first passed, List.reverse_append, List.append_assoc]
  exact second _

theorem of_reads {first : Parser Cursor β} {next : β → Parser Cursor α} {found : β}
    (reads : Parser.Reads first text found rest) :
    LeadsTo (first >>= next) text rest (next found) :=
  fun passed => run_bind_of_ok (reads passed)

theorem reads (leads : LeadsTo parser text (later ++ rest) middle)
    (reads : Parser.Reads middle later answer rest) :
    Parser.Reads parser (text ++ later) answer rest := by
  intro passed
  have ran := reads (text.reverse ++ passed)
  rw [List.append_assoc, List.reverse_append, List.append_assoc]
  exact (leads passed).trans ran

theorem bind {first second : Parser Cursor β} {next : β → Parser Cursor α}
    (leads : LeadsTo first text rest second) :
    LeadsTo (first >>= next) text rest (second >>= next) := by
  intro passed
  change (first.run >>= ExceptT.bindCont next).run _ = (second.run >>= ExceptT.bindCont next).run _
  rw [StateT.run_bind, leads passed, StateT.run_bind]

theorem pointer_bind {next : Nat → Parser Cursor α}
    (leads : ∀ place, LeadsTo (next place) text rest last) :
    LeadsTo (Parser.scan Scan.pointer >>= next) text rest last :=
  fun passed => leads _ passed

/-- Spaces in front of a part that skips spaces first are skipped with them. -/
theorem skipSpaces {spaces : List Char} {next : Parser Cursor α}
    (areSpaces : spaces.all isTokenSpace = true) (ends : rest.head?.any isTokenSpace = false) :
    LeadsTo (do let _ ← Parser.scan Scan.skipSpaces; next) spaces rest
      (do let _ ← Parser.scan Scan.skipSpaces; next) := by
  intro passed
  have skipped : (Parser.scan Scan.skipSpaces).run.run (between passed (spaces ++ rest)) =
      Pure.pure (.ok (!spaces.isEmpty), between (spaces.reverse ++ passed) rest) :=
    run_scan (Text.Reads.skipAllSpaces areSpaces ends passed)
  have stayed : (Parser.scan Scan.skipSpaces).run.run (between (spaces.reverse ++ passed) rest) =
      Pure.pure (.ok false, between (spaces.reverse ++ passed) rest) :=
    run_scan (Text.Reads.skipSpaces ends (spaces.reverse ++ passed))
  have again : (do let _ ← Parser.scan Scan.skipSpaces; next).run.run
      (between (spaces.reverse ++ passed) rest) =
        next.run.run (between (spaces.reverse ++ passed) rest) :=
    run_bind_of_ok stayed
  rw [run_bind_of_ok skipped]
  exact again.symm

end Parser.LeadsTo

/-- Whether a character right after an operand would go on with it. -/
def continuesOperand (character : Char) : Bool :=
  isNamePart character || ['.', '[', '('].contains character

/-- An operand that stands in front of a text ends there. -/
def EndsOperand (rest : List Char) : Prop :=
  rest.head?.any continuesOperand = false

namespace EndsOperand

variable {rest : List Char}

theorem ne (ends : EndsOperand rest) {character : Char}
    (continues : continuesOperand character = true) : rest.head? ≠ some character := by
  intro same
  rw [EndsOperand, same, Option.any_some, continues] at ends
  cases ends

theorem any_eq_false (ends : EndsOperand rest) {property : Char → Bool}
    (continues : ∀ character, property character = true → continuesOperand character = true) :
    rest.head?.any property = false := by
  cases next : rest.head? with
  | none => rfl
  | some character =>
      cases has : property character with
      | false => exact has
      | true => exact absurd next (ends.ne (continues character has))

theorem isNamePart (ends : EndsOperand rest) : rest.head?.any Text.isNamePart = false :=
  ends.any_eq_false fun character part => by simp [continuesOperand, part]

end EndsOperand

end Stencil
