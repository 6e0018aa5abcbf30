import Stencil.Proofs.Parser.Allowance
import Stencil.Proofs.Text.Fence

/-!
# Parsers in front of a fence

A parser that reads a text up to a fence, and succeeds without having passed the mark there, cannot
know how the text goes on.  Each part of a parser either reads in front of the fence only, or passes
it for good.
-/

namespace Stencil

theorem Parser.scan_bind_bind {σ α β γ : Type} (run : StateM σ α) (next : α → StateM σ β)
    (later : β → Parser σ γ) :
    (Parser.scan (run >>= next) >>= later) =
      (Parser.scan run >>= fun answer => Parser.scan (next answer) >>= later) := rfl

theorem Parser.scan_bind_congr {σ α β : Type} {run : StateM σ α} {next : α → StateM σ β}
    {later : α → Parser σ β} (same : ∀ answer, Parser.scan (next answer) = later answer) :
    Parser.scan (run >>= next) = (Parser.scan run >>= later) := by
  obtain rfl : (fun answer => Parser.scan (next answer)) = later := funext same
  rfl

namespace Text.Fence

open Text Boundary

variable {fence : Fence} {α β : Type}

/-- A parser gives the same answer for both texts, unless it passes the fence. -/
def Reads (fence : Fence) (parser : Parser (Roomy fence.rounds) α) : Prop :=
  fence.boundary.Confines fence.boundary.agree Anything parser parser

/-- A parser that finds something finds it in both texts, unless it passes the fence. -/
def Finds (fence : Fence) (parser : Parser (Roomy fence.rounds) (Option α)) : Prop :=
  fence.boundary.Confines fence.boundary.agree Found parser parser

theorem stays_scan {run : StateM (Roomy fence.rounds) α} {plain : StateM Cursor α}
    {accepted : α → Prop} (concurs : ∀ anchor : Cursor, ConcurFrom anchor (σ := Cursor) run plain) :
    fence.boundary.Stays accepted (Parser.scan run) := by
  intro here answer after beyond ran _
  have ran := Parser.exists_of_run_scan_ok ran
  obtain ⟨same, -, order⟩ := concurs here.cursor here.cursor (.refl _)
  have same : run.run here = plain.run here.cursor := same
  rw [← same, ran] at order
  exact Nat.lt_of_lt_of_le beyond order

theorem stays_of_concurs {parser : Parser (Roomy fence.rounds) α} {plain : Parser Cursor α}
    {accepted : α → Prop}
    (concurs : ∀ anchor : Cursor, Parser.ConcurFrom anchor (σ := Cursor) parser plain) :
    fence.boundary.Stays accepted parser := by
  intro here answer after beyond ran _
  obtain ⟨same, came⟩ := concurs here.cursor here.cursor (.refl _)
  have same : parser.run.run here = plain.run.run here.cursor := same
  rw [← same, ran] at came
  exact Nat.lt_of_lt_of_le beyond came.2

theorem stays_returnTo {offset : Nat} (late : fence.place < offset) {accepted : Unit → Prop} :
    fence.boundary.Stays accepted
      (Parser.scan (Scan.returnTo offset) : Parser (Roomy fence.rounds) Unit) := by
  intro here answer after beyond ran _
  have ran := Parser.exists_of_run_scan_ok ran
  have moved : (Scan.returnTo offset).run here =
      Pure.pure ((), (here.cursor.seek? offset).getD here.cursor) := by
    have sought := Scan.seek_run offset here.cursor
    exact congrArg (fun ran : Bool × Cursor => ((), ran.2)) sought
  rw [moved] at ran
  cases ran
  change fence.place < ((here.cursor.seek? offset).getD here.cursor).offset
  cases found : here.cursor.seek? offset with
  | none => exact beyond
  | some place => exact Nat.lt_of_lt_of_eq late (Cursor.seek?_eq_some_iff.mp found).2.symm

/-- The same character stands in both texts, and passing it they still agree. -/
def Standing (fence : Fence) (character : Char) (here there : Roomy fence.rounds) : Prop :=
  fence.Agree here there ∧ Follows.Passes character here there

variable {pre : Roomy fence.rounds → Roomy fence.rounds → Prop}
  {accepted : β → Prop}

theorem pointer_bind (agrees : ∀ here there, pre here there → fence.Agree here there)
    {next : Nat → Parser (Roomy fence.rounds) β}
    (later : ∀ offset, fence.boundary.Confines pre accepted (next offset) (next offset)) :
    fence.boundary.Confines pre accepted (Parser.scan Scan.pointer >>= next)
      (Parser.scan Scan.pointer >>= next) :=
  Confines.ask (fun _ => rfl) (fun _ => rfl)
    (fun _ _ within => (agrees _ _ within).pointer_eq) later

theorem position_bind (agrees : ∀ here there, pre here there → fence.Agree here there)
    {next : Position → Parser (Roomy fence.rounds) β}
    (later : ∀ position, fence.boundary.Confines pre accepted (next position) (next position)) :
    fence.boundary.Confines pre accepted (Parser.scan Scan.position >>= next)
      (Parser.scan Scan.position >>= next) :=
  Confines.ask (fun _ => rfl) (fun _ => rfl)
    (fun _ _ within => (agrees _ _ within).position_eq) later

theorem remaining_bind (agrees : ∀ here there, pre here there → fence.Agree here there)
    {next : Nat → Parser (Roomy fence.rounds) β}
    (later : ∀ rounds, fence.boundary.Confines pre accepted (next rounds) (next rounds)) :
    fence.boundary.Confines pre accepted (Parser.scan Scan.remaining >>= next)
      (Parser.scan Scan.remaining >>= next) :=
  Confines.ask (fun _ => rfl) (fun _ => rfl)
    (fun _ _ within => (agrees _ _ within).remaining_eq) later

/-- What goes back to a place goes back to places where the texts agree, or to one beyond the
fence. -/
theorem place_bind {next : Nat → Parser (Roomy fence.rounds) β}
    (keeps : ∀ place placeThere, fence.Agree place placeThere → fence.boundary.Keeps
      fence.boundary.agree accepted (next (Source.pointer place)) (next (Source.pointer place)))
    (stays : ∀ offset, fence.place < offset → fence.boundary.Stays accepted (next offset)) :
    fence.boundary.Confines fence.boundary.agree accepted (Parser.scan Scan.pointer >>= next)
      (Parser.scan Scan.pointer >>= next) := by
  have ran (place : Roomy fence.rounds) : (Scan.pointer : StateM _ Nat).run place =
    pure (Source.pointer place, place) := rfl
  constructor
  · intro here there answer after agree
    rw [Parser.run_scan_bind (ran here), Parser.run_scan_bind (ran there), Agree.pointer_eq agree]
    exact keeps here there agree here there answer after agree
  · intro here answer after beyond
    rw [Parser.run_scan_bind (ran here)]
    exact stays _ beyond here answer after beyond

theorem stays_step {next : Parser (Roomy fence.rounds) β}
    (later : fence.boundary.Stays accepted next) :
    fence.boundary.Stays accepted (do let _ ← Parser.scan Scan.step; next) :=
  fun here answer after beyond => later here.cursor.advance answer after
    (Nat.lt_of_lt_of_le beyond (Cursor.offset_le_offset_advance here.cursor))

theorem step_bind {character : Char} {next : Parser (Roomy fence.rounds) β}
    (later : fence.boundary.Confines fence.boundary.agree accepted next next) :
    fence.boundary.Confines (fence.Standing character) accepted
      (do let _ ← Parser.scan Scan.step; next) (do let _ ← Parser.scan Scan.step; next) := by
  refine ⟨?_, stays_step later.stays⟩
  intro here there answer after ⟨_, passes⟩
  exact later.keeps _ _ answer after passes.2.2

/-- A look that takes the mark for the end of the text. -/
theorem look_bind {next : Option Char → Parser (Roomy fence.rounds) β}
    (blind : next (some '@') = next none)
    (nothing : fence.boundary.Confines fence.boundary.agree accepted (next none) (next none))
    (stands : ∀ character, fence.boundary.Confines (fence.Standing character) accepted
      (next (some character)) (next (some character))) :
    fence.boundary.Confines fence.boundary.agree accepted (Parser.scan Scan.current >>= next)
      (Parser.scan Scan.current >>= next) := by
  constructor
  · intro here there answer after agree
    rw [Parser.run_scan_bind (Roomy.current_run here),
      Parser.run_scan_bind (Roomy.current_run there)]
    rcases Agree.cases agree with ⟨character, isHere, isThere, -, advanced⟩ | ⟨isHere, isThere, -⟩
    · rw [isHere, isThere]
      exact (stands character).keeps here there answer after ⟨agree, isHere, isThere, advanced⟩
    · have stops := nothing.keeps here there answer after agree
      rcases isThere with isThere | isThere <;> rw [isHere, isThere, blind] <;> exact stops
  · intro here answer after beyond
    rw [Parser.run_scan_bind (Roomy.current_run here)]
    cases here.cursor.rest.head? with
    | none => exact nothing.stays here answer after beyond
    | some character => exact (stands character).stays here answer after beyond

/-- A look after which the mark at the fence is passed. -/
theorem passing_bind {next : Option Char → Parser (Roomy fence.rounds) β}
    {body : Parser (Roomy fence.rounds) β}
    (passes : next (some '@') = (do let _ ← Parser.scan Scan.step; body))
    (later : fence.boundary.Stays accepted body)
    (nothing : fence.boundary.Stays accepted (next none))
    (stands : ∀ character, fence.boundary.Confines (fence.Standing character) accepted
      (next (some character)) (next (some character))) :
    fence.boundary.Confines fence.boundary.agree accepted (Parser.scan Scan.current >>= next)
      (Parser.scan Scan.current >>= next) := by
  constructor
  · intro here there answer after agree
    rw [Parser.run_scan_bind (Roomy.current_run here),
      Parser.run_scan_bind (Roomy.current_run there)]
    rcases Agree.cases agree with ⟨character, isHere, isThere, -, advanced⟩ | ⟨isHere, -, -, beyond⟩
    · rw [isHere, isThere]
      exact (stands character).keeps here there answer after ⟨agree, isHere, isThere, advanced⟩
    · rw [isHere, passes]
      intro ran isAccepted
      exact .inl (later here.cursor.advance answer after beyond ran isAccepted)
  · intro here answer after beyond
    rw [Parser.run_scan_bind (Roomy.current_run here)]
    cases here.cursor.rest.head? with
    | none => exact nothing here answer after beyond
    | some character => exact (stands character).stays here answer after beyond

/-- A character that is read is passed, and the mark at the fence with it. -/
theorem read_bind {next : Option Char → Parser (Roomy fence.rounds) β}
    {body : Char → Parser (Roomy fence.rounds) β}
    (passes : ∀ character, next (some character) =
      (do let _ ← Parser.scan Scan.step; body character)) (nothing : Never accepted (next none))
    (later : ∀ character,
      fence.boundary.Confines fence.boundary.agree accepted (body character) (body character)) :
    fence.boundary.Confines fence.boundary.agree accepted (Parser.scan Scan.current >>= next)
      (Parser.scan Scan.current >>= next) :=
  passing_bind (passes '@') (later '@').stays (.of_never nothing) fun character =>
    passes character ▸ step_bind (later character)

/-- A place at the fence in the first text. -/
def AtFence (fence : Fence) (here : Roomy fence.rounds) : Prop :=
  here.cursor.offset = fence.place ∧ here.cursor.rest.head? = some '@'

/-- What is tried at the fence passes it, or finds nothing and stays there. -/
def Leaves (fence : Fence) (parser : Parser (Roomy fence.rounds) (Option α)) : Prop :=
  ∀ here found after, fence.AtFence here → parser.run.run here = (.ok found, after) →
    match found with
    | some _ => fence.boundary.beyond after
    | none => after = here

/-- A parser that finds something if it does not fail. -/
def Sure (parser : Parser (Roomy fence.rounds) (Option α)) : Prop :=
  Never (· = none) parser

namespace Leaves

theorem pure : fence.Leaves (Pure.pure none : Parser _ (Option α)) := by
  rintro here _ _ - ⟨⟩
  rfl

theorem acceptText_bind {literal : String} (nonempty : literal ≠ "")
    {next : Bool → Parser (Roomy fence.rounds) (Option β)}
    (yes : fence.boundary.Stays Anything (next true)) (sure : Sure (next true))
    (no : fence.Leaves (next false)) :
    fence.Leaves (Parser.scan (Scan.acceptText literal) >>= next) := by
  intro here found after atFence ran
  rw [Parser.run_scan_bind (Roomy.acceptText_run here literal)] at ran
  cases begins : literal.toList.isPrefixOf here.cursor.rest with
  | true =>
      have passes := Brackets.Precedes.past nonempty (List.isPrefixOf_iff_prefix.mp begins)
      have beyond : fence.place < (here.cursor.past literal).offset := atFence.1 ▸ passes.offset_lt
      rw [begins] at ran
      cases found with
      | some found => exact yes _ (some found) after beyond ran trivial
      | none => exact absurd rfl (sure _ none after ran)
  | false =>
      have stays : here.cursor.past literal = here.cursor := if_neg (by simp [begins])
      rw [begins, stays] at ran
      exact no here found after atFence ran

theorem bind {first : Parser (Roomy fence.rounds) (Option α)}
    {next : Option α → Parser (Roomy fence.rounds) (Option β)} (here : fence.Leaves first)
    (yes : ∀ answer, fence.boundary.Stays Anything (next (some answer)))
    (sure : ∀ answer, Sure (next (some answer))) (no : fence.Leaves (next none)) :
    fence.Leaves (first >>= next) := by
  intro start found after atFence ran
  obtain ⟨answer, between, ranFirst, rest⟩ := Parser.exists_of_run_bind_ok ran
  have came := here start answer between atFence ranFirst
  cases answer with
  | none =>
      obtain rfl : between = start := came
      exact no between found after atFence rest
  | some answer =>
      cases found with
      | some found => exact yes answer between (some found) after came rest trivial
      | none => exact absurd rfl (sure answer between none after rest)

/-- What is found in front of the fence and leaves it is found. -/
theorem finds {parser : Parser (Roomy fence.rounds) (Option α)} (leaves : fence.Leaves parser)
    (inside : fence.boundary.Confines fence.Inside Found parser parser) : fence.Finds parser := by
  refine ⟨?_, inside.stays⟩
  intro here there answer after agree ran isFound
  rcases Agree.cases agree with ⟨character, -, -, before, -⟩ | ⟨isHere, -, atFence, -⟩
  · exact inside.keeps here there answer after ⟨agree, before⟩ ran isFound
  · obtain ⟨found, rfl⟩ := Option.isSome_iff_exists.mp isFound
    exact .inl (leaves here (some found) after ⟨atFence, isHere⟩ ran)

end Leaves

/-- In front of the fence the same character stands in both texts. -/
theorem inside_current_bind {next : Option Char → Parser (Roomy fence.rounds) β}
    (later : ∀ found, fence.boundary.Confines fence.Inside accepted (next found) (next found)) :
    fence.boundary.Confines fence.Inside accepted (Parser.scan Scan.current >>= next)
      (Parser.scan Scan.current >>= next) := by
  refine Confines.ask Roomy.current_run Roomy.current_run (fun here there inside => ?_) later
  rcases inside.1.cases with ⟨character, isHere, isThere, -⟩ | ⟨-, -, atFence, -⟩
  · rw [isHere, isThere]
  · exact absurd inside.2 (atFence ▸ Nat.lt_irrefl _)

/-- In front of the fence the same literals are accepted in both texts. -/
theorem Inside.acceptText {here there : Roomy fence.rounds} {literal : String}
    (once : '@' ∉ literal.toList.tail) (inside : fence.Inside here there) :
    ((Scan.acceptText literal).run there).1 = ((Scan.acceptText literal).run here).1 ∧
      cond ((Scan.acceptText literal).run here).1 fence.Agree fence.Inside
        ((Scan.acceptText literal).run here).2 ((Scan.acceptText literal).run there).2 := by
  obtain ⟨begins, agree⟩ := inside.past once
  rw [Roomy.acceptText_run, Roomy.acceptText_run]
  refine ⟨begins, ?_⟩
  change cond (literal.toList.isPrefixOf here.cursor.rest) fence.Agree fence.Inside
    (here.cursor.past literal) (there.cursor.past literal)
  cases begun : literal.toList.isPrefixOf here.cursor.rest with
  | true => exact agree
  | false =>
      rw [begun] at begins
      have stays (place : Roomy fence.rounds)
          (declined : literal.toList.isPrefixOf place.cursor.rest = false) :
          place.cursor.past literal = place.cursor := if_neg (by simp [declined])
      rw [stays here begun, stays there begins]
      exact inside

theorem acceptText_bind {literal : String} (once : '@' ∉ literal.toList.tail)
    {next : Bool → Parser (Roomy fence.rounds) β}
    (yes : fence.boundary.Confines fence.boundary.agree accepted (next true) (next true))
    (no : fence.boundary.Confines fence.Inside accepted (next false) (next false)) :
    fence.boundary.Confines fence.Inside accepted (Parser.scan (Scan.acceptText literal) >>= next)
      (Parser.scan (Scan.acceptText literal) >>= next) :=
  .test (fun _ _ inside => inside.acceptText once) (stays_scan fun _ => .acceptText literal) yes no

namespace Reads

theorem scan {run : StateM (Roomy fence.rounds) α} {plain : StateM Cursor α}
    (follows : fence.Follows run)
    (concurs : ∀ anchor : Cursor, ConcurFrom anchor (σ := Cursor) run plain) :
    fence.Reads (Parser.scan run) :=
  ⟨.scan follows, stays_scan concurs⟩

theorem pure (answer : α) : fence.Reads (Pure.pure answer) :=
  Confines.pure answer

theorem throw (error : TemplateError) : fence.Reads (MonadExcept.throw error : Parser _ α) :=
  Confines.throw error

theorem bind {first : Parser (Roomy fence.rounds) α} {next : α → Parser (Roomy fence.rounds) β}
    (here : fence.Reads first) (later : ∀ answer, fence.Reads (next answer)) :
    fence.Reads (first >>= next) :=
  Confines.bind here later

theorem ite {condition : Prop} [Decidable condition] {yes no : Parser (Roomy fence.rounds) α}
    (holds : fence.Reads yes) (fails : fence.Reads no) :
    fence.Reads (if condition then yes else no) :=
  Confines.ite holds fails

theorem fail (problem : ParseProblem) : fence.Reads (Parser.fail problem : Parser _ α) :=
  Confines.of_never (.bind fun _ => .throw _)

theorem require (what : String) (found : Option α) :
    fence.Reads (Parser.require what found : Parser _ α) := by
  cases found with
  | none => exact fail (.expected what)
  | some answer => exact pure answer

/-- What has to be found. -/
theorem required {parser : Parser (Roomy fence.rounds) (Option α)} (what : String)
    {next : α → Parser (Roomy fence.rounds) β} (finds : fence.Finds parser)
    (later : ∀ answer, fence.Reads (next answer)) :
    fence.Reads (do next (← Parser.require what (← parser))) :=
  finds.find (fun answer => bind (require what (some answer)) later)
    (.bind_of_fails (.bind fun _ => .throw _))

theorem skipSpaces : fence.Reads (Parser.scan Scan.skipSpaces) :=
  scan .skipSpaces fun _ => .skipSpaces

theorem accept {expected : Char} (unmarked : expected ≠ '@') :
    fence.Reads (Parser.scan (Scan.accept expected)) :=
  scan (.accept unmarked) fun _ => .accept expected

theorem acceptBreak : fence.Reads (Parser.scan Scan.acceptBreak) :=
  scan .acceptBreak fun _ => .acceptBreak

theorem acceptText {literal : String} (unmarked : '@' ∉ literal.toList) :
    fence.Reads (Parser.scan (Scan.acceptText literal)) :=
  scan (.acceptText unmarked) fun _ => .acceptText literal

/-- The mark at the fence is accepted in the first text only if it is passed. -/
theorem acceptMark : fence.Reads (Parser.scan (Scan.accept '@')) := by
  refine ⟨?_, stays_scan fun _ => .accept '@'⟩
  intro here there answer after agree ran _
  have ran := Parser.exists_of_run_scan_ok ran
  rw [Roomy.accept_run] at ran
  rcases Agree.cases agree with ⟨character, isHere, isThere, -, advanced⟩ | ⟨isHere, -, -, beyond⟩
  · have ranThere := Roomy.accept_run there '@'
    rw [isThere] at ranThere
    rw [isHere] at ran
    by_cases mark : some character = some '@'
    · rw [if_pos mark] at ran ranThere
      cases ran
      exact .inr ⟨_, Parser.run_scan ranThere, advanced⟩
    · rw [if_neg mark] at ran ranThere
      cases ran
      exact .inr ⟨_, Parser.run_scan ranThere, agree⟩
  · rw [if_pos isHere] at ran
    cases ran
    exact .inl beyond

/-- A run of characters may go on beyond the fence. -/
theorem takeWhileFrom (property : Char → Bool) (fuel : Nat) (taken : List Char) :
    fence.Reads (Parser.scan (Scan.takeWhileFrom property fuel taken)) := by
  induction fuel generalizing taken with
  | zero => exact pure taken
  | succ fuel induction =>
      let next (found : Option Char) : Parser (Roomy fence.rounds) (List Char) :=
        found.elim (Pure.pure taken) fun character =>
          if property character then do
            let _ ← Parser.scan Scan.step
            Parser.scan (Scan.takeWhileFrom property fuel (character :: taken))
          else Pure.pure taken
      have unfolded : Parser.scan (Scan.takeWhileFrom property (fuel + 1) taken) =
          (Parser.scan Scan.current >>= next) := by
        refine Parser.scan_bind_congr fun found => ?_
        cases found with
        | none => rfl
        | some character =>
            change Parser.scan (if property character then _ else _) =
              if property character then _ else _
            split <;> rfl
      have stops : fence.Reads (next none) := pure taken
      have goesOn (character : Char) : fence.Reads (Parser.scan
          (Scan.takeWhileFrom property fuel (character :: taken))) := induction _
      have stands (character : Char) : fence.boundary.Confines (fence.Standing character) Anything
          (next (some character)) (next (some character)) :=
        .ite (step_bind (goesOn character)) (stops.weaken fun _ _ => And.left)
      rw [unfolded]
      cases marked : property '@' with
      | false => exact look_bind (by simp [next, marked]) stops stands
      | true => exact passing_bind (by simp [next, marked]) (goesOn '@').stays stops.stays stands

theorem takeWhile (property : Char → Bool) :
    fence.Reads (Parser.scan (Scan.takeWhile property)) := by
  change fence.Reads (Parser.scan Scan.remaining >>= fun rounds =>
    Parser.scan (Scan.takeWhileFrom property (rounds + 1) []) >>= fun taken =>
      Pure.pure (String.ofList taken.reverse))
  exact remaining_bind (fun _ _ => id) fun _ => (takeWhileFrom property _ []).bind fun _ => pure _

theorem currentIs {property : Char → Bool} (unmarked : property '@' = false) :
    fence.Reads (Parser.scan (Scan.currentIs property)) :=
  scan (.currentIs unmarked) fun _ => .currentIs property

theorem expectSymbol {character : Char} (unmarked : character ≠ '@') :
    fence.Reads (Parser.expectSymbol character) :=
  skipSpaces.bind fun _ => (accept unmarked).bind fun _ => ite (pure ()) (fail _)

theorem name? : fence.Follows (Parser.name?) :=
  (Follows.currentIs (by decide)).bind fun _ =>
    .ite ((Follows.takeWhile (by decide)).bind fun _ => .pure _) (.pure none)

theorem expectName (what : String) : fence.Reads (Parser.expectName what) :=
  skipSpaces.bind fun _ => (scan name? fun _ => Parser.ConcurFrom.name?).bind fun _ =>
    require what _

/-- An attempt that is given up only where names and symbols were read, which are no marks. -/
theorem attempt {begins : StateM (Roomy fence.rounds) (Option α)} {plain : StateM Cursor (Option α)}
    {next : Option α → Parser (Roomy fence.rounds) (Option β)} (follows : fence.Follows begins)
    (concurs : ∀ anchor : Cursor, ConcurFrom anchor (σ := Cursor) begins plain)
    (declined : next none = Pure.pure none) (reads : ∀ found, fence.Reads (next (some found)))
    (sure : ∀ found, Sure (next (some found))) :
    fence.Reads (Scan.attempt (Parser.scan begins >>= next)) := by
  have later (place : Nat) (found : α) : fence.Reads (next (some found) >>= fun
      | some answer => Pure.pure (some answer)
      | none => do
          Parser.scan (Scan.returnTo place)
          return none) := by
    refine (reads found).bindOf (sure found) fun answer nonempty => ?_
    cases answer with
    | none => exact absurd rfl nonempty
    | some answer => exact pure _
  refine place_bind (fun place placeThere agreed => ?_) fun offset late => ?_
  · rw [bind_assoc]
    refine .follows_bind follows fun found => ?_
    cases found with
    | none =>
        rw [declined, pure_bind]
        exact .follows_bind (Follows.returnTo agreed) fun _ => .pure _
    | some found => exact (later _ found).keeps
  · rw [bind_assoc]
    refine .bind (stays_scan concurs) fun found => ?_
    cases found with
    | none =>
        rw [declined, pure_bind]
        exact .bind (stays_returnTo late) fun _ => .pure _
    | some found => exact (later _ found).stays

end Reads

end Text.Fence

end Stencil
