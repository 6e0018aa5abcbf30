import Stencil.Proofs.Parser.Mirror
import Stencil.Proofs.Text.Allowance

/-!
# Loops of parsers end by themselves

Parsers are scans that may fail, so with more rounds for their loops they also answer and fail as
without them.  On the way it is kept track of where they come to, and that no error says that the
input ended unexpectedly.
-/

namespace Stencil

open Text Text.Brackets

/-- Whether an error does not say that the input ended unexpectedly. -/
def TemplateError.OtherThanEnd (error : TemplateError) : Prop :=
  ∀ position, error ≠ .parse .unexpectedEnd position

namespace Parser

variable {ρ α β : Type}

/-- What holds of an answer and the place that is come to, or of an error. -/
def Comes (post : α → Cursor → Prop) : Except TemplateError α → Cursor → Prop
  | .ok answer, later => post answer later
  | .error error, _ => error.OtherThanEnd

/-- From places with `pre` two parsers do the same.  If they answer, they come to places with
`post`; if they fail, the input did not end unexpectedly. -/
def Concur (place : ρ → Cursor) (pre : Cursor → Prop) (left right : Parser ρ α)
    (post : α → Cursor → Prop) : Prop :=
  Text.Concur place pre left.run right.run (Comes post)

namespace Concur

variable {place : ρ → Cursor} {pre : Cursor → Prop} {post : α → Cursor → Prop}
  {postNext : β → Cursor → Prop}

theorem pure {answer : α} (holds : ∀ here, pre here → post answer here) :
    Concur place pre (Pure.pure answer) (Pure.pure answer) post :=
  Text.Concur.pure holds

theorem throw {error : TemplateError} (other : error.OtherThanEnd) :
    Concur place pre (MonadExcept.throw error : Parser ρ α) (MonadExcept.throw error) post :=
  Text.Concur.pure fun _ _ => other

theorem bind {first first' : Parser ρ α} {next next' : α → Parser ρ β}
    (here : Concur place pre first first' post)
    (later : ∀ answer, Concur place (post answer) (next answer) (next' answer) postNext) :
    Concur place pre (first >>= next) (first' >>= next') postNext := by
  change Text.Concur place pre (first.run >>= ExceptT.bindCont next)
    (first'.run >>= ExceptT.bindCont next') _
  refine Text.Concur.bind here fun outcome => ?_
  cases outcome with
  | ok answer => exact later answer
  | error error => exact .pure fun _ other => other

theorem ite {condition : Prop} [Decidable condition] {yes yes' no no' : Parser ρ α}
    (holds : Concur place pre yes yes' post) (fails : Concur place pre no no' post) :
    Concur place pre (if condition then yes else no) (if condition then yes' else no') post := by
  split
  · exact holds
  · exact fails

theorem weaken {before : Cursor → Prop} {after : α → Cursor → Prop} {left right : Parser ρ α}
    (concur : Concur place pre left right post) (weaker : ∀ here, before here → pre here)
    (stronger : ∀ answer here, post answer here → after answer here) :
    Concur place before left right after :=
  Text.Concur.weaken concur weaker fun outcome later came => by
    cases outcome with
    | ok answer => exact stronger answer later came
    | error error => exact came

theorem there {here : Cursor} {left right : Parser ρ α} (concur : Concur place pre left right post)
    (within : pre here) : Concur place (· = here) left right post :=
  Text.Concur.there concur within

/-- What holds from an anchor on holds at the anchor. -/
theorem outset {anchor : Cursor} {left right : Parser ρ α}
    (concur : Concur place anchor.Reaches left right post) :
    Concur place (· = anchor) left right post :=
  concur.there (.refl anchor)

theorem each {left right : Parser ρ α}
    (concur : ∀ here, pre here → Concur place (· = here) left right post) :
    Concur place pre left right post :=
  Text.Concur.each concur

theorem test {holds fails : Cursor → Prop} {test test' : Parser ρ Bool}
    {next next' : Bool → Parser ρ β}
    (here : Concur place pre test test' fun answer => cond answer holds fails)
    (yes : Concur place holds (next true) (next' true) postNext)
    (no : Concur place fails (next false) (next' false) postNext) :
    Concur place pre (test >>= next) (test' >>= next') postNext := by
  refine here.bind fun answer => ?_
  cases answer with
  | true => exact yes
  | false => exact no

theorem lift {run run' : StateM ρ α} (inner : Text.Concur place pre run run' post) :
    Concur place pre (scan run) (scan run') post := by
  change Text.Concur place pre (run >>= fun answer => Pure.pure (Except.ok answer))
    (run' >>= fun answer => Pure.pure (Except.ok answer)) _
  exact inner.bind fun answer => .pure fun _ holds => holds

/-- What is known of scans and what follows them is known of parsers. -/
theorem scan_bind {run run' : StateM ρ α} {next next' : α → Parser ρ β}
    (inner : Text.Concur place pre (run >>= fun answer => (next answer).run)
      (run' >>= fun answer => (next' answer).run) (Comes postNext)) :
    Concur place pre (scan run >>= next) (scan run' >>= next') postNext :=
  inner

end Concur

variable {σ : Type} [Source σ] [Tracked σ] {room : σ → Nat} {anchor here : Cursor}

theorem Concur.fail {pre : Cursor → Prop} {post : α → Cursor → Prop} {problem : ParseProblem}
    (other : problem ≠ .unexpectedEnd) :
    Concur Tracked.cursor pre (@Parser.fail σ (.allowing room) α problem) (Parser.fail problem)
      post :=
  (Concur.lift .position).bind fun _ =>
    .throw fun _ same => other (TemplateError.parse.inj same).1

/-- From an anchor on two parsers do the same, and they do not go back behind it. -/
def ConcurFrom (anchor : Cursor) (left right : Parser σ α) : Prop :=
  Concur Tracked.cursor anchor.Reaches left right fun _ => anchor.Reaches

namespace ConcurFrom

/-- What is done from a place on is also done from a place behind the anchor. -/
theorem behind {left right : Parser σ α} (concur : ConcurFrom here left right)
    (within : anchor.Reaches here) :
    Concur Tracked.cursor (· = here) left right fun _ => anchor.Reaches :=
  concur.weaken (fun _ same => same ▸ .refl here) fun _ _ => within.trans

theorem pure (answer : α) : ConcurFrom anchor (Pure.pure answer : Parser σ α) (Pure.pure answer) :=
  Concur.pure fun _ within => within

theorem throw {error : TemplateError} (other : error.OtherThanEnd) :
    ConcurFrom anchor (MonadExcept.throw error : Parser σ α) (MonadExcept.throw error) :=
  Concur.throw other

theorem bind {first first' : Parser σ α} {next next' : α → Parser σ β}
    (here : ConcurFrom anchor first first')
    (later : ∀ answer, ConcurFrom anchor (next answer) (next' answer)) :
    ConcurFrom anchor (first >>= next) (first' >>= next') :=
  Concur.bind here later

/-- Behind a part that keeps to the anchor anything may come. -/
theorem andThen {post : β → Cursor → Prop} {first first' : Parser σ α} {next next' : α → Parser σ β}
    (here : ConcurFrom anchor first first')
    (later : ∀ answer, Concur Tracked.cursor anchor.Reaches (next answer) (next' answer) post) :
    Concur Tracked.cursor anchor.Reaches (first >>= next) (first' >>= next') post :=
  Concur.bind here later

theorem ite {condition : Prop} [Decidable condition] {yes yes' no no' : Parser σ α}
    (holds : ConcurFrom anchor yes yes') (fails : ConcurFrom anchor no no') :
    ConcurFrom anchor (if condition then yes else no) (if condition then yes' else no') :=
  Concur.ite holds fails

theorem scan {run run' : StateM σ α} (inner : Text.ConcurFrom anchor run run') :
    ConcurFrom anchor (scan run) (scan run') :=
  Concur.lift inner

theorem pointer_bind {next next' : Nat → Parser σ β}
    (later : ∀ here : Cursor, anchor.Reaches here →
      ConcurFrom anchor (next here.offset) (next' here.offset)) :
    ConcurFrom anchor (Parser.scan (@Scan.pointer σ (.allowing room)) >>= next)
      (Parser.scan Scan.pointer >>= next') :=
  Concur.scan_bind <| Text.Concur.pointer_bind fun here within =>
    Text.Concur.there (later here within) within

/-- A loop gets as many rounds as characters may be left, and perhaps some more. -/
theorem remaining_bind {next next' : Nat → Parser σ β}
    (later : ∀ here : Cursor, anchor.Reaches here → ∀ extra, Concur Tracked.cursor (· = here)
      (next (here.remaining + extra)) (next' here.remaining) fun _ => anchor.Reaches) :
    ConcurFrom anchor (Parser.scan (@Scan.remaining σ (.allowing room)) >>= next)
      (Parser.scan Scan.remaining >>= next') :=
  Concur.scan_bind (Text.Concur.remaining_bind later)

theorem rewind (within : anchor.Reaches here) (answer : α) :
    ConcurFrom anchor
      (do Parser.scan (@Scan.returnTo σ (.allowing room) here.offset); return answer)
      (do Parser.scan (Scan.returnTo here.offset); return answer) :=
  (Concur.lift (.returnTo fun _ reaches => reaches.1.trans within.1.symm)).bind fun _ =>
    .pure fun _ same => same ▸ within

/-- A round that passes a character leaves enough rounds for the rest of the loop. -/
theorem step_bind {next next' : Parser σ β} (within : anchor.Reaches here) (more : here.rest ≠ [])
    (later : ∀ after : Cursor, after.remaining < here.remaining → ConcurFrom after next next') :
    Concur Tracked.cursor (· = here)
      (do let _ ← Parser.scan (@Scan.step σ (.allowing room)); next)
      (do let _ ← Parser.scan Scan.step; next') fun _ => anchor.Reaches := by
  have passes : Precedes here here.advance := .advance more
  have rest := (later _ passes.remaining_lt).behind (within.trans passes.reaches)
  exact Concur.scan_bind (.step_bind rest)

theorem current_bind {next next' : Option Char → Parser σ β}
    (ended : ConcurFrom anchor (next none) (next' none))
    (stands : ∀ (here : Cursor) (character : Char), anchor.Reaches here → here.rest ≠ [] →
      Concur Tracked.cursor (· = here) (next (some character)) (next' (some character))
        fun _ => anchor.Reaches) :
    ConcurFrom anchor (Parser.scan (@Scan.current σ (.allowing room)) >>= next)
      (Parser.scan Scan.current >>= next') :=
  Concur.scan_bind <| Text.Concur.current_bind ended fun here character within head =>
    stands here character within (Cursor.rest_ne_nil_of_head? head)

/-- What comes behind a character that is accepted is further away. -/
theorem accept_bind {expected : Char} {next next' : Bool → Parser σ β}
    (accepted : ∀ later, Precedes anchor later → ConcurFrom later (next true) (next' true))
    (declined : ConcurFrom anchor (next false) (next' false)) :
    ConcurFrom anchor (Parser.scan (@Scan.accept σ (.allowing room) expected) >>= next)
      (Parser.scan (Scan.accept expected) >>= next') := by
  refine (Concur.lift (.accept expected)).test (.each fun later passed => ?_) declined
  have passes := passed_reaches passed
  exact (accepted later passes).behind passes.reaches

theorem acceptText_bind {literal : String} (nonempty : literal ≠ "")
    {next next' : Bool → Parser σ β}
    (accepted : ∀ later, Precedes anchor later → ConcurFrom later (next true) (next' true))
    (declined : ConcurFrom anchor (next false) (next' false)) :
    ConcurFrom anchor (Parser.scan (@Scan.acceptText σ (.allowing room) literal) >>= next)
      (Parser.scan (Scan.acceptText literal) >>= next') := by
  refine (Concur.lift (.acceptText nonempty)).test (.each fun later passed => ?_) declined
  have passes := passed_reaches passed
  exact (accepted later passes).behind passes.reaches

theorem fail {problem : ParseProblem} (other : problem ≠ .unexpectedEnd) :
    ConcurFrom anchor (@Parser.fail σ (.allowing room) α problem) (Parser.fail problem) :=
  Concur.fail other

/-- The rules of the grammar go along with it. -/
def congruence (anchor : Cursor) : @Congruence σ σ (.allowing room) _ :=
  @Congruence.mk σ σ (.allowing room) _ (Text.ConcurFrom anchor) (ConcurFrom anchor) .pure .bind
    .ite .current .step .skipSpaces .acceptBreak .accept .acceptText .currentIs .takeWhile .orRewind
    pure bind ite scan
    (fun later => (scan .position).bind fun place => later place place fun _ ordinary =>
      throw fun _ same => ordinary.1 (TemplateError.parse.inj same).1)
    fun later => pointer_bind fun here within =>
      later here.offset here.offset fun answer => rewind within answer

theorem require (what : String) (found : Option α) :
    ConcurFrom anchor (@Parser.require σ (.allowing room) α what found)
      (Parser.require what found) :=
  (congruence anchor).require what found

theorem expectSymbol (character : Char) :
    ConcurFrom anchor (@Parser.expectSymbol σ (.allowing room) character)
      (Parser.expectSymbol character) :=
  (congruence anchor).expectSymbol character

theorem name? :
    Text.ConcurFrom anchor (@Parser.name? σ (.allowing room)) (Parser.name? : StateM σ _) :=
  (congruence anchor).name?

theorem expectName (what : String) :
    ConcurFrom anchor (@Parser.expectName σ (.allowing room) what) (Parser.expectName what) :=
  (congruence anchor).expectName what

end ConcurFrom

end Parser

end Stencil
