import Stencil.Proofs.Directive.Mirror
import Stencil.Proofs.Expression.Allowance

/-!
# Rules of directives go forward or stay

With more rounds for its loops every rule of directives does what it does without them.  A rule that
finds a directive has passed some of the text, and one that declines is where it was.
-/

namespace Stencil

open Text Text.Brackets Directive

/-- The place of a draft in the text of its source. -/
def Draft.place {σ : Type} [Source σ] [Tracked σ] (draft : Draft σ) : Cursor :=
  Tracked.cursor draft.source

/-- Whether a node is text. -/
def Node.isText : Node → Bool
  | .text _ => true
  | _ => false

/-- A node that is neither an error nor an empty text. -/
structure Node.Sound (node : Node) : Prop where
  directs : node.Directs
  filled (content : String) (isText : node = .text content) : content ≠ ""

theorem Node.sound_of_other {node : Node} (directs : node.isMalformed = false)
    (other : node.isText = false) : node.Sound := by
  refine ⟨Node.directs_of_isMalformed directs, ?_⟩
  rintro content rfl
  cases other

theorem Node.sound_text {content : String} (filled : content ≠ "") : (Node.text content).Sound := by
  refine ⟨Node.directs_of_isMalformed rfl, ?_⟩
  rintro _ ⟨⟩
  exact filled

/-- What a rule that is tried at a place comes to: a directive further on, or the place itself. -/
def Node.Recognised (start : Cursor) : Option Node → Cursor → Prop
  | some node, later => Precedes start later ∧ node.Sound
  | none, later => later = start

namespace Parser

variable {σ : Type} [Source σ] [Tracked σ] {room : σ → Nat} {ρ α β : Type} {anchor start : Cursor}

/-- From an anchor on two rules read the same directive. -/
def Builds (place : ρ → Cursor) (anchor : Cursor) (left right : Parser ρ Node) : Prop :=
  Concur place anchor.Reaches left right fun node later => anchor.Reaches later ∧ node.Sound

/-- A directive other than text is sound. -/
theorem Builds.pure {place : ρ → Cursor} {node : Node} (directs : node.isMalformed = false)
    (other : node.isText = false) :
    Builds place anchor (Pure.pure node : Parser ρ Node) (Pure.pure node) :=
  Concur.pure fun _ within => ⟨within, Node.sound_of_other directs other⟩

/-- A directive that is read behind its opening is found. -/
theorem Builds.found {place : ρ → Cursor} {left right : Parser ρ Node} {later : Cursor}
    (builds : Builds place later left right) (passes : Precedes start later) :
    Concur place (· = later) (do return some (← left)) (do return some (← right))
      (Node.Recognised start) :=
  (Concur.outset builds).bind fun _ => .pure fun _ ⟨within, sound⟩ =>
    ⟨passes.trans_reaches within, sound⟩

/-- A symbol that is required is passed. -/
theorem Concur.expectSymbol (character : Char) :
    Concur Tracked.cursor anchor.Reaches (@Parser.expectSymbol σ (.allowing room) character)
      (Parser.expectSymbol character) fun _ => Precedes anchor := by
  refine Concur.bind (ConcurFrom.scan .skipSpaces) fun _ => .test (.lift (.accept character)) ?_ ?_
  · exact .pure fun _ => passed_reaches
  · exact .fail nofun

namespace ConcurFrom

theorem bodyLength (start : Nat) :
    Text.ConcurFrom anchor (@Directive.bodyLength σ (.allowing room) start)
      (Directive.bodyLength start) := by
  have mirrors (anchor : Cursor) : Text.Mirrors anchor (.itself anchor.text)
      (Directive.bodyLength start : StateM σ Nat) (Directive.bodyLength start) :=
    Mirrors.bodyLength start
  exact .of_mirrors rfl mirrors

theorem bodyRange (limit : Nat) {opening : String} (nonempty : opening ≠ "")
    (keywords : List String) :
    ConcurFrom anchor (@Directive.bodyRange σ (.allowing room) limit opening keywords)
      (Directive.bodyRange limit opening keywords) := by
  refine pointer_bind fun start _ =>
    (scan (.closingKeyword? nonempty keywords)).bind fun found => ?_
  cases found with
  | none => exact fail nofun
  | some index =>
      refine pointer_bind fun place _ => ite ?_ (fail nofun)
      exact (scan (bodyLength start.offset)).bind fun length =>
        (scan (.acceptText _)).bind fun _ => pure _

theorem elementNames? :
    Text.ConcurFrom anchor
        (@Directive.elementNames? σ (.allowing room)) Directive.elementNames? :=
  (congruence anchor).elementNames?

theorem counterName? :
    Text.ConcurFrom anchor
        (@Directive.counterName? σ (.allowing room)) Directive.counterName? :=
  (congruence anchor).counterName?

theorem loopHeader :
    ConcurFrom anchor (@Directive.loopHeader σ (.allowing room)) Directive.loopHeader :=
  (congruence anchor).loopHeader expression?

/-- The parenthesis that closes a condition is passed. -/
theorem branchCondition :
    Concur Tracked.cursor anchor.Reaches (@Directive.branchCondition σ (.allowing room))
      Directive.branchCondition fun _ => Precedes anchor := by
  refine (scan .skipSpaces).andThen fun _ => condition?.andThen fun found =>
    (require _ found).andThen fun condition => ?_
  refine (Concur.expectSymbol ')').bind fun _ => .each fun later passes => ?_
  refine ((scan .acceptBreak).behind (.refl later)).bind fun _ => .pure fun _ => ?_
  exact passes.trans_reaches

theorem furtherNames (allowed : Nat) :
    ConcurFrom anchor (@Directive.furtherNames σ (.allowing room) allowed)
      (Directive.furtherNames allowed) :=
  (congruence anchor).furtherNames allowed

theorem defaultUse :
    Builds Tracked.cursor anchor
        (@Directive.defaultUse σ (.allowing room)) Directive.defaultUse := by
  refine (expectName _).andThen fun name => (scan .skipSpaces).andThen fun _ =>
    (scan (.accept ',')).andThen fun _ => .ite ?_ ?_
  · exact (scan .skipSpaces).andThen fun _ => (expression _).andThen fun _ =>
      (pure _).andThen fun _ => (expectSymbol ')').andThen fun _ => Builds.pure rfl rfl
  · exact (pure none).andThen fun _ => (expectSymbol ')').andThen fun _ => Builds.pure rfl rfl

theorem definitionUse :
    Builds Tracked.cursor anchor (@Directive.definitionUse σ (.allowing room))
      Directive.definitionUse := by
  refine (expectName _).andThen fun name => (scan .skipSpaces).andThen fun _ =>
    (scan (.accept ',')).andThen fun _ => .ite ?_ ?_
  · exact (expectName _).andThen fun _ => (expectSymbol ')').andThen fun _ => Builds.pure rfl rfl
  · exact (pure _).andThen fun _ => (expectSymbol ')').andThen fun _ => Builds.pure rfl rfl

theorem leave (context : BlockContext) :
    Builds Tracked.cursor anchor (@Directive.leave σ (.allowing room) context)
      (Directive.leave context) := by
  unfold Directive.leave
  cases context.enclosingLoop with
  | none => exact Concur.fail nofun
  | some target => exact (scan .acceptBreak).andThen fun _ => Builds.pure rfl rfl

theorem embeddedPath :
    ConcurFrom anchor (@Directive.embeddedPath σ (.allowing room)) Directive.embeddedPath :=
  (congruence anchor).embeddedPath

end ConcurFrom

/-- Text in front of a mark is passed, if there is any. -/
theorem Concur.textFrom (limit : Nat) {more fuel : Nat} (enoughMore : start.remaining < more)
    (enough : start.remaining < fuel) (taken : List Char) :
    Text.Concur Tracked.cursor (· = start)
      (@Directive.textFrom σ (.allowing room) limit more taken)
      (Directive.textFrom limit fuel taken) fun found later =>
        found = taken ∧ later = start ∨ found ≠ [] ∧ Precedes start later := by
  induction fuel generalizing start more taken with
  | zero => exact absurd enough (Nat.not_lt_zero _)
  | succ fuel induction =>
      obtain ⟨more, rfl⟩ : ∃ less, more = less + 1 := ⟨more - 1, by omega⟩
      refine .pointer_bind ?_
      rintro start rfl
      have stays : Text.Concur Tracked.cursor (· = start) (Pure.pure taken : StateM σ _)
          (Pure.pure taken) fun found later =>
            found = taken ∧ later = start ∨ found ≠ [] ∧ Precedes start later :=
        .pure fun _ same => .inl ⟨rfl, same⟩
      refine .ite (.current_bind stays ?_) stays
      rintro start character rfl stands
      have passes : Precedes start start.advance :=
        .advance (Cursor.rest_ne_nil_of_head? stands)
      have less := passes.remaining_lt
      refine .ite stays (.step_bind ?_)
      refine (induction (by omega) (by omega) (character :: taken)).weaken (fun _ same => same) ?_
      rintro found later (⟨rfl, rfl⟩ | ⟨nonempty, further⟩)
      · exact .inr ⟨List.cons_ne_nil _ _, passes⟩
      · exact .inr ⟨nonempty, passes.trans_reaches further.reaches⟩

theorem Concur.text? (limit : Nat) :
    Text.Concur Tracked.cursor (· = start) (@Directive.text? σ (.allowing room) limit)
      (Directive.text? limit) (Node.Recognised start) := by
  refine .remaining_bind ?_
  rintro start rfl extra
  refine (textFrom limit (by omega) (by omega) []).bind fun taken => ?_
  cases taken with
  | nil =>
      refine .pure ?_
      rintro later (⟨-, same⟩ | ⟨nonempty, -⟩)
      · exact same
      · exact absurd rfl nonempty
  | cons character taken =>
      refine .pure ?_
      rintro later (⟨never, -⟩ | ⟨-, passes⟩)
      · cases never
      · refine ⟨passes, Node.sound_text fun empty => ?_⟩
        simpa using congrArg String.toList empty

theorem Concur.declarationStart? :
    Text.Concur Tracked.cursor (· = start) (@Directive.declarationStart? σ (.allowing room))
      Directive.declarationStart? fun form? later =>
        cond form?.isSome (Precedes start later) (later = start) := by
  have found (form : BindingForm) : Text.Concur Tracked.cursor (Passed (· = start))
      (Pure.pure (some form) : StateM σ _) (Pure.pure (some form)) fun form? later =>
        cond form?.isSome (Precedes start later) (later = start) := by
    refine .pure ?_
    rintro later ⟨_, rfl, passes⟩
    exact passes
  exact .test (.acceptText (by decide)) (found _) <| .test (.acceptText (by decide)) (found _) <|
    .test (.acceptText (by decide)) (found _) (.pure fun _ same => same)

theorem Concur.declaration? :
    Concur Tracked.cursor (· = start) (@Directive.declaration? σ (.allowing room))
      Directive.declaration? (Node.Recognised start) := by
  refine (Concur.lift declarationStart?).bind fun form? => ?_
  cases form? with
  | none => exact .pure fun _ same => same
  | some form =>
      refine .each fun later passes => .outset ?_
      refine (ConcurFrom.expectName _).andThen fun name =>
        (ConcurFrom.expectSymbol '=').andThen fun _ =>
        (ConcurFrom.scan .skipSpaces).andThen fun _ =>
        (ConcurFrom.expression _).andThen fun value =>
        (ConcurFrom.scan .acceptBreak).andThen fun _ => .pure fun _ within => ?_
      refine ⟨passes.trans_reaches within, ?_⟩
      cases form <;> exact Node.sound_of_other rfl rfl

theorem Concur.read? :
    Concur Tracked.cursor (· = start) (@Directive.read? σ (.allowing room)) Directive.read?
      (Node.Recognised start) := by
  refine (Concur.reference? fun _ _ => ConcurFrom.expression?).bind fun path? =>
    .pure fun _ came => ?_
  cases path? with
  | none => exact came
  | some path => exact ⟨came, Node.sound_of_other rfl rfl⟩

/-- A keyword that is looked for is left alone. -/
theorem Concur.stray? {pre : Cursor → Prop} (keywords : List String) :
    Text.Concur Tracked.cursor pre (@Directive.stray? σ (.allowing room) keywords)
      (Directive.stray? keywords) fun _ => pre := by
  induction keywords with
  | nil => exact .pure fun _ within => within
  | cons keyword keywords induction =>
      exact (Text.Concur.looksAtKeyword keyword).bind fun _ =>
        .ite (.pure fun _ within => within) induction

/-- A character that no rule accepts is text. -/
theorem Concur.markText (more : start.rest ≠ []) :
    Concur Tracked.cursor (· = start) (@Directive.markText σ (.allowing room)) Directive.markText
      fun node later => Precedes start later ∧ node.Sound := by
  refine .scan_bind (.look_bind rfl (fun _ => .current) Scan.current_run ?_)
  rintro start rfl
  cases isRest : start.rest with
  | nil => exact absurd isRest more
  | cons character rest =>
      refine Concur.scan_bind (.step_bind (.pure ?_))
      rintro _ rfl
      refine ⟨.advance more, Node.sound_text fun empty => ?_⟩
      simpa using congrArg String.toList empty

end Parser

end Stencil
