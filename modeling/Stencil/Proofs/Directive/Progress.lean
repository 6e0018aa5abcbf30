import Mathlib.Data.List.Forall2
import Stencil.Proofs.Directive.Allowance

/-!
# Recognisers go forward or stay

Each recogniser of a block passes the directive that it finds and leaves the place alone if it
declines, also where it makes blocks on the way.  A mark that all of them decline is passed as text,
so every directive of a block lies behind the one before it.
-/

namespace Stencil

open Text Text.Brackets Directive

variable {σ : Type} [Source σ] [Tracked σ] {room : σ → Nat} {α β : Type} {anchor start : Cursor}
  {pre : Cursor → Prop} {post : α → Cursor → Prop}

namespace DirectiveParser

/-- From an anchor on two parsers do the same on a draft, and they do not go back behind it. -/
abbrev ConcurFrom (anchor : Cursor) (left right : DirectiveParser σ α) : Prop :=
  Parser.Concur Draft.place anchor.Reaches left right fun _ => anchor.Reaches

namespace Concur

theorem scan {run run' : StateM σ α} (inner : Text.Concur Tracked.cursor pre run run' post) :
    Parser.Concur Draft.place pre (DirectiveParser.scan run) (DirectiveParser.scan run') post := by
  refine .lift fun draft within => ?_
  obtain ⟨same, came⟩ := inner draft.source within
  refine ⟨?_, came⟩
  exact congrArg (fun ran : α × σ => (ran.1, { draft with source := ran.2 })) same

theorem parse {parser parser' : Parser σ α}
    (inner : Parser.Concur Tracked.cursor pre parser parser' post) :
    Parser.Concur Draft.place pre (DirectiveParser.parse parser) (DirectiveParser.parse parser')
      post := by
  intro draft within
  obtain ⟨same, came⟩ := inner draft.source within
  refine ⟨?_, came⟩
  exact congrArg (fun ran : Except TemplateError α × σ => (ran.1, { draft with source := ran.2 }))
    same

theorem pointer : Parser.Concur Draft.place pre
    (DirectiveParser.scan (@Scan.pointer σ (.allowing room))) (DirectiveParser.scan Scan.pointer)
    fun _ => pre :=
  fun _ within => ⟨rfl, within⟩

theorem newBlock (block : BlockRef → Block) : Parser.Concur Draft.place pre
    (DirectiveParser.newBlock block : DirectiveParser σ BlockRef) (DirectiveParser.newBlock block)
    fun _ => pre :=
  fun _ within => ⟨rfl, within⟩

theorem newScope (context : BlockContext) (name : String) : Parser.Concur Draft.place pre
    (DirectiveParser.newScope context name : DirectiveParser σ ScopeRef)
    (DirectiveParser.newScope context name) fun _ => pre :=
  fun _ within => ⟨rfl, within⟩

theorem newSource (added : AnySource) : Parser.Concur Draft.place pre
    (DirectiveParser.newSource added : DirectiveParser σ SourceRef)
    (DirectiveParser.newSource added) fun _ => pre :=
  fun _ within => ⟨rfl, within⟩

theorem newBody (context : BlockContext) (range : BodyRange) (role : BlockRole) (scope : ScopeRef)
    (enclosingLoop : BlockRef → Option BlockRef) : Parser.Concur Draft.place pre
    (@Directive.newBody σ (.allowing room) context range role scope enclosingLoop)
    (Directive.newBody context range role scope enclosingLoop) fun _ => pre :=
  pointer.bind fun _ => newBlock _

section

variable {next next' : Nat → DirectiveParser σ β} {postNext : β → Cursor → Prop}

theorem pointer_bind
    (later : ∀ here, pre here → Parser.Concur Draft.place (· = here) (next here.offset)
      (next' here.offset) postNext) :
    Parser.Concur Draft.place pre
      (DirectiveParser.scan (@Scan.pointer σ (.allowing room)) >>= next)
      (DirectiveParser.scan Scan.pointer >>= next') postNext := by
  intro draft within
  have rest := later _ within draft rfl
  rw [Draft.place, ← Tracked.pointer_eq] at rest
  exact rest

theorem remaining_bind
    (later : ∀ here, pre here → ∀ extra, Parser.Concur Draft.place (· = here)
      (next (here.remaining + extra)) (next' here.remaining) postNext) :
    Parser.Concur Draft.place pre
      (DirectiveParser.scan (@Scan.remaining σ (.allowing room)) >>= next)
      (DirectiveParser.scan Scan.remaining >>= next') postNext := by
  intro draft within
  have rest := later _ within (room draft.source) draft rfl
  rw [Draft.place, ← Tracked.remaining_eq] at rest
  exact rest

end

end Concur

namespace ConcurFrom

theorem scan {run run' : StateM σ α} (inner : Text.ConcurFrom anchor run run') :
    ConcurFrom anchor (DirectiveParser.scan run) (DirectiveParser.scan run') :=
  Concur.scan inner

theorem parse {parser parser' : Parser σ α} (inner : Parser.ConcurFrom anchor parser parser') :
    ConcurFrom anchor (DirectiveParser.parse parser) (DirectiveParser.parse parser') :=
  Concur.parse inner

variable (context : BlockContext)

theorem bodyRange {opening : String} (nonempty : opening ≠ "") (limit : Nat)
    (keywords : List String) : ConcurFrom anchor
    (DirectiveParser.parse (@Directive.bodyRange σ (.allowing room) limit opening keywords))
    (DirectiveParser.parse (Directive.bodyRange limit opening keywords)) :=
  parse (.bodyRange limit nonempty keywords)

theorem branchBody : ConcurFrom anchor (@Directive.branchBody σ (.allowing room) context)
    (Directive.branchBody context) :=
  (bodyRange (by decide) _ _).bind fun _ => (Concur.newScope context "if").bind fun _ =>
    (Concur.newBody context _ _ _ _).bind fun _ => .pure fun _ within => within

theorem lastBody : ConcurFrom anchor (@Directive.lastBody σ (.allowing room) context)
    (Directive.lastBody context) :=
  (scan .acceptBreak).bind fun _ => (branchBody context).bind fun _ =>
    .ite (parse (.fail nofun)) (.pure fun _ within => within)

/-- Every further branch lies behind the condition that it begins with. -/
theorem branchesFrom {more fuel : Nat} (enoughMore : anchor.remaining < more)
    (enough : anchor.remaining < fuel) (condition : Condition) :
    ConcurFrom anchor (@Directive.branchesFrom σ (.allowing room) context more condition)
      (Directive.branchesFrom context fuel condition) := by
  induction fuel generalizing anchor more condition with
  | zero => exact absurd enough (Nat.not_lt_zero _)
  | succ fuel induction =>
      obtain ⟨more, rfl⟩ : ∃ less, more = less + 1 := ⟨more - 1, by omega⟩
      refine (branchBody context).bind fun (body, found) => ?_
      match found with
      | 0 =>
          refine (Concur.parse Parser.ConcurFrom.branchCondition).bind fun next => ?_
          refine .each fun later passes => ?_
          have less := passes.remaining_lt
          refine (Parser.Concur.outset (induction (by omega) (by omega) next)).bind
            fun _ => .pure ?_
          exact fun _ => passes.reaches.trans
      | 1 => exact (lastBody context).bind fun _ => .pure fun _ within => within
      | _ + 2 => exact .pure fun _ within => within

theorem branches : Parser.Builds Draft.place anchor (@Directive.branches σ (.allowing room) context)
    (Directive.branches context) := by
  refine (Concur.parse Parser.ConcurFrom.branchCondition).bind fun condition => ?_
  refine Concur.remaining_bind fun here passes extra => ?_
  refine (Parser.Concur.outset (branchesFrom context (by omega) (by omega) condition)).bind
    fun _ => .pure fun _ within => ?_
  exact ⟨passes.reaches.trans within, Node.sound_of_other rfl rfl⟩

theorem definition : Parser.Builds Draft.place anchor
    (@Directive.definition σ (.allowing room) context) (Directive.definition context) :=
  (parse (.expectName _)).bind fun _ => (parse (.furtherNames 2)).bind fun _ =>
    (parse (.expectSymbol ')')).bind fun _ => (scan .acceptBreak).bind fun _ =>
    (bodyRange (by decide) _ _).bind fun _ => (scan .acceptBreak).bind fun _ =>
    (Concur.newScope context _).bind fun _ => (Concur.newBody context _ _ _ _).bind fun _ =>
    Parser.Builds.pure rfl rfl

theorem embed : Parser.Builds Draft.place anchor (@Directive.embed σ (.allowing room) context)
    (Directive.embed context) := by
  refine (parse .embeddedPath).bind fun path => ?_
  cases context.embeddings path with
  | none => exact .throw nofun
  | some text =>
      exact (Concur.newSource _).bind fun _ => (Concur.newBlock _).bind fun _ =>
        Parser.Builds.pure rfl rfl

end ConcurFrom

namespace Concur

theorem declines : Parser.Concur Draft.place (· = start)
    (Pure.pure none : DirectiveParser σ (Option Node)) (Pure.pure none) (Node.Recognised start) :=
  .pure fun _ same => same

/-- Behind the opening of a directive its rule goes on. -/
theorem opening {literal : String} (nonempty : literal ≠ "") {left right : DirectiveParser σ Node}
    {others others' : DirectiveParser σ (Option Node)}
    (builds : ∀ later, Parser.Builds Draft.place later left right)
    (declined : Parser.Concur Draft.place (· = start) others others' (Node.Recognised start)) :
    Parser.Concur Draft.place (· = start)
      (do
        if ← DirectiveParser.scan (@Scan.acceptText σ (.allowing room) literal) then
          return some (← left)
        else others)
      (do
        if ← DirectiveParser.scan (Scan.acceptText literal) then return some (← right)
        else others')
      (Node.Recognised start) := by
  refine .test (scan (.acceptText nonempty)) (.each ?_) declined
  rintro later ⟨_, rfl, passes⟩
  exact (builds later).found passes

variable (context : BlockContext)

theorem loop? : Parser.Concur Draft.place (· = start)
    (@Directive.loop? σ (.allowing room) context) (Directive.loop? context)
    (Node.Recognised start) := by
  refine .test (scan (.acceptText (by decide))) (.each ?_) declines
  rintro later ⟨_, rfl, passes⟩
  refine .outset <| (ConcurFrom.parse .loopHeader).bind fun header =>
    (ConcurFrom.parse (.expectSymbol ')')).bind fun _ =>
    (ConcurFrom.scan .acceptBreak).bind fun _ =>
    (ConcurFrom.bodyRange (by decide) _ _).bind fun _ => (newScope context "for").bind fun _ =>
    (newBody context _ _ _ _).bind fun _ => .pure fun _ within => ?_
  exact ⟨passes.trans_reaches within, Node.sound_of_other rfl rfl⟩

theorem placeholder? : Parser.Concur Draft.place (· = start)
    (@Directive.placeholder? σ (.allowing room) context) (Directive.placeholder? context)
    (Node.Recognised start) :=
  opening (by decide) (fun _ => ConcurFrom.definition context) <|
    opening (by decide) (fun _ => parse Parser.ConcurFrom.defaultUse) <|
    opening (by decide) (fun _ => parse Parser.ConcurFrom.definitionUse) declines

theorem nested? : Parser.Concur Draft.place (· = start)
    (@Directive.nested? σ (.allowing room) context) (Directive.nested? context)
    (Node.Recognised start) := by
  refine opening (by decide) (fun _ => parse (Parser.ConcurFrom.leave context)) <|
    opening (by decide) (fun _ => ConcurFrom.branches context) <|
    opening (by decide) (fun _ => ConcurFrom.embed context) ?_
  refine (scan (Parser.Concur.stray? closingKeywords)).bind fun found => ?_
  cases found with
  | none => exact declines
  | some keyword => exact parse (.fail nofun)

end Concur

/-- Two recognisers do the same wherever they are tried: they find a directive further on, or they
decline and stay. -/
def Recognise (left right : DirectiveParser σ (Option Node)) : Prop :=
  ∀ start, Parser.Concur Draft.place (· = start) left right (Node.Recognised start)

variable (context : BlockContext)

theorem recognise : List.Forall₂ Recognise (@Directive.recognisers σ (.allowing room) context)
    (Directive.recognisers context) :=
  .cons (fun _ => Concur.scan (Parser.Concur.text? context.limit)) <|
    .cons (fun _ => Concur.parse Parser.Concur.declaration?) <|
    .cons (fun _ => Concur.loop? context) <|
    .cons (fun _ => Concur.placeholder? context) <|
    .cons (fun _ => Concur.parse Parser.Concur.read?) <|
    .cons (fun _ => Concur.nested? context) .nil

namespace Concur

theorem firstOf? {rules rules' : List (DirectiveParser σ (Option Node))}
    (each : List.Forall₂ Recognise rules rules') :
    Parser.Concur Draft.place (· = start) (@Directive.firstOf? σ (.allowing room) rules)
      (Directive.firstOf? rules') (Node.Recognised start) := by
  induction each with
  | nil => exact declines
  | cons here _ induction =>
      refine pointer_bind ?_
      rintro start rfl
      refine (here start).bind fun found => ?_
      cases found with
      | some node => exact .pure fun _ recognised => recognised
      | none => exact (scan (.returnTo fun _ same => same ▸ rfl)).bind fun _ => induction

/-- Also a mark that every recogniser declines is passed. -/
theorem node (more : start.rest ≠ []) : Parser.Concur Draft.place (· = start)
    (@Directive.node σ (.allowing room) context) (Directive.node context)
    fun node later => Precedes start later ∧ node.Sound := by
  refine (firstOf? (recognise context)).bind fun found => ?_
  cases found with
  | some node => exact .pure fun _ recognised => recognised
  | none => exact parse (Parser.Concur.markText more)

end Concur

/-- A recogniser that declines leaves the place where it was. -/
theorem declined_of_mem {rules rules' : List (DirectiveParser σ (Option Node))}
    (each : List.Forall₂ Recognise rules rules') :
    ∀ recogniser ∈ rules', ∀ before after : Draft σ,
      recogniser.run.run before = (.ok none, after) → after.place = before.place := by
  induction each with
  | nil => exact List.forall_mem_nil _
  | cons here _ induction =>
      refine List.forall_mem_cons.mpr ⟨fun before after ran => ?_, induction⟩
      have came := (here before.place before rfl).2
      rw [ran] at came
      exact came

end DirectiveParser

end Stencil
