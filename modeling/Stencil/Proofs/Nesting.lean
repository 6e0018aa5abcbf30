import Stencil.Proofs.Run.Settles
import Stencil.Proofs.Session.Begin
import Stencil.Proofs.Template

/-!
# Nesting and termination

Placeholder bodies and embedded texts nest up to a limit, and between renders nothing is nested.
Where all loops go over the elements of lists every render ends, however placeholders and embedded
texts refer to each other: each run either goes one level deeper, of which there are finitely many,
or to a shorter part of the same text.
-/

namespace Stencil

open Text Directive

variable {η : Type}

/-- Whether a loop goes over the elements of a list. -/
def LoopHeader.iterates : LoopHeader → Bool
  | .iterable .. => true
  | .conditional .. | .numbered .. => false

theorem Node.iterates_loop (header : LoopHeader) (body : BlockRef) :
    (Node.loop header body).iterates = header.iterates := by
  cases header <;> rfl

/-- All headers of loops in a text are of loops over the elements of lists. -/
def Text.IteratesOnly (text : List Char) : Prop :=
  ∀ header, loopHeader.AnswersIn "@for(" text header → header.iterates = true

theorem Text.iteratesOnly_of_all {text : List Char}
    (all : (loopHeader.answersFrom "@for(" [] text).all LoopHeader.iterates = true) :
    IteratesOnly text :=
  fun _ standing => standing.of_all all

namespace Session

variable {session : Session η} {embeddings : Embeddings}

/-- Blocks of such texts have no other loops. -/
theorem iteratesOnly_of_textsAre (valid : session.Valid embeddings)
    (texts : session.TextsAre Text.IteratesOnly)
    (embedded : ∀ path text, embeddings path = some text → Text.IteratesOnly text.toList) :
    session.IteratesOnly embeddings := by
  intro after chain id nodes parsed node member
  have validAfter := chain.valid valid
  have textsAfter := chain.textsAre valid (fun _ _ _ => embedded) texts
  by_cases present : id.index < after.blocks.size
  · have isThere := getElem?_of_lt present
    obtain ⟨-, origins⟩ := validAfter.parsed id _ nodes isThere parsed
    cases origins node member with
    | loop header body opening isMade standing =>
        rw [Node.iterates_loop]
        exact textsAfter id _ isThere header standing
    | _ => rfl
  · rw [block_of_le (Nat.le_of_not_lt present)] at parsed
    cases parsed

end Session

namespace Template

variable {source : AnySource} {options : Options} {host : Host η} {state : η}
  {template : Template η}

theorem iteratesOnly_ofSource (host : Host η) (state : η)
    (own : Text.IteratesOnly source.cursor.text)
    (embedded : ∀ path text, options.embeddings path = some text → Text.IteratesOnly text.toList) :
    (ofSource source options host state).session.IteratesOnly options.embeddings := by
  have defaults (kind : Kind) : Text.IteratesOnly (defaultBody kind).toList :=
    Text.iteratesOnly_of_all (by cases kind <;> decide +kernel)
  exact Session.iteratesOnly_of_textsAre (valid_ofSource source options host state)
    (textsAre_ofSource source options host state own defaults) embedded

theorem iteratesOnly_ofString {text : String} (host : Host η) (state : η)
    (own : Text.IteratesOnly text.toList)
    (embedded : ∀ path text, options.embeddings path = some text → Text.IteratesOnly text.toList) :
    (ofString text options host state).session.IteratesOnly options.embeddings :=
  iteratesOnly_ofSource host state own embedded

/-- Between renders nothing is nested. -/
theorem Evolves.depth {mayChange : Store η → Store η → Prop}
    (evolves : (ofSource source options host state).Evolves mayChange template) :
    template.session.depth = 0 := by
  induction evolves with
  | refl =>
      exact ofSource_induction (fun session => session.depth = 0) source options host state rfl
        (fun _ _ => id) fun _ => id
  | @render template earlier fuel induction =>
      let begun : Session η := { template.session with writes := #[] }
      have enough : Run.nestingLimit ≤ begun.depth + Run.nestingLimit := Nat.le_add_left _ _
      have ran := Run.block_eq_blockWithin template.environment (fun _ => throw .outOfFuel) fuel
        enough template.root
      exact ran.2.trans induction
  | change earlier store may induction => exact induction

/-- What a render is whose run ended in a session. -/
def rendered (template : Template η) (result : Except Stop Unit × Session η) :
    Rendering × Template η :=
  ({ outcome := result.1, writes := result.2.writes }, { template with session := result.2 })

/-- Renders a template, and hands blocks below so many levels of nesting to something else. -/
def renderWithin (template : Template η) (escape : BlockRef → Run η Unit) (levels fuel : Nat) :
    Rendering × Template η :=
  template.rendered ((Run.blockWithin template.environment escape fuel levels
    template.root).run.run { template.session with writes := #[] })

theorem render_eq_rendered (template : Template η) (fuel : Nat) :
    template.render fuel = template.rendered ((Run.block template.environment fuel
      template.root).run.run { template.session with writes := #[] }) :=
  rfl

/-- Rendering with enough levels below is rendering without such a bound. -/
theorem render_eq_renderWithin (escape : BlockRef → Run η Unit) {levels : Nat}
    (enough : Run.nestingLimit ≤ template.session.depth + levels) (fuel : Nat) :
    template.render fuel = template.renderWithin escape levels fuel := by
  let begun : Session η := { template.session with writes := #[] }
  have enoughBegun : Run.nestingLimit ≤ begun.depth + levels := enough
  rw [render_eq_rendered, renderWithin,
    (Run.block_eq_blockWithin template.environment escape fuel enoughBegun template.root).1]

/-- With enough fuel a render of a template whose loops go over the elements of lists ends, always
in the same way. -/
theorem Evolves.settles
    (evolves : (ofSource source options host state).Evolves (fun _ _ => True) template)
    (iterates : (ofSource source options host state).session.IteratesOnly options.embeddings) :
    ∃ enough rendering after, rendering.outcome ≠ .error .outOfFuel ∧
      ∀ fuel, enough ≤ fuel → template.render fuel = (rendering, after) := by
  obtain ⟨valid, chain⟩ := evolves.free_chain
  obtain ⟨environment, sound, present⟩ := evolves.free_sound fun _ => True
  let begun : Session η := { template.session with writes := #[] }
  have begins : template.session.Step (Policy.free fun _ => True) options.embeddings begun := .begin
  have embeddings : template.environment.embeddings = options.embeddings := by rw [environment]
  have ready : begun.Ready template.environment.embeddings 0 := by
    rw [embeddings]
    exact ⟨begins.valid sound.valid,
      fun after later => iterates after ((chain.trans (.single begins)).trans later), evolves.depth⟩
  obtain ⟨enough, outcome, after, ran, ends, -⟩ :=
    Run.settles template.environment Run.nestingLimit (Nat.le_add_left _ _) begun present ready
  refine ⟨enough, { outcome, writes := after.writes }, { template with session := after }, ends,
    fun fuel le => ?_⟩
  rw [render_eq_rendered, ran fuel le]
  rfl

/-- A text that embeds itself, with a placeholder for lists that writes lists through itself. -/
def echoes : String :=
  "@define_placeholder(list)@for(item, i: __param__)@if(i > 0)@var(__param__)@else@var(item)@endif" ++
    "@endfor@end_define_placeholder@var(items)\n@embed echoes\n"

def echoOptions : Options :=
  { embeddings := fun path => if path = "echoes" then some echoes else none }

end Template

end Stencil
