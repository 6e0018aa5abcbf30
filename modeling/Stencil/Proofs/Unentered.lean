import Stencil.Proofs.DefaultPlaceholders
import Stencil.Proofs.Session.Varied

/-!
# Bodies that a template does not come to

Where each block is read within its range, a body that no render comes to may be any text: what it
is does not show in what the renders write, how they end and what they leave in the store.
-/

namespace Stencil

open Text

variable {η : Type}

namespace Session

variable {session : Session η} {variation : Variation}

theorem varied_ofGlobal (variation : Variation) (name : String) (state : η) :
    (ofGlobal name state).Varied variation (ofGlobal name state) where
  depth := rfl
  store := rfl
  placeholders := rfl
  writes := rfl
  size_blocks := rfl
  size_sources := rfl
  block _ := .refl _
  unparsed _ present _ := absurd present (Nat.not_lt_zero _)

/-- The placeholder that a kind begins with is the same in both. -/
theorem Varied.addDefaultPlaceholder (varied : session.Varied variation session)
    (fitted : session.Fitted) (kind : Kind) :
    (session.addDefaultPlaceholder kind).Varied variation (session.addDefaultPlaceholder kind) := by
  have text : defaultBody kind = String.ofList (printAll [.read kind.textPath]) := by
    rw [kind.print_textPath, String.ofList_toList]
  unfold Session.addDefaultPlaceholder
  generalize session.store.heap.newScope s!"placeholder {kind.name}" (some .global) = opened
  obtain ⟨scope, heap⟩ := opened
  dsimp only
  rw [text]
  have quiet : session.Quiet (session.modifyHeap fun _ => heap) :=
    ⟨rfl, rfl, fun _ => rfl, fun _ => rfl⟩
  have withScope : (session.modifyHeap fun _ => heap).Varied variation
      (session.modifyHeap fun _ => heap) :=
    varied.revise ⟨rfl, rfl, rfl, rfl, rfl, rfl, rfl, rfl⟩
  have withBody := withScope.addText (fitted.of_quiet quiet) (fitted.of_quiet quiet) scope
    .placeholder (.same ⟨none, "", _⟩ kind.areWellFormed_textPath)
  exact withBody.revise ⟨rfl, rfl, rfl, rfl, rfl, rfl, rfl, rfl⟩

end Session

namespace Template

/-- The template of the print of some trees around a body, which may be any text. -/
def around (layers : List Layer) (body : List Char) (options : Options) (host : Host η)
    (state : η) : Template η :=
  ofString (String.ofList (printAll (Layer.enclose layers [.text (String.ofList body)]))) options
    host state

/-- How a render ends that stops before it comes to the body inside some layers. -/
def endOutside (template : Template η) (layers : List Layer) (fuel : Nat) : Except Stop Unit :=
  let mayRun (session : Session η) (id : BlockRef) : Bool :=
    session.bodyOf? layers template.root ≠ some id
  let begun := { template.session with writes := #[] }
  ((Run.guarded mayRun template.environment fuel template.root).run.run begun).1

/-- What becomes of two templates around a body that are rendered together, if the first comes to
that body in no render and their hosts change the store in the same way. -/
inductive EvolveOutside (layers : List Layer) (first first' : Template η) :
    Template η → Template η → Prop where
  | refl : EvolveOutside layers first first' first first'
  | render {template template' : Template η}
      (earlier : EvolveOutside layers first first' template template') (fuel : Nat)
      (ends : template.endOutside layers fuel ≠ .error .outOfFuel) :
      EvolveOutside layers first first' (template.render fuel).2 (template'.render fuel).2
  | change {template template' : Template η}
      (earlier : EvolveOutside layers first first' template template') (store : Store η) :
      EvolveOutside layers first first' (template.withStore store) (template'.withStore store)

/-- Two templates that differ in a body. -/
structure Varied (variation : Variation) (template other : Template η) : Prop where
  environment : other.environment = template.environment
  root : template.root = variation.root
  otherRoot : other.root = variation.root
  session : template.session.Varied variation other.session
  fitted : template.session.Fitted
  otherFitted : other.session.Fitted

variable {variation : Variation} {template other : Template η} {layers : List Layer}
  {body otherBody : List Char} {options : Options} {host : Host η} {state : η}

/-- A render that does not come to the body is the same in both. -/
theorem Varied.render (varied : template.Varied variation other) {fuel : Nat}
    (ends : template.endOutside variation.layers fuel ≠ .error .outOfFuel) :
    (other.render fuel).1 = (template.render fuel).1 ∧
      (template.render fuel).2.Varied variation (other.render fuel).2 := by
  obtain ⟨environment, session, root⟩ := other
  obtain rfl : environment = template.environment := varied.environment
  obtain rfl : root = template.root := varied.otherRoot.trans varied.root.symm
  unfold endOutside at ends
  rw [varied.root] at ends
  have revised : template.session.Revised session { template.session with writes := #[] }
      { session with writes := #[] } :=
    have here := varied.session
    ⟨rfl, rfl, rfl, rfl, here.depth, here.store, here.placeholders, rfl⟩
  have quiet (session : Session η) : session.Quiet { session with writes := #[] } :=
    ⟨rfl, rfl, fun _ => rfl, fun _ => rfl⟩
  obtain ⟨outcome, variedAfter, fitted, fitted'⟩ :=
    Run.ran_block_akin template.environment (variation.kinship template.environment.embeddings)
      (varied.session.revise revised) (varied.fitted.of_quiet (quiet template.session))
      (varied.otherFitted.of_quiet (quiet session)) ends
  rw [← varied.root] at outcome variedAfter fitted fitted'
  exact ⟨congrArg₂ Rendering.mk outcome variedAfter.writes,
    ⟨rfl, varied.root, varied.root, variedAfter, fitted, fitted'⟩⟩

theorem Varied.withStore (varied : template.Varied variation other) (store : Store η) :
    (template.withStore store).Varied variation (other.withStore store) := by
  have here := varied.session
  have quiet (template : Template η) : template.session.Quiet (template.withStore store).session :=
    ⟨rfl, rfl, fun _ => rfl, fun _ => rfl⟩
  exact ⟨varied.environment, varied.root, varied.otherRoot,
    here.revise ⟨rfl, rfl, rfl, rfl, here.depth, rfl, here.placeholders, here.writes⟩,
    varied.fitted.of_quiet (quiet template), varied.otherFitted.of_quiet (quiet other)⟩

/-- Templates around two bodies without keywords of bodies are varied. -/
theorem varied_around (valid : areWellFormed false (Layer.enclose layers []) = true)
    (plain : holdsNoKeyword body = true) (plainOther : holdsNoKeyword otherBody = true) :
    (around layers body options host state).Varied
      ⟨⟨(seeded options state).blocks.size⟩, layers, body, otherBody, plain, plainOther⟩
      (around layers otherBody options host state) := by
  let variation : Variation :=
    ⟨⟨(seeded options state).blocks.size⟩, layers, body, otherBody, plain, plainOther⟩
  have both : (seeded options state).Valid options.embeddings ∧
      (seeded options state).Varied variation (seeded options state) := by
    refine seeded_induction (fun session => session.Valid options.embeddings ∧
      session.Varied variation session) options state ?_ ?_
    · exact ⟨Session.valid_ofGlobal _ _, Session.varied_ofGlobal _ _ _⟩
    · rintro session kind ⟨valid, varied⟩
      have sound : (Policy.free fun _ => True : Policy η).Sound options.embeddings session :=
        ⟨valid, trivial, fun _ _ _ => trivial⟩
      exact ⟨(sound.addDefaultPlaceholder (Policy.lawful_free _ True host) trivial trivial
        kind).1.valid, varied.addDefaultPlaceholder valid.fitted kind⟩
  have fitted (body : List Char) : (around layers body options host state).session.Fitted :=
    (valid_ofSource _ options host state).fitted
  exact ⟨rfl, rfl, rfl, both.2.addText both.1.fitted both.1.fitted .global .root
    (.inside [] layers rfl rfl valid), fitted body, fitted otherBody⟩

/-- A body that no render comes to cannot matter.  Two templates are well-formed but for one body,
which may be any text in which no keyword of a body stands.  They are rendered, and the host changes
the store, and as long as the first does not come to that body, both write the same, end alike and
leave the same store. -/
theorem unentered_body_spared (layers : List Layer)
    (valid : areWellFormed false (Layer.enclose layers []) = true)
    (plain : holdsNoKeyword body = true) (plainOther : holdsNoKeyword otherBody = true)
    (evolve : EvolveOutside layers (around layers body options host state)
      (around layers otherBody options host state) template other) (fuel : Nat)
    (ends : template.endOutside layers fuel ≠ .error .outOfFuel) :
    (other.render fuel).1 = (template.render fuel).1 ∧
      (other.render fuel).2.session.store = (template.render fuel).2.session.store := by
  have varied (later later' : Template η) (evolve : EvolveOutside layers
      (around layers body options host state) (around layers otherBody options host state) later
      later') : later.Varied ⟨⟨(seeded options state).blocks.size⟩, layers, body, otherBody, plain,
        plainOther⟩ later' := by
    induction evolve with
    | refl => exact varied_around valid plain plainOther
    | render _ _ ends induction => exact (induction.render ends).2
    | change _ store induction => exact induction.withStore store
  obtain ⟨same, after⟩ := (varied template other evolve).render ends
  exact ⟨same, after.session.store⟩

/-- A branch that is not entered, in a loop. -/
def skipping : List Layer :=
  [{ before := [.text "a"]
     frame := .loop (.numbered "n" (.literal (.int 0)) .less (.literal (.int 2)) .plus
       (.literal (.int 1)))
     after := [.text " b"] },
    { before := [.text "-"]
      frame := .branch [] (.compare (.reference [.property "n"]) .greater (.literal (.int 5))) []
        (some [.read [.property "n"]])
      after := [] }]

example : String.ofList (printAll (Layer.enclose skipping [.text " x"])) =
    "a@for(n = 0;n < 2;n + 1)\n-@if(n > 5)\n x\n@else\n@var(n)\n@endif\n@endfor b" := by
  decide +kernel

/-- A body that cannot be parsed is as good as any other, in the second render as well. -/
theorem unentered_body_spared_skipping :
    let template : Template Unit := around skipping " x".toList {} Host.none ()
    let other : Template Unit := around skipping " @var(".toList {} Host.none ()
    (template.render 9).1.writes = #["a", "-", "0", "-", "1", " b"] ∧
      ((other.render 9).2.render 9).1 = ((template.render 9).2.render 9).1 ∧
      ((other.render 9).2.render 9).2.session.store =
        ((template.render 9).2.render 9).2.session.store := by
  intro template other
  have valid : areWellFormed false (Layer.enclose skipping []) = true := by decide +kernel
  have plain : holdsNoKeyword " x".toList = true := by decide +kernel
  have plainOther : holdsNoKeyword " @var(".toList = true := by decide +kernel
  have ends : template.endOutside skipping 9 ≠ .error .outOfFuel := by decide +kernel
  have endsAgain : (template.render 9).2.endOutside skipping 9 ≠ .error .outOfFuel := by
    decide +kernel
  have written : (template.render 9).1.writes = #["a", "-", "0", "-", "1", " b"] := by
    decide +kernel
  have evolve : EvolveOutside skipping template other (template.render 9).2 (other.render 9).2 :=
    .render .refl 9 ends
  exact ⟨written, unentered_body_spared skipping valid plain plainOther evolve 9 endsAgain⟩

/-- The condition of the second branch is false, but what its body is decides how the template ends:
the path that the first branch begins with is read on beyond the end of that branch. -/
theorem renderText_unentered_body :
    (renderText "@if(true)@var(@endif.@if(false) x@endif" 9).outcome =
        .error (.failed (.parse (.expected "`)`") ⟨1, 33, 32⟩)) ∧
      (renderText "@if(true)@var(@endif.@if(false) )@endif" 9).outcome =
        .error (.failed (.reference (.undefinedName "endif"))) := by
  decide +kernel

end Template

end Stencil
