import Stencil.Proofs.Break.Loops

/-!
# Breaks are exact

From calm sessions on nodes, blocks and whole templates run as in a structured run: `@breakfor`
leaves the innermost loop around it and nothing else.
-/

namespace Stencil

open Text Directive

variable {η : Type}

/-- A node runs no block but bodies of placeholders. -/
def Node.IsPlain : Node → Prop
  | .loop .. | .leave .. | .branches .. | .definePlaceholder .. | .embed .. => False
  | _ => True

namespace Agrees

variable {environment : Environment η} {session : Session η} {mayMark : BlockRef → Prop}
  {runBlock : BlockRef → Run η Unit} {structured : BlockRef → Run η Flow} {scope : ScopeRef}
  {parent body : BlockRef} {fuel : Nat} {around : Option BlockRef}

section

variable (agree : BlocksAgree environment.embeddings runBlock structured)

include agree

theorem placeholder (session : Session η) (body : BlockRef) (isDefault : session.IsDefault body) :
    Agrees environment.embeddings session (fun _ => False) (runBlock body)
      (Structured.apart structured body) fun _ _ _ => True :=
  ((agree.placeholder session body isDefault).returning fun _ => ()).weaken (fun _ => id)
    fun _ _ _ _ _ _ => trivial

theorem plain {node : Node} (isPlain : node.IsPlain) :
    Agrees environment.embeddings session (fun _ => False)
      (Run.node environment runBlock fuel scope node)
      (Run.node environment (Structured.apart structured) fuel scope node) fun _ _ _ => True := by
  have lawful := Policy.lawful_free (fun _ => True) False environment.host
  have alike {run : Run η Unit}
      (obeys : (Session.still η).Obeys environment.embeddings session run fun _ _ => True) :
      Agrees environment.embeddings session (fun _ => False) run run fun _ _ _ => True :=
    (same obeys).weaken (fun _ => id) fun _ _ _ _ _ _ => trivial
  cases node with
  | text content => exact alike (.write content)
  | read path =>
      refine same_bind (.follow lawful trivial path) fun value found ext marks _ => ?_
      split
      · exact .pure trivial
      · exact emit (placeholder agree) value
  | declare name value constant =>
      exact alike ((Policy.Obeys.evaluate lawful trivial value).bind lawful fun _ _ _ _ =>
        .declare lawful trivial trivial)
  | assign name value =>
      exact alike ((Policy.Obeys.evaluate lawful trivial value).bind lawful fun _ _ _ _ =>
        .assign lawful trivial trivial)
  | usePlaceholder key argument =>
      refine same_bind (.evaluateArgument lawful trivial argument) fun value found ext marks _ => ?_
      exact runPlaceholder (placeholder agree) key value
  | malformed error => exact .stop
  | loop header body => exact isPlain.elim
  | leave target => exact isPlain.elim
  | branches conditions otherwise => exact isPlain.elim
  | definePlaceholder key parameter body => exact isPlain.elim
  | embed block => exact isPlain.elim

/-- What a node does that runs no other block is no part of the loop around it. -/
theorem plainNode {node : Node} (isPlain : node.IsPlain) (stays : session.isLeft around = false) :
    Agrees environment.embeddings session (fun _ => False)
      (Run.node environment runBlock fuel scope node)
      (Structured.node environment structured fuel scope node)
      fun _ flow after => after.isLeft around = flow.isLeft := by
  have goesOn : Structured.node environment structured fuel scope node =
      (do Run.node environment (Structured.apart structured) fuel scope node; return .next) := by
    cases node with
    | text content => rfl
    | read path => rfl
    | declare name value constant => rfl
    | assign name value => rfl
    | usePlaceholder key argument => rfl
    | malformed error => rfl
    | loop header body => exact isPlain.elim
    | leave target => exact isPlain.elim
    | branches conditions otherwise => exact isPlain.elim
    | definePlaceholder key parameter body => exact isPlain.elim
    | embed block => exact isPlain.elim
  rw [goesOn]
  exact andNext (plain agree isPlain) (fun _ _ => id) stays

/-- A branch or an embedded text belongs to the pass of the loop around it. -/
theorem part (isPart : session.IsPart parent around body) (stays : session.isLeft around = false) :
    Agrees environment.embeddings session (parent.mayMark around) (runBlock body)
      (structured body) fun _ flow after => after.isLeft around = flow.isLeft := by
  obtain ⟨later, present, encloses⟩ := isPart
  have agrees := agree.block session body present
  rw [encloses] at agrees
  apply (agrees stays).weaken
  · intro target may
    rcases may with same | after
    · exact .inl same
    · exact .inr (Nat.lt_trans later after)
  · exact fun _ _ _ _ _ => id

theorem cleared (isPart : session.IsPart parent around body)
    (stays : session.isLeft around = false) :
    Agrees environment.embeddings session (parent.mayMark around) (Run.cleared runBlock body)
      (Run.cleared structured body) fun _ flow after => after.isLeft around = flow.isLeft := by
  have lawful := Policy.lawful_free (fun _ => True) False environment.host
  unfold Run.cleared
  refine get_bind (same_bind (.clear lawful trivial) fun _ emptied ext marks _ => ?_)
  exact part agree (ext.isPart isPart) ((marks.isLeft_eq around).trans stays)

theorem branches {otherwise : Option BlockRef} {conditions : List (Condition × BlockRef)}
    (areParts : ∀ branch ∈ conditions, session.IsPart parent around branch.2)
    (lastPart : ∀ last, otherwise = some last → session.IsPart parent around last)
    (stays : session.isLeft around = false) :
    Agrees environment.embeddings session (parent.mayMark around)
      (Run.branches environment runBlock scope otherwise conditions)
      (Structured.branches environment structured scope otherwise conditions)
      fun _ flow after => after.isLeft around = flow.isLeft := by
  have lawful := Policy.lawful_free (fun _ => True) False environment.host
  induction conditions generalizing session with
  | nil =>
      cases otherwise with
      | none => exact .pure stays
      | some last => exact cleared agree (lastPart last rfl) stays
  | cons branch conditions induction =>
      obtain ⟨condition, body⟩ := branch
      unfold Run.branches Structured.branches
      refine same_bind (.condition lawful trivial condition) fun isTrue asked ext marks _ => ?_
      have staysAsked := (marks.isLeft_eq around).trans stays
      cases isTrue with
      | true => exact cleared agree (ext.isPart (areParts _ List.mem_cons_self)) staysAsked
      | false =>
          refine induction ?_ ?_ staysAsked
          · exact fun later member => ext.isPart (areParts later (List.mem_cons_of_mem _ member))
          · exact fun last isLast => ext.isPart (lastPart last isLast)

/-- Only a break leaves the loop around a node, and what a loop leaves is the loop itself. -/
theorem node {text : List Char} {node : Node}
    (origin : node.Origin text around (session.Child environment.embeddings parent))
    (lacks : LacksDefinitions text) (encloses : (session.block parent).enclosingLoop = around)
    (outer : ∀ target, around = some target → target.index ≤ parent.index)
    (present : parent.index < session.blocks.size) (stays : session.isLeft around = false) :
    Agrees environment.embeddings session (parent.mayMark around)
      (Run.node environment runBlock fuel scope node)
      (Structured.node environment structured fuel scope node)
      fun _ flow after => after.isLeft around = flow.isLeft := by
  have plainly (isPlain : node.IsPlain) :
      Agrees environment.embeddings session (parent.mayMark around)
        (Run.node environment runBlock fuel scope node)
        (Structured.node environment structured fuel scope node)
        fun _ flow after => after.isLeft around = flow.isLeft :=
    (plainNode agree isPlain stays).weaken (fun _ => False.elim) fun _ _ _ _ _ => id
  cases origin with
  | text content => exact plainly trivial
  | read path => exact plainly trivial
  | declare name value constant => exact plainly trivial
  | assign name value => exact plainly trivial
  | loop header body opening isMade =>
      exact loop agree ⟨isMade.lt_size, isMade.enclosingLoop⟩ isMade.lt outer stays header
  | leave target opening enclosing =>
      have isThere := Nat.lt_of_le_of_lt (outer target enclosing) present
      apply ((mark target true isThere).returning fun _ => Flow.left).weaken
      · rintro _ rfl
        exact .inl enclosing
      · rintro _ _ after - - ⟨_, rfl, isMarked⟩
        rw [enclosing]
        exact isMarked
  | branches conditions otherwise opening areMade lastMade =>
      have isPart {branch : BlockRef}
          (isMade : session.Child environment.embeddings parent .branch branch) :
          session.IsPart parent around branch :=
        ⟨isMade.lt, isMade.lt_size, isMade.enclosingLoop.trans encloses⟩
      exact branches agree (fun branch member => isPart (areMade branch member))
        (fun last isLast => isPart (lastMade last isLast)) stays
  | definePlaceholder key parameter body opening isMade => exact absurd opening lacks
  | usePlaceholder key argument => exact plainly trivial
  | embed block opening isMade =>
      have isPart : session.IsPart parent around block :=
        ⟨isMade.lt, isMade.lt_size, isMade.enclosingLoop.trans encloses⟩
      have inside (deeper : Session η) (ext : session.Extends deeper)
          (marks : session.SameMarks deeper) :=
        part agree (ext.isPart isPart) ((marks.isLeft_eq around).trans stays)
      apply (nested (.embedded block.index) inside).weaken fun _ => id
      rintro _ flow after - - ⟨ended, isFlow, marks⟩
      exact (marks.isLeft_eq around).trans isFlow
  | malformed error expected => exact plainly trivial

end

/-- A block runs in a structured way if each of its nodes does. -/
theorem blockWith (present : parent.index < session.blocks.size)
    (encloses : (session.block parent).enclosingLoop = around)
    (stays : session.isLeft around = false)
    (each : ∀ (listed : List Node) (ready : Session η), ready.Calm environment.embeddings →
      session.Extends ready → (ready.block parent).nodes? = some listed → ∀ node ∈ listed,
      ∀ after, ready.Extends after → after.isLeft around = false →
      Agrees environment.embeddings after mayMark
        (Run.node environment runBlock fuel (ready.block parent).scope node)
        (Structured.node environment structured fuel (ready.block parent).scope node)
        fun _ flow ended => ended.isLeft around = flow.isLeft) :
    Agrees environment.embeddings session mayMark (Run.blockWith environment runBlock fuel parent)
      (Structured.blockWith environment structured fuel parent)
      fun _ flow after => after.isLeft around = flow.isLeft := by
  have lawful := Policy.lawful_free (fun _ => True) False environment.host
  unfold Run.blockWith Structured.blockWith
  refine same_bind (.nodesOf lawful present (.inl trivial)) fun listed ready ext marks
    isListed => ?_
  refine of_calm fun calm => get_bind ?_
  have isThere := Session.getElem?_of_lt (ext.lt present)
  have sourcePresent := calm.valid.source_lt isThere
  have fits := calm.valid.fits isThere
  dsimp only
  rw [(ext.enclosingLoop present).trans encloses]
  refine same_bind (.seek sourcePresent fits.start) fun _ started extStarted marksStarted _ => ?_
  have staysStarted := ((marks.trans marksStarted).isLeft_eq around).trans stays
  have ran := nodes (fun node member after extAfter =>
    each listed ready calm ext isListed node member
    after (extStarted.trans extAfter)) staysStarted
  refine ran.bind fun _ flow ended extEnded _ isFlow => ?_
  obtain ⟨sourceEnded, text⟩ := (extStarted.trans extEnded).source _ sourcePresent
  apply ((same (.seek sourceEnded (text ▸ fits.finish))).returning fun _ => flow).weaken fun _ => id
  rintro _ _ after - - ⟨_, rfl, -, -, marksAfter⟩
  exact (marksAfter.isLeft_eq around).trans isFlow

end Agrees

theorem defaultBody_lacks (kind : Kind) :
    ∀ opening ∈ ["@for(", "@breakfor", "@if(", "@define_placeholder(", "@embed "],
      ¬opening.toList <:+: (defaultBody kind).toList := by
  cases kind <;> decide +kernel

namespace BlocksAgree

variable {environment : Environment η} {runBlock : BlockRef → Run η Unit}
  {structured : BlockRef → Run η Flow}

/-- The nodes of the placeholders that kinds begin with are plain. -/
theorem isPlain_of_default {kind : Kind} {around : Option BlockRef}
    {made : BlockRole → BlockRef → Prop} {node : Node}
    (origin : node.Origin (defaultBody kind).toList around made) : node.IsPlain := by
  have lacks := defaultBody_lacks kind
  cases origin with
  | loop header body opening isMade => exact absurd opening (lacks _ (by simp))
  | leave target opening enclosing => exact absurd opening (lacks _ (by simp))
  | branches conditions otherwise opening areMade lastMade =>
      exact absurd opening (lacks _ (by simp))
  | definePlaceholder key parameter body opening isMade =>
      exact absurd opening (lacks _ (by simp))
  | embed block opening isMade => exact absurd opening (lacks _ (by simp))
  | text content => exact trivial
  | read path => exact trivial
  | declare name value constant => exact trivial
  | assign name value => exact trivial
  | usePlaceholder key argument => exact trivial
  | malformed error expected => exact trivial

theorem blockWith {fuel : Nat} (agree : BlocksAgree environment.embeddings runBlock structured) :
    BlocksAgree environment.embeddings (Run.blockWith environment runBlock fuel)
      (Structured.blockWith environment structured fuel) := by
  constructor
  · intro session id present stays
    apply Agrees.blockWith present rfl stays
    intro listed ready calm ext isListed node member after extAfter staysAfter
    have presentReady := ext.lt present
    have isThere := Session.getElem?_of_lt presentReady
    obtain ⟨-, origins⟩ := calm.valid.parsed id _ listed isThere isListed
    have origin := (origins node member).mono fun _ _ child => extAfter.child child
    have encloses := ext.enclosingLoop present
    rw [encloses] at origin
    have outer (target : BlockRef) (isOuter : (session.block id).enclosingLoop = some target) :
        target.index ≤ id.index :=
      calm.valid.enclosingLoop_le isThere (encloses.trans isOuter)
    exact .node agree origin (calm.texts id _ isThere)
      ((extAfter.enclosingLoop presentReady).trans encloses) outer (extAfter.lt presentReady)
      staysAfter
  · intro session body isDefault
    have ⟨block, isThere, whole, _⟩ := isDefault
    have present := Session.lt_of_getElem? isThere
    have encloses : (session.block body).enclosingLoop = none := by
      rw [Session.block_eq_of_getElem? isThere, whole.enclosing]
    have agrees : Agrees environment.embeddings session (fun _ => False)
        (Run.blockWith environment runBlock fuel body)
        (Structured.blockWith environment structured fuel body)
        fun _ flow after => after.isLeft none = flow.isLeft := by
      apply Agrees.blockWith present encloses rfl
      intro listed ready calm ext isListed node member after extAfter staysAfter
      obtain ⟨later, isLater, wholeLater, role⟩ := ext.isDefault isDefault
      obtain isRoot | ⟨-, kind, isBody⟩ := wholeLater.role
      · rw [role] at isRoot
        cases isRoot
      · rw [Session.block_eq_of_getElem? isLater] at isListed
        obtain ⟨-, origins⟩ := calm.valid.parsed body _ listed isLater isListed
        have origin := origins node member
        rw [isBody] at origin
        exact .plainNode agree (isPlain_of_default origin) staysAfter
    exact agrees.weaken (fun _ => id) fun _ _ _ _ _ _ => trivial

end BlocksAgree

theorem blocksAgree (environment : Environment η) (fuel : Nat) :
    BlocksAgree environment.embeddings (Run.block environment fuel)
      (Structured.block environment fuel) := by
  induction fuel with
  | zero => exact ⟨fun _ _ _ _ => .stop, fun _ _ _ => .stop⟩
  | succ fuel induction => exact .blockWith induction

namespace Template

variable {source : AnySource} {options : Options} {host : Host η} {state : η}
  {template : Template η}

theorem calm_ofSource (lacks : LacksDefinitions source.cursor.text)
    (embeddings : ∀ path text, options.embeddings path = some text →
      LacksDefinitions text.toList) :
    (ofSource source options host state).session.Calm options.embeddings := by
  refine ofSource_induction (·.Calm options.embeddings) source options host state ?_ ?_ ?_
  · exact ⟨Session.valid_ofGlobal _ _, embeddings, (fun _ _ isThere => nomatch isThere),
      fun _ _ found => nomatch found⟩
  · exact fun session kind calm =>
      calm.addDefaultPlaceholder kind (defaultBody_lacks kind _ (by simp))
  · exact fun session calm => calm.addText lacks (.inl rfl)

/-- A render of a calm template is a structured one, and the template is calm afterwards. -/
theorem render_of_calm (calm : template.session.Calm template.environment.embeddings)
    (present : template.root.index < template.session.blocks.size)
    (encloses : (template.session.block template.root).enclosingLoop = none) (fuel : Nat) :
    (template.render fuel).2.session.Calm template.environment.embeddings ∧
      (template.renderStructured fuel).2 = template.render fuel ∧
      ∀ flow, (template.renderStructured fuel).1 = .ok flow → flow = .next := by
  have begun : Session.Calm { template.session with writes := #[] }
      template.environment.embeddings :=
    calm.of_quiet ⟨rfl, rfl, fun _ => rfl, fun _ => rfl⟩ calm.placeholders
  have stays : Session.isLeft { template.session with writes := #[] }
      (template.session.block template.root).enclosingLoop = false := by
    rw [encloses]
    rfl
  have agrees := (blocksAgree template.environment fuel).block
    { template.session with writes := #[] } template.root present stays
  have rendered {outcome : Except Stop Unit} {after : Session η}
      (ran : (Run.block template.environment fuel template.root).run
        { template.session with writes := #[] } = (outcome, after)) :
      template.render fuel = (⟨outcome, after.writes⟩, { template with session := after }) := by
    rw [render, ran]
  have renderedStructured {outcome : Except Stop Flow} {after : Session η}
      (ran : (Structured.block template.environment fuel template.root).run
        { template.session with writes := #[] } = (outcome, after)) :
      template.renderStructured fuel = (outcome, ⟨outcome.map fun _ => (), after.writes⟩,
        { template with session := after }) := by
    rw [renderStructured, ran]
  obtain ⟨after, calmAfter, -, ⟨stop, ran, ranStructured⟩ |
    ⟨answer, flow, ran, ranStructured, isFlow, -⟩⟩ := agrees begun
  · rw [rendered ran, renderedStructured ranStructured]
    exact ⟨calmAfter, rfl, fun _ same => nomatch same⟩
  · rw [rendered ran, renderedStructured ranStructured]
    refine ⟨calmAfter, rfl, ?_⟩
    rintro _ ⟨⟩
    have isNext : after.isLeft none = flow.isLeft := by
      rw [← encloses]
      exact isFlow
    cases flow with
    | next => rfl
    | left => cases isNext

/-- Breaks are exact.  Without definitions of placeholders, and whatever was rendered before, a
template renders as by a structured run, in which `@breakfor` leaves the innermost loop around it;
and no break leaves the template. -/
theorem break_exact (lacks : LacksDefinitions source.cursor.text)
    (embeddings : ∀ path text, options.embeddings path = some text →
      LacksDefinitions text.toList)
    (evolves : (ofSource source options host state).Evolves (fun _ _ => True) template)
    (fuel : Nat) :
    (template.renderStructured fuel).2 = template.render fuel ∧
      ∀ flow, (template.renderStructured fuel).1 = .ok flow → flow = .next := by
  have lawful := Policy.lawful_free (fun _ => True) True host
  have becomes {later : Template η}
      (evolves : (ofSource source options host state).Evolves (fun _ _ => True) later) :
      (ofSource source options host state).Evolves
        (Policy.free fun _ => True : Policy η).Becomes later :=
    evolves.mono fun _ _ _ => ⟨trivial, trivial⟩
  have root {later : Template η}
      (evolves : (ofSource source options host state).Evolves (fun _ _ => True) later) :
      later.root.index < later.session.blocks.size ∧
        (later.session.block later.root).enclosingLoop = none := by
    obtain ⟨-, -, present⟩ := (becomes evolves).sound lawful Policy.permissive_free trivial trivial
    obtain ⟨id, outline⟩ :=
      (becomes evolves).root_outline lawful Policy.permissive_free trivial trivial
    have encloses := congrArg Block.enclosingLoop outline
    exact ⟨present, encloses⟩
  have calm : template.session.Calm template.environment.embeddings := by
    induction evolves with
    | refl => exact calm_ofSource lacks embeddings
    | render earlier fuel induction =>
        exact (render_of_calm induction (root earlier).1 (root earlier).2 fuel).1
    | change earlier store may induction =>
        exact induction.of_quiet ⟨rfl, rfl, fun _ => rfl, fun _ => rfl⟩ induction.placeholders
  exact (render_of_calm calm (root evolves).1 (root evolves).2 fuel).2

/-- An embedded text that leaves the inner one of two loops, as an example. -/
def cells : Embeddings := fun path =>
  if path = "cell" then some "@if(i == 1)@breakfor @endif[@var(i)]" else none

def cellLoops : AnySource :=
  .plain (.ofString "@for(j = 0; j < 2; j++)@for(i = 0; i < 3; i++)@embed cell\n@endfor;@endfor")

theorem break_exact_cellLoops :
    LacksDefinitions cellLoops.cursor.text ∧
      (∀ path text, cells path = some text → LacksDefinitions text.toList) ∧
      (((ofSource cellLoops { embeddings := cells } Host.none ()).render 7).2.render 7).1.writes =
        #["[", "0", "]", ";", "[", "0", "]", ";"] := by
  have lacks : LacksDefinitions cellLoops.cursor.text := by
    unfold LacksDefinitions
    decide +kernel
  have cellLacks : LacksDefinitions "@if(i == 1)@breakfor @endif[@var(i)]".toList := by
    unfold LacksDefinitions
    decide +kernel
  have embeddings (path text : String) (found : cells path = some text) :
      LacksDefinitions text.toList := by
    unfold cells at found
    split at found
    · cases found
      exact cellLacks
    · cases found
  have evolves : (ofSource cellLoops { embeddings := cells } Host.none ()).Evolves
      (fun _ _ => True) _ := .render .refl 7
  obtain ⟨same, -⟩ := break_exact lacks embeddings evolves 7
  refine ⟨lacks, embeddings, ?_⟩
  rw [← same]
  decide +kernel

end Template

end Stencil
