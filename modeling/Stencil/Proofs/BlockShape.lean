import Mathlib.Data.List.Chain
import Stencil.Proofs.Directive.Progress

/-!
# Blocks are parsed into well-shaped lists

A round of parsing a block passes some of its text or ends the list with an error.  So parsing ends
for every text and every range, and what it ends with has no empty text, no two texts side by side,
and no error but at the end.
-/

namespace Stencil

open Text Text.Brackets

/-- Whether two nodes may stand side by side: a text goes on the text before it. -/
def Node.Apart (left right : Node) : Prop :=
  ¬(left.isText = true ∧ right.isText = true)

/-- Nodes that a block may be parsed into: no text is empty, no two texts are side by side, and only
the last of them is an error. -/
structure Node.WellShaped (nodes : List Node) : Prop where
  filled (content : String) (member : .text content ∈ nodes) : content ≠ ""
  apart : nodes.IsChain Node.Apart
  last (earlier later : List Node) (error : TemplateError)
    (split : nodes = earlier ++ .malformed error :: later) : later = []

/-- The nodes parsed before a round, which come last first. -/
structure Node.Parsed (parsed : List Node) : Prop where
  sound (node : Node) (member : node ∈ parsed) : node.Sound
  apart : parsed.IsChain Node.Apart

/-- The nodes parsed in all rounds, and perhaps the error that ended the last of them. -/
inductive Node.Outcome : List Node → Prop where
  | whole {parsed : List Node} (listed : Node.Parsed parsed) : Outcome parsed.reverse
  | cut {parsed : List Node} (listed : Node.Parsed parsed) {error : TemplateError}
      (other : error.OtherThanEnd) : Outcome (parsed.reverse ++ [.malformed error])

namespace Node

variable {parsed nodes : List Node} {node : Node}

theorem exists_text_of_isText (isText : node.isText = true) : ∃ content, node = .text content := by
  cases node with
  | text content => exact ⟨content, rfl⟩
  | _ => cases isText

theorem Apart.symm {left right : Node} (apart : left.Apart right) : right.Apart left :=
  fun texts => apart texts.symm

theorem Apart.of_left {left : Node} (other : left.isText = false) (right : Node) :
    left.Apart right := by
  rintro ⟨isText, -⟩
  exact absurd (other.symm.trans isText) Bool.false_ne_true

theorem Parsed.nil : Parsed [] :=
  ⟨List.forall_mem_nil _, .nil⟩

/-- A text is joined to the text before it; other nodes are put behind it. -/
theorem Parsed.append (listed : Parsed parsed) (sound : node.Sound) :
    Parsed (Node.append parsed node) := by
  unfold Node.append
  split
  · rename_i before earlier after
    obtain ⟨first, others⟩ := List.forall_mem_cons.mp listed.sound
    have filled : before ++ after ≠ "" := fun empty =>
      first.filled before rfl (String.append_eq_empty_iff.mp empty).1
    exact ⟨List.forall_mem_cons.mpr ⟨sound_text filled, others⟩,
      listed.apart.cons_of_imp fun _ separate texts => separate ⟨rfl, texts.2⟩⟩
  · rename_i separate
    refine ⟨List.forall_mem_cons.mpr ⟨sound, listed.sound⟩,
      listed.apart.cons fun previous isPrevious => ?_⟩
    rintro ⟨isText, isTextBefore⟩
    obtain ⟨content, rfl⟩ := exists_text_of_isText isText
    obtain ⟨before, rfl⟩ := exists_text_of_isText isTextBefore
    obtain ⟨earlier, rfl⟩ := List.head?_eq_some_iff.mp isPrevious
    exact separate before earlier content rfl rfl

theorem Parsed.not_mem_reverse (listed : Parsed parsed) (error : TemplateError) :
    .malformed error ∉ parsed.reverse :=
  fun member => (listed.sound _ (List.mem_reverse.mp member)).directs error rfl

theorem Parsed.wellShaped (listed : Parsed parsed) : WellShaped parsed.reverse where
  filled content member := (listed.sound _ (List.mem_reverse.mp member)).filled content rfl
  apart := List.isChain_reverse.mpr (listed.apart.imp fun _ _ => Apart.symm)
  last _ _ error split := absurd (split ▸ List.mem_append_cons_self) (listed.not_mem_reverse error)

theorem Outcome.wellShaped (outcome : Outcome nodes) : WellShaped nodes := by
  cases outcome with
  | whole listed => exact listed.wellShaped
  | cut listed _ =>
      have shaped := listed.wellShaped
      refine ⟨fun content member => ?_, ?_, fun earlier later error split => ?_⟩
      · rcases List.mem_append.mp member with earlier | last
        · exact shaped.filled content earlier
        · cases List.mem_singleton.mp last
      · refine List.isChain_append.mpr ⟨shaped.apart, .singleton _, ?_⟩
        rintro last - _ ⟨⟩
        exact (Apart.of_left rfl last).symm
      · rcases later.eq_nil_or_concat with rfl | ⟨later, last, rfl⟩
        · rfl
        · rw [List.concat_eq_append, ← List.cons_append, ← List.append_assoc] at split
          have inner := (List.append_inj' split rfl).1
          exact absurd (inner ▸ List.mem_append_cons_self) (listed.not_mem_reverse error)

theorem Outcome.expected (outcome : Outcome nodes) (position : Position) :
    .malformed (.parse .unexpectedEnd position) ∉ nodes := by
  intro member
  cases outcome with
  | whole listed => exact listed.not_mem_reverse _ member
  | cut listed other =>
      rcases List.mem_append.mp member with earlier | last
      · exact listed.not_mem_reverse _ earlier
      · exact other position (Node.malformed.inj (List.mem_singleton.mp last)).symm

end Node

namespace Directive

variable {σ : Type} [Source σ] [Tracked σ] {room : σ → Nat}

/-- The rounds of parsing a block, from a draft and the nodes that were parsed so far.  A round is
gone through only before the end of the range and of the text, and it goes on with the next one only
if it passed some of the text. -/
inductive Rounds (context : BlockContext) :
    Draft σ → List Node → List Node → Draft σ → Prop where
  | ended {draft : Draft σ} {parsed : List Node}
      (atEnd : context.limit ≤ draft.place.offset ∨ draft.place.rest = []) :
      Rounds context draft parsed parsed.reverse draft
  | failed {draft after : Draft σ} {parsed : List Node} {error : TemplateError}
      (inside : draft.place.offset < context.limit) (more : draft.place.rest ≠ [])
      (ran : (node context).run.run draft = (.error error, after)) :
      Rounds context draft parsed (parsed.reverse ++ [.malformed error]) after
  | advanced {draft next after : Draft σ} {parsed nodes : List Node} {found : Node}
      (inside : draft.place.offset < context.limit) (more : draft.place.rest ≠ [])
      (ran : (node context).run.run draft = (.ok found, next))
      (passes : Precedes draft.place next.place)
      (later : Rounds context next (Node.append parsed found) nodes after) :
      Rounds context draft parsed nodes after

variable (context : BlockContext) {draft after : Draft σ}

theorem node_allowing (more : draft.place.rest ≠ []) :
    (@node σ (.allowing room) context).run.run draft = (node context).run.run draft :=
  (DirectiveParser.Concur.node context more draft rfl).1

theorem node_comes (more : draft.place.rest ≠ []) :
    Parser.Comes (fun found later => Precedes draft.place later ∧ found.Sound)
      ((node context).run.run draft).1 ((node context).run.run draft).2.place := by
  have concurs : Parser.Concur Draft.place (· = draft.place)
      (@node σ (.allowing fun _ => 0) context) (node context)
      fun found later => Precedes draft.place later ∧ found.Sound :=
    DirectiveParser.Concur.node context more
  exact (concurs draft rfl).2

theorem nodesFrom_succ_allowing (fuel : Nat) (parsed : List Node) (draft : Draft σ) :
    (@nodesFrom σ (.allowing room) context (fuel + 1) parsed).run draft =
      if context.limit ≤ draft.place.offset ∨ draft.place.rest = [] then (parsed.reverse, draft)
      else
        match (node context).run.run draft with
        | (.ok found, next) =>
            (@nodesFrom σ (.allowing room) context fuel (Node.append parsed found)).run next
        | (.error error, next) => (parsed.reverse ++ [.malformed error], next) := by
  have looks : (DirectiveParser.scan (@atLimit σ (.allowing room) context.limit)).run.run draft =
      (.ok (decide (context.limit ≤ draft.place.offset) || draft.place.rest.isEmpty), draft) :=
    scan_atLimit context.limit draft
  rw [@nodesFrom_succ_run σ (.allowing room), looks]
  by_cases atEnd : context.limit ≤ draft.place.offset ∨ draft.place.rest = []
  · have ended : (decide (context.limit ≤ draft.place.offset) ||
        draft.place.rest.isEmpty) = true := by simpa using atEnd
    rw [if_pos atEnd, ended]
    rfl
  · have goesOn : (decide (context.limit ≤ draft.place.offset) ||
        draft.place.rest.isEmpty) = false := by simpa using atEnd
    rw [if_neg atEnd, goesOn, ← node_allowing context (not_or.mp atEnd).2]
    simp only [List.reverse_cons]
    rfl

/-- Each round leaves less of the text than it found, so there is a last one. -/
theorem exists_rounds (draft : Draft σ) (parsed : List Node) :
    ∃ nodes after, Rounds context draft parsed nodes after := by
  induction left : draft.place.remaining using Nat.strongRecOn generalizing draft parsed with
  | ind left induction =>
      subst left
      by_cases atEnd : context.limit ≤ draft.place.offset ∨ draft.place.rest = []
      · exact ⟨_, _, .ended atEnd⟩
      · obtain ⟨inside, more⟩ := not_or.mp atEnd
        have inside := Nat.lt_of_not_le inside
        have came := node_comes context more
        cases ran : (node context).run.run draft with
        | mk outcome next =>
            rw [ran] at came
            cases outcome with
            | error error => exact ⟨_, _, .failed inside more ran⟩
            | ok found =>
                have passes : Precedes draft.place next.place := came.1
                obtain ⟨nodes, after, later⟩ :=
                  induction _ passes.remaining_lt next (Node.append parsed found) rfl
                exact ⟨nodes, after, .advanced inside more ran passes later⟩

/-- The loop goes through the rounds, whatever number of rounds more it has room for. -/
theorem Rounds.run_nodesFrom {context : BlockContext} {draft after : Draft σ}
    {parsed nodes : List Node} (rounds : Rounds context draft parsed nodes after) {fuel : Nat}
    (enough : draft.place.remaining < fuel) :
    (@nodesFrom σ (.allowing room) context fuel parsed).run draft = (nodes, after) := by
  induction rounds generalizing fuel with
  | ended atEnd =>
      obtain ⟨fuel, rfl⟩ : ∃ less, fuel = less + 1 := ⟨fuel - 1, by omega⟩
      rw [nodesFrom_succ_allowing, if_pos atEnd]
  | failed inside more ran =>
      obtain ⟨fuel, rfl⟩ : ∃ less, fuel = less + 1 := ⟨fuel - 1, by omega⟩
      rw [nodesFrom_succ_allowing, if_neg (not_or.mpr ⟨Nat.not_le_of_lt inside, more⟩), ran]
  | advanced inside more ran passes _ induction =>
      obtain ⟨fuel, rfl⟩ : ∃ less, fuel = less + 1 := ⟨fuel - 1, by omega⟩
      have less := passes.remaining_lt
      rw [nodesFrom_succ_allowing, if_neg (not_or.mpr ⟨Nat.not_le_of_lt inside, more⟩), ran]
      exact induction (by omega)

theorem Rounds.outcome {context : BlockContext} {draft after : Draft σ} {parsed nodes : List Node}
    (rounds : Rounds context draft parsed nodes after) (listed : Node.Parsed parsed) :
    Node.Outcome nodes := by
  induction rounds with
  | ended _ => exact .whole listed
  | failed _ more ran =>
      have came := node_comes context more
      rw [ran] at came
      exact .cut listed came
  | advanced _ more ran _ _ induction =>
      have came := node_comes context more
      rw [ran] at came
      exact induction (listed.append came.2)

/-- Parsing a block ends for every text and every range of it, and it ends with a well-shaped list
of nodes.  No loop over the source comes to its bound: with room for any number of rounds more all
of them go on just as long, also if the source counts how often it is looked at.  Every round passes
a character or is the last, and a recogniser that declines leaves the place where it was. -/
theorem nodes_well_shaped (context : BlockContext) (draft : Draft σ) :
    ∃ parsed after,
      (nodes context).run draft = (parsed, after) ∧
      (∀ room : σ → Nat, (@nodes σ (.allowing room) context).run draft = (parsed, after)) ∧
      Rounds context draft [] parsed after ∧
      (∀ recogniser ∈ recognisers context, ∀ before later : Draft σ,
        recogniser.run.run before = (.ok none, later) → later.place = before.place) ∧
      Node.WellShaped parsed ∧
      ∀ position, .malformed (.parse .unexpectedEnd position) ∉ parsed := by
  obtain ⟨parsed, after, rounds⟩ := exists_rounds context draft []
  have outcome := rounds.outcome .nil
  have left : Source.remaining draft.source = draft.place.remaining := Tracked.remaining_eq _
  have enough (extra : Nat) :
      draft.place.remaining < Source.remaining draft.source + extra + 1 := by omega
  have ran (room : σ → Nat) : (@nodes σ (.allowing room) context).run draft = (parsed, after) :=
    rounds.run_nodesFrom (enough (room draft.source))
  have recognise : List.Forall₂ DirectiveParser.Recognise
      (@recognisers σ (.allowing fun _ => 0) context) (recognisers context) :=
    DirectiveParser.recognise context
  exact ⟨parsed, after, ran fun _ => 0, ran, rounds, DirectiveParser.declined_of_mem recognise,
    outcome.wellShaped, outcome.expected⟩

end Directive

end Stencil
