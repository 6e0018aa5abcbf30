import Stencil.Directive.Grammar
import Stencil.Proofs.Parser.Run

/-!
# What rules of directives answer

The grammar answers directives only.  A node that stands for an error is put at the end of a block
by the loop over its directives, and nowhere else.
-/

namespace Stencil

open Text Directive

/-- A node that does not stand for an error. -/
def Node.Directs (node : Node) : Prop :=
  ∀ error, node ≠ .malformed error

/-- Whether a node stands for an error. -/
def Node.isMalformed : Node → Bool
  | .malformed _ => true
  | _ => false

theorem Node.directs_of_isMalformed {node : Node} (sound : node.isMalformed = false) :
    node.Directs := by
  rintro error rfl
  cases sound

/-- If there is a node, it does not stand for an error. -/
def Node.DirectsIfAny (node? : Option Node) : Prop :=
  ∀ node, node? = some node → node.Directs

theorem Node.directsIfAny_none : Node.DirectsIfAny none := nofun

theorem Node.directsIfAny_some {node : Node} (directs : node.Directs) :
    Node.DirectsIfAny (some node) :=
  fun _ same => Option.some.inj same ▸ directs

/-- Adding a node to nodes that stand for no error. -/
theorem Node.directs_append {nodes : List Node} {node : Node}
    (earlier : ∀ member ∈ nodes, member.Directs) (last : node.Directs) :
    ∀ member ∈ Node.append nodes node, member.Directs := by
  unfold Node.append
  split
  · exact List.forall_mem_cons.mpr
      ⟨Node.directs_of_isMalformed rfl, (List.forall_mem_cons.mp earlier).2⟩
  · exact List.forall_mem_cons.mpr ⟨last, earlier⟩

namespace Parser.Answers

variable {σ : Type} {α : Type} {property : α → Prop}

theorem parse {parser : Parser σ α} (answers : parser.Answers property) :
    Answers (DirectiveParser.parse parser : Parser (Draft σ) α) property := by
  intro draft answer after ran
  have outcome : (parser.run.run draft.source).1 = .ok answer := congrArg Prod.fst ran
  exact answers draft.source answer _ (Prod.ext outcome rfl)

theorem scan {run : StateM σ α} (each : ∀ source, property (run source).1) :
    Answers (DirectiveParser.scan run : Parser (Draft σ) α) property := by
  intro draft answer after ran
  obtain rfl : (run draft.source).1 = answer := Except.ok.inj (congrArg Prod.fst ran)
  exact each draft.source

/-- A parser whose first answers have a property of their own. -/
theorem bind_of {β : Type} {first : Parser σ α} {next : α → Parser σ β} {last : β → Prop}
    (here : first.Answers property)
    (later : ∀ answer, property answer → (next answer).Answers last) :
    (first >>= next).Answers last := by
  intro source answer after ran
  obtain ⟨middle, place, ranFirst, ranRest⟩ := exists_of_run_bind_ok ran
  exact later middle (here _ _ _ ranFirst) _ _ _ ranRest

theorem found {rule : Parser σ Node} (answers : rule.Answers Node.Directs) :
    Answers (do return some (← rule)) Node.DirectsIfAny :=
  answers.bind_of fun _ directs => .pure (Node.directsIfAny_some directs)

end Parser.Answers

namespace Directive

open Stencil.Parser (Answers)

variable {σ : Type} [Source σ] (context : BlockContext)

theorem directs_text? (limit : Nat) (source : σ) :
    Node.DirectsIfAny (text? limit source).1 := by
  have split : text? limit source =
      (if ((textFrom limit (Source.remaining source + 1) []).run source).1.isEmpty then
        (return none : StateM σ (Option Node))
      else return some (.text (String.ofList
        ((textFrom limit (Source.remaining source + 1) []).run source).1.reverse))).run
        ((textFrom limit (Source.remaining source + 1) []).run source).2 := rfl
  rw [split]
  split
  · exact Node.directsIfAny_none
  · exact Node.directsIfAny_some (Node.directs_of_isMalformed rfl)

theorem answers_declaration? :
    Answers (declaration? : Parser σ (Option Node)) Node.DirectsIfAny := by
  refine .bind fun form? => ?_
  cases form? with
  | none => exact .pure Node.directsIfAny_none
  | some form =>
      refine .bind fun name => .bind fun _ => .bind fun _ => .bind fun value => .bind fun _ =>
        .pure (Node.directsIfAny_some ?_)
      cases form <;> exact Node.directs_of_isMalformed rfl

theorem answers_loop? :
    Answers (loop? context : DirectiveParser σ (Option Node)) Node.DirectsIfAny :=
  .bind fun _ => .ite
    (.bind fun _ => .bind fun _ => .bind fun _ => .bind fun _ => .bind fun _ => .bind fun _ =>
      .pure (Node.directsIfAny_some (Node.directs_of_isMalformed rfl)))
    (.pure Node.directsIfAny_none)

theorem answers_branches : Answers (branches context : DirectiveParser σ Node) Node.Directs :=
  .bind fun _ => .bind fun _ => .bind fun _ => .pure (Node.directs_of_isMalformed rfl)

theorem answers_definition : Answers (definition context : DirectiveParser σ Node) Node.Directs :=
  .bind fun _ => .bind fun _ => .bind fun _ => .bind fun _ => .bind fun _ => .bind fun _ =>
    .bind fun _ => .bind fun _ => .pure (Node.directs_of_isMalformed rfl)

theorem answers_defaultUse : Answers (defaultUse : Parser σ Node) Node.Directs :=
  .bind fun _ => .bind fun _ => .bind fun _ => .ite
    (.bind fun _ => .bind fun _ => .bind fun _ => .bind fun _ =>
      .pure (Node.directs_of_isMalformed rfl))
    (.bind fun _ => .bind fun _ => .pure (Node.directs_of_isMalformed rfl))

theorem answers_definitionUse : Answers (definitionUse : Parser σ Node) Node.Directs :=
  .bind fun _ => .bind fun _ => .bind fun _ => .ite
    (.bind fun _ => .bind fun _ => .pure (Node.directs_of_isMalformed rfl))
    (.bind fun _ => .bind fun _ => .pure (Node.directs_of_isMalformed rfl))

theorem answers_placeholder? :
    Answers (placeholder? context : DirectiveParser σ (Option Node)) Node.DirectsIfAny :=
  .bind fun _ => .ite (.found (answers_definition context)) <|
    .bind fun _ => .ite (.found (.parse answers_defaultUse)) <|
    .bind fun _ => .ite (.found (.parse answers_definitionUse)) (.pure Node.directsIfAny_none)

theorem answers_read? : Answers (read? : Parser σ (Option Node)) Node.DirectsIfAny := by
  refine .bind fun path? => .pure ?_
  cases path? with
  | none => exact Node.directsIfAny_none
  | some path => exact Node.directsIfAny_some (Node.directs_of_isMalformed rfl)

theorem answers_leave : Answers (leave context : Parser σ Node) Node.Directs := by
  unfold leave
  cases context.enclosingLoop with
  | none => exact .fail _
  | some target => exact .bind fun _ => .pure (Node.directs_of_isMalformed rfl)

theorem answers_embed : Answers (embed context : DirectiveParser σ Node) Node.Directs := by
  refine .bind fun path => ?_
  cases context.embeddings path with
  | none => exact .throw _
  | some text => exact .bind fun _ => .bind fun _ => .pure (Node.directs_of_isMalformed rfl)

theorem answers_nested? :
    Answers (nested? context : DirectiveParser σ (Option Node)) Node.DirectsIfAny := by
  refine .bind fun _ => .ite (.found (.parse (answers_leave context))) <|
    .bind fun _ => .ite (.found (answers_branches context)) <|
    .bind fun _ => .ite (.found (answers_embed context)) <| .bind fun keyword? => ?_
  cases keyword? with
  | none => exact .pure Node.directsIfAny_none
  | some keyword => exact Answers.parse (.fail _)

theorem answers_markText : Answers (markText : Parser σ Node) Node.Directs := by
  refine .bind fun found => ?_
  cases found with
  | none => exact .fail _
  | some character => exact .bind fun _ => .pure (Node.directs_of_isMalformed rfl)

theorem answers_firstOf? (rules : List (DirectiveParser σ (Option Node)))
    (each : ∀ rule ∈ rules, Answers rule Node.DirectsIfAny) :
    Answers (firstOf? rules) Node.DirectsIfAny := by
  induction rules with
  | nil => exact .pure Node.directsIfAny_none
  | cons rule rules induction =>
      obtain ⟨first, rest⟩ := List.forall_mem_cons.mp each
      refine .bind fun _ => first.bind_of fun found directs => ?_
      cases found with
      | some node => exact .pure directs
      | none => exact .bind fun _ => induction rest

/-- What the grammar answers is a directive. -/
theorem answers_node : Answers (node context : DirectiveParser σ Node) Node.Directs := by
  have rules : Answers (firstOf? (recognisers context) : DirectiveParser σ (Option Node))
      Node.DirectsIfAny := by
    refine answers_firstOf? _ fun rule listed => ?_
    simp only [recognisers, List.mem_cons, List.not_mem_nil, or_false] at listed
    rcases listed with rfl | rfl | rfl | rfl | rfl | rfl
    · exact .scan (directs_text? context.limit)
    · exact .parse answers_declaration?
    · exact answers_loop? context
    · exact answers_placeholder? context
    · exact .parse answers_read?
    · exact answers_nested? context
  refine rules.bind_of fun found directs => ?_
  cases found with
  | some node => exact .pure (directs node rfl)
  | none => exact .parse answers_markText

end Directive

end Stencil
