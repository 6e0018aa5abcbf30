import Stencil.Proofs.Run.Displaced
import Stencil.Proofs.Template

/-!
# Embedding is inlining

An embedded text is parsed into a block of its own, which shares the scope and the enclosing loop of
the block that asks for it.  Running it does what running its nodes in place of the directive does.
-/

namespace Stencil

open Text

variable {η : Type}

namespace Session

variable {session : Session η} {embeddings : Embeddings} {parent id : BlockRef}

/-- An embedded text runs in the scope of the block that embeds it. -/
theorem Child.scope_embedded (child : session.Child embeddings parent .embedded id) :
    (session.block id).scope = (session.block parent).scope := by
  cases child with
  | body _ _ block cut finish scope anchor later present _ _ _ closes outline =>
      cases closes.keyword
  | embedded _ block path text source later present _ _ _ _ _ outline =>
      have scope : block.outline.scope = _ := congrArg Block.scope outline
      rw [block_eq_of_getElem? present]
      exact scope

end Session

namespace Run

variable {environment : Environment η} {runNode : Node → Run η Unit} {loop : Option BlockRef}
  {session : Session η}

theorem eq_of_ran {α : Type} {left right : Run η α}
    (same : ∀ session, left.run.run session = right.run.run session) : left = right :=
  ExceptT.ext (StateT.ext same)

theorem ran_nodes_cons (node : Node) (rest : List Node) (session : Session η) :
    (nodes runNode loop (node :: rest)).run.run session =
      if loop.any fun target => (session.block target).wasLeft then (.ok (), session)
      else (do runNode node; nodes runNode loop rest : Run η Unit).run.run session := by
  change (if loop.any fun target => (session.block target).wasLeft then _ else _ :
    Run η Unit).run.run session = _
  split <;> rfl

/-- No further node runs once the loop was left. -/
theorem ran_nodes_of_left (left : (loop.any fun target => (session.block target).wasLeft) = true)
    (listed : List Node) : (nodes runNode loop listed).run.run session = (.ok (), session) := by
  cases listed with
  | nil => rfl
  | cons node rest => rw [ran_nodes_cons, if_pos left]

/-- A list of nodes runs like its parts one after another. -/
theorem nodes_append (first rest : List Node) :
    nodes runNode loop (first ++ rest) =
      (do nodes runNode loop first; nodes runNode loop rest : Run η Unit) := by
  induction first with
  | nil => exact (pure_bind () fun _ => nodes runNode loop rest).symm
  | cons node first induction =>
      refine eq_of_ran fun session => ?_
      rw [List.cons_append, ran_nodes_cons, induction]
      have here := @ran_nodes_cons _ runNode loop node first session
      by_cases left : (loop.any fun target => (session.block target).wasLeft) = true
      · rw [if_pos left] at here
        rw [if_pos left, run_bind_of_ok here, ran_nodes_of_left left]
      · rw [if_neg left] at here
        rw [if_neg left, ← bind_assoc]
        have split (run : Run η Unit) : (run >>= fun _ => nodes runNode loop rest).run.run session =
            (ExceptT.bindCont (fun _ => nodes runNode loop rest) (run.run.run session).1).run
              (run.run.run session).2 := rfl
        rw [split, split, here]

/-- The nodes of an embedded text, run as nodes of the block that embeds it. -/
def inlined (environment : Environment η) (runNode : Node → Run η Unit) (loop : Option BlockRef)
    (id : BlockRef) : Run η Unit := do
  let parsed ← nodesOf environment id
  nodes runNode loop parsed

/-- An embedded text does what its nodes do in place of the directive, unless it comes to the end of
the fuel or to the limit of nesting. -/
theorem embed_inlined (valid : session.Valid environment.embeddings) {parent id : BlockRef}
    (child : session.Child environment.embeddings parent .embedded id) (fuel : Nat) :
    EndAlike { displaced session session.depth 0 with excused := IsLimit }
      (node environment (block environment fuel) fuel (session.block parent).scope (.embed id))
      (inlined environment
        (node environment (block environment fuel) fuel (session.block parent).scope)
        (session.block parent).enclosingLoop id)
      (fun _ _ => True) session session := by
  let scope := (session.block parent).scope
  let loop := (session.block parent).enclosingLoop
  let deeper : Session η := { session with depth := session.depth + 1 }
  have related : (displaced session session.depth 1).related deeper session :=
    ⟨rfl, ⟨rfl, rfl, rfl, rfl, rfl, rfl, fun _ => rfl⟩, valid.fitted,
      ⟨(Session.Extends.refl _).block,
      (Session.Extends.refl _).source⟩⟩
  have inside : EndAlike (displaced session session.depth 1) (block environment fuel id)
      (inlined environment (node environment (block environment fuel) fuel scope) loop id)
      (fun _ _ => True) deeper session := by
    cases fuel with
    | zero => exact .inl ⟨.outOfFuel, rfl, Nat.one_pos, .inl rfl⟩
    | succ fuel =>
        rw [block]
        unfold blockWith inlined
        refine Lockstep.bind_at
          (Lockstep.nodesOf_displaced environment id deeper session related) ?_
        rintro parsed _ opened opened' - ⟨depth, here, fitted, ext⟩ rfl
        refine .get_left ?_
        have outline := ext.outline_block child.lt_size
        have isScope : (opened.block id).scope = scope :=
          (Block.eq_of_outline Block.scope (fun _ => rfl) outline).trans child.scope_embedded
        have isLoop : (opened.block id).enclosingLoop = loop :=
          (Block.eq_of_outline Block.enclosingLoop (fun _ => rfl) outline).trans child.enclosingLoop
        dsimp only
        rw [isScope, isLoop]
        have lawful : (displaced opened session.depth 1 : Run.Pairing η).Lawful environment.host :=
          lawful_displaced _ _ _ _
        have more : fuel = fuel + 1 ∨ fuel ≤ fuel + 1 ∧ 0 < 1 := .inr ⟨Nat.le_succ _, Nat.one_pos⟩
        have body : Lockstep (displaced opened session.depth 1)
            (do
              seek (opened.block id).source (opened.block id).start
              nodes (node environment (block environment fuel) fuel scope) loop parsed
              seek (opened.block id).source (opened.block id).finish : Run η Unit)
            ((pure () : Run η Unit) >>= fun _ =>
              nodes (node environment (block environment (fuel + 1)) (fuel + 1) scope)
                loop parsed >>=
                fun _ => pure ())
            fun _ _ => True := by
          refine (Lockstep.seek_displaced_left fun _ later =>
            (fitted.isPlace_later later id).1).bind fun _ _ _ => ?_
          refine (Lockstep.nodes lawful _
            (List.forall₂_same.mpr fun next _ => ?_)).bind fun _ _ _ =>
            Lockstep.seek_displaced_left fun _ later => (fitted.isPlace_later later id).2
          exact Lockstep.node_displaced environment more
            (fun _ inner => Lockstep.block_displaced environment opened more inner) _ next
        have alike := (body opened opened' ⟨depth, here, fitted, .refl opened⟩).rebase ext
        rwa [pure_bind, bind_pure] at alike
  have ran : (node environment (block environment fuel) fuel scope (.embed id)).run.run
      session = _ :=
    ran_nested (block environment fuel) (.embedded id.index) id session
  rw [EndAlike, ran]
  by_cases isDeep : nestingLimit ≤ session.depth
  · rw [if_pos isDeep]
    exact .inl ⟨_, rfl, .inr ⟨_, rfl⟩⟩
  · rw [if_neg isDeep]
    rcases inside with ⟨stop, stopped, -, isLimit⟩ | ⟨⟨depth, here, fitted, ext⟩, alike⟩
    · exact .inl ⟨stop, stopped, isLimit⟩
    · have below := here.depth
      exact .inr ⟨⟨depth, ⟨congrArg (· - 1) below, here.blocks, here.store, here.placeholders,
        here.writes, here.size_sources, here.text⟩, fitted, ⟨ext.block, ext.source⟩⟩, alike⟩

/-- The nodes of an embedded text and then those behind the directive, run as nodes of one block. -/
def spliced (environment : Environment η) (runNode : Node → Run η Unit) (loop : Option BlockRef)
    (id : BlockRef) (rest : List Node) : Run η Unit := do
  let parsed ← nodesOf environment id
  nodes runNode loop (parsed ++ rest)

theorem spliced_eq (id : BlockRef) (rest : List Node) :
    spliced environment runNode loop id rest =
      (do inlined environment runNode loop id; nodes runNode loop rest : Run η Unit) := by
  simp only [spliced, inlined, nodes_append, bind_assoc]

end Run

namespace Template

variable {source : AnySource} {options : Options} {host : Host η} {state : η} {session : Session η}

/-- In every session that a template comes to, running a directive that embeds a text and then the
rest of its block ends as running the nodes of that text and then the rest as nodes of the block
does, and leaves the same writes, values, lists, placeholders and marks of left loops behind. -/
theorem embedding_is_inlining
    (chain : (ofSource source options host state).session.Chain (Policy.free fun _ => True)
      options.embeddings session) {id inner : BlockRef} {earlier rest : List Node}
    (parsed : (session.block id).nodes? = some (earlier ++ .embed inner :: rest)) (fuel : Nat) :
    let environment : Environment η := ⟨host, options.embeddings⟩
    let loop := (session.block id).enclosingLoop
    let runNode := Run.node environment (Run.block environment fuel) fuel (session.block id).scope
    let embedding : Run η Unit := do runNode (.embed inner); Run.nodes runNode loop rest
    let inlining := Run.spliced environment runNode loop inner rest
    (∀ stop, ((runNode (.embed inner)).run.run session).1 = .error stop → ¬Run.IsLimit stop) →
    (inlining.run.run session).1 = (embedding.run.run session).1 ∧
      (embedding.run.run session).2.Displaced 0 (inlining.run.run session).2 := by
  intro environment loop runNode embedding inlining unlimited
  have valid := chain.valid (valid_ofSource source options host state)
  have present : id.index < session.blocks.size := by
    by_contra absent
    rw [Session.block_of_le (Nat.le_of_not_lt absent)] at parsed
    cases parsed
  obtain ⟨-, origins⟩ := valid.parsed id _ _ (Session.getElem?_of_lt present) parsed
  have child : session.Child options.embeddings id .embedded inner := by
    cases origins (.embed inner) (List.mem_append_right _ List.mem_cons_self) with
    | embed _ opening isMade => exact isMade
  have lawful : (Run.displaced session session.depth 0 : Run.Pairing η).Lawful environment.host :=
    Run.lawful_displaced _ _ _ _
  have embedded : Run.EndAlike (Run.displaced session session.depth 0) (runNode (.embed inner))
      (Run.inlined environment runNode loop inner) (fun _ _ => True) session session := by
    rcases @Run.embed_inlined _ environment session valid id inner child fuel with
      ⟨stop, stopped, isLimit⟩ | alike
    · exact absurd isLimit (unlimited stop stopped)
    · exact .inr alike
  have both : Run.EndAlike (Run.displaced session session.depth 0) embedding inlining
      (fun _ _ => True) session session := by
    rw [show inlining = _ from Run.spliced_eq inner rest]
    refine Run.Lockstep.bind_at embedded fun _ _ after after' _ related _ => ?_
    refine Run.Lockstep.nodes lawful _ (List.forall₂_same.mpr fun next _ => ?_) after after' related
    exact Run.Lockstep.node_displaced environment (.inl rfl)
      (fun _ body => Run.Lockstep.block_displaced environment session (.inl rfl) body) _ next
  rcases both with ⟨_, _, nothing, _⟩ | ⟨⟨-, here, -⟩, alike⟩
  · cases nothing
  · exact ⟨alike.eq.symm, here⟩

/-- A template that embeds a text which counts how often it runs. -/
def tallying : Template Unit :=
  ofString "@var count = 1\n@embed next\n!"
    { embeddings := fun path =>
        if path = "next" then some "@set_var count = count + 1\n@var(count)" else none
          } Host.none ()

/-- Whether the text that it embeds behind its first node runs to its end. -/
def tallyingEmbeds : Bool :=
  match ((tallying.render 9).2.session.block tallying.root).nodes? with
  | some (_ :: .embed inner :: _) => ((Run.node tallying.environment
      (Run.block tallying.environment 9) 9
      ((tallying.render 9).2.session.block tallying.root).scope (.embed inner)).run.run
        (tallying.render 9).2.session).1.isOk
  | _ => false

theorem embedding_is_inlining_counting :
    ∃ first inner rest, let session := (tallying.render 9).2.session
      (session.block tallying.root).nodes? = some ([first] ++ .embed inner :: rest) ∧
      let loop := (session.block tallying.root).enclosingLoop
      let runNode := Run.node tallying.environment (Run.block tallying.environment 9) 9
        (session.block tallying.root).scope
      let embedding : Run Unit Unit := do runNode (.embed inner); Run.nodes runNode loop rest
      let inlining := Run.spliced tallying.environment runNode loop inner rest
      ((runNode (.embed inner)).run.run session).1.isOk = true ∧
        (inlining.run.run session).1 = (embedding.run.run session).1 ∧
        (embedding.run.run session).2.Displaced 0 (inlining.run.run session).2 := by
  have shape : tallyingEmbeds = true := by decide +kernel
  unfold tallyingEmbeds at shape
  have chain := (Evolves.free_chain (.render .refl 9 :
    tallying.Evolves (fun _ _ => True) (tallying.render 9).2)).2
  split at shape
  · rename_i first inner rest isParsed
    have parsed : ((tallying.render 9).2.session.block tallying.root).nodes? =
      some ([first] ++ .embed inner :: rest) := isParsed
    have unlimited (stop : Stop) (stopped : ((Run.node tallying.environment
        (Run.block tallying.environment 9) 9
        ((tallying.render 9).2.session.block tallying.root).scope (.embed inner)).run.run
          (tallying.render 9).2.session).1 = .error stop) : ¬Run.IsLimit stop := by
      rw [stopped] at shape
      cases shape
    exact ⟨first, inner, rest, parsed, shape, embedding_is_inlining chain parsed 9 unlimited⟩
  · cases shape

end Template

end Stencil
