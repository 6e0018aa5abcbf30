import Stencil.Proofs.Run.Lockstep
import Stencil.Proofs.Session.Displaced

/-!
# Runs of sessions that differ in places

Runs of such sessions go in lockstep, even if the first is deeper and has less fuel, as long as it
does not come to an end for that reason.
-/

namespace Stencil

open Text

variable {η α : Type}

namespace Run

/-- A run came to the end of its fuel or to the limit of nesting. -/
def IsLimit (stop : Stop) : Prop :=
  stop = .outOfFuel ∨ ∃ what, stop = .failed (.reference (.nestingTooDeep what nestingLimit))

/-- The pairing of the sessions that lie so many levels above a level with those on it that differ
from them in places.  They came about from a base by parsing. -/
def displaced (base : Session η) (level extra : Nat) : Run.Pairing η where
  related before before' :=
    before'.depth = level ∧ before.Displaced extra before' ∧ before.Fitted ∧ base.Extends before
  stops _ := Eq
  excused stop := 0 < extra ∧ IsLimit stop

variable {base : Session η} {level extra : Nat}

theorem lawful_displaced (base : Session η) (level extra : Nat) (host : Host η) :
    (displaced base level extra : Run.Pairing η).Lawful host where
  plain _ _ _ := rfl
  stops _ _ _ _ _ same := same
  store := by rintro _ _ ⟨-, here, -⟩; exact here.store
  placeholders := by rintro _ _ ⟨-, here, -⟩; exact here.placeholders
  scope := by rintro _ _ ⟨-, here, -⟩ id; rw [here.block id]
  wasLeft := by rintro _ _ ⟨-, here, -⟩ id; rw [here.block id]
  withStore := by
    rintro _ _ ⟨depth, here, fitted, ext⟩ store
    exact ⟨depth, ⟨here.depth, here.blocks, rfl, here.placeholders, here.writes, here.size_sources,
      here.text⟩, fitted, ⟨ext.block, ext.source⟩⟩
  write := by
    rintro _ _ ⟨depth, here, fitted, ext⟩ text
    exact ⟨depth, ⟨here.depth, here.blocks, here.store, here.placeholders,
      congrArg (·.push text) here.writes, here.size_sources, here.text⟩, fitted,
      ⟨ext.block, ext.source⟩⟩
  mark := by
    rintro before _ ⟨depth, here, fitted, ext⟩ target left
    have quiet : before.Quiet (before.modifyBlock target ({ · with wasLeft := left })) :=
      before.quiet_modifyBlock target fun _ => rfl
    exact ⟨depth, ⟨here.depth, congrArg (fun blocks : Array Block => blocks.modify target.index
      ({ · with wasLeft := left })) here.blocks, here.store, here.placeholders, here.writes,
      here.size_sources, here.text⟩, fitted.of_quiet quiet, ext.trans quiet.toExtends⟩
  bodies _ _ _ _ _ _ := trivial

theorem admits_displaced (base : Session η) (level extra : Nat) (node : Node) :
    (displaced base level extra).Admits node where
  runs _ _ _ _ _ := trivial
  defines := by
    rintro key parameter body - _ _ ⟨depth, here, fitted, ext⟩
    exact ⟨depth, ⟨here.depth, here.blocks, here.store, by rw [here.placeholders], here.writes,
      here.size_sources, here.text⟩, fitted, ⟨ext.block, ext.source⟩⟩
  fails _ _ _ _ _ := rfl

/-- What came about from a later base came about from an earlier one. -/
theorem EndAlike.rebase {later : Session η} {β : Type} {left : Run η α} {right : Run η β}
    {answers : α → β → Prop} {before before' : Session η}
    (alike : EndAlike (displaced later level extra) left right answers before before')
    (ext : base.Extends later) :
    EndAlike (displaced base level extra) left right answers before before' :=
  alike.imp_right fun ⟨⟨depth, here, fitted, extLater⟩, same⟩ =>
    ⟨⟨depth, here, fitted, ext.trans extLater⟩, same⟩

namespace Lockstep

/-- A source goes to a place of its text. -/
theorem seek_displaced {source : SourceRef} {offset : Nat}
    (place : ∀ after, base.Extends after → IsPlace (after.text source) offset) :
    Lockstep (displaced base level extra) (Run.seek source offset) (Run.seek source offset)
      fun _ _ => True := by
  rintro before before' ⟨depth, here, fitted, ext⟩
  have isPlace := place before ext
  have isPlace' : IsPlace (before'.text source) offset := here.text source ▸ isPlace
  have quiet := before.quiet_seek source offset
  rw [EndAlike, (ran_seek isPlace).2.2, (ran_seek isPlace').2.2]
  exact .inr ⟨⟨depth, here.seek source offset, fitted.of_quiet quiet, ext.trans quiet.toExtends⟩,
    .ok trivial⟩

/-- Sending a source of the first session to a place makes no difference. -/
theorem seek_displaced_left {source : SourceRef} {offset : Nat}
    (place : ∀ after, base.Extends after → IsPlace (after.text source) offset) :
    Lockstep (displaced base level extra) (Run.seek source offset) (Pure.pure ())
      fun _ _ => True := by
  rintro before before' ⟨depth, here, fitted, ext⟩
  have quiet := before.quiet_seek source offset
  have moved := (before.displaced_seek source offset).trans here
  rw [EndAlike, (ran_seek (place before ext)).2.2]
  exact .inr ⟨⟨depth, moved, fitted.of_quiet quiet, ext.trans quiet.toExtends⟩, .ok trivial⟩

/-- A block is parsed into the same nodes, since its source is sent to its start first. -/
theorem nodesOf_displaced (environment : Environment η) (id : BlockRef) :
    Lockstep (displaced base level extra) (Run.nodesOf environment id) (Run.nodesOf environment id)
      fun nodes nodes' => nodes = nodes' := by
  rintro before before' ⟨depth, here, fitted, ext⟩
  cases isParsed : (before.block id).nodes? with
  | some nodes =>
      rw [EndAlike, ran_nodesOf_of_parsed environment isParsed,
        ran_nodesOf_of_parsed environment ((congrArg Block.nodes? (here.block id)).trans isParsed)]
      exact .inr ⟨⟨depth, here, fitted, ext⟩, .ok rfl⟩
  | none =>
      have place := fitted.isPlace_start id
      have place' : IsPlace (before'.text (before.block id).source) (before.block id).start :=
        here.text _ ▸ place
      obtain ⟨found, pointer, sought⟩ := ran_seek place
      obtain ⟨-, -, sought'⟩ := ran_seek place'
      have quiet := before.quiet_seek (before.block id).source (before.block id).start
      obtain ⟨fittedAfter, extAfter⟩ :=
        fitted.parseBlock environment.embeddings pointer isParsed quiet
      obtain ⟨sameNodes, hereAfter⟩ :=
        (here.seek (before.block id).source (before.block id).start).parseBlock
          environment.embeddings (here.source_seek found)
      rw [← here.block id] at sought'
      rw [EndAlike, ran_nodesOf_of_unparsed environment isParsed sought, ran_nodesOf_of_unparsed
        environment ((congrArg Block.nodes? (here.block id)).trans isParsed) sought', here.block id]
      exact .inr ⟨⟨depth, hereAfter, fittedAfter, ext.trans extAfter⟩, .ok sameNodes.symm⟩

/-- Blocks that are entered one level deeper are in lockstep if they are there. -/
theorem nested_displaced {runBlock runBlock' : BlockRef → Run η Unit} (host : Host η)
    (what : Nested) (id : BlockRef)
    (block : Lockstep (displaced base (level + 1) extra) (runBlock id) (runBlock' id)
      fun _ _ => True) :
    Lockstep (displaced base level extra) (Run.nested runBlock what id)
      (Run.nested runBlock' what id) fun _ _ => True := by
  rintro before before' ⟨rfl, here, fitted, ext⟩
  have depth := here.depth
  refine Lockstep.nested (lawful_displaced base before'.depth extra host)
    (displaced base (before'.depth + 1) extra).related what id ⟨rfl, here, fitted, ext⟩
    (fun isDeep => ?_) (fun below => ⟨by omega, ?_⟩) ?_
  · cases extra with
    | zero => exact .inl (by omega)
    | succ extra => exact .inr ⟨Nat.succ_pos extra, .inr ⟨what, rfl⟩⟩
  · exact block _ _ ⟨rfl, ⟨by simp only [depth]; omega, here.blocks, here.store,
      here.placeholders, here.writes, here.size_sources, here.text⟩, fitted,
        ⟨ext.block, ext.source⟩⟩
  · rintro after after' ⟨isDepth, here, fitted, ext⟩
    have depth := here.depth
    exact ⟨by simp only [isDepth]; omega, ⟨by simp only [depth, isDepth]; omega, here.blocks,
      here.store, here.placeholders, here.writes, here.size_sources, here.text⟩, fitted,
      ⟨ext.block, ext.source⟩⟩

/-- A node is in lockstep with itself if the blocks on every level are. -/
theorem node_displaced (environment : Environment η) {runBlock runBlock' : BlockRef → Run η Unit}
    {fuel fuel' : Nat} (enough : fuel = fuel' ∨ fuel ≤ fuel' ∧ 0 < extra)
    (blocks : ∀ level id,
      Lockstep (displaced base level extra) (runBlock id) (runBlock' id) fun _ _ => True)
    (scope : ScopeRef) (node : Node) :
    Lockstep (displaced base level extra) (Run.node environment runBlock fuel scope node)
      (Run.node environment runBlock' fuel' scope node) fun _ _ => True :=
  .node (lawful_displaced base level extra environment.host)
    (fun inner before before' related _ => blocks level inner before before' related)
    (fun what inner before before' related _ => nested_displaced environment.host what inner
      (blocks (level + 1) inner) before before' related)
    (enough.imp_right fun below => ⟨below.1, below.2, .inl rfl⟩) scope
    (admits_displaced base level extra node)

/-- More fuel makes no difference to a deeper run that does not run out of it. -/
theorem block_displaced (environment : Environment η) (base : Session η) {fuel fuel' : Nat}
    (enough : fuel = fuel' ∨ fuel ≤ fuel' ∧ 0 < extra) (id : BlockRef) :
    Lockstep (displaced base level extra) (Run.block environment fuel id)
      (Run.block environment fuel' id) fun _ _ => True := by
  induction fuel generalizing base fuel' level id with
  | zero =>
      rcases enough with rfl | ⟨-, deeper⟩
      · exact .stop fun _ _ _ => rfl
      · exact .excused _ ⟨deeper, .inl rfl⟩
  | succ fuel induction =>
      obtain ⟨more, rfl⟩ : ∃ more, fuel' = more + 1 :=
        Nat.exists_eq_add_one.mpr (by rcases enough with rfl | ⟨le, -⟩ <;> omega)
      have enoughInside : fuel = more ∨ fuel ≤ more ∧ 0 < extra :=
        enough.imp Nat.succ.inj (And.imp_left Nat.le_of_succ_le_succ)
      rw [block, block]
      unfold blockWith
      refine (nodesOf_displaced environment id).bind ?_
      rintro parsed _ rfl
      intro now now' related
      obtain ⟨depth, here, fitted, ext⟩ := related
      have lawful : (displaced now level extra : Run.Pairing η).Lawful environment.host :=
        lawful_displaced now _ _ _
      have body : Lockstep (displaced now level extra)
          (do
            Run.seek (now.block id).source (now.block id).start
            Run.nodes (Run.node environment (block environment fuel) fuel (now.block id).scope)
              (now.block id).enclosingLoop parsed
            Run.seek (now.block id).source (now.block id).finish : Run η Unit)
          (do
            Run.seek (now'.block id).source (now'.block id).start
            Run.nodes (Run.node environment (block environment more) more (now'.block id).scope)
              (now'.block id).enclosingLoop parsed
            Run.seek (now'.block id).source (now'.block id).finish : Run η Unit)
          fun _ _ => True := by
        rw [here.block id]
        refine (seek_displaced fun _ later => (fitted.isPlace_later later id).1).bind
          fun _ _ _ => ?_
        refine (Lockstep.nodes lawful _ (List.forall₂_same.mpr fun next _ => ?_)).bind fun _ _ _ =>
          seek_displaced fun _ later => (fitted.isPlace_later later id).2
        exact node_displaced environment enoughInside
          (fun _ inner => induction now enoughInside inner) _ next
      exact .get_bind ((body now now' ⟨depth, here, fitted, .refl now⟩).rebase ext)

end Lockstep

end Run

end Stencil
