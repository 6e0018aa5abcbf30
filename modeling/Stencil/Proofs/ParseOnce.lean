import Mathlib.Algebra.GroupWithZero.Nat
import Stencil.Proofs.Run.Refines
import Stencil.Proofs.Template

/-!
# Blocks are parsed once

Whatever a template goes through, each of its blocks is parsed at most once, by the first run that
comes to it, and sources are looked at for that alone.
-/

namespace Stencil

open Text

variable {η : Type}

/-- A session becomes another one by preparing blocks one after another, each for the first time.
In between no block is parsed and no source is looked at. -/
inductive Session.Prepares (embeddings : Embeddings) :
    List BlockRef → Session η → Session η → Prop where
  | nothing {before after : Session η} (quiet : before.Quiet after) :
      Prepares embeddings [] before after
  | block {id : BlockRef} {prepared : List BlockRef} {before ready after : Session η}
      (quiet : before.Quiet ready) (present : id.index < ready.blocks.size)
      (sourcePresent : (ready.block id).source.index < ready.sources.size)
      (unparsed : (ready.block id).nodes? = none)
      (atStart : Source.pointer (ready.source (ready.block id).source) = (ready.block id).start)
      (rest : Prepares embeddings prepared (ready.parseBlock embeddings id).2 after) :
      Prepares embeddings (id :: prepared) before after

namespace Session

variable {embeddings : Embeddings} {policy : Policy η} {host : Host η} {id : BlockRef}
  {prepared : List BlockRef} {nodes : List Node} {before middle after : Session η}

theorem Prepares.of_quiet (quiet : before.Quiet middle)
    (prepares : Prepares embeddings prepared middle after) :
    Prepares embeddings prepared before after := by
  cases prepares with
  | nothing later => exact .nothing (quiet.trans later)
  | block later present sourcePresent unparsed atStart rest =>
      exact .block (quiet.trans later) present sourcePresent unparsed atStart rest

/-- A chain of steps prepares blocks that may be parsed and does nothing else to blocks. -/
theorem Chain.prepares (lawful : policy.Lawful host)
    (chain : before.Chain policy embeddings after) (sound : policy.Sound embeddings before) :
    ∃ prepared, Prepares embeddings prepared before after ∧
        ∀ id ∈ prepared, policy.mayParse id := by
  induction chain using Relation.ReflTransGen.head_induction_on with
  | refl => exact ⟨[], .nothing (.refl _), fun _ member => nomatch member⟩
  | head step _ induction =>
      obtain ⟨prepared, prepares, may⟩ := induction (step.sound lawful sound)
      rcases step.cases_parse with quiet | ⟨id, mayParse, present, unparsed, atStart, rfl⟩
      · exact ⟨prepared, prepares.of_quiet quiet, may⟩
      · have sourcePresent := sound.valid.source_lt (getElem?_of_lt present)
        refine ⟨id :: prepared,
          .block (.refl _) present sourcePresent unparsed atStart prepares, ?_⟩
        exact List.forall_mem_cons.mpr ⟨mayParse, may⟩

/-- A block was parsed once if it has nodes, and never otherwise. -/
theorem Valid.timesParsed {session : Session η} (valid : session.Valid embeddings) (id : BlockRef) :
    (session.block id).timesParsed = if (session.block id).nodes?.isSome then 1 else 0 := by
  cases isThere : session.blocks[id.index]? with
  | none =>
      have absent : session.block id = default := by simp [Session.block, isThere]
      rw [absent]
      rfl
  | some block =>
      rw [block_eq_of_getElem? isThere]
      cases parsed : block.nodes? with
      | none => exact valid.unparsed id block isThere parsed
      | some nodes => exact (valid.parsed id block nodes isThere parsed).1

theorem Quiet.nodes? (quiet : before.Quiet after) (id : BlockRef) :
    (after.block id).nodes? = (before.block id).nodes? :=
  Block.eq_of_unmarked Block.nodes? (fun _ => rfl) (quiet.block id)

theorem Parsing.nodes?_self (parsing : Parsing embeddings before id nodes after) :
    (after.block id).nodes? = some nodes := by
  rw [parsing.block_self]
  rfl

theorem Parsing.nodes?_of_ne (parsing : Parsing embeddings before id nodes after)
    {other : BlockRef} (different : other ≠ id) :
    (after.block other).nodes? = (before.block other).nodes? := by
  by_cases isThere : other.index < before.blocks.size
  · rw [parsing.block_of_ne different isThere]
  · have isNew := Nat.le_of_not_lt isThere
    rw [block_of_le isNew, ← parsing.outline_of_le isNew]
    rfl

/-- The blocks that are prepared were not parsed before, and are afterwards; all others keep their
nodes. -/
theorem Prepares.nodes? (prepares : Prepares embeddings prepared before after) :
    prepared.Nodup ∧ ∀ id,
      (id ∈ prepared → (before.block id).nodes? = none ∧ (after.block id).nodes?.isSome = true) ∧
      (id ∉ prepared → (after.block id).nodes? = (before.block id).nodes?) := by
  induction prepares with
  | nothing quiet => exact ⟨.nil, fun id => ⟨nofun, fun _ => quiet.nodes? id⟩⟩
  | @block id prepared before ready after quiet present sourcePresent unparsed atStart rest
      induction =>
      obtain ⟨nodup, cases⟩ := induction
      have parsing := @parsing_parseBlock _ _ embeddings _ present sourcePresent unparsed atStart
      have fresh : id ∉ prepared := by
        intro member
        have never := ((cases id).1 member).1
        rw [parsing.nodes?_self] at never
        cases never
      refine ⟨List.nodup_cons.mpr ⟨fresh, nodup⟩, fun other => ?_⟩
      by_cases same : other = id
      · subst same
        refine ⟨fun _ => ⟨(quiet.nodes? other).symm.trans unparsed, ?_⟩, fun absent => ?_⟩
        · rw [(cases other).2 fresh, parsing.nodes?_self]
          rfl
        · exact absurd List.mem_cons_self absent
      · have kept := (parsing.nodes?_of_ne same).trans (quiet.nodes? other)
        refine ⟨fun member => ?_, fun absent => ?_⟩
        · rcases List.mem_cons.mp member with rfl | later
          · exact absurd rfl same
          · obtain ⟨never, isParsed⟩ := (cases other).1 later
            exact ⟨kept.symm.trans never, isParsed⟩
        · rw [(cases other).2 fun later => absent (List.mem_cons_of_mem _ later), kept]

theorem parsedBlocks_eq_sum (session : Session η) :
    session.parsedBlocks = (session.blocks.toList.map Block.timesParsed).sum := by
  rw [parsedBlocks, ← Array.foldl_toList, ← List.foldl_map, List.sum_eq_foldl]

theorem Quiet.parsedBlocks (quiet : before.Quiet after) :
    after.parsedBlocks = before.parsedBlocks := by
  have times (session : Session η) : session.blocks.toList.map Block.timesParsed =
      (session.blocks.map Block.unmarked).toList.map Block.timesParsed := by
    rw [Array.toList_map, List.map_map]
    rfl
  rw [parsedBlocks_eq_sum, parsedBlocks_eq_sum, times, times, quiet.blocks]

theorem sum_set_succ {counts : List Nat} {index count : Nat}
    (present : counts[index]? = some count) :
    (counts.set index (count + 1)).sum = counts.sum + 1 := by
  induction counts generalizing index with
  | nil => cases present
  | cons first counts induction =>
      cases index with
      | zero =>
          obtain rfl : first = count := Option.some.inj present
          simp
          omega
      | succ index =>
          have later := induction present
          simp [later]
          omega

/-- Parsing a block adds one to the number of parsed blocks. -/
theorem Parsing.parsedBlocks (parsing : Parsing embeddings before id nodes after)
    (present : id.index < before.blocks.size) : after.parsedBlocks = before.parsedBlocks + 1 := by
  have grown : before.blocks.size ≤ after.blocks.size := by
    refine Nat.le_of_not_lt fun shrunk => ?_
    exact Nat.lt_irrefl _ (parsing.toExtends.lt shrunk)
  have counts : after.blocks.toList.map Block.timesParsed =
      (before.blocks.toList.map Block.timesParsed).set id.index
          ((before.block id).timesParsed + 1) ++
        List.replicate (after.blocks.size - before.blocks.size) 0 := by
    apply List.ext_getElem?
    intro index
    by_cases isThere : index < before.blocks.size
    · rw [List.getElem?_append_left (by simpa using isThere), List.getElem?_set]
      split
      · rename_i same
        subst same
        simp [parsing.self, Block.withNodes, present]
      · rename_i different
        simp [parsing.others index (Ne.symm different) isThere]
    · rw [List.getElem?_append_right (by simpa using isThere)]
      cases added : after.blocks[index]? with
      | none =>
          have beyond := Array.getElem?_eq_none_iff.mp added
          simp [added]
          omega
      | some block =>
          have within := lt_of_getElem? added
          have outline := (parsing.added ⟨index⟩ block (by simpa using isThere) added).1
          have never : block.timesParsed = 0 := by
            rw [← outline]
            rfl
          simp [added, never, List.getElem?_replicate]
          omega
  have self : (before.blocks.toList.map Block.timesParsed)[id.index]? =
      some (before.block id).timesParsed := by
    simp [getElem?_of_lt present]
  rw [parsedBlocks_eq_sum, parsedBlocks_eq_sum, counts, List.sum_append, sum_set_succ self]
  simp

/-- The number of parsed blocks grows by one for each block that is prepared. -/
theorem Prepares.parsedBlocks (prepares : Prepares embeddings prepared before after) :
    after.parsedBlocks = before.parsedBlocks + prepared.length := by
  induction prepares with
  | nothing quiet => exact quiet.parsedBlocks
  | @block id prepared before ready after quiet present sourcePresent unparsed atStart rest
      induction =>
      have parsing := @parsing_parseBlock _ _ embeddings _ present sourcePresent unparsed atStart
      rw [induction, parsing.parsedBlocks present, quiet.parsedBlocks, List.length_cons]
      omega

theorem Prepares.toExtends (prepares : Prepares embeddings prepared before after) :
    before.Extends after := by
  induction prepares with
  | nothing quiet => exact quiet.toExtends
  | @block id prepared before ready after quiet present sourcePresent unparsed atStart rest
      induction =>
      have parsing := @parsing_parseBlock _ _ embeddings _ present sourcePresent unparsed atStart
      exact quiet.toExtends.trans (parsing.toExtends.trans induction)

/-- A source is looked at only while blocks of it are prepared. -/
theorem Prepares.reads (prepares : Prepares embeddings prepared before after) {source : SourceRef}
    (isThere : source.index < before.sources.size)
    (others : ∀ id ∈ prepared, (after.block id).source ≠ source) :
    (after.source source).reads? = (before.source source).reads? := by
  induction prepares with
  | nothing quiet => exact quiet.reads source
  | @block id prepared before ready after quiet present sourcePresent unparsed atStart rest
      induction =>
      have parsing := @parsing_parseBlock _ _ embeddings _ present sourcePresent unparsed atStart
      have isReady := (quiet.toExtends.source source isThere).1
      have outline := (parsing.toExtends.trans rest.toExtends).outline_block present
      have own : (after.block id).source = (ready.block id).source :=
        Block.eq_of_outline Block.source (fun _ => rfl) outline
      have different := own ▸ others id List.mem_cons_self
      have later := induction (parsing.toExtends.source source isReady).1
        fun other member => others other (List.mem_cons_of_mem _ member)
      rw [later, parsing.reads source different.symm isReady, quiet.reads source]

end Session

/-- Runs a block that is parsed already, and stops at any other one. -/
def Run.replay (environment : Environment η) : Nat → BlockRef → Run η Unit
  | 0, _ => throw .outOfFuel
  | fuel + 1, id => do
      if ((← get).block id).nodes?.isSome then
        blockWith environment (replay environment fuel) fuel id
      else throw .outOfFuel

/-- A render executes no block but those that are parsed already. -/
def Template.Replays (template : Template η) (fuel : Nat) : Prop :=
  let session := { template.session with writes := #[] }
  (Run.block template.environment fuel template.root).run session =
    (Run.replay template.environment fuel template.root).run session

/-- A replay does what the run of all blocks does, unless it stops at a block that is not parsed. -/
theorem Run.Refines.replay (environment : Environment η) (fuel : Nat) (id : BlockRef) :
    (Run.replay environment fuel id).Refines (Run.block environment fuel id) := by
  induction fuel generalizing id with
  | zero => exact stop _
  | succ fuel induction =>
      unfold Run.replay
      intro session
      change (if (session.block id).nodes?.isSome then _ else _ : Run η Unit).run.run session = _ ∨
        ((if (session.block id).nodes?.isSome then _ else _ : Run η Unit).run.run session).1 = _
      split
      · exact blockWith induction (Nat.le_refl fuel) id session
      · exact .inr rfl

/-- A replay needs no block to be parsed. -/
theorem Run.runs_replay {policy : Policy η} {environment : Environment η}
    (lawful : policy.Lawful environment.host) (permits : policy.mayMark ∧ policy.mayDefine)
    (fuel : Nat) : policy.Runs environment.embeddings (Run.replay environment fuel) := by
  induction fuel with
  | zero => exact fun _ _ _ => .outOfFuel
  | succ fuel induction =>
      intro session id present
      unfold Run.replay
      refine .get_bind ?_
      split
      · rename_i isParsed
        exact .blockWith lawful induction permits.1 permits.2 present (.inr isParsed)
      · exact .outOfFuel

namespace Template

variable {template later : Template η} {source : AnySource} {options : Options} {host : Host η}
  {state : η}

/-- A render that executes parsed blocks only changes no block but for the marks of left loops, and
looks at no source. -/
theorem Replays.quiet
    (evolves : (ofSource source options host state).Evolves (fun _ _ => True) template) {fuel : Nat}
    (replays : template.Replays fuel) :
        template.session.Quiet (template.render fuel).2.session := by
  obtain ⟨environment, sound, present⟩ := evolves.free_sound fun _ => False
  have lawful := Policy.lawful_free (fun _ => False) True template.environment.host
  rw [← show template.environment.embeddings = options.embeddings by rw [environment]] at sound
  have begun : template.session.Step (Policy.free fun _ => False) template.environment.embeddings
    { template.session with writes := #[] } := .begin
  have runs := Run.runs_replay lawful ⟨trivial, trivial⟩ fuel
  obtain ⟨chain, -⟩ := runs { template.session with writes := #[] } template.root present
    (begun.sound lawful sound)
  obtain ⟨prepared, prepares, none⟩ :=
    ((Session.Chain.single begun).trans chain).prepares lawful sound
  have ended : (template.render fuel).2.session = ((Run.replay template.environment fuel
      template.root).run { template.session with writes := #[] }).2 := congrArg Prod.snd replays
  rw [ended]
  cases prepares with
  | nothing quiet => exact quiet
  | block => exact absurd (none _ List.mem_cons_self) id

/-- Over any renders and changes of the host, every block is parsed at most once and keeps the nodes
that it was parsed into, each of the blocks that are parsed is prepared for the first time, and
sources are looked at for these alone.  A render that executes parsed blocks only looks at no source
and parses nothing. -/
theorem parse_once
    (evolves : (ofSource source options host state).Evolves (fun _ _ => True) template)
    (continues : template.Evolves (fun _ _ => True) later) :
    (∀ id, (later.session.block id).timesParsed ≤ 1) ∧
      (∀ id nodes, (template.session.block id).nodes? = some nodes →
        (later.session.block id).nodes? = some nodes ∧
          (later.session.block id).timesParsed = (template.session.block id).timesParsed) ∧
      (∃ prepared : List BlockRef,
        template.session.Prepares options.embeddings prepared later.session ∧ prepared.Nodup ∧
        (∀ id, id ∈ prepared ↔ (template.session.block id).nodes? = none ∧
          (later.session.block id).nodes?.isSome = true) ∧
        (∀ source : SourceRef, source.index < template.session.sources.size →
          (∀ id ∈ prepared, (later.session.block id).source ≠ source) →
          (later.session.source source).reads? = (template.session.source source).reads?) ∧
        later.parsedBlocks = template.parsedBlocks + prepared.length) ∧
      ∀ fuel, later.Replays fuel →
        (∀ source, ((later.render fuel).2.session.source source).reads? =
          (later.session.source source).reads?) ∧
        (later.render fuel).2.parsedBlocks = later.parsedBlocks := by
  obtain ⟨environment, sound, present⟩ := evolves.free_sound fun _ => True
  have lawful := Policy.lawful_free (fun _ => True) True host
  have chain : template.session.Chain
      (Policy.free fun _ => True) options.embeddings later.session := by
    have chain := continues.freely.chain (Policy.lawful_free (fun _ => True) True _)
      Policy.permissive_free
      (by rw [environment]; exact sound) present
    rw [environment] at chain
    exact chain
  have soundLater := chain.sound lawful sound
  have ext := chain.toExtends sound.valid
  obtain ⟨prepared, prepares, -⟩ := chain.prepares lawful sound
  obtain ⟨nodup, cases⟩ := prepares.nodes?
  have keeps (id : BlockRef) (nodes : List Node)
      (parsed : (template.session.block id).nodes? = some nodes) :
      (later.session.block id).nodes? = some nodes := by
    by_cases member : id ∈ prepared
    · rw [((cases id).1 member).1] at parsed
      cases parsed
    · rw [(cases id).2 member, parsed]
  refine ⟨fun id => ?_, fun id nodes parsed => ⟨keeps id nodes parsed, ?_⟩,
    ⟨prepared, prepares, nodup, fun id => ⟨fun member => (cases id).1 member, fun first => ?_⟩,
      fun source isThere others => prepares.reads isThere others, prepares.parsedBlocks⟩,
    fun fuel replays => ?_⟩
  · rw [soundLater.valid.timesParsed]
    split <;> decide
  · rw [soundLater.valid.timesParsed, sound.valid.timesParsed, parsed, keeps id nodes parsed]
  · refine Decidable.byContradiction fun absent => ?_
    have same := (cases id).2 absent
    rw [first.1] at same
    rw [same] at first
    cases first.2
  · have quiet := replays.quiet (evolves.trans continues)
    exact ⟨quiet.reads, quiet.parsedBlocks⟩

/-- A template replays if the run that stops at blocks which are not parsed succeeds. -/
theorem replays_of_succeeds {fuel : Nat}
    (succeeds : (Run.replay template.environment fuel template.root).succeeds
      { template.session with writes := #[] } (fun _ _ => true) = true) :
    template.Replays fuel := by
  obtain ⟨_, after, ran, -⟩ := Run.ok_of_succeeds succeeds
  rcases Run.Refines.replay template.environment fuel template.root
    { template.session with writes := #[] } with same | stopped
  · exact same.symm
  · rw [ran] at stopped
    cases stopped

/-- A template with two branches in a loop, whose reads are counted. -/
def waiting : Template Unit :=
  let text := "@for(i = 0; i < 2; i++)@if(ready)a@else b@endif@endfor"
  ofSource (.counted { inner := .ofString text }) { defaultPlaceholders := false } Host.none ()

/-- The template when a render failed for want of a name and the host then put it into the global
scope. -/
def prompted : Template Unit :=
  let failed := (waiting.render 9).2
  let heap := failed.session.store.heap.put .global "ready" (.boolean true)
  failed.withStore { failed.session.store with heap }

theorem parse_once_prompted :
    (waiting.render 9).1.outcome.isOk = false ∧
      prompted.parsedBlocks = 2 ∧ (prompted.render 9).1.writes = #["a", "a"] ∧
      (prompted.render 9).2.parsedBlocks = 3 ∧
      (∀ id, ((prompted.render 9).2.session.block id).timesParsed ≤ 1) ∧
      ((prompted.render 9).2.render 9).1.writes = #["a", "a"] ∧
      (((prompted.render 9).2.render 9).2.session.source ⟨0⟩).reads? =
        ((prompted.render 9).2.session.source ⟨0⟩).reads? ∧
      ((prompted.render 9).2.render 9).2.parsedBlocks = 3 := by
  have evolves : waiting.Evolves (fun _ _ => True) prompted := .change (.render .refl 9) _ trivial
  have replays : (prompted.render 9).2.Replays 9 := replays_of_succeeds (by decide +kernel)
  have parsedThree : (prompted.render 9).2.parsedBlocks = 3 := by decide +kernel
  obtain ⟨once, -, -, replayed⟩ := parse_once evolves (.render .refl 9)
  obtain ⟨reads, parsed⟩ := replayed 9 replays
  exact ⟨by decide +kernel, by decide +kernel, by decide +kernel, parsedThree, once,
    by decide +kernel, reads ⟨0⟩, parsed.trans parsedThree⟩

end Template

end Stencil
