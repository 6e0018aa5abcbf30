import Stencil.Proofs.BlockShape
import Stencil.Proofs.Directive.Fence
import Stencil.Proofs.Directive.Growth

/-!
# What a block is parsed from

The body of a directive is parsed from the text in front of the keyword that closes it, unless a
recogniser reads on into that keyword.
-/

namespace Stencil

open Text Boundary

namespace Directive

variable {context : BlockContext} {parsed nodes : List Node}

/-- Rounds without an error go forward. -/
theorem Rounds.offset_le {draft after : Draft Cursor}
    (rounds : Rounds context draft parsed nodes after)
    (sound : ∀ error, .malformed error ∉ nodes) : draft.place.offset ≤ after.place.offset := by
  induction rounds with
  | ended _ => exact Nat.le_refl _
  | failed _ _ _ => exact absurd (List.mem_append_right _ (List.mem_singleton_self _)) (sound _)
  | advanced _ _ _ passes _ induction =>
      exact Nat.le_trans (Nat.le_of_lt passes.offset_lt) (induction sound)

/-- Rounds that end in front of a fence are the same in both texts. -/
theorem Rounds.up_to {fence : Fence} {likeness : Draft.Likeness} {here there after : Draft Cursor}
    (rounds : Rounds context here parsed nodes after) (limit : context.limit ≤ fence.place)
    (sound : ∀ error, .malformed error ∉ nodes) (ends : after.place.offset ≤ fence.place)
    (agree : fence.DraftsAgree likeness here there) :
    ∃ afterThere, Rounds context there parsed nodes afterThere ∧
      fence.DraftsAgree likeness after afterThere := by
  induction rounds generalizing there with
  | @ended draft parsed atEnd =>
      have offset : there.source.offset = draft.source.offset := agree.source.pointer_eq
      have more : draft.place.rest ≠ [] := agree.source.rest_ne_nil
      have atLimit := atEnd.resolve_right more
      exact ⟨there, .ended (.inl (offset ▸ atLimit)), agree⟩
  | failed _ _ _ => exact absurd (List.mem_append_right _ (List.mem_singleton_self _)) (sound _)
  | @advanced draft next after parsed nodes found inside more ran passes later induction =>
      have offset : there.source.offset = draft.source.offset := agree.source.pointer_eq
      have ahead : fence.Inside draft.source there.source :=
        ⟨agree.source, Nat.lt_of_lt_of_le inside limit⟩
      have ranRoomy : (node context : DirectiveParser (Roomy fence.rounds) Node).run.run draft =
        (.ok found, next) := (node_allowing context more).trans ran
      have met : fence.Meets likeness (node context) (node (context.upTo context.limit)) :=
        Fence.meets_node fun _ _ => Iff.rfl
      rcases met draft there found next ⟨agree, ahead.2⟩ ranRoomy trivial with
        beyond | ⟨nextThere, ranThere, agreeNext⟩
      · have further := later.offset_le sound
        exact absurd ends (Nat.not_le_of_lt (Nat.lt_of_lt_of_le beyond further))
      · have moreThere : there.place.rest ≠ [] := ahead.rest_ne_nil
        have ranThere : (node context).run.run there = (.ok found, nextThere) :=
          (node_allowing context moreThere).symm.trans ranThere
        have came := node_comes context moreThere
        rw [ranThere] at came
        obtain ⟨afterThere, rounds, agreeAfter⟩ := induction sound ends agreeNext
        exact ⟨afterThere, .advanced (offset ▸ inside) moreThere ranThere came.1 rounds, agreeAfter⟩

theorem Rounds.run_nodes {σ : Type} [Source σ] [Tracked σ] {draft after : Draft σ}
    (rounds : Rounds context draft [] nodes after) :
    (Directive.nodes context).run draft = (nodes, after) := by
  have enough : draft.place.remaining < Source.remaining draft.source + 1 :=
    Nat.lt_succ_of_le (Nat.le_of_eq (Tracked.remaining_eq draft.source).symm)
  exact @Rounds.run_nodesFrom σ _ _ (fun _ => 0) context draft after [] nodes rounds _ enough

theorem byteLength_gap_le {content : List Char} : byteLength (cutBreak content).2 ≤ 1 := by
  rcases List.eq_nil_or_concat content with rfl | ⟨content, last, rfl⟩
  · exact Nat.zero_le _
  · rw [List.concat_eq_append, cutBreak_concat]
    split
    · rename_i breaks
      exact Nat.le_of_eq (utf8Size_of_isBreak breaks)
    · exact Nat.zero_le _

/-- At most one break stands between a body and the keyword that closes it. -/
theorem BodyCut.Splits.closing_le {cut : BodyCut} (splits : cut.Splits) :
    cut.closing ≤ cut.limit + 1 := by
  have gap : cut.gap = (cutBreak (cut.body ++ cut.gap)).2 := congrArg Prod.snd splits
  rw [cut.closing_eq, gap]
  exact Nat.add_le_add_left byteLength_gap_le _

/-- The keywords that close bodies begin with the only mark in them. -/
theorem head?_of_mem_closers {role : BlockRole} {keyword : String}
    (listed : keyword ∈ role.closers) :
    ∃ characters, keyword.toList = '@' :: characters := by
  refine ⟨keyword.toList.tail, ?_⟩
  revert keyword
  cases role <;> decide

/-- The body of a directive is parsed from what stands in front of the keyword that closes it, if it
is parsed without an error and its source is left in front of that keyword.  That is its range and a
break at most.  Whatever stands in place of the keyword and the text behind it, unless a word could
go on there, the body is parsed into the same nodes, the same blocks and scopes are made, and the
source is left at the same place. -/
theorem nodes_of_range {σ : Type} [Source σ] [Tracked σ] {role : BlockRole}
    {opening keyword : String} {outer index : Nat} {range : BodyRange} {start found : Cursor}
    (scanned : (bodyRange outer opening role.closers).run.run start =
      pure (.ok (range, index), found))
    (named : role.closers[index]? = some keyword)
    (context : BlockContext) (limit : context.limit = range.start + range.length)
    {draft after : Draft σ} (begins : draft.place = start)
    (ran : (Directive.nodes context).run draft = (nodes, after))
    (sound : ∀ error, .malformed error ∉ nodes)
    (within : after.place.offset + byteLength keyword.toList ≤ found.offset) :
    ∃ content : List Char, start.rest = content ++ (keyword.toList ++ found.rest) ∧
      start.offset + byteLength content ≤ context.limit + 1 ∧
      ∀ rest : List Char, Closed rest → ∃ afterThere : Draft Cursor,
        (Directive.nodes context).run { draft.tracked with
          source := .between start.passed (content ++ rest) } = (nodes, afterThere) ∧
        afterThere.source.passed = after.place.passed ∧ afterThere.blocks = after.blocks ∧
        afterThere.sources = after.sources ∧ afterThere.heap = after.heap := by
  obtain ⟨cut, splits, before, text, isKeyword, -, rfl, rfl⟩ := bodyRange_ok scanned
  obtain rfl : keyword = cut.keyword := Option.some.inj (named.symm.trans isKeyword)
  obtain ⟨characters, marked⟩ := head?_of_mem_closers (List.mem_of_getElem? named)
  have isLimit : context.limit = cut.limit := limit.trans cut.limit_eq.symm
  have startEq : start.offset = cut.start := by
    rw [BodyCut.start, before, byteLength_reverse, start.offset_eq]
  have contentEq : start.offset + byteLength (cut.body ++ cut.gap) = cut.closing := by
    rw [startEq, cut.closing_eq, cut.limit_eq, byteLength_append, Nat.add_assoc]
  have split : start.rest = cut.body ++ cut.gap ++ (cut.keyword.toList ++ cut.after) := by
    rw [← text, List.append_assoc]
  have ends : after.place.offset ≤ cut.closing := by
    have closed := cut.closed_eq
    rw [BodyCut.offset_cursor] at within
    omega
  obtain ⟨same, isAfter⟩ := nodes_tracked context draft
  rw [ran] at same isAfter
  obtain ⟨parsed, last, rounds⟩ := exists_rounds context draft.tracked []
  rw [rounds.run_nodes] at same isAfter
  obtain rfl : nodes = parsed := same
  obtain rfl : after.tracked = last := isAfter
  refine ⟨cut.body ++ cut.gap, split, ?_, fun rest closed => ?_⟩
  · rw [contentEq, isLimit]
    exact splits.closing_le
  · let fence : Fence := ⟨cut.before ++ cut.body ++ cut.gap, characters ++ cut.after, rest, closed⟩
    let other : Draft Cursor :=
      { draft.tracked with source := .between start.passed (cut.body ++ cut.gap ++ rest) }
    have agree : fence.DraftsAgree .same draft.tracked other := by
      refine ⟨⟨start.passed, cut.body ++ cut.gap, ?_, ?_, rfl⟩, rfl, rfl, rfl⟩
      · rw [← before, ← List.append_assoc]
      · have isStart : draft.tracked.source = start := begins
        rw [marked, List.cons_append] at split
        rw [← split]
        exact isStart.trans (Cursor.eq_between start)
    have limitBefore : context.limit ≤ fence.place := by
      rw [isLimit]
      exact Nat.le_trans (Nat.le_add_right _ _) (Nat.le_of_eq cut.closing_eq.symm)
    obtain ⟨afterThere, roundsThere, ⟨passed, inside, -, isHere, isThere⟩, blocks, sources, heap⟩ :=
      rounds.up_to limitBefore sound ends agree
    refine ⟨afterThere, roundsThere.run_nodes, ?_, blocks, sources, heap⟩
    exact (congrArg Cursor.passed isThere).trans (congrArg Cursor.passed isHere).symm

/-- The body of a branch behind `@if(true)` when it is parsed. -/
def branchBefore (content : List Char) : Draft Cursor where
  source := .between "@if(true)".toList.reverse content
  blocks := #[]
  sources := #[]
  heap := .ofGlobal "Global"

/-- What is known of a branch that ends at an offset. -/
def branchUpTo (limit : Nat) : BlockContext := ⟨⟨0⟩, ⟨0⟩, limit, none, fun _ => none⟩

/-- A declaration in a branch is read in front of the keyword that closes it. -/
theorem nodes_of_range_declaration :
    ((Directive.nodes (branchUpTo 21)).run
      (branchBefore "@var x = \"a\" @endif".toList)).1.map Node.isMalformed = [false] ∧
    ((Directive.nodes (branchUpTo 21)).run (branchBefore "@var x = \"a\" ".toList)).1 =
      ((Directive.nodes (branchUpTo 21)).run (branchBefore "@var x = \"a\" @endif".toList)).1 := by
  have facts : ((Directive.nodes (branchUpTo 21)).run
        (branchBefore "@var x = \"a\" @endif".toList)).1.map Node.isMalformed = [false] ∧
      ((Directive.nodes (branchUpTo 21)).run
        (branchBefore "@var x = \"a\" @endif".toList)).2.source.offset = 22 := by decide +kernel
  have scanned : (bodyRange 28 "@if(" BlockRole.branch.closers).run.run
      (branchBefore "@var x = \"a\" @endif".toList).source =
        pure (.ok (⟨9, 12⟩, 2), .between "@if(true)@var x = \"a\" @endif".toList.reverse []) := by
    rfl
  refine ⟨facts.1, ?_⟩
  rcases ran : (Directive.nodes (branchUpTo 21)).run
    (branchBefore "@var x = \"a\" @endif".toList) with ⟨parsed, after⟩
  rw [ran] at facts
  have sound (error : TemplateError) : .malformed error ∉ parsed := by
    intro member
    have isError := List.mem_map_of_mem (f := Node.isMalformed) member
    rw [facts.1] at isError
    cases List.mem_singleton.mp isError
  have within : after.place.offset + byteLength "@endif".toList ≤ _ :=
    Nat.le_of_eq (congrArg (· + byteLength "@endif".toList) facts.2)
  obtain ⟨content, split, -, confined⟩ :=
    nodes_of_range scanned rfl (branchUpTo 21) rfl rfl ran sound within
  obtain ⟨afterThere, ranThere, -⟩ := confined [] (.inl rfl)
  have isContent : content = "@var x = \"a\" ".toList :=
    List.append_cancel_right (split.symm.trans rfl)
  rw [List.append_nil, isContent] at ranThere
  have same : (Directive.nodes (branchUpTo 21)).run (branchBefore "@var x = \"a\" ".toList) =
    (parsed, afterThere) := ranThere
  rw [same]

/-- A literal in a branch is read beyond its end: the keyword that closes the branch becomes a part
of it, and the source is left behind that keyword.  Without that keyword the literal is an error. -/
theorem nodes_beyond_range :
    ((bodyRange 27 "@if(" BlockRole.branch.closers).run.run
      (branchBefore "@var x = \"a@endif\"".toList).source).1 = .ok (⟨9, 11⟩, 2) ∧
    ((Directive.nodes (branchUpTo 20)).run
      (branchBefore "@var x = \"a@endif\"".toList)).1.map Node.isMalformed = [false] ∧
    ((Directive.nodes (branchUpTo 20)).run
      (branchBefore "@var x = \"a@endif\"".toList)).2.source.offset = 27 ∧
    ((Directive.nodes (branchUpTo 20)).run
      (branchBefore "@var x = \"a".toList)).1.map Node.isMalformed = [true] := by
  decide +kernel

end Directive

end Stencil
