import Stencil.Proofs.Heap.Parents
import Stencil.Proofs.Session.Begin

/-!
# Scopes of blocks

The bodies of directives have scopes of their own, each inside the scope of the block that the
directive stands in; an embedded text shares the scope of its block.  So the scopes around a block
are those of the blocks around it.
-/

namespace Stencil

open Text Directive

/-- Whether the blocks of a role have scopes of their own. -/
def BlockRole.ownsScope : BlockRole → Bool
  | .loopBody | .branch | .placeholder => true
  | .root | .embedded => false

theorem Directive.BodyCut.Closes.ownsScope {cut : BodyCut} {context : BlockContext}
    {anchor : Cursor} {role : BlockRole} {finish : Nat}
    (closes : cut.Closes context anchor role finish) : role.ownsScope = true := by
  have keyword := closes.keyword
  cases role with
  | loopBody => rfl
  | branch => rfl
  | placeholder => rfl
  | root => cases keyword
  | embedded => cases keyword

/-- A node runs a block of a role, or keeps it to be run later. -/
inductive Node.Refers : Node → BlockRole → BlockRef → Prop where
  | loop (header : LoopHeader) (body : BlockRef) : Refers (.loop header body) .loopBody body
  | branch (conditions : List (Condition × BlockRef)) (otherwise : Option BlockRef)
      (branch : Condition × BlockRef) (member : branch ∈ conditions) :
      Refers (.branches conditions otherwise) .branch branch.2
  | otherwise (conditions : List (Condition × BlockRef)) (body : BlockRef) :
      Refers (.branches conditions (some body)) .branch body
  | definePlaceholder (key : Placeholder.Key) (parameter : Option String) (body : BlockRef) :
      Refers (.definePlaceholder key parameter body) .placeholder body
  | embed (block : BlockRef) : Refers (.embed block) .embedded block

theorem Node.Origin.made {text : List Char} {enclosingLoop : Option BlockRef}
    {made : BlockRole → BlockRef → Prop} {node : Node} {role : BlockRole} {id : BlockRef}
    (origin : node.Origin text enclosingLoop made) (refers : node.Refers role id) :
    made role id := by
  cases refers with
  | loop header body => cases origin with | loop _ _ _ isMade => exact isMade
  | branch conditions otherwise branch member =>
      cases origin with | branches _ _ _ areMade _ => exact areMade branch member
  | otherwise conditions body => cases origin with | branches _ _ _ _ lastMade =>
      exact lastMade _ rfl
  | definePlaceholder key parameter body =>
      cases origin with | definePlaceholder _ _ _ _ isMade => exact isMade
  | embed block => cases origin with | embed _ _ isMade => exact isMade

namespace Draft

variable {context : BlockContext} {anchor : Cursor} {before after : Draft Cursor}

/-- A block of a draft has a scope of its own, later than some scopes and inside the one of the
block that is parsed, or shares that one. -/
def Places (context : BlockContext) (earlier : Nat) (draft : Draft Cursor) (block : Block) : Prop :=
  if block.role.ownsScope then
    earlier ≤ block.scope.index ∧ block.scope.index < draft.heap.scopes.size ∧
      (draft.heap.scope block.scope).parent = some context.scope
  else block.scope = context.scope

theorem Places.mono {earlier : Nat} {block : Block} (places : Places context earlier before block)
    (keeps : before.heap.KeepsParents after.heap) : Places context earlier after block := by
  unfold Places at places ⊢
  split at places
  · obtain ⟨later, present, parent⟩ := places
    obtain ⟨presentLater, same⟩ := keeps block.scope present
    rw [if_pos ‹_›]
    exact ⟨later, presentLater, same.trans parent⟩
  · rw [if_neg ‹_›]
    exact places

theorem Step.keepsParents (step : Step context anchor before after) :
    before.heap.KeepsParents after.heap := by
  cases step with
  | move source within => exact .refl _
  | body name role cut finish closes => exact .newScope _ _ _
  | embed path text found => exact .refl _

namespace Grows

theorem keepsParents (grows : Grows context anchor before after) :
    before.heap.KeepsParents after.heap := by
  induction grows with
  | refl => exact .refl _
  | tail _ step induction => exact induction.trans step.keepsParents

theorem scope_kept (grows : Grows context anchor before after) {id : ScopeRef}
    (present : id.index < before.heap.scopes.size) :
    after.heap.scope id = before.heap.scope id := by
  induction grows with
  | refl => rfl
  | @tail middle after earlier step induction =>
      have grown : Grows context anchor before middle := earlier
      cases step with
      | move source within => exact induction
      | body name role cut finish closes =>
          have between := (grown.keepsParents id present).1
          exact (Heap.scope_newScope_of_lt name (some context.scope) between).trans induction
      | embed path text found => exact induction

theorem size_scopes_le (grows : Grows context anchor before after) :
    before.heap.scopes.size ≤ after.heap.scopes.size := by
  refine Nat.le_of_not_lt fun fewer => ?_
  exact Nat.lt_irrefl _ (grows.keepsParents ⟨after.heap.scopes.size⟩ fewer).1

theorem places (grows : Grows context anchor before after) {index : Nat} {block : Block}
    (isNew : before.blocks.size ≤ index) (present : after.blocks[index]? = some block) :
    Places context before.heap.scopes.size after block := by
  induction grows with
  | refl =>
      have within := (Array.getElem?_eq_some_iff.mp present).1
      omega
  | @tail middle after earlier step induction =>
      have mono := fun there => (induction there).mono step.keepsParents
      cases step with
      | move source within => exact mono present
      | body name role cut finish closes =>
          rcases eq_or_of_getElem?_push present with there | ⟨-, rfl⟩
          · exact mono there
          · have older : before.heap.scopes.size ≤ middle.heap.scopes.size :=
              size_scopes_le earlier
            have parent := middle.heap.scope_newScope_self name (some context.scope)
            rw [Places, BodyCut.block, if_pos closes.ownsScope]
            refine ⟨older, ?_, congrArg Scope.parent parent⟩
            exact Nat.lt_of_lt_of_eq (Nat.lt_succ_self _) (Array.size_push _).symm
      | embed path text found =>
          rcases eq_or_of_getElem?_push present with there | ⟨-, rfl⟩
          · exact mono there
          · rfl

/-- Of two new blocks the later one has the later scope. -/
theorem scope_lt (grows : Grows context anchor before after) {index other : Nat}
    {block later : Block} (isNew : before.blocks.size ≤ index) (order : index < other)
    (present : after.blocks[index]? = some block) (owns : block.role.ownsScope = true)
    (presentLater : after.blocks[other]? = some later) (ownsLater : later.role.ownsScope = true) :
    block.scope.index < later.scope.index := by
  induction grows with
  | refl =>
      have within := (Array.getElem?_eq_some_iff.mp present).1
      omega
  | @tail middle after earlier step induction =>
      have grown : Grows context anchor before middle := earlier
      cases step with
      | move source within => exact induction present presentLater
      | body name role cut finish closes =>
          rcases eq_or_of_getElem?_push presentLater with there | ⟨isLast, rfl⟩
          · rcases eq_or_of_getElem?_push present with isThere | ⟨isLast, -⟩
            · exact induction isThere there
            · have within := (Array.getElem?_eq_some_iff.mp there).1
              omega
          · rcases eq_or_of_getElem?_push present with isThere | ⟨isLast', -⟩
            · have places := grown.places isNew isThere
              rw [Places, if_pos owns] at places
              exact places.2.1
            · omega
      | embed path text found =>
          rcases eq_or_of_getElem?_push presentLater with there | ⟨isLast, rfl⟩
          · rcases eq_or_of_getElem?_push present with isThere | ⟨isLast, -⟩
            · exact induction isThere there
            · have within := (Array.getElem?_eq_some_iff.mp there).1
              omega
          · cases ownsLater

end Grows

end Draft

namespace Session

variable {η : Type}

/-- A block lies in another one: it is that block, or a node of a block in it refers to it. -/
inductive Within (session : Session η) (outer : BlockRef) : BlockRef → Prop where
  | self : Within session outer outer
  | inner (parent : BlockRef) (nodes : List Node) (node : Node) (role : BlockRole) (id : BlockRef)
      (within : Within session outer parent)
      (parsed : (session.block parent).nodes? = some nodes) (member : node ∈ nodes)
      (refers : node.Refers role id) : Within session outer id

/-- A block that no other one is around: the root, or a body next to the global scope. -/
def IsTop (session : Session η) (id : BlockRef) : Prop :=
  id.index < session.blocks.size ∧
    ((session.block id).role = .root ∧ (session.block id).scope = .global ∨
      (session.block id).role = .placeholder ∧
        (session.store.heap.scope (session.block id).scope).parent = some .global)

/-- A block that runs may come to: one that lies in an outermost block. -/
def Live (session : Session η) (id : BlockRef) : Prop :=
  ∃ top, session.IsTop top ∧ session.Within top id

/-- The scope of a block of a role in its parent. -/
structure Placed (session : Session η) (parent : BlockRef) (role : BlockRole) (id : BlockRef) :
    Prop where
  present : id.index < session.blocks.size
  isRole : (session.block id).role = role
  scope : if role.ownsScope then
      (session.store.heap.scope (session.block id).scope).parent =
        some (session.block parent).scope
    else (session.block id).scope = (session.block parent).scope
  later : role.ownsScope = true → (session.block parent).scope.index <
    (session.block id).scope.index

/-- A valid session whose scopes are nested as its blocks are. -/
structure Nested (session : Session η) (embeddings : Embeddings) : Prop where
  valid : session.Valid embeddings
  global : ScopeRef.global.index < session.store.heap.scopes.size ∧
    (session.store.heap.scope .global).parent = none
  inRange : ∀ id : BlockRef, id.index < session.blocks.size →
    (session.block id).scope.index < session.store.heap.scopes.size
  own : ∀ id : BlockRef, id.index < session.blocks.size →
    (session.block id).role.ownsScope = true → (session.block id).scope ≠ .global
  apart : ∀ id other : BlockRef, id.index < session.blocks.size →
    other.index < session.blocks.size → (session.block id).role.ownsScope = true →
    (session.block other).role.ownsScope = true →
    (session.block id).scope = (session.block other).scope → id = other
  placed : ∀ (id : BlockRef) (nodes : List Node), (session.block id).nodes? = some nodes →
    ∀ node ∈ nodes, ∀ role child, node.Refers role child → session.Placed id role child
  placeholders : ∀ key placeholder, session.placeholders.get? key = some placeholder →
    session.Live placeholder.body

variable {session before after : Session η} {embeddings : Embeddings} {id outer : BlockRef}

theorem lt_of_nodes? {nodes : List Node} (parsed : (session.block id).nodes? = some nodes) :
    id.index < session.blocks.size := by
  refine Nat.lt_of_not_le fun absent => ?_
  rw [block_of_le absent] at parsed
  cases parsed

theorem Valid.child_of_refers (valid : session.Valid embeddings) {parent : BlockRef}
    {nodes : List Node} {node : Node} {role : BlockRole}
    (parsed : (session.block parent).nodes? = some nodes) (member : node ∈ nodes)
    (refers : node.Refers role id) : session.Child embeddings parent role id := by
  have isThere := getElem?_of_lt (lt_of_nodes? parsed)
  obtain ⟨-, origins⟩ := valid.parsed parent _ nodes isThere parsed
  exact (origins node member).made refers

theorem Within.lt (nested : session.Nested embeddings) (within : session.Within outer id)
    (present : outer.index < session.blocks.size) : id.index < session.blocks.size := by
  cases within with
  | self => exact present
  | inner parent nodes node role _ _ parsed member refers =>
      exact (nested.placed parent nodes parsed node member role id refers).present

theorem Within.trans {inner : BlockRef} (first : session.Within outer id)
    (second : session.Within id inner) : session.Within outer inner := by
  induction second with
  | self => exact first
  | inner parent nodes node role child _ parsed member refers induction =>
      exact .inner parent nodes node role child induction parsed member refers

theorem Live.lt (nested : session.Nested embeddings) (live : session.Live id) :
    id.index < session.blocks.size := by
  obtain ⟨top, isTop, within⟩ := live
  exact within.lt nested isTop.1

theorem Live.inner {nodes : List Node} {node : Node} {role : BlockRole} {child : BlockRef}
    (live : session.Live id) (parsed : (session.block id).nodes? = some nodes)
    (member : node ∈ nodes) (refers : node.Refers role child) : session.Live child := by
  obtain ⟨top, isTop, within⟩ := live
  exact ⟨top, isTop, .inner id nodes node role child within parsed member refers⟩

/-- A scope is around a block: the global one, or the own one of a block that it lies in. -/
def Around (session : Session η) (id : BlockRef) (scope : ScopeRef) : Prop :=
  scope = .global ∨ ∃ outer : BlockRef, outer.index < session.blocks.size ∧
    (session.block outer).role.ownsScope = true ∧ (session.block outer).scope = scope ∧
    session.Within outer id

theorem Nested.around (nested : session.Nested embeddings) (live : session.Live id)
    {scope : ScopeRef} (around : scope ∈ session.store.heap.chain (session.block id).scope) :
    session.Around id scope := by
  obtain ⟨top, ⟨presentTop, isTop⟩, within⟩ := live
  unfold Heap.chain at around
  generalize session.store.heap.scopes.size = fuel at around
  have isGlobal (fuel : Nat) (member : scope ∈ session.store.heap.chainFrom fuel (some .global)) :
      scope = .global := by
    cases fuel with
    | zero => cases member
    | succ fuel =>
        rw [Heap.chainFrom, nested.global.2] at member
        rcases List.mem_cons.mp member with same | later
        · exact same
        · cases fuel <;> cases later
  induction within generalizing fuel with
  | self =>
      rcases isTop with ⟨-, isScope⟩ | ⟨role, parent⟩
      · rw [isScope] at around
        exact .inl (isGlobal fuel around)
      · cases fuel with
        | zero => cases around
        | succ fuel =>
            rw [Heap.chainFrom, parent] at around
            rcases List.mem_cons.mp around with same | later
            · have owns : (session.block top).role.ownsScope = true := by rw [role]; rfl
              exact .inr ⟨top, presentTop, owns, same.symm, .self⟩
            · exact .inl (isGlobal fuel later)
  | inner parent nodes node role child within parsed member refers induction =>
      obtain ⟨presentChild, isRole, place, -⟩ :=
        nested.placed parent nodes parsed node member role child refers
      have outside (fuel : Nat)
          (around : scope ∈ session.store.heap.chainFrom fuel (some (session.block parent).scope)) :
          session.Around child scope := by
        rcases induction fuel around with isGlobal | ⟨outer, present, owns, isScope, inside⟩
        · exact .inl isGlobal
        · exact .inr ⟨outer, present, owns, isScope,
            .inner parent nodes node role child inside parsed member refers⟩
      split at place
      · rename_i ownsChild
        cases fuel with
        | zero => cases around
        | succ fuel =>
            rw [Heap.chainFrom, place] at around
            rcases List.mem_cons.mp around with same | later
            · rw [← isRole] at ownsChild
              exact .inr ⟨child, presentChild, ownsChild, same.symm, .self⟩
            · exact outside fuel later
      · rw [place] at around
        exact outside fuel around

/-- If the own scope of a block is around another block, then that one lies in the block. -/
theorem Nested.within_of_mem_chain (nested : session.Nested embeddings)
    (present : outer.index < session.blocks.size)
    (owns : (session.block outer).role.ownsScope = true) (live : session.Live id)
    (around : (session.block outer).scope ∈ session.store.heap.chain (session.block id).scope) :
    session.Within outer id := by
  rcases nested.around live around with isGlobal | ⟨other, presentOther, ownsOther, same, within⟩
  · exact absurd isGlobal (nested.own outer present owns)
  · rw [nested.apart outer other present presentOther owns ownsOther same.symm]
    exact within

theorem Extends.nodes? (ext : before.Extends after) {nodes : List Node}
    (parsed : (before.block id).nodes? = some nodes) : (after.block id).nodes? = some nodes := by
  obtain ⟨later, isLater, -, kept⟩ := ext.block id.index _ (getElem?_of_lt (lt_of_nodes? parsed))
  rw [block_eq_of_getElem? isLater]
  exact kept nodes parsed

theorem Extends.role (ext : before.Extends after) (present : id.index < before.blocks.size) :
    (after.block id).role = (before.block id).role :=
  Block.eq_of_outline Block.role (fun _ => rfl) (ext.outline_block present)

theorem Extends.scope (ext : before.Extends after) (present : id.index < before.blocks.size) :
    (after.block id).scope = (before.block id).scope :=
  Block.eq_of_outline Block.scope (fun _ => rfl) (ext.outline_block present)

theorem Within.mono (within : before.Within outer id) (ext : before.Extends after) :
    after.Within outer id := by
  induction within with
  | self => exact .self
  | inner parent nodes node role child _ parsed member refers induction =>
      exact .inner parent nodes node role child induction (ext.nodes? parsed) member refers

theorem Around.mono {scope : ScopeRef} (around : before.Around id scope)
    (ext : before.Extends after) : after.Around id scope := by
  rcases around with isGlobal | ⟨outer, present, owns, isScope, within⟩
  · exact .inl isGlobal
  · exact .inr ⟨outer, ext.lt present, (ext.role present).symm ▸ owns,
      (ext.scope present).trans isScope, within.mono ext⟩

theorem Around.inRange {scope : ScopeRef} (around : session.Around id scope)
    (nested : session.Nested embeddings) : scope.index < session.store.heap.scopes.size := by
  rcases around with rfl | ⟨outer, present, -, rfl, -⟩
  · exact nested.global.1
  · exact nested.inRange outer present

theorem IsTop.mono (isTop : before.IsTop id) (ext : before.Extends after)
    (keeps : before.store.KeepsParents after.store)
    (inRange : (before.block id).scope.index < before.store.heap.scopes.size) :
    after.IsTop id := by
  obtain ⟨present, cases⟩ := isTop
  rw [IsTop, ext.role present, ext.scope present, (keeps _ inRange).2]
  exact ⟨ext.lt present, cases⟩

theorem Live.mono (nested : before.Nested embeddings) (live : before.Live id)
    (ext : before.Extends after) (keeps : before.store.KeepsParents after.store) :
    after.Live id := by
  obtain ⟨top, isTop, within⟩ := live
  exact ⟨top, isTop.mono ext keeps (nested.inRange top isTop.1), within.mono ext⟩

theorem Placed.mono {parent : BlockRef} {role : BlockRole}
    (nested : before.Nested embeddings) (placed : before.Placed parent role id)
    (presentParent : parent.index < before.blocks.size) (ext : before.Extends after)
    (keeps : before.store.KeepsParents after.store) : after.Placed parent role id := by
  have present := placed.present
  refine ⟨ext.lt present, (ext.role present).trans placed.isRole, ?_, ?_⟩
  · rw [ext.scope present, ext.scope presentParent, (keeps _ (nested.inRange id present)).2]
    exact placed.scope
  · rw [ext.scope present, ext.scope presentParent]
    exact placed.later

/-- A change that parses nothing and keeps the parents of scopes keeps scopes nested. -/
theorem Nested.of_quiet (nested : before.Nested embeddings) (quiet : before.Quiet after)
    (keeps : before.store.KeepsParents after.store)
    (placeholders : ∀ key placeholder, after.placeholders.get? key = some placeholder →
      before.Live placeholder.body ∧ before.HasRole .placeholder placeholder.body) :
    after.Nested embeddings := by
  have ext := quiet.toExtends
  have earlier {id : BlockRef} (present : id.index < after.blocks.size) :
      id.index < before.blocks.size := quiet.size_blocks ▸ present
  refine ⟨?_, ?_, ?_, ?_, ?_, ?_, ?_⟩
  · exact quiet.valid nested.valid fun key placeholder found =>
      (placeholders key placeholder found).2
  · obtain ⟨present, same⟩ := keeps .global nested.global.1
    exact ⟨present, same.trans nested.global.2⟩
  · intro id present
    rw [ext.scope (earlier present)]
    exact (keeps _ (nested.inRange id (earlier present))).1
  · intro id present
    rw [ext.role (earlier present), ext.scope (earlier present)]
    exact nested.own id (earlier present)
  · intro id other present presentOther
    rw [ext.role (earlier present), ext.role (earlier presentOther), ext.scope (earlier present),
      ext.scope (earlier presentOther)]
    exact nested.apart id other (earlier present) (earlier presentOther)
  · intro id nodes parsed node member role child refers
    have parsedBefore : (before.block id).nodes? = some nodes :=
      (Block.eq_of_unmarked Block.nodes? (fun _ => rfl) (quiet.block id)).symm.trans parsed
    have placed := nested.placed id nodes parsedBefore node member role child refers
    exact placed.mono nested (lt_of_nodes? parsedBefore) ext keeps
  · exact fun key placeholder found => (placeholders key placeholder found).1.mono nested ext keeps

/-- What parsing a block makes of scopes: those of new blocks are new, one for each body. -/
structure Furnishes (before : Session η) (id : BlockRef) (nodes : List Node) (after : Session η) :
    Prop where
  keeps : before.store.KeepsParents after.store
  scope : ∀ id : ScopeRef, id.index < before.store.heap.scopes.size →
    after.store.heap.scope id = before.store.heap.scope id
  places : ∀ child : BlockRef, before.blocks.size ≤ child.index →
    child.index < after.blocks.size → if (after.block child).role.ownsScope then
        before.store.heap.scopes.size ≤ (after.block child).scope.index ∧
          (after.block child).scope.index < after.store.heap.scopes.size ∧
          (after.store.heap.scope (after.block child).scope).parent = some (before.block id).scope
      else (after.block child).scope = (before.block id).scope
  apart : ∀ child other : BlockRef, before.blocks.size ≤ child.index → child.index < other.index →
    other.index < after.blocks.size → (after.block child).role.ownsScope = true →
    (after.block other).role.ownsScope = true →
    (after.block child).scope.index < (after.block other).scope.index
  refers : ∀ node ∈ nodes, ∀ role child, node.Refers role child →
    before.blocks.size ≤ child.index ∧ child.index < after.blocks.size ∧
      (after.block child).role = role

theorem furnishes_parseBlock (present : id.index < session.blocks.size) :
    session.Furnishes id (session.parseBlock embeddings id).1
      (session.parseBlock embeddings id).2 := by
  obtain ⟨nodes, drafted, source, ran, -, eq⟩ := session.parseBlock_eq embeddings id
  obtain ⟨grows, origins⟩ := Directive.nodes_make ran
  rw [eq]
  have added {child : BlockRef} (isNew : session.blocks.size ≤ child.index) :
      (session.adopt id drafted source nodes).blocks[child.index]? =
          drafted.blocks[child.index]? := by
    rw [blocks_adopt, if_neg (by omega)]
  have isThere {child : BlockRef}
      (within : child.index < (session.adopt id drafted source nodes).blocks.size)
      (isNew : session.blocks.size ≤ child.index) :
      drafted.blocks[child.index]? =
        some ((session.adopt id drafted source nodes).block child) :=
    (added isNew).symm.trans (getElem?_of_lt within)
  refine ⟨grows.keepsParents, fun _ present => grows.scope_kept present, ?_, ?_, ?_⟩
  · exact fun child isNew within => grows.places isNew (isThere within isNew)
  · intro child other isNew order within owns ownsOther
    have newer := Nat.le_trans isNew (Nat.le_of_lt order)
    exact grows.scope_lt isNew order (isThere (Nat.lt_trans order within) isNew) owns
      (isThere within newer) ownsOther
  · intro node member role child refers
    obtain ⟨isNew, block, made, isRole⟩ := (origins node member).made refers
    have same := (added isNew).trans made
    exact ⟨isNew, lt_of_getElem? same,
      (congrArg Block.role (block_eq_of_getElem? same)).trans isRole⟩

theorem entries_parseBlock {scope : ScopeRef}
    (present : id.index < session.blocks.size)
    (inRange : scope.index < session.store.heap.scopes.size) :
    (session.parseBlock embeddings id).2.store.heap.entries scope =
      session.store.heap.entries scope := by
  have furnishes := @furnishes_parseBlock _ _ embeddings _ present
  rw [Heap.entries, Heap.entries, furnishes.scope scope inRange]

theorem Nested.parseBlock (nested : session.Nested embeddings)
    (present : id.index < session.blocks.size) (unparsed : (session.block id).nodes? = none)
    (atStart : Source.pointer (session.source (session.block id).source) =
      (session.block id).start) :
    (session.parseBlock embeddings id).2.Nested embeddings := by
  have sourcePresent := nested.valid.source_lt (getElem?_of_lt present)
  have parsing := @parsing_parseBlock _ _ embeddings _ present sourcePresent unparsed atStart
  obtain ⟨keeps, -, places, apart, refers⟩ := @furnishes_parseBlock _ _ embeddings _ present
  have ext := parsing.toExtends
  have inOwn := nested.inRange id present
  have fresh {child : BlockRef} (isNew : session.blocks.size ≤ child.index)
      (within : child.index < (session.parseBlock embeddings id).2.blocks.size)
      (owns : ((session.parseBlock embeddings id).2.block child).role.ownsScope = true) :
      session.store.heap.scopes.size ≤
        ((session.parseBlock embeddings id).2.block child).scope.index := by
    have place := places child isNew within
    rw [if_pos owns] at place
    exact place.1
  refine ⟨parsing.valid present unparsed nested.valid, ?_, ?_, ?_, ?_, ?_, ?_⟩
  · obtain ⟨presentGlobal, same⟩ := keeps .global nested.global.1
    exact ⟨presentGlobal, same.trans nested.global.2⟩
  · intro child within
    by_cases isNew : session.blocks.size ≤ child.index
    · have place := places child isNew within
      split at place
      · exact place.2.1
      · rw [place]
        exact (keeps _ inOwn).1
    · rw [ext.scope (by omega)]
      exact (keeps _ (nested.inRange child (by omega))).1
  · intro child within owns isGlobal
    by_cases isNew : session.blocks.size ≤ child.index
    · have newer := fresh isNew within owns
      rw [isGlobal] at newer
      exact absurd nested.global.1 (Nat.not_lt.mpr newer)
    · rw [ext.role (by omega)] at owns
      rw [ext.scope (by omega)] at isGlobal
      exact nested.own child (by omega) owns isGlobal
  · have cross {old new : BlockRef} (isOld : old.index < session.blocks.size)
        (isNew : session.blocks.size ≤ new.index)
        (within : new.index < (session.parseBlock embeddings id).2.blocks.size)
        (owns : ((session.parseBlock embeddings id).2.block new).role.ownsScope = true)
        (same : ((session.parseBlock embeddings id).2.block old).scope =
          ((session.parseBlock embeddings id).2.block new).scope) : False := by
      have newer := fresh isNew within owns
      rw [← same, ext.scope isOld] at newer
      exact absurd (nested.inRange old isOld) (Nat.not_lt.mpr newer)
    intro child other within withinOther owns ownsOther same
    by_cases isNew : session.blocks.size ≤ child.index
    · by_cases isNewOther : session.blocks.size ≤ other.index
      · rcases Nat.lt_trichotomy child.index other.index with before | equal | after
        · have order := apart child other isNew before withinOther owns ownsOther
          rw [same] at order
          exact absurd order (Nat.lt_irrefl _)
        · exact congrArg BlockRef.mk equal
        · have order := apart other child isNewOther after within ownsOther owns
          rw [same] at order
          exact absurd order (Nat.lt_irrefl _)
      · exact (cross (Nat.lt_of_not_le isNewOther) isNew within owns same.symm).elim
    · have isOld := Nat.lt_of_not_le isNew
      by_cases isNewOther : session.blocks.size ≤ other.index
      · exact (cross isOld isNewOther withinOther ownsOther same).elim
      · have isOldOther := Nat.lt_of_not_le isNewOther
        rw [ext.role isOld] at owns
        rw [ext.role isOldOther] at ownsOther
        rw [ext.scope isOld, ext.scope isOldOther] at same
        exact nested.apart child other isOld isOldOther owns ownsOther same
  · intro parent nodes parsed node member role child refersTo
    by_cases isSelf : parent = id
    · subst isSelf
      rw [parsing.block_self] at parsed
      obtain rfl : (session.parseBlock embeddings parent).1 = nodes := Option.some.inj parsed
      obtain ⟨isNew, within, isRole⟩ := refers node member role child refersTo
      have place := places child isNew within
      rw [← isRole]
      refine ⟨within, rfl, ?_, fun owns => ?_⟩
      · rw [ext.scope present]
        by_cases owns : ((session.parseBlock embeddings parent).2.block child).role.ownsScope = true
        · rw [if_pos owns] at place ⊢
          exact place.2.2
        · rw [if_neg owns] at place ⊢
          exact place
      · rw [ext.scope present]
        exact Nat.lt_of_lt_of_le inOwn (fresh isNew within owns)
    · by_cases isOld : parent.index < session.blocks.size
      · rw [parsing.block_of_ne isSelf isOld] at parsed
        have placed := nested.placed parent nodes parsed node member role child refersTo
        exact placed.mono nested isOld ext keeps
      · rw [← parsing.outline_of_le (Nat.le_of_not_lt isOld)] at parsed
        cases parsed
  · intro key placeholder found
    rw [parsing.placeholders] at found
    exact (nested.placeholders key placeholder found).mono nested ext keeps

theorem block_addText_of_lt {source : AnySource} {scope : ScopeRef} {role : BlockRole}
    (present : id.index < session.blocks.size) :
    (session.addText source scope role).2.block id = session.block id :=
  block_eq_of_getElem? (getElem?_push_of_some _ (getElem?_of_lt present))

theorem block_addText_last (source : AnySource) (scope : ScopeRef) (role : BlockRole) :
    (session.addText source scope role).2.block ⟨session.blocks.size⟩ =
      .ofSource source ⟨session.sources.size⟩ scope role :=
  block_eq_of_getElem? block_addText

theorem Nested.addText (nested : session.Nested embeddings) {source : AnySource}
    {scope : ScopeRef} {role : BlockRole}
    (inRange : scope.index < session.store.heap.scopes.size)
    (isWhole : role = .root ∨ role = .placeholder ∧
      ∃ kind, source.cursor.text = (defaultBody kind).toList)
    (isOwn : role.ownsScope = true → scope ≠ .global ∧
      ∀ id : BlockRef, id.index < session.blocks.size → (session.block id).scope ≠ scope) :
    (session.addText source scope role).2.Nested embeddings := by
  have ext := session.extends_addText source scope role
  have keeps : session.store.KeepsParents (session.addText source scope role).2.store := .refl _
  have isAdded {id : BlockRef} (isNew : ¬id.index < session.blocks.size)
      (within : id.index < (session.addText source scope role).2.blocks.size) :
      id.index = session.blocks.size ∧
        ((session.addText source scope role).2.block id).role = role ∧
        ((session.addText source scope role).2.block id).scope = scope := by
    have size : (session.addText source scope role).2.blocks.size = session.blocks.size + 1 :=
      Array.size_push _
    have last : id.index = session.blocks.size := by omega
    obtain rfl : id = ⟨session.blocks.size⟩ := congrArg BlockRef.mk last
    rw [block_addText_last]
    exact ⟨rfl, rfl, rfl⟩
  refine ⟨nested.valid.addText isWhole, nested.global, ?_, ?_, ?_, ?_, ?_⟩
  · intro id within
    by_cases isOld : id.index < session.blocks.size
    · rw [ext.scope isOld]
      exact nested.inRange id isOld
    · rw [(isAdded isOld within).2.2]
      exact inRange
  · intro id within owns
    by_cases isOld : id.index < session.blocks.size
    · rw [ext.role isOld] at owns
      rw [ext.scope isOld]
      exact nested.own id isOld owns
    · obtain ⟨-, isRole, isScope⟩ := isAdded isOld within
      rw [isRole] at owns
      rw [isScope]
      exact (isOwn owns).1
  · intro id other within withinOther owns ownsOther same
    by_cases isOld : id.index < session.blocks.size
    · by_cases isOldOther : other.index < session.blocks.size
      · rw [ext.role isOld] at owns
        rw [ext.role isOldOther] at ownsOther
        rw [ext.scope isOld, ext.scope isOldOther] at same
        exact nested.apart id other isOld isOldOther owns ownsOther same
      · obtain ⟨-, isRole, isScope⟩ := isAdded isOldOther withinOther
        rw [isRole] at ownsOther
        rw [ext.scope isOld, isScope] at same
        exact absurd same ((isOwn ownsOther).2 id isOld)
    · obtain ⟨last, isRole, isScope⟩ := isAdded isOld within
      by_cases isOldOther : other.index < session.blocks.size
      · rw [isRole] at owns
        rw [ext.scope isOldOther, isScope] at same
        exact absurd same.symm ((isOwn owns).2 other isOldOther)
      · exact congrArg BlockRef.mk (last.trans (isAdded isOldOther withinOther).1.symm)
  · intro id nodes parsed node member role' child refers
    by_cases isOld : id.index < session.blocks.size
    · rw [block_addText_of_lt isOld] at parsed
      exact (nested.placed id nodes parsed node member role' child refers).mono nested
        isOld ext keeps
    · obtain rfl : id = ⟨session.blocks.size⟩ :=
        congrArg BlockRef.mk (isAdded isOld (lt_of_nodes? parsed)).1
      rw [block_addText_last] at parsed
      cases parsed
  · exact fun key placeholder found =>
      (nested.placeholders key placeholder found).mono nested ext keeps

theorem nested_ofGlobal (name : String) (state : η) :
    (ofGlobal name state).Nested embeddings := by
  refine ⟨valid_ofGlobal name state, ⟨Nat.one_pos, rfl⟩, ?_, ?_, ?_, ?_, ?_⟩
  · exact fun _ within => absurd within (Nat.not_lt_zero _)
  · exact fun _ within => absurd within (Nat.not_lt_zero _)
  · exact fun _ _ within => absurd within (Nat.not_lt_zero _)
  · intro id nodes parsed
    exact absurd (lt_of_nodes? parsed) (Nat.not_lt_zero _)
  · intro key placeholder found
    cases found

/-- The scope of the body that is added last is inside the global one. -/
theorem isTop_addDefaultPlaceholder (session : Session η) (kind : Kind) :
    (session.addDefaultPlaceholder kind).IsTop ⟨session.blocks.size⟩ := by
  let heap := (session.store.heap.newScope s!"placeholder {kind.name}" (some .global)).2
  let scope : ScopeRef := ⟨session.store.heap.scopes.size⟩
  have isLast := (session.modifyHeap fun _ => heap).block_addText_last
    (.plain (.ofString (defaultBody kind))) scope .placeholder
  have isTop : ((session.modifyHeap fun _ => heap).addText
      (.plain (.ofString (defaultBody kind))) scope .placeholder).2.IsTop
      ⟨(session.modifyHeap fun _ => heap).blocks.size⟩ := by
    refine ⟨lt_of_getElem? block_addText, .inr ?_⟩
    rw [isLast]
    exact ⟨rfl, congrArg Scope.parent (session.store.heap.scope_newScope_self _ _)⟩
  exact isTop

/-- The bodies of placeholders stay next to the global scope when one more begins there. -/
theorem tops_addDefaultPlaceholder (nested : session.Nested embeddings)
    (tops : ∀ key placeholder, session.placeholders.get? key = some placeholder →
      session.IsTop placeholder.body) (kind : Kind) {key : Placeholder.Key}
    {placeholder : Placeholder}
    (found : (session.addDefaultPlaceholder kind).placeholders.get? key = some placeholder) :
    (session.addDefaultPlaceholder kind).IsTop placeholder.body := by
  have registry : (session.addDefaultPlaceholder kind).placeholders =
      session.placeholders.put (.default kind.name) ⟨⟨session.blocks.size⟩, none⟩ := rfl
  rw [registry] at found
  by_cases same : key = .default kind.name
  · subst same
    rw [Dictionary.get?_put_self] at found
    cases found
    exact session.isTop_addDefaultPlaceholder kind
  · rw [Dictionary.get?_put_of_ne _ _ same] at found
    have isTop := tops key placeholder found
    have ext := session.extends_addDefaultPlaceholder kind
    exact isTop.mono ext (.newScope _ _ _) (nested.inRange _ isTop.1)

theorem Nested.addDefaultPlaceholder (nested : session.Nested embeddings) (kind : Kind) :
    (session.addDefaultPlaceholder kind).Nested embeddings := by
  have isWhole : BlockRole.placeholder = .root ∨ BlockRole.placeholder = .placeholder ∧
      ∃ other, (AnySource.plain (.ofString (defaultBody kind))).cursor.text =
        (defaultBody other).toList := .inr ⟨rfl, kind, rfl⟩
  let heap := (session.store.heap.newScope s!"placeholder {kind.name}" (some .global)).2
  let scope : ScopeRef := ⟨session.store.heap.scopes.size⟩
  have keeps : session.store.heap.KeepsParents heap := .newScope _ _ _
  have size : heap.scopes.size = session.store.heap.scopes.size + 1 := Array.size_push _
  have withScope : (session.modifyHeap fun _ => heap).Nested embeddings :=
    nested.of_quiet ⟨rfl, rfl, fun _ => rfl, fun _ => rfl⟩ keeps fun key placeholder found =>
      ⟨nested.placeholders key placeholder found, nested.valid.placeholders key placeholder found⟩
  have inRange : scope.index < heap.scopes.size := by
    rw [size]
    exact Nat.lt_succ_self _
  have isOwn : BlockRole.placeholder.ownsScope = true → scope ≠ .global ∧
      ∀ id : BlockRef, id.index < session.blocks.size → (session.block id).scope ≠ scope := by
    refine fun _ => ⟨fun isGlobal => ?_, fun id present isScope => ?_⟩
    · exact Nat.lt_irrefl _ (isGlobal ▸ nested.global.1)
    · exact Nat.lt_irrefl _ (isScope ▸ nested.inRange id present)
  have withBody : ((session.modifyHeap fun _ => heap).addText
      (.plain (.ofString (defaultBody kind))) scope .placeholder).2.Nested embeddings :=
    withScope.addText inRange isWhole isOwn
  refine withBody.of_quiet ⟨rfl, rfl, fun _ => rfl, fun _ => rfl⟩ (.refl _) ?_
  have registry : (session.addDefaultPlaceholder kind).placeholders =
      session.placeholders.put (.default kind.name) ⟨⟨session.blocks.size⟩, none⟩ := rfl
  intro key placeholder found
  rw [registry] at found
  by_cases same : key = .default kind.name
  · subst same
    rw [Dictionary.get?_put_self] at found
    cases found
    exact ⟨⟨_, session.isTop_addDefaultPlaceholder kind, .self⟩, _, block_addText, rfl⟩
  · rw [Dictionary.get?_put_of_ne _ _ same] at found
    exact ⟨withBody.placeholders key placeholder found,
      withBody.valid.placeholders key placeholder found⟩

end Session

end Stencil
