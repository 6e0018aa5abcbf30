import Stencil.Proofs.Run.Native

/-!
# Names that a loop hides

While the scope of a loop binds a name, assignments inside the loop find the name there.  So as long
as it runs, the body of a loop leaves alone what a scope around the loop binds to the same name.
-/

namespace Stencil

open Text

variable {η : Type}

namespace Session

variable {environment : Environment η} {embeddings : Embeddings} {session before after : Session η}
  {body id outer : BlockRef} {scope : ScopeRef} {name : String} {value : Value}

/-- A block stands inside another one. -/
def Inside (session : Session η) (outer id : BlockRef) : Prop :=
  ∃ nodes node, (session.block outer).nodes? = some nodes ∧ node ∈ nodes ∧ session.Under node id

theorem Inside.within (inside : session.Inside outer id) : session.Within outer id := by
  obtain ⟨nodes, node, parsed, member, role, child, refers, within⟩ := inside
  exact (Within.inner outer nodes node role child .self parsed member refers).trans within

theorem Inside.lt (inside : session.Inside outer id) (valid : session.Valid embeddings) :
    outer.index < id.index := by
  obtain ⟨nodes, node, parsed, member, role, child, refers, within⟩ := inside
  exact Nat.lt_of_lt_of_le (valid.child_of_refers parsed member refers).lt (within.index_le valid)

theorem Inside.mono (inside : before.Inside outer id) (ext : before.Extends after) :
    after.Inside outer id := by
  obtain ⟨nodes, node, parsed, member, role, child, refers, within⟩ := inside
  exact ⟨nodes, node, ext.nodes? parsed, member, role, child, refers, within.mono ext⟩

/-- The own scopes of blocks inside a block and of placeholders are not around that block. -/
theorem Native.scope_ne_of_around (native : session.Native) (nested : session.Nested embeddings)
    (isLoop : (session.block body).role = .loopBody) (around : session.Around body scope)
    (present : id.index < session.blocks.size) (owns : (session.block id).role.ownsScope = true)
    (away : session.Inside body id ∨ session.IsRegistered id) :
    (session.block id).scope ≠ scope := by
  rintro rfl
  rcases around with isGlobal | ⟨outer, presentOuter, ownsOuter, same, within⟩
  · exact nested.own id present owns isGlobal
  · obtain rfl := nested.apart id outer present presentOuter owns ownsOuter same.symm
    rcases away with inside | registered
    · have above := within.index_le nested.valid
      have below := inside.lt nested.valid
      omega
    · have isPlaceholder := registered.role nested.valid
      rw [native.eq_of_within registered within, isPlaceholder] at isLoop
      cases isLoop

/-- The scopes that a name is looked up in from a block come by the scope of every block around, and
those before are later ones. -/
theorem Nested.chainFrom_within (nested : session.Nested embeddings)
    (within : session.Within outer id)
    {fuel : Nat} (enough : (session.block id).scope.index < fuel) :
    (session.block outer).scope.index ≤ (session.block id).scope.index ∧
      ∃ front rest, session.store.heap.chainFrom fuel (some (session.block id).scope) =
        front ++ (session.block outer).scope :: rest ∧
          ∀ other ∈ front, (session.block outer).scope.index < other.index := by
  induction within generalizing fuel with
  | self =>
      obtain ⟨less, rfl⟩ : ∃ less, fuel = less + 1 := ⟨fuel - 1, by omega⟩
      exact ⟨Nat.le_refl _, [], _, rfl, nofun⟩
  | inner parent nodes node role child _ parsed member refers induction =>
      obtain ⟨-, -, place, later⟩ := nested.placed parent nodes parsed node member role child refers
      split at place
      case isTrue owns =>
        have lower := later owns
        obtain ⟨less, rfl⟩ : ∃ less, fuel = less + 1 := ⟨fuel - 1, by omega⟩
        obtain ⟨least, front, rest, chain, above⟩ :=
          @induction less (by omega)
        refine ⟨by omega, (session.block child).scope :: front, rest, ?_, ?_⟩
        · rw [Heap.chainFrom, place, chain]
          rfl
        · intro other member
          rcases List.mem_cons.mp member with rfl | inFront
          · omega
          · exact above other inFront
      case isFalse shares =>
        rw [place] at enough ⊢
        exact induction enough

/-- The body of a loop whose scope lies beneath one that binds a name. -/
structure Beneath (session : Session η) (embeddings : Embeddings) (body : BlockRef)
    (inner outer : ScopeRef) (name : String) (value : Value) : Prop where
  nested : session.Nested embeddings
  calm : session.Calm embeddings
  native : session.Native
  live : session.Live body
  isLoop : (session.block body).role = .loopBody
  isScope : (session.block body).scope = inner
  around : session.Around body outer
  below : outer.index < inner.index
  kept : session.store.heap.get? outer name = some value

/-- In such a body the scope of the loop binds the name, too. -/
structure Shielded (session : Session η) (embeddings : Embeddings) (body : BlockRef)
    (inner outer : ScopeRef) (name : String) (value : Value) : Prop
    extends session.Beneath embeddings body inner outer name value where
  hidden : session.store.heap.contains inner name = true

variable {inner around : ScopeRef}

theorem Beneath.owns (beneath : session.Beneath embeddings body inner around name value) :
    (session.block body).role.ownsScope = true := by
  rw [beneath.isLoop]
  rfl

theorem Beneath.aroundInner (beneath : session.Beneath embeddings body inner around name value) :
    session.Around body inner :=
  .inr ⟨body, beneath.live.lt beneath.nested, beneath.owns, beneath.isScope, .self⟩

section

variable (keeps : environment.host.KeepsParents)
  (effects : before.Effects environment (fun _ => True) after)

include keeps effects

theorem Beneath.mono (beneath : before.Beneath environment.embeddings body inner around name value)
    (kept : after.store.heap.get? around name = some value) :
    after.Beneath environment.embeddings body inner around name value := by
  have nested := beneath.nested
  have ext := effects.toExtends keeps nested
  have present := beneath.live.lt nested
  exact {
    nested := effects.nested keeps nested
    calm := effects.calm keeps nested beneath.calm
    native := effects.native keeps nested beneath.calm beneath.native
    live := effects.live keeps nested beneath.live
    isLoop := (ext.role present).trans beneath.isLoop
    isScope := (ext.scope present).trans beneath.isScope
    around := beneath.around.mono ext
    below := beneath.below
    kept }

/-- Whatever happens, a name stays hidden that both scopes go on binding. -/
theorem Shielded.mono
    (shielded : before.Shielded environment.embeddings body inner around name value)
    (binds : after.store.heap.contains inner name = true ∧
      after.store.heap.get? around name = some value) :
    after.Shielded environment.embeddings body inner around name value :=
  ⟨shielded.toBeneath.mono keeps effects binds.2, binds.1⟩

/-- A name stays hidden where the entries of both scopes stay as they are. -/
theorem Shielded.of_entries
    (shielded : before.Shielded environment.embeddings body inner around name value)
    (sameInner : after.store.heap.entries inner = before.store.heap.entries inner)
    (sameAround : after.store.heap.entries around = before.store.heap.entries around) :
    after.Shielded environment.embeddings body inner around name value := by
  refine shielded.mono keeps effects ⟨?_, ?_⟩
  · rw [Heap.contains, sameInner]
    exact shielded.hidden
  · rw [Heap.get?, sameAround]
    exact shielded.kept

end

namespace Shielded

variable (shielded : session.Shielded embeddings body inner around name value)

include shielded

/-- A declaration adds a name where there was none, so it changes neither of the two bindings. -/
theorem binds_insert (scope : ScopeRef) (declared : String) (given : Value) :
    (session.store.heap.insert scope declared given).2.contains inner name = true ∧
      (session.store.heap.insert scope declared given).2.get? around name = some value := by
  refine ⟨?_, Heap.get?_insert_of_get? shielded.kept⟩
  have known := Dictionary.get?_isSome_iff.mpr (Dictionary.contains_eq_true_iff.mp shielded.hidden)
  obtain ⟨shown, isShown⟩ := Option.isSome_iff_exists.mp known
  have stays : (session.store.heap.insert scope declared given).2.get? inner name = some shown :=
    Heap.get?_insert_of_get? isShown
  exact Dictionary.contains_eq_true_iff.mpr
    (Dictionary.get?_isSome_iff.mp (Option.isSome_of_mem stays))

/-- An assignment in the body or inside it does not reach the scope around that has the name. -/
theorem target_ne (within : session.Within body id) {target : ScopeRef}
    (found : (session.store.heap.chain (session.block id).scope).find?
      (fun scope => session.store.heap.contains scope name) = some target) : target ≠ around := by
  have present := within.lt shielded.nested (shielded.live.lt shielded.nested)
  obtain ⟨-, front, rest, chain, above⟩ :=
    shielded.nested.chainFrom_within within (shielded.nested.inRange id present)
  rw [shielded.isScope] at chain above
  have below := shielded.below
  rw [Heap.chain, chain, List.find?_append] at found
  cases early : front.find? fun scope => session.store.heap.contains scope name with
  | some first =>
      rw [early] at found
      obtain rfl : first = target := Option.some.inj found
      have later := above first (List.mem_of_find?_eq_some early)
      rintro rfl
      omega
  | none =>
      have isFirst : (inner :: rest).find? (fun scope => session.store.heap.contains scope name) =
          some inner := List.find?_cons_of_pos shielded.hidden
      rw [early, isFirst] at found
      obtain rfl : inner = target := Option.some.inj found
      rintro rfl
      omega

theorem binds_assign (within : session.Within body id) (assigned : String) (given : Value) :
    (session.store.heap.assign (session.block id).scope assigned given).2.contains
      inner name = true ∧
      (session.store.heap.assign (session.block id).scope assigned given).2.get? around name =
        some value := by
  have inRange := shielded.nested.inRange body (shielded.live.lt shielded.nested)
  rw [shielded.isScope] at inRange
  let assigning := (session.store.heap.assign (session.block id).scope assigned given).2
  constructor
  · have revised : Dictionary.Revised (fun _ => True) (fun _ => False)
        (session.store.heap.entries inner) (assigning.entries inner) :=
      session.store.heap.revised_assign (session.block id).scope inner trivial inRange
    rw [Heap.contains, Dictionary.contains_eq_true_iff, revised.keys_eq]
    exact Dictionary.contains_eq_true_iff.mp shielded.hidden
  · by_cases same : assigned = name
    · subst same
      unfold Heap.assign
      split
      case h_1 target found =>
        rw [Heap.get?, Heap.put,
          Heap.entries_modifyEntries_of_ne _ (shielded.target_ne within found).symm]
        exact shielded.kept
      case h_2 => exact shielded.kept
    · have revised : Dictionary.Revised (· = assigned) (fun _ => False)
          (session.store.heap.entries around) (assigning.entries around) :=
        session.store.heap.revised_assign (session.block id).scope around rfl
          (shielded.around.inRange shielded.nested)
      rcases revised.values name value shielded.kept with kept | isAssigned
      · exact kept
      · exact absurd isAssigned.symm same

end Shielded

end Session

/-- The rules by which the body of a loop runs what stands inside it, as long as its scope hides a
name. -/
def Run.Rules.shielded (environment : Environment η) (body : BlockRef) (inner around : ScopeRef)
    (name : String) (value : Value) : Run.Rules η where
  holds session := session.Shielded environment.embeddings body inner around name value
  comes session id := session.Live id ∧ (session.Inside body id ∨ session.IsRegistered id)
  enters _ := True
  runs _ _ := True

namespace Session

variable {environment : Environment η} {session after : Session η} {body id : BlockRef}
  {inner around : ScopeRef} {name : String} {value : Value}

theorem Deed.effect_shielded (nested : session.Nested environment.embeddings)
    (deed : session.Deed environment (.shielded environment body inner around name value) after) :
    session.Effect environment (fun _ => True) after := by
  apply deed.effect nested
  rintro id ⟨live, -⟩
  exact live

section

variable (keeps : environment.host.KeepsParents) (sparesInner : environment.host.Spares inner)
  (sparesAround : environment.host.Spares around)

include keeps sparesInner sparesAround

/-- What runs inside the body of a loop keeps a name hidden. -/
theorem Deed.shielded
    (shielded : session.Shielded environment.embeddings body inner around name value)
    (deed : session.Deed environment (.shielded environment body inner around name value) after) :
    after.Shielded environment.embeddings body inner around name value := by
  have nested := shielded.nested
  have inRangeInner := shielded.aroundInner.inRange nested
  have inRangeAround := shielded.around.inRange nested
  have effects := Effects.single (deed.effect_shielded nested)
  have apart {other : BlockRef} {scope : ScopeRef} (isAround : session.Around body scope)
      (live : session.Live other) (away : session.Inside body other ∨ session.IsRegistered other)
      (owns : (session.block other).role.ownsScope = true) :
      scope ≠ (session.block other).scope :=
    (shielded.native.scope_ne_of_around nested shielded.isLoop isAround (live.lt nested) owns
      away).symm
  cases deed with
  | write text => exact shielded.of_entries keeps effects rfl rfl
  | depth depth => exact shielded.of_entries keeps effects rfl rfl
  | mark target left => exact shielded.of_entries keeps effects rfl rfl
  | seek source offset found => exact shielded.of_entries keeps effects rfl rfl
  | define => exact shielded.of_entries keeps effects rfl rfl
  | parse other comes unparsed atStart =>
      have present := comes.1.lt nested
      exact shielded.of_entries keeps effects (entries_parseBlock present inRangeInner)
        (entries_parseBlock present inRangeAround)
  | evaluate store changes =>
      exact shielded.of_entries keeps effects (changes.entries keeps sparesInner inRangeInner)
        (changes.entries keeps sparesAround inRangeAround)
  | clear other comes owns may =>
      obtain ⟨live, away⟩ := comes
      exact shielded.of_entries keeps effects
        (Heap.entries_modifyEntries_of_ne _ (apart shielded.aroundInner live away owns))
        (Heap.entries_modifyEntries_of_ne _ (apart shielded.around live away owns))
  | bind other bound given comes owns may =>
      obtain ⟨live, away⟩ := comes
      exact shielded.of_entries keeps effects
        (Heap.entries_modifyEntries_of_ne _ (apart shielded.aroundInner live away owns))
        (Heap.entries_modifyEntries_of_ne _ (apart shielded.around live away owns))
  | declare other nodes declared expression constant given comes parsed member runs =>
      exact shielded.mono keeps effects (shielded.binds_insert _ declared given)
  | assign other nodes assigned expression given comes parsed member runs =>
      rcases comes.2 with inside | registered
      · exact shielded.mono keeps effects (shielded.binds_assign inside.within assigned given)
      · exact absurd member (shielded.native.not_assign registered parsed)

theorem lawful_shielded :
    (Run.Rules.shielded environment body inner around name value).Lawful environment where
  keeps := keeps
  nested _ shielded := shielded.nested
  live _ _ _ comes := comes.1
  holds _ _ shielded deed := Deed.shielded keeps sparesInner sparesAround shielded deed
  stays session after id shielded deed comes := by
    have nested := shielded.nested
    have effects := Effects.single (deed.effect_shielded nested)
    refine ⟨effects.live keeps nested comes.1, comes.2.imp ?_ ?_⟩
    · exact fun inside => inside.mono (effects.toExtends keeps nested)
    · rintro ⟨key, placeholder, found, rfl⟩
      rw [← effects.placeholders_eq keeps nested shielded.calm] at found
      exact ⟨key, placeholder, found, rfl⟩
  inner session id nodes shielded comes parsed node member _ role child refers := by
    refine ⟨comes.1.inner parsed member refers, ?_⟩
    rcases comes.2 with ⟨own, first, isParsed, isMember, role', top, refersTop, within⟩ | registered
    · exact .inl ⟨own, first, isParsed, isMember, role', top, refersTop,
        .inner id nodes node role child within parsed member refers⟩
    · exact absurd refers (shielded.native.not_refers registered parsed member)
  placeholder session key placeholder shielded found :=
    ⟨shielded.nested.placeholders key placeholder found, .inr ⟨key, placeholder, found, rfl⟩⟩

end

end Session

namespace Run

variable {environment : Environment η} {session after : Session η} {id : BlockRef}
  {scope : ScopeRef}

/-- Going to a place of a source changes neither store nor blocks. -/
theorem same_of_seek {source : SourceRef} {offset : Nat}
    (ran : (seek source offset).run.run session = (.ok (), after)) :
    after.store = session.store ∧ after.blocks = session.blocks := by
  have unfolded : (seek source offset).run.run session =
      (if (Source.seek offset (session.source source)).1 then
        set (session.setSource source (Source.seek offset (session.source source)).2)
      else fail (.parse (.cannotSeek offset)
        (Source.position (Source.seek offset (session.source source)).2)) : Run η Unit).run.run
          session := rfl
  rw [unfolded] at ran
  split at ran
  · cases ran
    exact ⟨rfl, rfl⟩
  · cases ran

/-- Opening a block makes scopes at most. -/
theorem entries_of_openBlock (present : id.index < session.blocks.size)
    (inRange : scope.index < session.store.heap.scopes.size) {opened : Block × List Node}
    (ran : (openBlock environment id).run.run session = (.ok opened, after)) :
    after.store.heap.entries scope = session.store.heap.entries scope := by
  unfold openBlock at ran
  obtain ⟨parsed, ready, ranNodes, ran⟩ := ok_of_bind ran
  have sameReady : ready.store.heap.entries scope = session.store.heap.entries scope := by
    cases known : (session.block id).nodes? with
    | some nodes =>
        rw [ran_nodesOf_of_parsed environment known] at ranNodes
        cases ranNodes
        rfl
    | none =>
        unfold nodesOf at ranNodes
        obtain ⟨current, _, looked, ranNodes⟩ := ok_of_bind ranNodes
        cases looked
        dsimp only at ranNodes
        rw [known] at ranNodes
        obtain ⟨_, sought, ranSeek, parses⟩ := ok_of_bind ranNodes
        obtain ⟨store, blocks⟩ := same_of_seek ranSeek
        cases parses
        rw [← store] at inRange ⊢
        exact Session.entries_parseBlock (blocks ▸ present) inRange
  obtain ⟨current, _, looked, ran⟩ := ok_of_bind ran
  cases looked
  obtain ⟨_, started, ranSeek, returns⟩ := ok_of_bind ran
  cases returns
  rw [(same_of_seek ranSeek).1, sameReady]

end Run

namespace Session.Shielded

variable {environment : Environment η} {session after : Session η} {body : BlockRef}
  {inner around : ScopeRef} {name : String} {value : Value} {nodes : List Node} {node : Node}
  {runBlock : BlockRef → Run η Unit} {fuel : Nat}
  (keeps : environment.host.KeepsParents) (sparesInner : environment.host.Spares inner)
  (sparesAround : environment.host.Spares around)
  (shielded : session.Shielded environment.embeddings body inner around name value)

section

variable (parsed : (session.block body).nodes? = some nodes) (member : node ∈ nodes)

include shielded parsed member

/-- What a node of the body runs owns its scope, if its role says so. -/
theorem owns {role : BlockRole} {child : BlockRef} (refers : node.Refers role child)
    (isOwn : role.ownsScope = true) :
    (Run.Rules.shielded environment body inner around name value).Owns session
      (session.block child).scope child := by
  have placed := shielded.nested.placed body nodes parsed node member role child refers
  refine ⟨⟨shielded.live.inner parsed member refers, .inl ?_⟩, ?_, rfl, fun _ => trivial⟩
  · exact ⟨nodes, node, parsed, member, role, child, refers, .self⟩
  · rw [placed.isRole]
    exact isOwn

end

include keeps sparesInner sparesAround shielded

/-- What the rules allow inside the body keeps a name hidden. -/
theorem of_does {α : Type} {run : Run η α} {answers : α → Session η → Prop} {answer : α}
    (does : Run.Does environment (.shielded environment body inner around name value) session run
      answers) (parsed : (session.block body).nodes? = some nodes)
    (ran : run.run.run session = (.ok answer, after)) :
    after.Shielded environment.embeddings body inner around name value ∧
      (after.block body).nodes? = some nodes := by
  have lawful : (Run.Rules.shielded environment body inner around name value).Lawful environment :=
    lawful_shielded keeps sparesInner sparesAround
  have deeds := Run.Does.deeds does shielded ran
  exact ⟨deeds.holds lawful shielded, (deeds.toExtends lawful shielded).nodes? parsed⟩

/-- A node of the body keeps a name hidden. -/
theorem of_node (parsed : (session.block body).nodes? = some nodes) (member : node ∈ nodes)
    (performs : Run.Performs environment
      (.shielded environment body inner around name value) runBlock)
    (ran : (Run.node environment runBlock fuel inner node).run.run session = (.ok (), after)) :
    after.Shielded environment.embeddings body inner around name value ∧
      (after.block body).nodes? = some nodes := by
  have lawful : (Run.Rules.shielded environment body inner around name value).Lawful environment :=
    lawful_shielded keeps sparesInner sparesAround
  have byRules (does : Run.Does environment (.shielded environment body inner around name value)
      session (Run.node environment runBlock fuel inner node) fun _ _ => True) :=
    shielded.of_does keeps sparesInner sparesAround does parsed ran
  cases node with
  | text content => exact byRules (.write content)
  | read path =>
      refine byRules ((Run.Does.onStore (.followFrom inner none path)).bind lawful
        fun found _ _ _ => ?_)
      split
      · exact .pure trivial
      · exact .emit lawful performs found
  | declare declared expression constant =>
      obtain ⟨given, middle, evaluated, ran⟩ := Run.ok_of_bind ran
      obtain ⟨here, parsedHere⟩ := shielded.of_does keeps sparesInner sparesAround
        (.onStore (.evaluate inner expression)) parsed evaluated
      have effects : middle.Effects environment (fun _ => True)
          (middle.modifyHeap fun heap => (heap.insert inner declared given).2) :=
        .single (here.isScope ▸ .declare body nodes declared expression constant given here.live
          parsedHere member)
      have isAfter : after = middle.modifyHeap fun heap =>
          (heap.insert inner declared given).2 := by
        unfold Run.declare at ran
        obtain ⟨isNew, inserted, inserts, ran⟩ := Run.ok_of_bind ran
        obtain rfl : _ = inserted := congrArg Prod.snd inserts
        split at ran <;> cases ran
        rfl
      rw [isAfter]
      exact ⟨here.mono keeps effects (here.binds_insert inner declared given),
        (effects.toExtends keeps here.nested).nodes? parsedHere⟩
  | assign assigned expression =>
      obtain ⟨given, middle, evaluated, ran⟩ := Run.ok_of_bind ran
      obtain ⟨here, parsedHere⟩ := shielded.of_does keeps sparesInner sparesAround
        (.onStore (.evaluate inner expression)) parsed evaluated
      have effects : middle.Effects environment (fun _ => True)
          (middle.modifyHeap fun heap => (heap.assign inner assigned given).2) :=
        .single (here.isScope ▸ .assign body nodes assigned expression given here.live parsedHere
          member)
      have isAfter : after = middle.modifyHeap fun heap =>
          (heap.assign inner assigned given).2 := by
        unfold Run.assign at ran
        obtain ⟨isDeclared, reassigned, assigns, ran⟩ := Run.ok_of_bind ran
        obtain rfl : _ = reassigned := congrArg Prod.snd assigns
        split at ran <;> cases ran
        rfl
      have binds := here.binds_assign .self assigned given
      rw [here.isScope] at binds
      rw [isAfter]
      exact ⟨here.mono keeps effects binds,
        (effects.toExtends keeps here.nested).nodes? parsedHere⟩
  | loop header child =>
      exact byRules (.loop lawful performs
        (shielded.owns parsed member (.loop header child) rfl) header)
  | leave target => exact byRules (.update (.mark target true))
  | branches conditions otherwise =>
      refine byRules (.branches lawful performs (fun branch isBranch => ?_) fun child isLast => ?_)
      · exact shielded.owns parsed member (.branch conditions otherwise branch isBranch) rfl
      · subst isLast
        exact shielded.owns parsed member (.otherwise conditions child) rfl
  | definePlaceholder key parameter child =>
      exact absurd member (shielded.calm.definePlaceholder_notMem parsed)
  | usePlaceholder key argument =>
      exact byRules ((Run.Does.evaluateArgument lawful argument).bind lawful fun found _ _ _ =>
        .runPlaceholder lawful performs key found)
  | embed block =>
      have inside : session.Inside body block :=
        ⟨nodes, _, parsed, member, _, block, .embed block, .self⟩
      exact byRules (.nested lawful performs _
        ⟨shielded.live.inner parsed member (.embed block), .inl inside⟩)
  | malformed error => exact byRules .fail

theorem of_nodes {listed : List Node} {enclosingLoop : Option BlockRef}
    (parsed : (session.block body).nodes? = some nodes) (members : ∀ node ∈ listed, node ∈ nodes)
    (performs : Run.Performs environment
      (.shielded environment body inner around name value) runBlock)
    (ran : (Run.nodes (Run.node environment runBlock fuel inner) enclosingLoop listed).run.run
      session = (.ok (), after)) :
    after.Shielded environment.embeddings body inner around name value := by
  induction listed generalizing session with
  | nil =>
      cases ran
      exact shielded
  | cons node rest induction =>
      unfold Run.nodes at ran
      obtain ⟨left, asked, looked, ran⟩ := Run.ok_of_bind ran
      cases looked
      split at ran
      · cases ran
        exact shielded
      · obtain ⟨_, middle, runsNode, ran⟩ := Run.ok_of_bind ran
        obtain ⟨here, parsedHere⟩ := shielded.of_node keeps sparesInner sparesAround parsed
          (members node List.mem_cons_self) performs runsNode
        exact induction here parsedHere
          (fun later member => members later (List.mem_cons_of_mem _ member)) ran

/-- The body of a loop keeps a name hidden that its scope binds. -/
theorem of_block (ran : (Run.block environment fuel body).run.run session = (.ok (), after)) :
    after.Shielded environment.embeddings body inner around name value := by
  cases fuel with
  | zero => cases ran
  | succ fuel =>
      have nested := shielded.nested
      have present := shielded.live.lt nested
      have lawful : (Run.Rules.live environment (fun _ => True) fun _ _ => True).Lawful
          environment :=
        Run.Rules.lawful_live keeps
      have lawfulInside : (Run.Rules.shielded environment body inner around name value).Lawful
          environment := lawful_shielded keeps sparesInner sparesAround
      have performs := Run.performs_block lawfulInside (fun _ => trivial) (fun _ _ => trivial) fuel
      rw [Run.block, Run.blockWith_eq, Run.blockBy] at ran
      obtain ⟨⟨opened, parsed⟩, begun, opens, ran⟩ := Run.ok_of_bind ran
      have does : Run.Does environment (.live environment (fun _ => True) fun _ _ => True) session
          (Run.openBlock environment body) _ := .openBlock lawful shielded.live
      obtain ⟨deeds, isOpened⟩ := does nested (.inl fun _ => trivial)
      rw [opens] at deeds isOpened
      have runsIn := isOpened _ rfl
      have begins := shielded.of_entries keeps (deeds.effects lawful nested)
        (Run.entries_of_openBlock present (shielded.aroundInner.inRange nested) opens)
        (Run.entries_of_openBlock present (shielded.around.inRange nested) opens)
      have isInner : opened.scope = inner := runsIn.isScope.symm.trans begins.isScope
      obtain ⟨_, ended, runsNodes, finishes⟩ := Run.ok_of_bind ran
      rw [isInner] at runsNodes
      have ends := begins.of_nodes keeps sparesInner sparesAround runsIn.parsed
        (fun _ => id) performs
        runsNodes
      have seeks : ended.Deeds environment
          (.live environment (fun _ => True) fun _ _ => True) after :=
        Run.Does.deeds (.seek _ _) ends.nested finishes
      obtain ⟨store, -⟩ := Run.same_of_seek finishes
      refine ends.of_entries keeps (seeks.effects lawful ends.nested) ?_ ?_
      · rw [store]
      · rw [store]

end Session.Shielded

end Stencil
