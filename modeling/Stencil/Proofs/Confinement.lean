import Stencil.Proofs.Break.Exact
import Stencil.Proofs.Frame
import Stencil.Proofs.Run.Passes

/-!
# Bindings of loops and branches

What a loop or a branch binds or declares is bound in scopes of its own.  So while it runs, and
however it ends, the scopes around it get no names and lose none.
-/

namespace Stencil

open Text

variable {η : Type}

/-- Whether the blocks of a node have scopes of their own, as those of loops and branches have. -/
def Node.opensScopes : Node → Bool
  | .loop _ _ | .branches _ _ => true
  | _ => false

namespace Node

variable {node : Node} {role : BlockRole} {id : BlockRef}

theorem Refers.of_opensScopes (refers : node.Refers role id) (opens : node.opensScopes = true) :
    role.ownsScope = true ∧ role ≠ .placeholder := by
  cases refers with
  | loop header body => exact ⟨rfl, nofun⟩
  | branch conditions otherwise branch member => exact ⟨rfl, nofun⟩
  | otherwise conditions body => exact ⟨rfl, nofun⟩
  | definePlaceholder key parameter body => cases opens
  | embed block => cases opens

theorem IsPlain.not_refers (isPlain : node.IsPlain) : ¬node.Refers role id := by
  intro refers
  cases refers <;> exact isPlain

theorem IsPlain.not_opensScopes (isPlain : node.IsPlain) : node.opensScopes = false := by
  cases node <;> first | rfl | exact isPlain.elim

end Node

namespace Session

variable {environment : Environment η} {session before after : Session η} {embeddings : Embeddings}
  {id outer parent : BlockRef} {nodes : List Node} {node : Node} {scope : ScopeRef}

/-- A block is one that a node runs, or lies in one. -/
def Under (session : Session η) (node : Node) (id : BlockRef) : Prop :=
  ∃ role body, node.Refers role body ∧ session.Within body id

theorem Within.index_le (valid : session.Valid embeddings) (within : session.Within outer id) :
    outer.index ≤ id.index := by
  induction within with
  | self => exact Nat.le_refl _
  | inner parent nodes node role child _ parsed member refers induction =>
      have child := valid.child_of_refers parsed member refers
      exact Nat.le_trans induction (Nat.le_of_lt child.lt)

/-- The scope of a block that lies in one with a scope of its own is the own one of a block
there. -/
theorem Nested.owner (nested : session.Nested embeddings)
    (present : outer.index < session.blocks.size)
    (owns : (session.block outer).role.ownsScope = true) (within : session.Within outer id) :
    ∃ owner : BlockRef, owner.index < session.blocks.size ∧
      (session.block owner).role.ownsScope = true ∧
      (session.block owner).scope = (session.block id).scope ∧ session.Within outer owner := by
  induction within with
  | self => exact ⟨outer, present, owns, rfl, .self⟩
  | inner parent nodes node role child within parsed member refers induction =>
      obtain ⟨presentChild, isRole, place, -⟩ :=
        nested.placed parent nodes parsed node member role child refers
      split at place
      · rename_i ownsChild
        rw [← isRole] at ownsChild
        exact ⟨child, presentChild, ownsChild, rfl,
          .inner parent nodes node role child within parsed member refers⟩
      · rw [place]
        exact induction

/-- The nodes of the placeholders that kinds begin with are plain. -/
theorem IsDefault.isPlain (isDefault : session.IsDefault id) (valid : session.Valid embeddings)
    (parsed : (session.block id).nodes? = some nodes) (member : node ∈ nodes) : node.IsPlain := by
  obtain ⟨block, isThere, whole, role⟩ := isDefault
  rw [block_eq_of_getElem? isThere] at parsed
  obtain ⟨-, origins⟩ := valid.parsed id block nodes isThere parsed
  have origin := origins node member
  rcases whole.role with isRoot | ⟨-, kind, isBody⟩
  · rw [role] at isRoot
    cases isRoot
  · rw [isBody] at origin
    exact BlocksAgree.isPlain_of_default origin

theorem IsDefault.eq_of_within (isDefault : session.IsDefault outer)
    (valid : session.Valid embeddings) (within : session.Within outer id) : id = outer := by
  induction within with
  | self => rfl
  | inner parent nodes node role child _ parsed member refers induction =>
      subst induction
      exact absurd refers (isDefault.isPlain valid parsed member).not_refers

theorem Effect.calm {mayEnter : BlockRef → Prop}
    (nested : before.Nested environment.embeddings) (calm : before.Calm environment.embeddings)
    (effect : before.Effect environment mayEnter after) : after.Calm environment.embeddings := by
  cases effect with
  | mark target left =>
      exact calm.of_quiet (before.quiet_modifyBlock target fun _ => rfl) calm.placeholders
  | seek id offset found => exact calm.of_quiet (before.quiet_seek id offset) calm.placeholders
  | parse id present unparsed atStart =>
      have sourcePresent := calm.valid.source_lt (getElem?_of_lt present)
      exact calm.parse (parsing_parseBlock present sourcePresent unparsed atStart) present unparsed
  | define id nodes key parameter body live parsed member =>
      have isThere := getElem?_of_lt (live.lt nested)
      obtain ⟨-, origins⟩ := calm.valid.parsed id _ nodes isThere parsed
      cases origins _ member with
      | definePlaceholder _ _ _ opening isMade => exact absurd opening (calm.texts id _ isThere)
  | _ => exact calm.of_quiet ⟨rfl, rfl, fun _ => rfl, fun _ => rfl⟩ calm.placeholders

theorem Effects.calm {mayEnter : BlockRef → Prop} (keeps : environment.host.KeepsParents)
    (effects : before.Effects environment mayEnter after)
    (nested : before.Nested environment.embeddings) (calm : before.Calm environment.embeddings) :
    after.Calm environment.embeddings := by
  induction effects with
  | refl => exact calm
  | tail earlier effect induction =>
      exact effect.calm (Effects.nested keeps earlier nested) induction

end Session

/-- The rules by which a node of a calm session runs: it comes to the blocks under it and to the
placeholders that kinds begin with. -/
def Run.Rules.under (environment : Environment η) (node : Node) (mayRun : BlockRef → Node → Bool) :
    Run.Rules η where
  holds session := session.Nested environment.embeddings ∧ session.Calm environment.embeddings
  comes session id := session.Live id ∧ (session.Under node id ∨ session.IsDefault id)
  enters _ := True
  runs id node := mayRun id node = true

namespace Session

variable {environment : Environment η} {session before after : Session η}
  {id other body : BlockRef} {nodes : List Node} {node : Node} {scope : ScopeRef}
  {mayRun : BlockRef → Node → Bool}

theorem Deed.effect_under (nested : session.Nested environment.embeddings)
    (deed : session.Deed environment (.under environment node mayRun) after) :
    session.Effect environment (fun _ => True) after := by
  apply deed.effect nested
  rintro id ⟨live, -⟩
  exact live

theorem lawful_under (keeps : environment.host.KeepsParents) :
    (Run.Rules.under environment node mayRun).Lawful environment where
  keeps := keeps
  nested _ holds := holds.1
  live _ _ _ comes := comes.1
  holds session after holds deed := by
    have effect := deed.effect_under holds.1
    exact ⟨effect.nested keeps holds.1, effect.calm holds.1 holds.2⟩
  stays session after id holds deed comes := by
    have effects := Effects.single (deed.effect_under holds.1)
    have ext := effects.toExtends keeps holds.1
    refine ⟨effects.live keeps holds.1 comes.1, comes.2.imp ?_ ext.isDefault⟩
    rintro ⟨role, body, refers, within⟩
    exact ⟨role, body, refers, within.mono ext⟩
  inner session id nodes holds comes parsed inner member _ role child refers := by
    refine ⟨comes.1.inner parsed member refers, ?_⟩
    rcases comes.2 with ⟨role', body, refersBody, within⟩ | isDefault
    · exact .inl ⟨role', body, refersBody,
        .inner id nodes inner role child within parsed member refers⟩
    · exact absurd refers (isDefault.isPlain holds.1.valid parsed member).not_refers
  placeholder session key placeholder holds found :=
    ⟨holds.1.placeholders key placeholder found, .inr (holds.2.placeholders key placeholder found)⟩

/-- No block that a loop or a branch comes to has a scope that is around the loop or branch. -/
theorem scope_ne_of_around (nested : session.Nested environment.embeddings)
    (parsed : (session.block id).nodes? = some nodes) (member : node ∈ nodes)
    (opens : node.opensScopes = true) (around : session.Around id scope)
    (under : session.Under node other ∨ session.IsDefault other) :
    (session.block other).scope ≠ scope := by
  rintro rfl
  -- The scope is the own one of a block `owner` that is no block around the node.
  obtain ⟨owner, presentOwner, ownsOwner, same, apart⟩ :
      ∃ owner : BlockRef, owner.index < session.blocks.size ∧
        (session.block owner).role.ownsScope = true ∧
        (session.block owner).scope = (session.block other).scope ∧ ¬session.Within owner id := by
    rcases under with ⟨role, body, refers, within⟩ | isDefault
    · obtain ⟨owns, -⟩ := refers.of_opensScopes opens
      have placed := nested.placed id nodes parsed node member role body refers
      rw [← placed.isRole] at owns
      obtain ⟨owner, present, ownsOwner, same, inside⟩ := nested.owner placed.present owns within
      refine ⟨owner, present, ownsOwner, same, fun outside => ?_⟩
      have after := (nested.valid.child_of_refers parsed member refers).lt
      have above := inside.index_le nested.valid
      have below := outside.index_le nested.valid
      omega
    · have isThere := isDefault
      obtain ⟨block, found, -, role⟩ := isThere
      have owns : (session.block other).role.ownsScope = true := by
        rw [block_eq_of_getElem? found, role]
        rfl
      refine ⟨other, lt_of_getElem? found, owns, rfl, fun within => ?_⟩
      have isSelf := isDefault.eq_of_within nested.valid within
      subst isSelf
      rw [(isDefault.isPlain nested.valid parsed member).not_opensScopes] at opens
      cases opens
  rcases around with isGlobal | ⟨outer, present, owns, isScope, within⟩
  · exact nested.own owner presentOwner ownsOwner (same.trans isGlobal)
  · have isOwner := nested.apart owner outer presentOwner present ownsOwner owns
      (same.trans isScope.symm)
    exact apart (isOwner ▸ within)

section

variable (keeps : environment.host.KeepsParents) (nested : session.Nested environment.embeddings)
  (live : session.Live id) (parsed : (session.block id).nodes? = some nodes)
  (member : node ∈ nodes) (opens : node.opensScopes = true) {runBlock : BlockRef → Run η Unit}
  {fuel : Nat}

include nested live parsed member opens

theorem owns_under {role : BlockRole} (refers : node.Refers role body) :
    (Run.Rules.under environment node mayRun).Owns session (session.block body).scope body := by
  have placed := nested.placed id nodes parsed node member role body refers
  refine ⟨⟨live.inner parsed member refers, .inl ⟨role, body, refers, .self⟩⟩, ?_, rfl,
    fun _ => trivial⟩
  rw [placed.isRole]
  exact (refers.of_opensScopes opens).1

include keeps

/-- A loop or a branch does only what is allowed under it. -/
theorem does_under
    (performs : Run.Performs environment (.under environment node mayRun) runBlock) :
    Run.Does environment (.under environment node mayRun) session
      (Run.node environment runBlock fuel (session.block id).scope node) fun _ _ => True := by
  have lawful : (Run.Rules.under environment node mayRun).Lawful environment :=
    lawful_under keeps
  have owns {role : BlockRole} {body : BlockRef} (refers : node.Refers role body) :
      (Run.Rules.under environment node mayRun).Owns session (session.block body).scope body :=
    owns_under nested live parsed member opens refers
  cases node with
  | loop header body => exact .loop lawful performs (owns (.loop header body)) header
  | branches conditions otherwise =>
      refine .branches lawful performs (fun branch isBranch => ?_) fun body isLast => ?_
      · exact owns (.branch conditions otherwise branch isBranch)
      · subst isLast
        exact owns (.otherwise conditions body)
  | _ => cases opens

omit live in
/-- A scope around a loop or a branch keeps its keys, and only assigned ones get other values. -/
theorem revised_under (spares : environment.host.Spares scope)
    (calm : session.Calm environment.embeddings)
    (deeds : session.Deeds environment (.under environment node mayRun) after)
    (around : session.Around id scope) :
    Dictionary.Revised (after.Assigns mayRun) (fun _ => False)
      (session.store.heap.entries scope) (after.store.heap.entries scope) := by
  have lawful : (Run.Rules.under environment node mayRun).Lawful environment :=
    lawful_under keeps
  have ext := deeds.toExtends lawful ⟨nested, calm⟩
  have nestedAfter := (deeds.holds lawful ⟨nested, calm⟩).1
  have apart {other : BlockRef}
    (comes : (Run.Rules.under environment node mayRun).comes after other) :
      (after.block other).scope ≠ scope :=
    scope_ne_of_around nestedAfter (ext.nodes? parsed) member opens (around.mono ext) comes.2
  apply deeds.revised lawful spares ⟨nested, calm⟩ (around.inRange nested)
  · exact fun other comes _ => apart comes
  · exact fun other nodes name expression parsed member may =>
      ⟨other, nodes, expression, parsed, member, may⟩
  · exact fun other nodes name expression constant comes _ _ _ isScope => apart comes isScope

end

/-- However a loop ends, its scope is empty. -/
theorem entries_loop {header : LoopHeader} {outer : ScopeRef} {runBlock : BlockRef → Run η Unit}
    {fuel : Nat} (present : body.index < session.blocks.size)
    (inRange : (session.block body).scope.index <
      ((Run.loop environment runBlock fuel outer header body).run.run
        session).2.store.heap.scopes.size) :
    ((Run.loop environment runBlock fuel outer header body).run.run session).2.store.heap.entries
      (session.block body).scope = .empty := by
  let begun := session.modifyBlock body ({ · with wasLeft := false })
  let ended := ((Run.passes environment runBlock fuel outer body header).run.run begun).2
  have isScope : (begun.block body).scope = (session.block body).scope := by
    change ((session.modifyBlock body _).block body).scope = _
    rw [block_modifyBlock_self _ present]
  have ran : ((Run.loop environment runBlock fuel outer header body).run.run session).2 =
      ended.modifyHeap (·.clear (begun.block body).scope) := rfl
  rw [ran, isScope] at inRange ⊢
  change (ended.store.heap.clear (session.block body).scope).entries _ = _
  have size : (ended.store.heap.clear (session.block body).scope).scopes.size =
      ended.store.heap.scopes.size := Heap.size_modifyEntries _ _ _
  exact Heap.entries_clear _ (size ▸ inRange)

end Session

namespace Template

variable {source : AnySource} {options : Options} {host : Host η} {state : η}
  {template : Template η}

/-- Without definitions of placeholders, templates stay calm whatever becomes of them. -/
theorem Evolves.calm
    (evolves : (ofSource source options host state).Evolves Store.KeepsParents template)
    (keeps : host.KeepsParents) (lacks : LacksDefinitions source.cursor.text)
    (embeddings : ∀ path text, options.embeddings path = some text →
      LacksDefinitions text.toList) : template.session.Calm options.embeddings := by
  induction evolves with
  | refl => exact calm_ofSource lacks embeddings
  | @render template earlier fuel induction =>
      have begun := earlier.begun keeps
      have effects := effects_render earlier.environment keeps begun fuel
      exact effects.calm keeps begun.1
        (induction.of_quiet ⟨rfl, rfl, fun _ => rfl, fun _ => rfl⟩ induction.placeholders)
  | change earlier store may induction =>
      exact induction.of_quiet ⟨rfl, rfl, fun _ => rfl, fun _ => rfl⟩ induction.placeholders

/-- Bindings of loops and branches never leak.  Without definitions of placeholders, and however a
loop or a chain of branches ends, the scopes around it have the same keys as before, and a value
there is another one only if a node that ran assigned it.  The scope of a loop is empty afterwards,
and each of its passes starts with nothing there but what the loop itself binds. -/
theorem bindings_confined
    (lacks : LacksDefinitions source.cursor.text)
    (embeddings : ∀ path text, options.embeddings path = some text →
      LacksDefinitions text.toList)
    (evolves : (ofSource source options host state).Evolves Store.KeepsParents template)
    (keeps : host.KeepsParents) {session after : Session η} {id : BlockRef} {nodes : List Node}
    {node : Node} {fuel : Nat} {outcome : Except Stop Unit}
    (during : Session.Effects ⟨host, options.embeddings⟩ (fun _ => True)
      { template.session with writes := #[] } session)
    (live : session.Live id) (parsed : (session.block id).nodes? = some nodes)
    (member : node ∈ nodes) (opens : node.opensScopes = true)
    (ran : (Run.node ⟨host, options.embeddings⟩ (Run.block ⟨host, options.embeddings⟩ fuel) fuel
      (session.block id).scope node).run.run session = (outcome, after)) :
    (∀ scope ∈ session.store.heap.chain (session.block id).scope, host.Spares scope →
      (after.store.heap.entries scope).keys = (session.store.heap.entries scope).keys ∧
      ∀ mayRun, (Run.node ⟨host, options.embeddings⟩
          (Run.blockOnly mayRun ⟨host, options.embeddings⟩ fuel) fuel
          (session.block id).scope node).run.run session = (outcome, after) →
        ∀ name value, session.store.heap.get? scope name = some value →
          after.store.heap.get? scope name = some value ∨ after.Assigns mayRun name) ∧
    ∀ header body, node = .loop header body →
      after.store.heap.entries (session.block body).scope = .empty ∧
      (host.Spares (session.block body).scope → ∀ runBlock : BlockRef → Run η Unit,
        (∀ start : Session η, start.store.heap.HoldsOnly (session.block body).scope header.names →
          (runBlock body).run.run start =
            (Run.block ⟨host, options.embeddings⟩ fuel body).run.run start) →
        (Run.node ⟨host, options.embeddings⟩ runBlock fuel (session.block id).scope
          node).run.run session = (outcome, after)) := by
  have begun := evolves.begun keeps
  have nested := during.nested keeps begun.1
  have calmTemplate := evolves.calm keeps lacks embeddings
  have calm := during.calm keeps begun.1
    (calmTemplate.of_quiet ⟨rfl, rfl, fun _ => rfl, fun _ => rfl⟩ calmTemplate.placeholders)
  have lawful (mayRun : BlockRef → Node → Bool) :
      (Run.Rules.under ⟨host, options.embeddings⟩ node mayRun).Lawful ⟨host, options.embeddings⟩ :=
    Session.lawful_under keeps
  have performs := Run.performs_block (lawful fun _ _ => true) (fun _ => trivial)
    (fun _ _ => rfl) fuel
  have deeds : session.Deeds ⟨host, options.embeddings⟩
      (.under ⟨host, options.embeddings⟩ node fun _ _ => true) after := by
    obtain ⟨deeds, -⟩ := Session.does_under keeps nested live parsed member opens performs
      ⟨nested, calm⟩ (.inl fun _ => trivial)
    rw [ran] at deeds
    exact deeds
  constructor
  · intro scope isAround spares
    have around := nested.around live isAround
    have revised := Session.revised_under keeps nested parsed member opens spares calm deeds around
    refine ⟨revised.keys_eq, ?_⟩
    intro mayRun only
    have performsOnly := Run.performs_blockOnly (lawful mayRun) (fun _ => trivial)
      (fun _ _ may => may) fuel
    obtain ⟨deedsOnly, -⟩ := Session.does_under keeps nested live parsed member opens performsOnly
      ⟨nested, calm⟩ (.inl fun _ => trivial)
    rw [only] at deedsOnly
    have revisedOnly :=
      Session.revised_under keeps nested parsed member opens spares calm deedsOnly around
    exact revisedOnly.values
  · rintro header body rfl
    have owns : (Run.Rules.under ⟨host, options.embeddings⟩ (.loop header body)
        fun _ _ => true).Owns session (session.block body).scope body :=
      Session.owns_under nested live parsed member opens (.loop header body)
    have present := owns.comes.1.lt nested
    constructor
    · have ext := deeds.toExtends (lawful _) ⟨nested, calm⟩
      have nestedAfter := (deeds.holds (lawful _) ⟨nested, calm⟩).1
      have inRange := nestedAfter.inRange body (ext.lt present)
      rw [ext.scope present] at inRange
      have isAfter : ((Run.loop ⟨host, options.embeddings⟩
        (Run.block ⟨host, options.embeddings⟩ fuel)
          fuel (session.block id).scope header body).run.run session).2 = after :=
        congrArg Prod.snd ran
      rw [← isAfter] at inRange ⊢
      exact Session.entries_loop present inRange
    · intro spares runBlock same
      rw [← ran]
      exact Run.loop_eq (lawful _) spares performs same rfl ⟨nested, calm⟩ owns

/-- A text whose loop adds numbers to a total around it, as an example. -/
def sum : AnySource :=
  .plain (.ofString
    "@var total = 0\n@for(i = 1; i < 3; i++)@var next = total + i\n@set_var total = next\n@endfor")

/-- The environment of the template of the text. -/
def adding : Environment Unit where
  host := Host.none
  embeddings _ := none

/-- The session in which the template of the text is rendered for the second time. -/
def summed : Session Unit :=
  { ((ofSource sum {} Host.none ()).render 5).2.session with writes := #[] }

/-- Whether its loop ends well with the sum as the total. -/
def summedLoops : Bool :=
  let root := (ofSource sum {} Host.none ()).root
  match (summed.block root).nodes? with
  | some [_, .loop header body] =>
      (Run.node adding (Run.block adding 5) 5 (summed.block root).scope
        (.loop header body)).succeeds summed fun _ after =>
          decide (after.store.heap.get? .global "total" = some (.int 6))
  | _ => false

theorem bindings_confined_summed :
    ∃ (body : BlockRef) (header : LoopHeader) (after : Session Unit),
      (Run.node adding (Run.block adding 5) 5 .global (.loop header body)).run.run summed =
        (.ok (), after) ∧
      after.store.heap.get? .global "total" = some (.int 6) ∧
      (after.store.heap.entries .global).keys = ["total"] ∧
      after.store.heap.entries (summed.block body).scope = .empty := by
  let root := (ofSource sum {} Host.none ()).root
  have check : summedLoops = true := by decide +kernel
  unfold summedLoops at check
  dsimp only at check
  split at check
  case h_2 => cases check
  case h_1 first header body parsed =>
    obtain ⟨_, after, ran, isSix⟩ := Run.ok_of_succeeds check
    have lacks : LacksDefinitions sum.cursor.text := by
      unfold LacksDefinitions
      decide +kernel
    have noEmbeddings (path text : String) (found : ({} : Options).embeddings path = some text) :
        LacksDefinitions text.toList := nomatch found
    have evolves : (ofSource sum {} Host.none ()).Evolves Store.KeepsParents
        ((ofSource sum {} Host.none ()).render 5).2 := .render .refl 5
    have during : Session.Effects adding (fun _ => True) summed summed := .refl
    have live : summed.Live root := by
      have begun := (evolves.begun Host.keepsParents_none).2
      rw [evolves.root] at begun
      exact begun
    obtain ⟨around, loops⟩ := bindings_confined lacks noEmbeddings evolves Host.keepsParents_none
      during live parsed (List.mem_cons_of_mem _ List.mem_cons_self) rfl ran
    have isAround : ScopeRef.global ∈ summed.store.heap.chain (summed.block root).scope := by
      decide +kernel
    obtain ⟨keys, -⟩ := around .global isAround (Host.spares_none _)
    have isGlobal : (summed.block root).scope = .global := by decide +kernel
    have keysBefore : (summed.store.heap.entries .global).keys = ["total"] := by decide +kernel
    rw [isGlobal] at ran
    exact ⟨body, header, after, ran, of_decide_eq_true isSix, keys.trans keysBefore,
      (loops header body rfl).1⟩

/-- A function of the host that is called in a branch may declare a name around it, and a member
that is called there may change a list that is bound around it. -/
theorem bindings_changed_by_calls :
    (∃ (node : Node) (after : Session Unit),
      Reruns "@if(true)@var(call())@endif" (globalBinder "fresh") (withFunction id) node after ∧
      node.opensScopes = true ∧
      ((rerun "@if(true)@var(call())@endif" (globalBinder "fresh")
        (withFunction id)).store.heap.entries .global).keys = ["call"] ∧
      (after.store.heap.entries .global).keys = ["call", "fresh"]) ∧
    ∃ (node : Node) (after : Session Unit) (list : ListRef),
      Reruns "@if(true)@var(xs.add(1))@endif" Host.none (withList ["xs"]) node after ∧
      node.opensScopes = true ∧
      (rerun "@if(true)@var(xs.add(1))@endif" Host.none
        (withList ["xs"])).store.heap.get? .global "xs" = some (.list list) ∧
      (rerun "@if(true)@var(xs.add(1))@endif" Host.none
        (withList ["xs"])).store.heap.items list = [] ∧
      after.store.heap.get? .global "xs" = some (.list list) ∧
      after.store.heap.items list = [.int 1] := by
  constructor
  · obtain ⟨node, after, reruns, opens, keys⟩ := exists_reruns "@if(true)@var(call())@endif"
      (globalBinder "fresh") (withFunction id) Node.opensScopes
      (fun after => decide ((after.store.heap.entries .global).keys = ["call", "fresh"]))
      (by decide +kernel)
    exact ⟨node, after, reruns, opens, by decide +kernel, of_decide_eq_true keys⟩
  · let list : ListRef := ((Heap.ofGlobal "Global").newList true []).1
    obtain ⟨node, after, reruns, opens, changed⟩ := exists_reruns "@if(true)@var(xs.add(1))@endif"
      Host.none (withList ["xs"]) Node.opensScopes
      (fun after => decide (after.store.heap.get? .global "xs" = some (.list list) ∧
        after.store.heap.items list = [.int 1])) (by decide +kernel)
    obtain ⟨same, items⟩ := of_decide_eq_true changed
    exact ⟨node, after, list, reruns, opens, by decide +kernel, by decide +kernel, same, items⟩

end Template

end Stencil
