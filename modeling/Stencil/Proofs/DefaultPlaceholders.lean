import Stencil.Proofs.Activation
import Stencil.Proofs.Expression.Run
import Stencil.Proofs.Heap.Inside
import Stencil.Proofs.Run.Lockstep
import Stencil.Proofs.Run.Whole

/-!
# Placeholders of kinds

The placeholder that a kind begins with asks its argument for its text and writes that, so a value
is written as it would be without placeholders.
-/

namespace Stencil

open Text

variable {η : Type}

/-- The member that answers the text of values of a kind. -/
def Kind.textMember : Kind → Member
  | .list | .mutableList => .joinToString
  | _ => .toString

/-- The path that the body of the placeholder of a kind writes. -/
def Kind.textPath (kind : Kind) : Path :=
  [.property Placeholder.defaultParameter, .call kind.textMember.name [] false false]

theorem Kind.print_textPath (kind : Kind) :
    printAll [.read kind.textPath] = (defaultBody kind).toList := by
  cases kind <;> decide +kernel

theorem Kind.areWellFormed_textPath (kind : Kind) :
    areWellFormed false [.read kind.textPath] = true := by
  cases kind <;> decide +kernel

theorem parsesInto_defaultBody (kind : Kind) :
    ParsesInto (defaultBody kind).toList [.read kind.textPath] := by
  intro context draft outside limit here
  have sound : AreSound context.enclosingLoop.isSome [.read kind.textPath] := by
    rw [outside]
    exact areSound _ _ kind.areWellFormed_textPath
  have range : context.limit = byteLength [] + byteLength (printAll [.read kind.textPath]) := by
    rw [kind.print_textPath, limit, byteLength, Nat.zero_add]
  have stands : draft.source = .between [] (printAll [.read kind.textPath] ++ []) := by
    rw [kind.print_textPath, here, List.append_nil]
  obtain ⟨made, after, ran, blocks, -, makes⟩ := Directive.nodes_print sound rfl range rfl stands
  obtain rfl := List.forall₂_nil_left_iff.mp makes.forall₂
  refine ⟨after, ran, ?_⟩
  rw [← Array.length_toList, blocks, List.append_nil, Array.length_toList]

namespace Value

theorem eq_string_of_string? (value : Value) {text : String}
    (isString : value.string? = some text) :
    value = .string text := by
  cases value with
  | primitive value =>
      cases value with
      | string content => exact congrArg Value.string (Option.some.inj isString)
      | _ => cases isString
  | _ => cases isString

theorem kind_ne_string_of_string? (value : Value) (notString : value.string? = none) :
    value.kind ≠ .string := by
  cases value with
  | primitive value =>
      cases value with
      | string content => cases notString
      | _ => simp [kind, Primitive.kind]
  | list list =>
      obtain ⟨isMutable, index⟩ := list
      cases isMutable <;> simp [kind]
  | _ => simp [kind]

variable {heap : Heap} {value : Value}

/-- No entry of an object takes the name of the member that answers texts. -/
def KeepsToString (value : Value) (heap : Heap) : Prop :=
  ∀ object, value = .object object → heap.get? object Member.toString.name = none

theorem memberOf?_textMember (keeps : value.KeepsToString heap) :
    heap.memberOf? value value.kind.textMember.name =
      some (.member value value.kind.textMember) := by
  have known : Member.lookup? value.kind value.kind.textMember.name =
      some value.kind.textMember := by
    generalize value.kind = kind
    cases kind <;> decide
  unfold Heap.memberOf?
  cases value with
  | object object =>
      have none : heap.get? object (Value.object object).kind.textMember.name = none :=
        keeps object rfl
      dsimp only
      rw [none, known]
      rfl
  | primitive value => rw [known]; rfl
  | list list => rw [known]; rfl
  | function function => rw [known]; rfl

theorem invoke_textMember (unlooped : heap.Unlooped value) :
    value.kind.textMember.invoke value [] heap = .ok (.string (heap.display value), heap) := by
  cases value with
  | list list =>
      obtain ⟨isMutable, index⟩ := list
      rw [unlooped.display_list]
      cases isMutable <;> rfl
  | object object => rfl
  | function function => rfl
  | primitive value => cases value <;> rfl

variable {host : Host η} {store : Store η} {scope : ScopeRef}

/-- In the scope that the argument is bound in, the path leads to its text. -/
theorem follow_textPath (inRange : scope.index < store.heap.scopes.size)
    (bound : store.heap.get? scope Placeholder.defaultParameter = some value)
    (unlooped : store.heap.Unlooped value) (keeps : value.KeepsToString store.heap) :
    (Path.follow host scope value.kind.textPath).run.run store =
      (.ok (.string (store.heap.display value)), store) := by
  have read : (readName scope none Placeholder.defaultParameter : Evaluator η Value).run.run store =
      (.ok value, store) := by
    have found : store.heap.find? scope none Placeholder.defaultParameter = some (.entry value) :=
      Heap.lookup?_of_get? inRange bound
    rw [run_readName_of_found found]
    rfl
  have target : (callTarget scope (some value) value.kind.textMember.name false :
      Evaluator η Callable).run.run store = (.ok (.member value value.kind.textMember), store) := by
    have found : store.heap.find? scope (some value) value.kind.textMember.name =
      some (.member value value.kind.textMember) := memberOf?_textMember keeps
    rw [run_callTarget, Heap.target, found]
  have invoked : ((Callable.member value value.kind.textMember).invoke host (some value) []).run.run
      store = (.ok (.string (store.heap.display value)), store) := by
    rw [Callable.run_invoke_member, invoke_textMember unlooped]
  rw [Path.follow, Kind.textPath, followFrom, Segment.follow, Evaluator.run_bind_of_ok read,
    followFrom, Segment.follow, evaluateAll, bind_assoc, Evaluator.run_bind_of_ok target, pure_bind,
    Evaluator.run_bind_of_ok invoked, followFrom]
  rfl

end Value

namespace Session

/-- What writing one text makes of a session, but for where its sources stand and what was
parsed. -/
structure Wrote (text : String) (before after : Session η) : Prop where
  store : after.store = before.store
  placeholders : after.placeholders = before.placeholders
  depth : after.depth = before.depth
  writes : after.writes = before.writes.push text

variable {session before middle after : Session η} {text : String} {placeholder : Placeholder}
  {value : Value}

theorem Wrote.of_opens_left (opens : before.Opens middle) (wrote : Wrote text middle after) :
    Wrote text before after :=
  ⟨wrote.store.trans opens.store, wrote.placeholders.trans opens.placeholders,
    wrote.depth.trans opens.depth, wrote.writes.trans (congrArg (Array.push · text) opens.writes)⟩

theorem Wrote.of_opens_right (wrote : Wrote text before middle) (opens : middle.Opens after) :
    Wrote text before after :=
  ⟨opens.store.trans wrote.store, opens.placeholders.trans wrote.placeholders,
    opens.depth.trans wrote.depth, opens.writes.trans wrote.writes⟩

/-- A placeholder has the body that its kind begins with. -/
structure Seeds (session : Session η) (kind : Kind) (placeholder : Placeholder) : Prop where
  parameter : placeholder.parameter? = none
  covers : session.Covers placeholder.body (defaultBody kind).toList
  nodes : session.HoldsOnly placeholder.body [.read kind.textPath]
  inRange : (session.block placeholder.body).scope.index < session.store.heap.scopes.size

theorem Seeds.mono {kind : Kind} (seeds : before.Seeds kind placeholder)
    (ext : before.Extends after)
    (keeps : before.store.KeepsParents after.store)
    (nodes : after.HoldsOnly placeholder.body [.read kind.textPath]) :
    after.Seeds kind placeholder := by
  refine ⟨seeds.parameter, seeds.covers.mono ext, nodes, ?_⟩
  rw [ext.scope seeds.covers.present]
  exact (keeps _ seeds.inRange).1

/-- The placeholders of kinds are those that they begin with. -/
def Seeded (session : Session η) : Prop :=
  ∀ (kind : Kind) placeholder,
    session.placeholders.get? (.default kind.name) = some placeholder →
      session.Seeds kind placeholder

theorem Seeded.addText (seeded : session.Seeded) (source : AnySource) (scope : ScopeRef)
    (role : BlockRole) : (session.addText source scope role).2.Seeded := by
  intro kind placeholder found
  have seeds := seeded kind placeholder found
  refine seeds.mono (session.extends_addText source scope role) (.refl _) fun listed parsed => ?_
  rw [block_addText_of_lt seeds.covers.present] at parsed
  exact seeds.nodes listed parsed

theorem Seeded.addDefaultPlaceholder (seeded : session.Seeded) (kind : Kind) :
    (session.addDefaultPlaceholder kind).Seeded := by
  intro other placeholder found
  have registry : (session.addDefaultPlaceholder kind).placeholders =
      session.placeholders.put (.default kind.name) ⟨⟨session.blocks.size⟩, none⟩ := rfl
  have blocks : (session.addDefaultPlaceholder kind).blocks = session.blocks.push
      (.ofSource (AnySource.plain (.ofString (defaultBody kind))) ⟨session.sources.size⟩
        ⟨session.store.heap.scopes.size⟩ .placeholder) := rfl
  rw [registry] at found
  by_cases same : Placeholder.Key.default other.name = .default kind.name
  · obtain rfl := Kind.name_injective (congrArg Placeholder.Key.name same)
    rw [Dictionary.get?_put_self] at found
    cases found
    have isThere : (session.addDefaultPlaceholder other).blocks[session.blocks.size]? =
        some (.ofSource (AnySource.plain (.ofString (defaultBody other))) ⟨session.sources.size⟩
          ⟨session.store.heap.scopes.size⟩ .placeholder) := by
      rw [blocks]
      exact Array.getElem?_push_size
    have isBlock : (session.addDefaultPlaceholder other).block ⟨session.blocks.size⟩ = _ :=
      block_eq_of_getElem? isThere
    have isText : (session.addDefaultPlaceholder other).text ⟨session.sources.size⟩ =
        (defaultBody other).toList := by
      have sources : (session.addDefaultPlaceholder other).sources = session.sources.push
          (.plain (.ofString (defaultBody other))) := rfl
      rw [Session.text, Session.source, sources, Array.getD_eq_getD_getElem?,
        Array.getElem?_push_size]
      rfl
    refine ⟨rfl, covers_of_block isThere ?_ isText, fun listed parsed => ?_, ?_⟩
    · exact Nat.lt_of_lt_of_eq (Nat.lt_succ_self _) (Array.size_push _).symm
    · rw [show (session.addDefaultPlaceholder other).block _ = _ from isBlock] at parsed
      cases parsed
    · rw [show (session.addDefaultPlaceholder other).block _ = _ from isBlock]
      exact Nat.lt_of_lt_of_eq (Nat.lt_succ_self _) (Array.size_push _).symm
  · rw [Dictionary.get?_put_of_ne _ _ same] at found
    have seeds := seeded other placeholder found
    refine seeds.mono (session.extends_addDefaultPlaceholder kind) (.newScope _ _ _)
      fun listed parsed => seeds.nodes listed ?_
    rwa [Session.block, blocks, Array.getD_eq_getD_getElem?,
      Array.getElem?_push_lt seeds.covers.present, ← Array.getElem?_eq_getElem,
      ← Array.getD_eq_getD_getElem?] at parsed

/-- A kind goes on having a placeholder while others are added. -/
theorem isSome_get?_addDefaultPlaceholder {kind : Kind} (other : Kind)
    (has : other = kind ∨ (session.placeholders.get? (.default kind.name)).isSome = true) :
    ((session.addDefaultPlaceholder other).placeholders.get?
        (.default kind.name)).isSome = true := by
  have registry : (session.addDefaultPlaceholder other).placeholders =
      session.placeholders.put (.default other.name) ⟨⟨session.blocks.size⟩, none⟩ := rfl
  rw [registry]
  by_cases same : Placeholder.Key.default kind.name = .default other.name
  · rw [same, Dictionary.get?_put_self]
    rfl
  · rw [Dictionary.get?_put_of_ne _ _ same]
    rcases has with rfl | has
    · exact absurd rfl same
    · exact has

/-- Every kind but strings begins with a placeholder. -/
theorem isSome_get?_addDefaultPlaceholders (session : Session η) {kind : Kind}
    (notString : kind ≠ .string) :
    (session.addDefaultPlaceholders.placeholders.get? (.default kind.name)).isSome = true := by
  have added (kinds : List Kind) (session : Session η)
      (has : kind ∈ kinds ∨ (session.placeholders.get? (.default kind.name)).isSome = true) :
      ((kinds.foldl addDefaultPlaceholder session).placeholders.get?
        (.default kind.name)).isSome = true := by
    induction kinds generalizing session with
    | nil => exact has.resolve_left nofun
    | cons next kinds induction =>
        apply induction
        rcases has with member | has
        · rcases List.mem_cons.mp member with rfl | later
          · exact .inr (isSome_get?_addDefaultPlaceholder kind (.inl rfl))
          · exact .inl later
        · exact .inr (isSome_get?_addDefaultPlaceholder next (.inr has))
  apply added
  left
  cases kind with
  | string => exact absurd rfl notString
  | _ => decide

theorem items_entering (session : Session η) (placeholder : Placeholder) (argument : Value)
    (list : ListRef) : (session.entering placeholder argument).store.heap.items list =
      session.store.heap.items list := rfl

theorem quiet_entering (session : Session η) (placeholder : Placeholder) (argument : Value) :
    session.Quiet (session.entering placeholder argument) :=
  ⟨rfl, rfl, fun _ => rfl, fun _ => rfl⟩

end Session

namespace Run

variable {environment : Environment η} {session : Session η} {placeholder : Placeholder}
  {value : Value} {fuel : Nat}

/-- Reading the text of the argument writes it. -/
theorem ran_textNode (runBlock : BlockRef → Run η Unit) {scope : ScopeRef}
    (inRange : scope.index < session.store.heap.scopes.size)
    (bound : session.store.heap.get? scope Placeholder.defaultParameter = some value)
    (unlooped : session.store.heap.Unlooped value)
    (keeps : value.KeepsToString session.store.heap) :
    (nodes (node environment runBlock fuel scope) none
        [.read value.kind.textPath]).run.run session =
      pure (.ok (), { session with
        writes := session.writes.push (session.store.heap.display value) }) := by
  have followed : (onStore (Path.follow environment.host scope value.kind.textPath) :
      Run η Value).run.run session =
        pure (.ok (.string (session.store.heap.display value)), session) := by
    change (((Path.follow environment.host scope value.kind.textPath).run.run
      session.store).1.mapError
      Stop.failed, { session with
        store := ((Path.follow environment.host scope value.kind.textPath).run.run
          session.store).2 }) = _
    rw [Value.follow_textPath inRange bound unlooped keeps]
    rfl
  have ran : (node environment runBlock fuel scope (.read value.kind.textPath)).run.run session =
      pure (.ok (), { session with
        writes := session.writes.push (session.store.heap.display value) }) := by
    change (onStore (Path.follow environment.host scope value.kind.textPath) >>= fun found =>
      if value.kind.textPath.isSilent then return () else emit runBlock found :
        Run η Unit).run.run session = _
    rw [run_bind_of_ok followed]
    rfl
  change (node environment runBlock fuel scope (.read value.kind.textPath) >>= fun _ =>
    nodes (node environment runBlock fuel scope) none []).run.run session = _
  rw [run_bind_of_ok ran]
  rfl

/-- Using the placeholder of a kind with a value of the kind writes the text of the value and binds
the value in the scope of the placeholder. -/
theorem ran_runPlaceholder_of_seeds (valid : session.Valid environment.embeddings)
    (seeds : session.Seeds value.kind placeholder)
    (registered : session.placeholders.get? (.default value.kind.name) = some placeholder)
    (below : session.depth < nestingLimit)
    (unlooped : (session.entering placeholder value).store.heap.Unlooped value)
    (keeps : value.KeepsToString session.store.heap) (fuel : Nat) :
    ∃ after text, session.store.heap.display? value = some text ∧
      (runPlaceholder (block environment (fuel + 1)) (.default value.kind.name)
        (some value)).run.run session = (.ok (), after) ∧
      after.store = (session.entering placeholder value).store ∧
      after.placeholders = session.placeholders ∧ after.depth = session.depth ∧
      after.writes = session.writes.push text := by
  let scope := (session.block placeholder.body).scope
  let entered := session.entering placeholder value
  have named : placeholder.parameter = Placeholder.defaultParameter := by
    rw [Placeholder.parameter, seeds.parameter]
    rfl
  have quiet := session.quiet_entering placeholder value
  have validEntered : entered.Valid environment.embeddings := quiet.valid valid valid.placeholders
  have inRange : scope.index < entered.store.heap.scopes.size := by
    have size : entered.store.heap.scopes.size = session.store.heap.scopes.size :=
      (Heap.size_modifyEntries _ _ _).trans (Heap.size_modifyEntries _ _ _)
    rw [size]
    exact seeds.inRange
  have bound : entered.store.heap.get? scope Placeholder.defaultParameter = some value := by
    rw [← named]
    exact Heap.get?_bindOnly seeds.inRange
  have keepsEntered : value.KeepsToString entered.store.heap := by
    intro object isObject
    have apart : object ≠ scope := by
      rintro rfl
      exact Heap.Unlooped.not_reaches_scope seeds.inRange unlooped (.inl isObject.symm)
    rw [Heap.get?, show entered.store.heap.entries object = _ from
      Heap.entries_bindOnly_of_ne _ _ apart]
    exact keeps object isObject
  have shown : session.store.heap.display? value = some (entered.store.heap.display value) :=
    Heap.Unlooped.display_bindOnly seeds.inRange unlooped
  have writes (opened : Session η) (opens : entered.Opens opened) : ∃ after,
      (nodes (node environment (block environment fuel) fuel scope) none
          [.read value.kind.textPath]).run.run opened = pure (.ok (), after) ∧
        opened.Extends after ∧ Session.Wrote (entered.store.heap.display value) entered after := by
    rw [← opens.store] at inRange bound keepsEntered
    have unloopedOpened : opened.store.heap.Unlooped value := by
      rw [opens.store]
      exact unlooped
    have same : opened.store.heap.display value = entered.store.heap.display value := by
      rw [opens.store]
    rw [← same]
    exact ⟨_, ran_textNode _ inRange bound unloopedOpened keepsEntered,
      ⟨(Session.Extends.refl opened).block, (Session.Extends.refl opened).source⟩,
      .of_opens_left opens ⟨rfl, rfl, rfl, rfl⟩⟩
  obtain ⟨after, last, ran, opens, wrote⟩ := ran_block_of_nodes validEntered
    (seeds.covers.mono quiet.toExtends) (parsesInto_defaultBody value.kind) seeds.nodes fuel
    (Session.Wrote (entered.store.heap.display value) entered) writes
  have finished := wrote.of_opens_right opens
  refine ⟨{ last with depth := last.depth - 1 }, _, shown, ?_, finished.store,
    finished.placeholders, ?_, finished.writes⟩
  · have atEnd (run : Run η Unit) (change : Session η → Session η) (begun : Session η) :
        (andFinally run change).run.run begun =
          ((run.run.run begun).1, change (run.run.run begun).2) := rfl
    rw [runPlaceholder_run value registered below, ← blockWith_eq, atEnd]
    exact congrArg (fun result : Except Stop Unit × Session η =>
      (result.1, { result.2 with depth := result.2.depth - 1 })) ran
  · exact (congrArg (· - 1) finished.depth).trans (Nat.add_sub_cancel _ _)

end Run

namespace Run

variable {runBlock : BlockRef → Run η Unit} {session : Session η} {value : Value}

/-- A value that is no string is written through the placeholder of its kind. -/
theorem emit_of_registered (notString : value.string? = none) {placeholder : Placeholder}
    (registered : session.placeholders.get? (.default value.kind.name) = some placeholder) :
    (emit runBlock value).run.run session =
      (runPlaceholder runBlock (.default value.kind.name) (some value)).run.run session := by
  have known : session.placeholders.contains (.default value.kind.name) = true :=
    Dictionary.contains_eq_true_iff.mpr
      (Dictionary.get?_isSome_iff.mp (Option.isSome_of_mem registered))
  unfold emit
  rw [notString]
  change (if session.placeholders.contains (.default value.kind.name) then _ else _ :
    Run η Unit).run.run session = _
  rw [known]
  rfl

/-- A value whose kind has no placeholder is written as its own text. -/
theorem emit_of_not_registered (notString : value.string? = none)
    (absent : session.placeholders.get? (.default value.kind.name) = none) :
    (emit runBlock value).run.run session = (.ok (), { session with
      writes := session.writes.push (session.store.heap.display value) }) := by
  have unknown : session.placeholders.contains (.default value.kind.name) = false := by
    apply Bool.eq_false_iff.mpr
    intro known
    have found := Dictionary.get?_isSome_iff.mpr (Dictionary.contains_eq_true_iff.mp known)
    rw [absent] at found
    cases found
  unfold emit
  rw [notString]
  change (if session.placeholders.contains (.default value.kind.name) then _ else _ :
    Run η Unit).run.run session = _
  rw [unknown]
  rfl

end Run

namespace Template

variable {source : AnySource} {options : Options} {host : Host η} {state : η} {session : Session η}

theorem seeded_ofSource : (ofSource source options host state).session.Seeded :=
  ofSource_induction Session.Seeded source options host state
    (fun _ _ found => nomatch found)
    (fun _ kind seeded => seeded.addDefaultPlaceholder kind)
    fun _ seeded => seeded.addText source .global .root

/-- As long as a kind has the placeholder that it began with, that has the body that it began
with. -/
theorem seeds_of_chain
    (chain : (ofSource source options host state).session.Chain Policy.parents options.embeddings
      session) {kind : Kind} {placeholder : Placeholder}
    (isFirst : (ofSource source options host state).session.placeholders.get? (.default kind.name) =
      some placeholder) : session.Seeds kind placeholder := by
  have seeds := seeded_ofSource kind placeholder isFirst
  obtain ⟨ext, parents⟩ := keepsScopes_of_chain chain
  exact seeds.mono ext parents (chain.holdsOnly (valid_ofSource source options host state)
    seeds.covers (parsesInto_defaultBody kind) seeds.nodes)

theorem isSome_get?_ofSource (defaults : options.defaultPlaceholders = true) {kind : Kind}
    (notString : kind ≠ .string) :
    ((ofSource source options host state).session.placeholders.get?
      (.default kind.name)).isSome = true := by
  have added (session : Session η) :
      (session.addText source .global .root).2.placeholders = session.placeholders := rfl
  unfold ofSource
  dsimp only
  rw [added, defaults, if_pos rfl]
  exact Session.isSome_get?_addDefaultPlaceholders _ notString

/-- While a kind has the placeholder that it began with, writing a value of the kind through it
writes the text of the value, once, and changes no scope but the one of the placeholder, as long as
nothing loops inside the value when it is bound there.  The same text is written where the kind has
no placeholder. -/
theorem default_placeholder_native (defaults : options.defaultPlaceholders = true)
    (chain : (ofSource source options host state).session.Chain Policy.parents options.embeddings
      session) (value : Value)
    (registered : session.placeholders.get? (.default value.kind.name) =
      (ofSource source options host state).session.placeholders.get? (.default value.kind.name))
    (below : session.depth < Run.nestingLimit)
    (unlooped : ∀ placeholder,
      session.placeholders.get? (.default value.kind.name) = some placeholder →
        (session.entering placeholder value).store.heap.Unlooped value)
    (keeps : value.KeepsToString session.store.heap) (fuel : Nat) :
    let environment : Environment η := ⟨host, options.embeddings⟩
    let writing : Run η Unit := Run.emit (Run.block environment (fuel + 1)) value
    ∃ text after, session.store.heap.display? value = some text ∧
      writing.run.run session = (.ok (), after) ∧
      after.writes = session.writes.push text ∧ after.depth = session.depth ∧
      after.placeholders = session.placeholders ∧
      (∀ scope : ScopeRef, (∀ placeholder,
        session.placeholders.get? (.default value.kind.name) = some placeholder →
          scope ≠ (session.block placeholder.body).scope) →
        after.store.heap.scope scope = session.store.heap.scope scope) ∧
      ∀ bare : Session η, bare.store = session.store →
        bare.placeholders.get? (.default value.kind.name) = none →
        writing.run.run bare = (.ok (), { bare with writes := bare.writes.push text }) := by
  intro environment writing
  cases isString : value.string? with
  | some text =>
      obtain rfl := value.eq_string_of_string? isString
      refine ⟨text, _, rfl, rfl, rfl, rfl, rfl, fun _ _ => rfl, fun _ _ _ => rfl⟩
  | none =>
      have notString := value.kind_ne_string_of_string? isString
      obtain ⟨placeholder, isFirst⟩ := Option.isSome_iff_exists.mp
        (@isSome_get?_ofSource _ source _ host state defaults _ notString)
      have isHere := registered.trans isFirst
      have valid : session.Valid environment.embeddings :=
        chain.valid (valid_ofSource source options host state)
      obtain ⟨after, text, shown, ran, store, placeholders, depth, writes⟩ :=
        Run.ran_runPlaceholder_of_seeds valid (seeds_of_chain chain isFirst) isHere below
          (unlooped placeholder isHere) keeps fuel
      refine ⟨text, after, shown, (Run.emit_of_registered isString isHere).trans ran, writes, depth,
        placeholders, fun scope others => ?_, fun bare same absent => ?_⟩
      · have apart := others placeholder isHere
        rw [store]
        exact (Heap.scope_modifyEntries_of_ne _ apart).trans
          (Heap.scope_modifyEntries_of_ne _ apart)
      · rw [Run.emit_of_not_registered isString absent, same, Heap.display, shown]
        rfl

/-- A template that makes a list of numbers. -/
def listing : Template Unit :=
  ofString "@var xs = @list(1, 2)\n" {} Host.none ()

theorem default_placeholder_native_listing :
    let session := (listing.render 9).2.session
    let writing : Run Unit Unit := Run.emit (Run.block listing.environment 9) (.list ⟨false, 0⟩)
    (∀ placeholder, session.placeholders.get? (.default "list") = some placeholder →
      (session.entering placeholder (.list ⟨false, 0⟩)).store.heap.Unlooped (.list ⟨false, 0⟩)) ∧
    ∃ text after, session.store.heap.display? (.list ⟨false, 0⟩) = some text ∧
      writing.run.run session = (.ok (), after) ∧
      after.writes = session.writes.push text ∧ after.depth = session.depth ∧
      after.placeholders = session.placeholders ∧
      (∀ scope : ScopeRef, (∀ placeholder,
        session.placeholders.get? (.default "list") = some placeholder →
          scope ≠ (session.block placeholder.body).scope) →
        after.store.heap.scope scope = session.store.heap.scope scope) ∧
      ∀ bare : Session Unit, bare.store = session.store →
        bare.placeholders.get? (.default "list") = none →
        writing.run.run bare = (.ok (), { bare with writes := bare.writes.push text }) := by
  have evolves : listing.Evolves Store.KeepsParents (listing.render 9).2 := .render .refl 9
  have items : (listing.render 9).2.session.store.heap.items ⟨false, 0⟩ = [.int 1, .int 2] := by
    decide +kernel
  have unlooped (placeholder : Placeholder) :
      ((listing.render 9).2.session.entering placeholder
        (.list ⟨false, 0⟩)).store.heap.Unlooped (.list ⟨false, 0⟩) := by
    apply Heap.unlooped_of_primitives
    intro part holds
    have member : part ∈ ((listing.render 9).2.session.entering placeholder
      (.list ⟨false, 0⟩)).store.heap.items ⟨false, 0⟩ := holds
    rw [Session.items_entering, items] at member
    rcases List.mem_pair.mp member with rfl | rfl
    · exact ⟨_, rfl⟩
    · exact ⟨_, rfl⟩
  refine ⟨fun placeholder _ => unlooped placeholder, ?_⟩
  exact default_placeholder_native rfl (evolves.chain_parents Host.keepsParents_none)
    (.list ⟨false, 0⟩) (by decide +kernel) (by decide +kernel)
    (fun placeholder _ => unlooped placeholder)
    (fun _ isObject => nomatch isObject) 8

end Template

end Stencil
