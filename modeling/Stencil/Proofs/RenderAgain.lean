import Stencil.Proofs.ParseOnce
import Stencil.Proofs.Reading.Nodes
import Stencil.Proofs.Run.Refines
import Stencil.Proofs.Template.Scopes

/-!
# Rendering again

A render that only reads leaves behind marks of left loops, entries of scopes that blocks own,
lists, functions, and sources at other places.  None of that can be observed: the next render writes
the same texts and ends in the same way.
-/

namespace Stencil

open Text

variable {η : Type}

/-- The values that the entries of the global scope lead to. -/
inductive Heap.Leads (heap : Heap) : Value → Prop where
  | entry (value : Value) (member : value ∈ (heap.entries .global).values) : Leads heap value
  | item (list : ListRef) (value : Value) (leads : Leads heap (.list list))
      (member : value ∈ heap.items list) : Leads heap value
  | member (object : ScopeRef) (value : Value) (leads : Leads heap (.object object))
      (member : value ∈ (heap.entries object).values) : Leads heap value
  | receiver (function : FunctionRef) (value : Value) (method : Member)
      (leads : Leads heap (.function function))
      (isMember : heap.callable function = .member value method) : Leads heap value

/-- What the global scope leads to is on the heap, and none of it is the own scope of a block. -/
structure Session.Supplied (session : Session η) : Prop where
  lists : ∀ list, session.store.heap.Leads (.list list) → session.store.heap.hasList list
  functions : ∀ function : FunctionRef, session.store.heap.Leads (.function function) →
    function.index < session.store.heap.functions.size
  objects : ∀ object : ScopeRef, session.store.heap.Leads (.object object) →
    object.index < session.store.heap.scopes.size ∧
      ∀ block, (session.block block).role.ownsScope = true → (session.block block).scope ≠ object

/-- The heaps when a run began and ended look alike in everything that the global scope leads to. -/
def View.outset (first last : Heap) : View where
  shift := ⟨first, last⟩
  lists list := first.Leads (.list list)
  functions function := first.Leads (.function function)
  scopes scope := scope = .global ∨ first.Leads (.object scope)
  marks _ := False

namespace View

variable {first last : Heap} {value : Value}

/-- References from before the first run stay what they are. -/
theorem value_of_knows (known : (outset first last).Knows first value) :
    (outset first last).shift.value value = value := by
  cases value with
  | primitive value => rfl
  | object object => rfl
  | list list =>
      have stays : Shift.place first.lists.size last.lists.size list.index = list.index :=
        if_pos known.1
      exact congrArg (fun index => Value.list ⟨list.isMutable, index⟩) stays
  | function function =>
      have stays : Shift.place first.functions.size last.functions.size function.index =
          function.index := if_pos known.1
      exact congrArg (fun index => Value.function ⟨index⟩) stays

theorem values_of_knows {values : List Value}
    (known : ∀ value ∈ values, (outset first last).Knows first value) :
    values.map (outset first last).shift.value = values := by
  conv => rhs; rw [← List.map_id values]
  apply List.map_congr_left
  exact fun value member => value_of_knows (known value member)

end View

namespace Session

variable {session last : Session η} {environment : Environment η} {called : List String}

theorem Supplied.knows (supplied : session.Supplied) (last : Session η) {value : Value}
    (leads : session.store.heap.Leads value) :
    (View.outset session.store.heap last.store.heap).Knows session.store.heap value := by
  cases value with
  | primitive value => trivial
  | list list => exact ⟨supplied.lists list leads, fun _ => leads⟩
  | object object => exact .inr leads
  | function function => exact ⟨supplied.functions function leads, fun _ => leads⟩

/-- The global scope and the objects it leads to stay as they are while a run only reads. -/
theorem Supplied.entries (supplied : session.Supplied) (keeps : environment.host.KeepsParents)
    (nested : session.Nested environment.embeddings) (reads : session.Reads environment called last)
    {scope : ScopeRef} (known : scope = .global ∨ session.store.heap.Leads (.object scope)) :
    scope.index < session.store.heap.scopes.size ∧
      last.store.heap.entries scope = session.store.heap.entries scope := by
  have inRange : scope.index < session.store.heap.scopes.size := by
    rcases known with rfl | leads
    · exact nested.global.1
    · exact (supplied.objects scope leads).1
  refine ⟨inRange, reads.entries scope inRange fun block owns isScope => ?_⟩
  have ext := reads.effects.toExtends keeps nested
  by_cases isOld : block.index < session.blocks.size
  · rw [ext.role isOld] at owns
    rw [ext.scope isOld] at isScope
    rcases known with rfl | leads
    · exact nested.own block isOld owns isScope
    · exact (supplied.objects scope leads).2 block owns isScope
  · have isNew := reads.fresh block (Nat.le_of_not_lt isOld) owns
    rw [isScope] at isNew
    exact absurd inRange (Nat.not_lt.mpr isNew)

theorem Supplied.alike (supplied : session.Supplied) (keeps : environment.host.KeepsParents)
    (nested : session.Nested environment.embeddings)
    (reads : session.Reads environment called last) :
    (View.outset session.store.heap last.store.heap).Alike session.store.heap last.store.heap := by
  have covers := reads.heap.covers
  constructor
  · have grown := covers.1
    simp only [View.outset]
    omega
  · have grown := covers.2
    simp only [View.outset]
    omega
  · exact reads.heap.size_scopes_le
  · intro list known
    have leads := known.2 known.1
    have itemsKnown (item : Value) (member : item ∈ session.store.heap.items list) :=
      supplied.knows last (.item list item leads member)
    have same := View.value_of_knows known
    simp only [Shift.value, Value.list.injEq] at same
    rw [same, reads.heap.items list known.1, View.values_of_knows itemsKnown]
    exact ⟨rfl, itemsKnown⟩
  · intro function known
    have leads := known.2 known.1
    have same := View.value_of_knows known
    simp only [Shift.value, Value.function.injEq] at same
    rw [same, reads.heap.callables function known.1]
    cases isCallable : session.store.heap.callable function with
    | host function => exact ⟨rfl, trivial⟩
    | member receiver method =>
        have isKnown := supplied.knows last
          (.receiver function receiver method leads isCallable)
        refine ⟨?_, isKnown⟩
        rw [Shift.callable, View.value_of_knows isKnown]
  · intro scope known
    obtain ⟨inRange, entries⟩ := supplied.entries keeps nested reads known
    have valuesKnown (value : Value) (member : value ∈ (session.store.heap.entries scope).values) :
        (View.outset session.store.heap last.store.heap).Knows session.store.heap value := by
      apply supplied.knows
      rcases known with rfl | leads
      · exact .entry value member
      · exact .member scope value leads member
    refine ⟨inRange, (reads.heap.scopes scope inRange).2.1, ?_, valuesKnown⟩
    rw [entries, Dictionary.mapValues_eq_self]
    exact fun value member => View.value_of_knows (valuesKnown value member)

/-- A session about to write nothing yet. -/
theorem Settled.begin (settled : session.Settled environment called) :
    Session.Settled environment called { session with writes := #[] } := by
  have quiet : session.Quiet { session with writes := #[] } :=
    ⟨rfl, rfl, fun _ => rfl, fun _ => rfl⟩
  constructor
  · apply settled.nested.of_quiet quiet (.refl _)
    exact fun key placeholder found => ⟨settled.nested.placeholders key placeholder found,
      settled.nested.valid.placeholders key placeholder found⟩
  · exact settled.tops
  · exact settled.only.later (.single .begin) rfl
  · exact settled.lacks

/-- A run of a block in the global scope, which declares nothing there, is repeated by the next
one. -/
theorem run_again {root : BlockRef} (keeps : environment.host.KeepsParents)
    (settled : session.Settled environment called) (supplied : session.Supplied)
    (live : session.Live root) (isGlobal : (session.block root).scope = .global)
    (noLoop : (session.block root).enclosingLoop = none)
    (undeclared : ∀ nodes, ((Run.nodesOf environment root).run.run session).1 = .ok nodes →
      ∀ node ∈ nodes, node.declares = false)
    (noWrites : session.writes = #[]) {fuel : Nat} {outcome : Except Stop Unit}
    (ran : (Run.block environment fuel root).run.run session = (outcome, last)) :
    ∃ next, (Run.block environment fuel root).run.run { last with writes := #[] } =
        (outcome, next) ∧
      next.writes = last.writes ∧ last.Quiet next ∧
      next.store.heap.entries .global = last.store.heap.entries .global ∧
      ∀ list, last.store.heap.hasList list →
        next.store.heap.items list = last.store.heap.items list := by
  let rerun : Rerun η :=
    { environment, keeps, called, final := last,
      shift := ⟨session.store.heap, last.store.heap⟩ }
  have nested := settled.nested
  have mirrors : rerun.Mirrors {} session (Run.block environment fuel root)
      (Run.block environment fuel root) id (fun _ _ => True) fun _ => {} := by
    cases fuel with
    | zero => exact .stop _
    | succ fuel =>
        apply Rerun.Mirrors.blockWith (Rerun.Mirrors.plays_block rerun fuel) fuel live
        · exact fun other => absurd isGlobal other
        · exact fun _ => undeclared
        · rw [isGlobal]
          exact List.mem_cons_self
        · rw [noLoop]
          exact fun _ member => nomatch member
  obtain ⟨reads, depth, -, twins⟩ := mirrors settled
  rw [ran] at reads depth twins
  have alike := supplied.alike keeps nested reads
  have known : ({} : Setting).Known (View.outset session.store.heap last.store.heap)
      session.store.heap := by
    constructor
    · intro scope member
      rw [List.mem_singleton.mp member]
      exact .outermost .global (.inl rfl) nested.global.2
    · exact fun _ member => nomatch member
    · exact fun _ member => nomatch member
  have twin : rerun.Twin (View.outset session.store.heap last.store.heap) session
      { last with writes := #[] } := by
    constructor
    · rfl
    · exact alike
    · exact depth
    · exact noWrites.symm
    · exact reads.placeholders
    · exact fun _ marked => marked.elim
    · exact ⟨rfl, rfl, fun _ => rfl, fun _ => rfl⟩
    · exact .refl _
  obtain ⟨later, grows, twinLater, sameOutcome, -⟩ := twins _ _ known twin (.refl _)
  refine ⟨_, Prod.ext ?_ rfl, twinLater.writes, twinLater.quiet, ?_, ?_⟩
  · rw [sameOutcome]
    cases outcome <;> rfl
  · obtain ⟨-, -, entries, -⟩ := twinLater.alike.scopes .global (grows.scopes _ (.inl rfl))
    rw [entries, grows.shift, reads.entries_global keeps nested]
    apply Dictionary.mapValues_eq_self
    exact fun value member => View.value_of_knows (supplied.knows last (.entry value member))
  · exact fun list present => twinLater.heap.items list present

/-- A run of a session that only reads keeps the placeholders. -/
theorem Effects.placeholders {mayEnter : BlockRef → Prop} (keeps : environment.host.KeepsParents)
    (effects : session.Effects environment mayEnter last)
    (nested : session.Nested environment.embeddings)
    (only : session.ReadsOnly called environment.embeddings) :
    last.placeholders = session.placeholders := by
  induction effects with
  | refl => rfl
  | @tail middle last earlier effect induction =>
      have nestedMiddle := Effects.nested keeps earlier nested
      rw [← induction]
      cases effect with
      | parse id present unparsed atStart =>
          have sourcePresent := nestedMiddle.valid.source_lt (getElem?_of_lt present)
          exact (@parsing_parseBlock _ _ environment.embeddings _ present sourcePresent unparsed
            atStart).placeholders
      | define id nodes key parameter body live parsed member =>
          have reads := only.nodes middle (Effects.chain keeps earlier nested) id nodes parsed _
            member
          cases reads.unchanging
      | _ => rfl

/-- Blocks of texts that only read are parsed into nodes that only read. -/
theorem readsOnly_of_textsAre {embeddings : Embeddings} (valid : session.Valid embeddings)
    (texts : session.TextsAre (Text.ReadsOnly called))
    (parameters : ∀ key placeholder, session.placeholders.get? key = some placeholder →
      placeholder.parameter ∉ called)
    (noAdd : "add" ∉ called) (noRemove : "remove" ∉ called) :
    session.ReadsOnly called embeddings := by
  refine ⟨?_, parameters, noAdd, noRemove⟩
  intro after chain id nodes parsed node member
  have embedded : EmbedsOnly embeddings (Text.ReadsOnly called) :=
    fun outer reads opening => absurd opening reads.embeds
  have textsAfter := chain.textsAre valid embedded texts
  have present : id.index < after.blocks.size := by
    apply Nat.lt_of_not_le
    intro absent
    rw [block_of_le absent] at parsed
    cases parsed
  have isThere := getElem?_of_lt present
  obtain ⟨-, origins⟩ := (chain.valid valid).parsed id _ nodes isThere parsed
  exact (textsAfter id _ isThere).reads_of_origin (origins node member)

end Session

namespace Template

variable {template : Template η} {source : AnySource} {options : Options}
    {host : Host η} {state : η}
  {fuel : Nat}

/-- A template whose text only reads goes on to be parsed into nodes that only read.  So must the
bodies that values are written with. -/
theorem readsOnly_ofSource {called : List String} (host : Host η) (state : η)
    (own : Text.ReadsOnly called source.cursor.text)
    (defaults : ∀ kind, Text.ReadsOnly called (defaultBody kind).toList)
    (noParameter : Placeholder.defaultParameter ∉ called) (noAdd : "add" ∉ called)
    (noRemove : "remove" ∉ called) :
    (ofSource source options host state).session.ReadsOnly called options.embeddings := by
  apply Session.readsOnly_of_textsAre (valid_ofSource source options host state)
    (textsAre_ofSource source options host state own defaults) _ noAdd noRemove
  refine ofSource_induction (fun session => ∀ key placeholder,
    session.placeholders.get? key = some placeholder → placeholder.parameter ∉ called)
    source options host state ?_ ?_ ?_
  · exact fun _ _ found => nomatch found
  · intro session kind earlier key placeholder found
    change (session.placeholders.put (.default kind.name) ⟨_, none⟩).get? key = _ at found
    by_cases same : key = .default kind.name
    · subst same
      rw [Dictionary.get?_put_self] at found
      cases found
      exact noParameter
    · rw [Dictionary.get?_put_of_ne _ _ same] at found
      exact earlier key placeholder found
  · exact fun session earlier => earlier

/-- Whatever becomes of a template that only reads, it still does, with the placeholders that it
began with. -/
theorem Evolves.readsOnly
    (evolves : (ofSource source options host state).Evolves Store.KeepsParents template)
    (keeps : host.KeepsParents) {called : List String}
    (only : (ofSource source options host state).session.ReadsOnly called options.embeddings) :
    template.session.ReadsOnly called options.embeddings ∧
      template.session.placeholders =
        (ofSource source options host state).session.placeholders := by
  have same : template.session.placeholders =
      (ofSource source options host state).session.placeholders := by
    induction evolves with
    | refl => rfl
    | @render template earlier fuel induction =>
        have begun := earlier.begun keeps
        have effects := effects_render earlier.environment keeps begun fuel
        have onlyBegun := (only.later (earlier.chain_parents keeps) induction).later
          (.single .begin) rfl
        exact (effects.placeholders keeps begun.1 onlyBegun).trans induction
    | change earlier store may induction => exact induction
  exact ⟨only.later (evolves.chain_parents keeps) same, same⟩

/-- The nodes that a render finds in the root of a template, or parses it into. -/
def rootNodes (template : Template η) : List Node :=
  match ((Run.nodesOf template.environment template.root).run.run
    { template.session with writes := #[] }).1 with
  | .ok nodes => nodes
  | .error _ => []

theorem render_eq {outcome : Except Stop Unit} {last : Session η}
    (ran : (Run.block template.environment fuel template.root).run.run
      { template.session with writes := #[] } = (outcome, last)) :
    template.render fuel =
        ({ outcome, writes := last.writes }, { template with session := last }) :=
  congrArg (fun ran : Except Stop Unit × Session η =>
    (({ outcome := ran.1, writes := ran.2.writes }, { template with session := ran.2 }) :
      Rendering × Template η)) ran

/-- The root of a template is a live block of the global scope and no loop. -/
theorem Evolves.root_block
    (evolves : (ofSource source options host state).Evolves Store.KeepsParents template)
    (keeps : host.KeepsParents) :
    (template.session.block template.root).scope = .global ∧
      (template.session.block template.root).enclosingLoop = none := by
  obtain ⟨id, -, -, isThere⟩ := root_ofSource source options host state
  have outline := (evolves.keepsScopes keeps).1.outline_block (Session.lt_of_getElem? isThere)
  rw [Session.block_eq_of_getElem? isThere] at outline
  rw [evolves.root]
  constructor
  · exact Block.eq_of_outline Block.scope (fun _ => rfl) outline
  · exact Block.eq_of_outline Block.enclosingLoop (fun _ => rfl) outline

/-- A template that finds a number in a list of the host, as an example. -/
def finding : Template Unit :=
  ofString ("@for(x: items)@if(x > 1)@var y = x\n@var(y)@breakfor @endif@endfor" ++
    "@var(items.size())") {} Host.none ()

/-- The template with a list of numbers in the global scope. -/
def stocked : Template Unit :=
  let (list, heap) := finding.session.store.heap.newList true [.int 1, .int 2, .int 3]
  finding.withStore { heap := heap.put .global "items" (.list list), state := () }

theorem supplied_stocked : stocked.session.Supplied := by
  have leads {value : Value} (leads : stocked.session.store.heap.Leads value) :
      value ∈ [.list ⟨true, 0⟩, .int 1, .int 2, .int 3] := by
    induction leads with
    | entry value member =>
        have entries : (stocked.session.store.heap.entries .global).values = [.list ⟨true, 0⟩] := by
          decide +kernel
        rw [entries, List.mem_singleton] at member
        rw [member]
        exact List.mem_cons_self
    | item list value _ member isList =>
        have items : stocked.session.store.heap.items ⟨true, 0⟩ = [.int 1, .int 2, .int 3] := by
          decide +kernel
        obtain rfl : list = ⟨true, 0⟩ := by simpa [Value.int] using isList
        rw [items] at member
        exact List.mem_cons_of_mem _ member
    | member object value _ _ isObject => simp [Value.int] at isObject
    | receiver function value method _ _ isFunction => simp [Value.int] at isFunction
  constructor
  · intro list isList
    obtain rfl : list = ⟨true, 0⟩ := by simpa [Value.int] using leads isList
    decide +kernel
  · intro function isFunction
    have none := leads isFunction
    simp [Value.int] at none
  · intro object isObject
    have none := leads isObject
    simp [Value.int] at none

theorem readsOnly_finding :
    finding.session.ReadsOnly ["size", "toString", "joinToString"] fun _ => none := by
  have own : Text.ReadsOnly ["size", "toString", "joinToString"]
      ("@for(x: items)@if(x > 1)@var y = x\n@var(y)@breakfor @endif@endfor" ++
        "@var(items.size())").toList :=
    Text.readsOnly_of_all (by decide +kernel)
  have defaults (kind : Kind) :
      Text.ReadsOnly ["size", "toString", "joinToString"] (defaultBody kind).toList :=
    Text.readsOnly_of_all (by cases kind <;> decide +kernel)
  exact readsOnly_ofSource Host.none () own defaults (by decide) (by decide) (by decide)

/-- A host whose one function answers how often it was called. -/
def ticker : Host Nat where
  call _ _ _ store :=
    (.ok (.int (Int32.ofNat (store.state + 1))), { store with state := store.state + 1 })

/-- A template that calls nothing, with an object that such a function gives its text to. -/
def ticking : Template Nat :=
  let template := ofString "@var(o)" {} ticker 0
  let (function, heap) :=
    template.session.store.heap.newFunction (.host ⟨"toString", .exactly 0, 0⟩)
  let (object, heap) := heap.newScope "o" none
  let heap := heap.put object "toString" (.function function)
  template.withStore { heap := heap.put .global "o" (.object object), state := 0 }

end Template

end Stencil
