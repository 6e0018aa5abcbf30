import Stencil.Proofs.Reading.Growth
import Stencil.Proofs.Run.Live

/-!
# What a run that only reads leaves alone

Such a run adds lists and functions and changes the entries of the scopes that blocks own.  All
lists, all functions and the entries of every other scope stay as they are.
-/

namespace Stencil

open Text

variable {η : Type}

namespace Heap

/-- Everything on a heap is still there, but for the entries of scopes. -/
structure Keeps (before after : Heap) : Prop where
  covers : after.Covers before
  items : ∀ list, before.hasList list → after.items list = before.items list
  callables : ∀ function : FunctionRef, function.index < before.functions.size →
    after.callable function = before.callable function
  scopes : ∀ id : ScopeRef, id.index < before.scopes.size → id.index < after.scopes.size ∧
    (after.scope id).parent = (before.scope id).parent ∧
    (after.scope id).name = (before.scope id).name

variable {before middle after : Heap}

theorem Covers.hasList (covers : after.Covers before) {list : ListRef}
    (present : before.hasList list) : after.hasList list :=
  Nat.lt_of_lt_of_le present covers.1

namespace Keeps

theorem refl (heap : Heap) : heap.Keeps heap :=
  ⟨⟨Nat.le_refl _, Nat.le_refl _⟩, fun _ _ => rfl, fun _ _ => rfl,
    fun _ present => ⟨present, rfl, rfl⟩⟩

theorem trans (first : before.Keeps middle) (second : middle.Keeps after) : before.Keeps after := by
  constructor
  · constructor
    · exact Nat.le_trans first.covers.1 second.covers.1
    · exact Nat.le_trans first.covers.2 second.covers.2
  · intro list present
    exact (second.items list (first.covers.hasList present)).trans (first.items list present)
  · intro function present
    have between := Nat.lt_of_lt_of_le present first.covers.2
    exact (second.callables function between).trans (first.callables function present)
  · intro id present
    obtain ⟨between, parent, name⟩ := first.scopes id present
    obtain ⟨later, parentLater, nameLater⟩ := second.scopes id between
    exact ⟨later, parentLater.trans parent, nameLater.trans name⟩

theorem size_scopes_le (keeps : before.Keeps after) : before.scopes.size ≤ after.scopes.size := by
  apply Nat.le_of_not_lt
  intro fewer
  exact Nat.lt_irrefl _ (keeps.scopes ⟨after.scopes.size⟩ fewer).1

theorem newList (heap : Heap) (isMutable : Bool) (items : List Value) :
    heap.Keeps (heap.newList isMutable items).2 := by
  constructor
  · exact View.Alike.covers_newList heap isMutable items
  · exact fun list present => items_newList_of_hasList isMutable items present
  · intro function present
    cases isMutable <;> rfl
  · intro id present
    cases isMutable <;> exact ⟨present, rfl, rfl⟩

theorem newFunction (heap : Heap) (callable : Callable) :
    heap.Keeps (heap.newFunction callable).2 := by
  constructor
  · exact View.Alike.covers_newFunction heap callable
  · exact fun list present => rfl
  · intro function present
    simp [Heap.newFunction, Heap.callable, Array.getElem?_push_lt, present]
  · exact fun id present => ⟨present, rfl, rfl⟩

theorem name_modifyEntries (heap : Heap) (id other : ScopeRef)
    (change : Dictionary String Value → Dictionary String Value) :
    ((heap.modifyEntries id change).scope other).name = (heap.scope other).name := by
  by_cases same : other = id
  · subst same
    by_cases present : other.index < heap.scopes.size
    · rw [scope_modifyEntries_self change present]
    · simp [Heap.modifyEntries, Heap.scope, present]
  · rw [scope_modifyEntries_of_ne change same]

theorem modifyEntries (heap : Heap) (scope : ScopeRef)
    (change : Dictionary String Value → Dictionary String Value) :
    heap.Keeps (heap.modifyEntries scope change) := by
  constructor
  · exact View.Alike.covers_of_scopes heap _
  · exact fun list present => rfl
  · exact fun function present => rfl
  · intro id present
    rw [size_modifyEntries]
    exact ⟨present, parent_modifyEntries heap scope id change,
      name_modifyEntries heap scope id change⟩

theorem newScope (heap : Heap) (name : String) (parent : Option ScopeRef) :
    heap.Keeps (heap.newScope name parent).2 := by
  constructor
  · exact View.Alike.covers_of_scopes heap _
  · exact fun list present => rfl
  · exact fun function present => rfl
  · intro id present
    obtain ⟨later, -⟩ := KeepsParents.newScope heap name parent id present
    rw [scope_newScope_of_lt name parent present]
    exact ⟨later, rfl, rfl⟩

end Keeps

end Heap

/-- Parsing a block adds scopes and nothing else to the heap. -/
theorem Draft.Grows.heap_eq {context : BlockContext} {anchor : Cursor} {before after : Draft Cursor}
    (grows : Draft.Grows context anchor before after) :
    after.heap = { before.heap with scopes := after.heap.scopes } ∧
      before.heap.Keeps after.heap ∧
      ∀ names, before.heap.LacksFunctions names → after.heap.LacksFunctions names := by
  induction grows with
  | refl => exact ⟨rfl, .refl _, fun _ lacks => lacks⟩
  | tail _ step induction =>
      obtain ⟨same, keeps, lacks⟩ := induction
      cases step with
      | move source within => exact ⟨same, keeps, lacks⟩
      | body name role cut finish closes =>
          refine ⟨?_, keeps.trans (.newScope _ _ _), fun names lackedBefore => ?_⟩
          · simp only [Heap.newScope]
            rw [same]
          · exact (lacks names lackedBefore).newScope _ _
      | embed path text found => exact ⟨same, keeps, lacks⟩

theorem Session.heap_parseBlock (session : Session η) (embeddings : Embeddings) (id : BlockRef) :
    (session.parseBlock embeddings id).2.store.heap =
        { session.store.heap with
          scopes := (session.parseBlock embeddings id).2.store.heap.scopes } ∧
      session.store.heap.Keeps (session.parseBlock embeddings id).2.store.heap ∧
      ∀ names, session.store.heap.LacksFunctions names →
        (session.parseBlock embeddings id).2.store.heap.LacksFunctions names := by
  obtain ⟨nodes, drafted, source, ran, -, eq⟩ := session.parseBlock_eq embeddings id
  obtain ⟨grows, -⟩ := Directive.nodes_make ran
  rw [eq]
  exact grows.heap_eq

/-- A run that only reads takes a session to another one. -/
structure Session.Reads (environment : Environment η) (called : List String)
    (before after : Session η) : Prop where
  effects : before.Effects environment (fun _ => True) after
  heap : before.store.heap.Keeps after.store.heap
  placeholders : after.placeholders = before.placeholders
  /-- New blocks have new scopes. -/
  fresh : ∀ id : BlockRef, before.blocks.size ≤ id.index →
    (after.block id).role.ownsScope = true →
    before.store.heap.scopes.size ≤ (after.block id).scope.index
  entries : ∀ scope : ScopeRef, scope.index < before.store.heap.scopes.size →
    (∀ id, (after.block id).role.ownsScope = true → (after.block id).scope ≠ scope) →
    after.store.heap.entries scope = before.store.heap.entries scope
  /-- No function comes to be stored under a name that is called. -/
  lacks : before.store.heap.LacksFunctions called → after.store.heap.LacksFunctions called

namespace Session.Reads

variable {environment : Environment η} {called : List String}
    {session before middle after : Session η}

theorem not_owns_of_le {id : BlockRef} (isNew : session.blocks.size ≤ id.index) :
    (session.block id).role.ownsScope = false := by
  rw [block_of_le isNew]
  rfl

theorem refl (session : Session η) : session.Reads environment called session := by
  constructor
  · exact .refl
  · exact .refl _
  · rfl
  · intro id isNew owns
    rw [not_owns_of_le isNew] at owns
    cases owns
  · exact fun _ _ _ => rfl
  · exact fun lacks => lacks

theorem trans (keeps : environment.host.KeepsParents)
    (nested : before.Nested environment.embeddings) (first : before.Reads environment called middle)
    (second : middle.Reads environment called after) : before.Reads environment called after := by
  have nestedMiddle := first.effects.nested keeps nested
  have ext := second.effects.toExtends keeps nestedMiddle
  constructor
  · exact first.effects.trans second.effects
  · exact first.heap.trans second.heap
  · exact second.placeholders.trans first.placeholders
  · intro id isNew owns
    by_cases isOld : id.index < middle.blocks.size
    · rw [ext.scope isOld]
      rw [ext.role isOld] at owns
      exact first.fresh id isNew owns
    · have newer := second.fresh id (Nat.le_of_not_lt isOld) owns
      exact Nat.le_trans first.heap.size_scopes_le newer
  · intro scope present unowned
    have between := (first.heap.scopes scope present).1
    rw [second.entries scope between unowned]
    apply first.entries scope present
    intro id owns isScope
    by_cases isOld : id.index < middle.blocks.size
    · apply unowned id
      · rw [ext.role isOld]
        exact owns
      · rw [ext.scope isOld]
        exact isScope
    · rw [not_owns_of_le (Nat.le_of_not_lt isOld)] at owns
      cases owns
  · exact fun lacks => second.lacks (first.lacks lacks)

/-- An effect that leaves blocks and placeholders alone, and of the heap all but the entries of a
scope that a block owns. -/
theorem of_effect (effect : before.Effect environment (fun _ => True) after)
    (quiet : before.Quiet after) (heap : before.store.heap.Keeps after.store.heap)
    (placeholders : after.placeholders = before.placeholders)
    (entries : ∀ scope : ScopeRef,
      (∀ id, (before.block id).role.ownsScope = true → (before.block id).scope ≠ scope) →
      after.store.heap.entries scope = before.store.heap.entries scope)
    (lacks : before.store.heap.LacksFunctions called →
      after.store.heap.LacksFunctions called) : before.Reads environment called after := by
  have role (id : BlockRef) : (after.block id).role = (before.block id).role :=
    Block.eq_of_unmarked Block.role (fun _ => rfl) (quiet.block id)
  have isScope (id : BlockRef) : (after.block id).scope = (before.block id).scope :=
    Block.eq_of_unmarked Block.scope (fun _ => rfl) (quiet.block id)
  constructor
  · exact .single effect
  · exact heap
  · exact placeholders
  · intro id isNew owns
    rw [role, not_owns_of_le isNew] at owns
    cases owns
  · intro scope present unowned
    apply entries scope
    intro id owns
    rw [← role] at owns
    rw [← isScope]
    exact unowned id owns
  · exact lacks

/-- An effect that leaves the store alone. -/
theorem of_store (effect : before.Effect environment (fun _ => True) after)
    (quiet : before.Quiet after) (store : after.store = before.store)
    (placeholders : after.placeholders = before.placeholders) :
    before.Reads environment called after := by
  apply of_effect effect quiet _ placeholders
  · intro scope _
    rw [store]
  · rw [store]
    exact fun lacks => lacks
  · rw [store]
    exact .refl _

theorem evaluate {store : Store η}
    (changes : Store.Changes environment.host session.store store)
    (heap : session.store.heap.Keeps store.heap)
    (scopes : store.heap.scopes = session.store.heap.scopes) :
    session.Reads environment called { session with store } := by
  apply of_effect (.evaluate store changes) _ heap rfl
  · intro scope _
    exact Heap.entries_of_scopes scopes scope
  · exact fun lacks => lacks.of_entries (Heap.entries_of_scopes scopes)
  · exact ⟨rfl, rfl, fun _ => rfl, fun _ => rfl⟩

/-- The entries of a scope that a block owns change. -/
theorem modifyEntries {scope : ScopeRef} {id : BlockRef}
    {change : Dictionary String Value → Dictionary String Value}
    (owns : Session.Owns (fun _ => True) session scope id)
    (effect : session.Effect environment (fun _ => True)
      (session.modifyHeap fun heap => heap.modifyEntries scope change))
    (lacks : session.store.heap.LacksFunctions called →
      (session.store.heap.modifyEntries scope change).LacksFunctions called) :
    session.Reads environment called
      (session.modifyHeap fun heap => heap.modifyEntries scope change) := by
  apply of_effect effect _ (.modifyEntries _ _ _) rfl
  · intro other unowned
    have different : other ≠ scope := by
      rintro rfl
      exact unowned id owns.owns owns.isScope
    exact Heap.entries_modifyEntries_of_ne _ different
  · exact lacks
  · exact ⟨rfl, rfl, fun _ => rfl, fun _ => rfl⟩

theorem parse {id : BlockRef} (present : id.index < session.blocks.size)
    (unparsed : (session.block id).nodes? = none)
    (atStart : Source.pointer (session.source (session.block id).source) =
      (session.block id).start) (nested : session.Nested environment.embeddings) :
    session.Reads environment called (session.parseBlock environment.embeddings id).2 := by
  have sourcePresent := nested.valid.source_lt (getElem?_of_lt present)
  have parsing := @parsing_parseBlock _ _ environment.embeddings _ present sourcePresent unparsed
    atStart
  obtain ⟨-, scopes, places, -, -⟩ :=
    @furnishes_parseBlock _ _ environment.embeddings _ present
  constructor
  · exact .single (.parse id present unparsed atStart)
  · exact (session.heap_parseBlock environment.embeddings id).2.1
  · exact parsing.placeholders
  · intro child isNew owns
    have within : child.index < (session.parseBlock environment.embeddings id).2.blocks.size := by
      apply Nat.lt_of_not_le
      intro absent
      rw [not_owns_of_le absent] at owns
      cases owns
    have place := places child isNew within
    rw [if_pos owns] at place
    exact place.1
  · intro scope inRange _
    rw [Heap.entries, Heap.entries, scopes scope inRange]
  · exact (session.heap_parseBlock environment.embeddings id).2.2 called

/-- A run that only reads leaves the entries of the global scope alone. -/
theorem entries_global (keeps : environment.host.KeepsParents)
    (nested : before.Nested environment.embeddings)
    (reads : before.Reads environment called after) :
    after.store.heap.entries .global = before.store.heap.entries .global := by
  have nestedLater := reads.effects.nested keeps nested
  apply reads.entries .global nested.global.1
  intro id owns
  by_cases isThere : id.index < after.blocks.size
  · exact nestedLater.own id isThere owns
  · rw [not_owns_of_le (Nat.le_of_not_lt isThere)] at owns
    cases owns

end Session.Reads

end Stencil
