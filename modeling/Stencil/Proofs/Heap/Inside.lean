import Mathlib.Data.Finset.Card
import Mathlib.Logic.Relation
import Stencil.Proofs.Heap.Closed
import Stencil.Proofs.Heap.Depth

/-!
# Values inside values

A list holds its elements and an object the values of its entries.  A value has a text if nothing
loops inside it, and the text depends on what is inside it only.
-/

namespace Stencil

namespace Heap

/-- A value is an element or an entry of another one. -/
def Holds (heap : Heap) (whole part : Value) : Prop :=
  match whole with
  | .list list => part ∈ heap.items list
  | .object object => part ∈ (heap.entries object).values
  | .primitive _ | .function _ => False

/-- A value is reached from another one through elements and entries. -/
def Reaches (heap : Heap) : Value → Value → Prop := Relation.TransGen heap.Holds

/-- Neither a value nor anything that it reaches is reached from itself. -/
def Unlooped (heap : Heap) (value : Value) : Prop :=
  ∀ part, part = value ∨ heap.Reaches value part → ¬heap.Reaches part part

/-- A value is a list or leads to it through elements and entries. -/
def LeadsTo (heap : Heap) (value : Value) (index : Nat) : Prop :=
  ∃ list : ListRef, list.index = index ∧ (value = .list list ∨ heap.Reaches value (.list list))

variable {heap other : Heap} {value part : Value}

/-- A value is an element of a list, or an entry of an object other than that object. -/
def Nests (heap : Heap) (whole part : Value) : Prop :=
  heap.Holds whole part ∧ ∀ object, whole = .object object → part ≠ .object object

/-- Neither a value nor anything nested in it is nested in itself.  Objects may be entries of
themselves. -/
def Untangled (heap : Heap) (value : Value) : Prop :=
  ∀ part, part = value ∨ Relation.TransGen heap.Nests value part →
    ¬Relation.TransGen heap.Nests part part

theorem mem_parts_iff : part ∈ heap.parts value ↔ heap.Nests value part := by
  cases value with
  | primitive value => simp [parts, Nests, Holds]
  | function function => simp [parts, Nests, Holds]
  | list list => simp [parts, Nests, Holds]
  | object object => simp [parts, Nests, Holds, Dictionary.values, and_comm]

theorem Untangled.of_nests (untangled : heap.Untangled value) (nests : heap.Nests value part) :
    heap.Untangled part := by
  intro inner isInner
  apply untangled inner
  rcases isInner with rfl | reaches
  · exact .inr (.single nests)
  · exact .inr (reaches.head nests)

theorem Unlooped.untangled (unlooped : heap.Unlooped value) : heap.Untangled value := by
  have reaches {whole part : Value} (nested : Relation.TransGen heap.Nests whole part) :
      heap.Reaches whole part := Relation.TransGen.mono (fun _ _ nests => nests.1) _ _ nested
  exact fun part isPart nested => unlooped part (isPart.imp_right reaches) (reaches nested)

/-- Nothing loops in a value that holds primitives only. -/
theorem unlooped_of_primitives
    (holds : ∀ part, heap.Holds value part → ∃ primitive, part = .primitive primitive) :
    heap.Unlooped value := by
  have flat {primitive : Primitive} {inner : Value} :
      ¬heap.Reaches (.primitive primitive) inner := by
    intro reaches
    rcases Relation.TransGen.head'_iff.mp reaches with ⟨_, nothing, -⟩
    exact nothing
  have inside {part : Value} (reaches : heap.Reaches value part) :
      ∃ primitive, part = .primitive primitive := by
    obtain ⟨first, held, later⟩ := Relation.TransGen.head'_iff.mp reaches
    obtain ⟨primitive, rfl⟩ := holds first held
    rcases Relation.reflTransGen_iff_eq_or_transGen.mp later with rfl | reaches
    · exact ⟨primitive, rfl⟩
    · exact absurd reaches flat
  rintro part (rfl | reaches) loops
  · obtain ⟨primitive, rfl⟩ := inside loops
    exact flat loops
  · obtain ⟨primitive, rfl⟩ := inside reaches
    exact flat loops

theorem LeadsTo.of_holds {index : Nat} (holds : heap.Holds value part)
    (leads : heap.LeadsTo part index) : heap.LeadsTo value index := by
  obtain ⟨list, isIndex, rfl | reaches⟩ := leads
  · exact ⟨list, isIndex, .inr (.single holds)⟩
  · exact ⟨list, isIndex, .inr (reaches.head holds)⟩

theorem leadsTo_iff {index : Nat} : heap.LeadsTo value index ↔
    (∃ list : ListRef, list.index = index ∧ value = .list list) ∨
      ∃ part, heap.Holds value part ∧ heap.LeadsTo part index := by
  constructor
  · rintro ⟨list, isIndex, isList | reaches⟩
    · exact .inl ⟨list, isIndex, isList⟩
    · obtain ⟨part, holds, later⟩ := Relation.TransGen.head'_iff.mp reaches
      have leads := (Relation.reflTransGen_iff_eq_or_transGen.mp later).imp_left Eq.symm
      exact .inr ⟨part, holds, list, isIndex, leads⟩
  · rintro (⟨list, isIndex, isList⟩ | ⟨part, holds, leads⟩)
    · exact ⟨list, isIndex, .inl isList⟩
    · exact leads.of_holds holds

theorem of_equalItems_error {equal : Value → Value → Except TemplateError Bool}
    {lefts rights : List Value} {error : TemplateError}
    (failed : equalItems equal lefts rights = .error error) :
    ∃ left ∈ lefts, ∃ right ∈ rights, equal left right = .error error := by
  induction lefts generalizing rights with
  | nil => cases rights <;> cases failed
  | cons left lefts induction =>
      cases rights with
      | nil => cases failed
      | cons right rights =>
          rcases error_of_bind failed with first | ⟨same, -, later⟩
          · exact ⟨left, List.mem_cons_self, right, List.mem_cons_self, first⟩
          · cases same with
            | false => cases later
            | true =>
                obtain ⟨one, isOne, other, isOther, fails⟩ := induction later
                exact ⟨one, List.mem_cons_of_mem _ isOne, other, List.mem_cons_of_mem _ isOther,
                  fails⟩

/-- Two values that cannot be compared while a list is in use lead to the list. -/
theorem of_equalBeside_error {inUse depth : Nat} {left right : Value} {error : TemplateError}
    (failed : heap.equalBeside inUse depth left right = .error error) :
    error = .listInUse ∧ (heap.LeadsTo left inUse ∨ heap.LeadsTo right inUse) := by
  induction depth generalizing left right with
  | zero => cases failed
  | succ depth induction =>
      unfold equalBeside at failed
      split at failed
      · rename_i left right
        split at failed
        · cases failed
        · split at failed
          · rename_i isInUse
            cases failed
            exact ⟨rfl, isInUse.imp (⟨left, ·, .inl rfl⟩) (⟨right, ·, .inl rfl⟩)⟩
          · split at failed
            · cases failed
            · obtain ⟨one, isOne, other, isOther, fails⟩ := of_equalItems_error failed
              obtain ⟨isError, leads⟩ := induction fails
              have here : heap.Holds (.list left) one := isOne
              have there : heap.Holds (.list right) other := isOther
              exact ⟨isError, leads.imp (.of_holds here) (.of_holds there)⟩
      · cases failed

theorem of_placeBeside_error {inUse : Nat} {items : List Value} {error : TemplateError}
    (failed : heap.placeBeside inUse value items = .error error) :
    error = .listInUse ∧
      ((∃ item ∈ items, heap.LeadsTo item inUse) ∨ heap.LeadsTo value inUse) := by
  induction items with
  | nil => cases failed
  | cons item items induction =>
      rcases error_of_bind failed with first | ⟨same, -, later⟩
      · obtain ⟨isError, leads⟩ := of_equalBeside_error first
        exact ⟨isError, leads.imp_left fun leads => ⟨item, List.mem_cons_self, leads⟩⟩
      · cases same with
        | true => cases later
        | false =>
            rcases error_of_bind later with rest | ⟨_, -, nothing⟩
            · obtain ⟨isError, leads⟩ := induction rest
              refine ⟨isError, leads.imp_left ?_⟩
              rintro ⟨one, isOne, leads⟩
              exact ⟨one, List.mem_cons_of_mem _ isOne, leads⟩
            · cases nothing

/-- Removing fails for a fixed list, or because the value or the list itself leads to the list. -/
theorem of_removeItem_error {list : ListRef} {error : TemplateError}
    (failed : heap.removeItem list value = .error error) :
    (list.isMutable = false ∧ error = .type (.listNotMutable "remove")) ∨
      (list.isMutable = true ∧ error = .listInUse ∧
        ((∃ item ∈ heap.items list, heap.LeadsTo item list.index) ∨
          heap.LeadsTo value list.index)) := by
  unfold removeItem at failed
  split at failed
  · rename_i isMutable
    split at failed
    · cases failed
    · cases failed
    · rename_i problem found
      cases failed
      exact .inr ⟨isMutable, of_placeBeside_error found⟩
  · rename_i isFixed
    cases failed
    exact .inl ⟨Bool.eq_false_iff.mpr isFixed, rfl⟩

theorem mapM_eq_some_map {α β : Type} {f : α → Option β} {g : α → β} {list : List α}
    (all : ∀ a ∈ list, f a = some (g a)) : list.mapM f = some (list.map g) := by
  induction list with
  | nil => rfl
  | cons first rest induction =>
      have later := induction fun a member => all a (List.mem_cons_of_mem first member)
      exact mapM_cons_eq_some_iff.mpr
        ⟨g first, rest.map g, all first List.mem_cons_self, later, rfl⟩

/-- A value has a text if its parts have one. -/
theorem isSome_displayWithin_of_parts {depth : Nat}
    (shown : ∀ part ∈ heap.parts value, (heap.displayWithin depth part).isSome = true) :
    (heap.displayWithin (depth + 1) value).isSome = true := by
  let textOf (part : Value) : String := (heap.displayWithin depth part).getD ""
  have isText (part : Value) (isPart : part ∈ heap.parts value) :
      heap.displayWithin depth part = some (textOf part) := by
    obtain ⟨text, found⟩ := Option.isSome_iff_exists.mp (shown part isPart)
    rw [found, show textOf part = _ from congrArg (Option.getD · "") found]
    rfl
  apply Option.isSome_iff_exists.mpr
  cases value with
  | primitive value => exact ⟨_, rfl⟩
  | function function => exact ⟨_, rfl⟩
  | list list => exact ⟨_, Option.bind_eq_some_iff.mpr ⟨_, mapM_eq_some_map isText, rfl⟩⟩
  | object object =>
      change ∃ text, heap.objectText (heap.displayWithin depth) object = some text
      unfold objectText
      dsimp only
      split
      · exact ⟨_, rfl⟩
      · let line (entry : String × Value) : String := entryLine entry.1 entry.2 (textOf entry.2)
        refine ⟨_, Option.bind_eq_some_iff.mpr
          ⟨_, (mapM_eq_some_map fun entry member => ?_ : _ = some (List.map line _)), rfl⟩⟩
        rw [isText entry.2 (List.mem_map.mpr ⟨entry, member, rfl⟩)]
        rfl

/-- A value without tangles is nested no deeper than there are things inside it. -/
theorem Untangled.isSome_displayWithin (untangled : heap.Untangled value) (inside : Finset Value)
    (all : ∀ part, part = value ∨ Relation.TransGen heap.Nests value part →
      part ∈ heap.containers → part ∈ inside) :
    (heap.displayWithin (inside.card + 1) value).isSome = true := by
  induction inside using Finset.strongInduction generalizing value with
  | H inside induction =>
      apply isSome_displayWithin_of_parts
      intro part isPart
      have member : value ∈ inside := all value (.inl rfl) (mem_containers isPart)
      have nests := mem_parts_iff.mp isPart
      have shown := induction (inside.erase value) (Finset.erase_ssubset member)
        (untangled.of_nests nests) fun inner isInner isContainer => ?_
      · rwa [Finset.card_erase_of_mem member,
          Nat.sub_add_cancel (Finset.card_pos.mpr ⟨value, member⟩)] at shown
      · have reaches : Relation.TransGen heap.Nests value inner := by
          rcases isInner with rfl | reaches
          · exact .single nests
          · exact reaches.head nests
        refine Finset.mem_erase.mpr ⟨?_, all inner (.inr reaches) isContainer⟩
        rintro rfl
        exact untangled inner (.inl rfl) reaches

/-- A value without tangles has a text. -/
theorem Untangled.display?_eq (untangled : heap.Untangled value) :
    heap.display? value = some (heap.display value) := by
  have shown := untangled.isSome_displayWithin heap.containers fun _ _ isContainer => isContainer
  obtain ⟨text, isText⟩ := Option.isSome_iff_exists.mp shown
  have found : heap.display? value = some text := displayWithin_mono heap.card_containers isText
  rw [display, found]
  rfl

/-- A value that nothing loops in has a text. -/
theorem Unlooped.display?_eq (unlooped : heap.Unlooped value) :
    heap.display? value = some (heap.display value) :=
  unlooped.untangled.display?_eq

theorem eq_map_of_mapM {α β : Type} {f : α → Option β} {g : α → β} {list : List α}
    {answers : List β} (agrees : ∀ a b, f a = some b → g a = b)
    (found : list.mapM f = some answers) : answers = list.map g := by
  induction list generalizing answers with
  | nil => exact (Option.some.inj found).symm
  | cons first rest induction =>
      obtain ⟨b, later, isFirst, isLater, rfl⟩ := mapM_cons_eq_some_iff.mp found
      rw [List.map_cons, agrees first b isFirst, induction isLater]

/-- The text of a list is that of its elements with commas in between. -/
theorem display?_list {list : ListRef} {text : String}
    (shown : heap.display? (.list list) = some text) :
    text = String.intercalate "," ((heap.items list).map heap.display) := by
  obtain ⟨texts, areTexts, same⟩ := Option.bind_eq_some_iff.mp shown
  have agrees (item : Value) (isText : String)
      (found : heap.displayWithin (heap.scopes.size + 2 * heap.lists.size) item = some isText) :
          heap.display item = isText := by
    have whole : heap.display? item = some isText := displayWithin_mono (Nat.le_succ _) found
    rw [display, whole]
    rfl
  rw [eq_map_of_mapM agrees areTexts] at same
  exact (Option.some.inj same).symm

theorem Unlooped.display_list {list : ListRef} (unlooped : heap.Unlooped (.list list)) :
    heap.display (.list list) = String.intercalate "," ((heap.items list).map heap.display) :=
  display?_list unlooped.display?_eq

theorem mapM_congr {α β : Type} {f g : α → Option β} {list : List α}
    (same : ∀ a ∈ list, f a = g a) : list.mapM f = list.mapM g := by
  induction list with
  | nil => rfl
  | cons first rest induction =>
      rw [List.mapM_cons, List.mapM_cons, same first List.mem_cons_self,
        induction fun a member => same a (List.mem_cons_of_mem first member)]

/-- Heaps that differ in the entries of scopes only give a value the same text if those differ in
no object inside it. -/
theorem displayWithin_congr (lists : ∀ list, other.items list = heap.items list)
    (functions : ∀ function, other.callable function = heap.callable function)
    (objects : ∀ object, .object object = value ∨ heap.Reaches value (.object object) →
      other.entries object = heap.entries object) (depth : Nat) :
    other.displayWithin depth value = heap.displayWithin depth value := by
  induction depth generalizing value with
  | zero => rfl
  | succ depth induction =>
      have inside (part : Value) (holds : heap.Holds value part) :
          other.displayWithin depth part = heap.displayWithin depth part := by
        apply induction
        intro object isInside
        apply objects
        rcases isInside with rfl | reaches
        · exact .inr (.single holds)
        · exact .inr (reaches.head holds)
      cases value with
      | primitive value => rfl
      | function function =>
          exact congrArg (fun callable => some callable.render) (functions function)
      | list list =>
          change (other.items list).mapM (other.displayWithin depth) >>= _ = _
          rw [lists, mapM_congr inside]
          rfl
      | object object =>
          have same : (other.scope object).entries = (heap.scope object).entries :=
            objects object (.inl rfl)
          change other.objectText _ object = heap.objectText _ object
          unfold objectText
          dsimp only
          rw [same, mapM_congr fun entry member => ?_]
          rw [inside entry.2 (List.mem_map_of_mem (List.mem_filter.mp member).1)]

/-- The heap with one name in a scope and nothing else. -/
def bindOnly (heap : Heap) (scope : ScopeRef) (name : String) (value : Value) : Heap :=
  (heap.clear scope).put scope name value

variable {scope : ScopeRef} {name : String}

theorem entries_bindOnly_of_ne (name : String) (value : Value) {object : ScopeRef}
    (apart : object ≠ scope) :
    (heap.bindOnly scope name value).entries object = heap.entries object := by
  rw [bindOnly, entries_put_of_ne _ _ apart, entries, entries, clear,
    scope_modifyEntries_of_ne _ apart]

section

variable (present : scope.index < heap.scopes.size)

include present

theorem get?_bindOnly : (heap.bindOnly scope name value).get? scope name = some value :=
  get?_put_self name value (by rwa [clear, size_modifyEntries])

/-- A value that nothing loops in while a scope holds it does not reach the scope. -/
theorem Unlooped.not_reaches_scope (unlooped : (heap.bindOnly scope name value).Unlooped value) :
    ¬(.object scope = value ∨ (heap.bindOnly scope name value).Reaches value (.object scope)) := by
  have holds : (heap.bindOnly scope name value).Holds (.object scope) value :=
    Dictionary.mem_values_of_get? (get?_bindOnly present)
  rintro (rfl | reaches)
  · exact unlooped _ (.inl rfl) (.single holds)
  · exact unlooped value (.inl rfl) (reaches.tail holds)

/-- Binding a value in a scope leaves its text as it is if nothing loops then. -/
theorem Unlooped.display_bindOnly (unlooped : (heap.bindOnly scope name value).Unlooped value) :
    heap.display? value = some ((heap.bindOnly scope name value).display value) := by
  have same : heap.display? value = (heap.bindOnly scope name value).display? value := by
    have bound : (heap.bindOnly scope name value).depthBound = heap.depthBound := by
      unfold depthBound bindOnly put clear
      rw [size_modifyEntries, size_modifyEntries]
      rfl
    have lists (list : ListRef) :
      heap.items list = (heap.bindOnly scope name value).items list := rfl
    have functions (function : FunctionRef) :
        heap.callable function = (heap.bindOnly scope name value).callable function := rfl
    unfold display?
    rw [bound]
    refine displayWithin_congr lists functions (fun object isInside => ?_) _
    have apart : object ≠ scope := by
      rintro rfl
      exact unlooped.not_reaches_scope present isInside
    rw [bindOnly, entries_put_of_ne _ _ apart, entries, entries, clear,
      scope_modifyEntries_of_ne _ apart]
  rw [same, unlooped.display?_eq]

end

end Heap

end Stencil
