import Stencil.Proofs.Heap.Depth
import Stencil.Proofs.Reading.Shift

/-!
# Heaps that look alike

Of two heaps, one may have more on it.  As far as a run on the smaller one knows its values, what it
finds there is found on the other one under shifted references, with the same texts and equalities.
-/

namespace Stencil

/-- What a run knows: lists and functions that were there when it began, scopes whose entries are
alike in both runs, and blocks that are marked alike. -/
structure View where
  shift : Shift
  lists : ListRef → Prop
  functions : FunctionRef → Prop
  scopes : ScopeRef → Prop
  marks : BlockRef → Prop

namespace View

/-- A value that a run knows how to follow on its heap. -/
def Knows (view : View) (heap : Heap) : Value → Prop
  | .primitive _ => True
  | .list list => heap.hasList list ∧ (view.shift.first.hasList list → view.lists list)
  | .function function => function.index < heap.functions.size ∧
      (function.index < view.shift.first.functions.size → view.functions function)
  | .object object => view.scopes object

def KnowsCallable (view : View) (heap : Heap) : Callable → Prop
  | .host _ => True
  | .member receiver _ => view.Knows heap receiver

def KnowsBinding (view : View) (heap : Heap) : Binding → Prop
  | .entry value => view.Knows heap value
  | .member receiver _ => view.Knows heap receiver

/-- Two heaps are alike in everything that a run knows. -/
structure Alike (view : View) (heap other : Heap) : Prop where
  listCounts : view.shift.first.lists.size ≤ heap.lists.size ∧
    other.lists.size = heap.lists.size +
      (view.shift.last.lists.size - view.shift.first.lists.size)
  functionCounts : view.shift.first.functions.size ≤ heap.functions.size ∧
    other.functions.size = heap.functions.size +
      (view.shift.last.functions.size - view.shift.first.functions.size)
  scopeCounts : heap.scopes.size ≤ other.scopes.size
  items : ∀ list, view.Knows heap (.list list) →
    other.items (view.shift.list list) = (heap.items list).map view.shift.value ∧
      ∀ item ∈ heap.items list, view.Knows heap item
  callables : ∀ function, view.Knows heap (.function function) →
    other.callable (view.shift.function function) =
      view.shift.callable (heap.callable function) ∧
      view.KnowsCallable heap (heap.callable function)
  scopes : ∀ scope, view.scopes scope → scope.index < heap.scopes.size ∧
    (other.scope scope).parent = (heap.scope scope).parent ∧
    other.entries scope = (heap.entries scope).mapValues view.shift.value ∧
      ∀ value ∈ (heap.entries scope).values, view.Knows heap value

variable {view : View} {heap other : Heap} {value : Value}

section

variable {α β γ : Type} {change : α → β} {list : List α}

theorem mapM_shift {m : Type → Type} [Monad m] [LawfulMonad m] {f : β → m γ} {g : α → m γ}
    (same : ∀ a ∈ list, f (change a) = g a) : (list.map change).mapM f = list.mapM g := by
  induction list with
  | nil => rfl
  | cons a list induction =>
      rw [List.map_cons, List.mapM_cons, List.mapM_cons, same a List.mem_cons_self,
        induction fun later member => same later (List.mem_cons_of_mem a member)]

theorem map_shift {f : β → γ} {g : α → γ} (same : ∀ a ∈ list, f (change a) = g a) :
    (list.map change).map f = list.map g := by
  rw [List.map_map]
  exact List.map_congr_left same

theorem findIdx?_shift {p : β → Bool} {q : α → Bool} (same : ∀ a ∈ list, p (change a) = q a) :
    (list.map change).findIdx? p = list.findIdx? q := by
  induction list with
  | nil => rfl
  | cons a list induction =>
      rw [List.map_cons, List.findIdx?_cons, List.findIdx?_cons, same a List.mem_cons_self,
        induction fun later member => same later (List.mem_cons_of_mem a member)]

theorem all_shift {p : β → Bool} {q : α → Bool} (same : ∀ a ∈ list, p (change a) = q a) :
    (list.map change).all p = list.all q := by
  induction list with
  | nil => rfl
  | cons a list induction =>
      rw [List.map_cons, List.all_cons, List.all_cons, same a List.mem_cons_self,
        induction fun later member => same later (List.mem_cons_of_mem a member)]

theorem isEqv_shift {same : α → α → Bool} {same' : β → β → Bool} {left right : List α}
    (each : ∀ a ∈ left, ∀ b ∈ right, same' (change a) (change b) = same a b) :
    (left.map change).isEqv (right.map change) same' = left.isEqv right same := by
  induction left generalizing right with
  | nil => cases right <;> rfl
  | cons a left induction =>
      cases right with
      | nil => rfl
      | cons b right =>
          simp only [List.map_cons, List.isEqv]
          rw [each a List.mem_cons_self b List.mem_cons_self, induction]
          exact fun x inLeft y inRight =>
            each x (List.mem_cons_of_mem a inLeft) y (List.mem_cons_of_mem b inRight)

end

namespace Alike

variable (alike : view.Alike heap other)

include alike

theorem depthBound_le : heap.depthBound ≤ other.depthBound := by
  have lists := alike.listCounts.2
  have scopes := alike.scopeCounts
  unfold Heap.depthBound
  omega

theorem objectText {texts : Value → Option String} {texts' : Value → Option String}
    {object : ScopeRef} (known : view.scopes object)
    (same : ∀ value, view.Knows heap value → texts' (view.shift.value value) = texts value) :
    other.objectText texts' object = heap.objectText texts object := by
  obtain ⟨-, -, entries, areKnown⟩ := alike.scopes object known
  unfold Heap.objectText
  have isEmpty : (other.scope object).entries.entries.isEmpty =
      (heap.scope object).entries.entries.isEmpty := by
    have empty := congrArg Dictionary.isEmpty entries
    rw [Dictionary.isEmpty_mapValues] at empty
    exact empty
  have others : ((other.scope object).entries.entries.filter fun entry =>
      entry.2 ≠ .object object) = ((heap.scope object).entries.entries.filter fun entry =>
        entry.2 ≠ .object object).map fun entry => (entry.1, view.shift.value entry.2) := by
    have all : (other.scope object).entries.entries = _ := congrArg Dictionary.entries entries
    rw [all]
    change List.filter _ (List.map _ _) = _
    rw [List.filter_map]
    congr 2
    funext entry
    simp
  dsimp only
  rw [isEmpty, others, mapM_shift]
  intro entry member
  have isEntry := (List.mem_filter.mp member).1
  rw [same entry.2 (areKnown entry.2 (List.mem_map_of_mem isEntry))]
  cases value : entry.2 <;> rfl

theorem displayWithin (depth : Nat) (known : view.Knows heap value) :
    other.displayWithin depth (view.shift.value value) = heap.displayWithin depth value := by
  induction depth generalizing value with
  | zero => rfl
  | succ depth induction =>
      cases value with
      | primitive value => rfl
      | list list =>
          obtain ⟨items, areKnown⟩ := alike.items list known
          change (do
            let texts ← (other.items (view.shift.list list)).mapM (other.displayWithin depth)
            return String.intercalate "," texts) = _
          rw [items, mapM_shift fun item member => induction (areKnown item member)]
          rfl
      | object object => exact alike.objectText known fun value => induction
      | function function =>
          obtain ⟨callable, -⟩ := alike.callables function known
          change some (other.callable (view.shift.function function)).render = _
          rw [callable, Shift.render_callable]
          rfl

theorem display (known : view.Knows heap value) :
    other.display (view.shift.value value) = heap.display value := by
  unfold Heap.display
  congr 1
  change other.displayWithin other.depthBound (view.shift.value value) = _
  rw [alike.displayWithin other.depthBound known, Heap.displayWithin_eq alike.depthBound_le]

variable {left right : Value}

theorem equalWithin (depth : Nat) (knownLeft : view.Knows heap left)
    (knownRight : view.Knows heap right) :
    other.equalWithin depth (view.shift.value left) (view.shift.value right) =
      heap.equalWithin depth left right := by
  induction depth generalizing left right with
  | zero => rfl
  | succ depth induction =>
      cases left with
      | primitive left => cases right <;> rfl
      | object left => cases right <;> rfl
      | function left =>
          cases right with
          | function right =>
              change decide (_ = _) = decide (_ = _)
              simp only [Shift.function_inj]
          | _ => rfl
      | list left =>
          cases right with
          | list right =>
              obtain ⟨items, areKnown⟩ := alike.items left knownLeft
              obtain ⟨items', areKnown'⟩ := alike.items right knownRight
              change (decide ((view.shift.list left).index = (view.shift.list right).index) ||
                (other.items (view.shift.list left)).isEqv (other.items (view.shift.list right))
                  (other.equalWithin depth)) = _
              rw [items, items', isEqv_shift fun a inLeft b inRight =>
                induction (areKnown a inLeft) (areKnown' b inRight)]
              simp only [Shift.index_list_inj]
              rfl
          | _ => rfl

theorem equal (knownLeft : view.Knows heap left) (knownRight : view.Knows heap right) :
    other.equal (view.shift.value left) (view.shift.value right) = heap.equal left right := by
  have bound : heap.pairBound ≤ other.pairBound :=
    Nat.mul_le_mul alike.depthBound_le alike.depthBound_le
  change other.equalWithin other.pairBound _ _ = _
  rw [alike.equalWithin other.pairBound knownLeft knownRight, Heap.equalWithin_eq bound]

theorem entriesWithin {left right : Dictionary String Value}
    (knownLeft : ∀ value ∈ left.values, view.Knows heap value)
    (knownRight : ∀ value ∈ right.values, view.Knows heap value) :
    other.entriesWithin (left.mapValues view.shift.value) (right.mapValues view.shift.value) =
      heap.entriesWithin left right := by
  apply all_shift
  intro entry member
  rw [Dictionary.get?_mapValues]
  cases found : right.get? entry.1 with
  | none => rfl
  | some value =>
      exact alike.equal (knownLeft entry.2 (List.mem_map_of_mem member))
        (knownRight value (Dictionary.mem_values_of_get? found))

theorem objectOrder {left right : ScopeRef} (knownLeft : view.scopes left)
    (knownRight : view.scopes right) :
        other.objectOrder left right = heap.objectOrder left right := by
  obtain ⟨-, -, entries, areKnown⟩ := alike.scopes left knownLeft
  obtain ⟨-, -, entries', areKnown'⟩ := alike.scopes right knownRight
  unfold Heap.objectOrder
  dsimp only
  rw [entries, entries', alike.entriesWithin areKnown areKnown']
  simp only [Dictionary.isEmpty_mapValues, Dictionary.size_mapValues]

theorem valueOrder (knownLeft : view.Knows heap left) (knownRight : view.Knows heap right) :
    other.valueOrder (view.shift.value left) (view.shift.value right) =
      heap.valueOrder left right := by
  have same := alike.equal knownLeft knownRight
  cases left with
  | object left =>
      cases right with
      | object right => exact alike.objectOrder knownLeft knownRight
      | _ => exact congrArg (fun equal => if equal = true then Ordering.eq else Ordering.lt) same
  | primitive left =>
      cases right <;>
        exact congrArg (fun equal => if equal = true then Ordering.eq else Ordering.lt) same
  | list left =>
      cases right <;>
        exact congrArg (fun equal => if equal = true then Ordering.eq else Ordering.lt) same
  | function left =>
      cases right <;>
        exact congrArg (fun equal => if equal = true then Ordering.eq else Ordering.lt) same

theorem compares (comparison : Comparison) (knownLeft : view.Knows heap left)
    (knownRight : view.Knows heap right) :
    other.compares comparison (view.shift.value left) (view.shift.value right) =
      heap.compares comparison left right := by
  have order := alike.valueOrder knownLeft knownRight
  have rest : (if comparison.testsEquality = true then
      .ok (comparison.holds (other.valueOrder (view.shift.value left) (view.shift.value right)))
      else .error (.type (.cannotCompare (view.shift.value left).kind
        (view.shift.value right).kind comparison)) : Except TemplateError Bool) =
      if comparison.testsEquality = true then .ok (comparison.holds (heap.valueOrder left right))
      else .error (.type (.cannotCompare left.kind right.kind comparison)) := by
    rw [order, Shift.kind_value, Shift.kind_value]
  cases left with
  | primitive left =>
      cases right with
      | primitive right => rfl
      | list right => exact rest
      | object right => exact rest
      | function right => exact rest
  | list left => cases right <;> exact rest
  | object left => cases right <;> exact rest
  | function left => cases right <;> exact rest

end Alike

end View

end Stencil
