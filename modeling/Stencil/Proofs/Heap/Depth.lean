import Mathlib.Data.Finset.Card
import Mathlib.Data.Finset.Prod
import Mathlib.Data.Finset.Range
import Mathlib.Order.Monotone.Basic
import Stencil.Heap.Display
import Stencil.Heap.Equality

/-!
# How deep values are looked at

The text of a value and the equality of two values are computed to a bounded depth.  Only finitely
many scopes and lists are on a heap, so looking deeper than the bound finds nothing else: a heap
that has grown gives the same texts and equalities.
-/

namespace Stencil

/-- A property that holds from some number on, and that no number decides any more once one number
decided nothing, is decided after as many numbers as there are things it may hold of. -/
theorem holds_card_of_holds {α : Type} [DecidableEq α] {holds : Nat → α → Prop} {all : Finset α}
    (mono : ∀ n, ∀ a ∈ all, holds n a → holds (n + 1) a)
    (settled : ∀ n, (∀ a ∈ all, holds (n + 1) a → holds n a) →
      ∀ a ∈ all, holds (n + 2) a → holds (n + 1) a)
    {n : Nat} (bound : all.card ≤ n) {a : α} (member : a ∈ all) (now : holds n a) :
    holds all.card a := by
  classical
  let found (n : Nat) : Finset α := all.filter (holds n)
  have grows : Monotone found := by
    apply monotone_nat_of_le_succ
    intro n a inFound
    obtain ⟨inAll, now⟩ := Finset.mem_filter.mp inFound
    exact Finset.mem_filter.mpr ⟨inAll, mono n a inAll now⟩
  have back (n : Nat) (same : (found n).card = (found (n + 1)).card) :
      ∀ a ∈ all, holds (n + 1) a → holds n a := by
    intro a inAll now
    have eq := Finset.eq_of_subset_of_card_le (grows (Nat.le_succ n)) (Nat.le_of_eq same.symm)
    have inFound : a ∈ found n := by
      rw [eq]
      exact Finset.mem_filter.mpr ⟨inAll, now⟩
    exact (Finset.mem_filter.mp inFound).2
  have stays (n : Nat) (same : (found n).card = (found (n + 1)).card) :
      (found (n + 1)).card = (found (n + 2)).card := by
    apply Nat.le_antisymm (Finset.card_le_card (grows (Nat.le_succ _)))
    apply Finset.card_le_card
    intro a inFound
    obtain ⟨inAll, now⟩ := Finset.mem_filter.mp inFound
    exact Finset.mem_filter.mpr ⟨inAll, settled n (back n same) a inAll now⟩
  have stable : (found n).card = (found all.card).card :=
    Nat.stabilises_of_monotone (fun _ _ le => Finset.card_le_card (grows le))
      (fun n => Finset.card_le_card (Finset.filter_subset _ _)) stays bound
  have eq := Finset.eq_of_subset_of_card_le (grows bound) (Nat.le_of_eq stable)
  have inFound : a ∈ found all.card := by
    rw [eq]
    exact Finset.mem_filter.mpr ⟨member, now⟩
  exact (Finset.mem_filter.mp inFound).2

namespace Heap

variable {heap : Heap} {value : Value} {text : String} {depth : Nat}

theorem mapM_cons_eq_some_iff {α β : Type} {f : α → Option β} {a : α} {list : List α}
    {answers : List β} :
    (a :: list).mapM f = some answers ↔
      ∃ b rest, f a = some b ∧ list.mapM f = some rest ∧ answers = b :: rest := by
  simp only [List.mapM_cons, Option.bind_eq_bind, Option.pure_def, Option.bind_eq_some_iff,
    Option.some.injEq]
  constructor
  · rintro ⟨b, found, rest, foundRest, rfl⟩
    exact ⟨b, rest, found, foundRest, rfl⟩
  · rintro ⟨b, rest, found, foundRest, rfl⟩
    exact ⟨b, found, rest, foundRest, rfl⟩

/-- What answers at least as often gives the same answers to a list that has answers. -/
theorem mapM_eq_some_of_le {α β : Type} {f g : α → Option β} {list : List α} {answers : List β}
    (le : ∀ a ∈ list, ∀ b, f a = some b → g a = some b) (found : list.mapM f = some answers) :
    list.mapM g = some answers := by
  induction list generalizing answers with
  | nil => exact found
  | cons a rest induction =>
      obtain ⟨b, answersRest, here, later, rfl⟩ := mapM_cons_eq_some_iff.mp found
      apply mapM_cons_eq_some_iff.mpr
      refine ⟨b, answersRest, le a List.mem_cons_self b here, induction ?_ later, rfl⟩
      exact fun other member => le other (List.mem_cons_of_mem a member)

/-- The values that the text of a value consists of. -/
def parts (heap : Heap) : Value → List Value
  | .list list => heap.items list
  | .object object =>
      ((heap.entries object).entries.filter fun entry => entry.2 ≠ .object object).map Prod.snd
  | _ => []

theorem objectText_of_le {object : ScopeRef} {shows more : Value → Option String}
    (le : ∀ part ∈ heap.parts (.object object), ∀ text, shows part = some text →
      more part = some text) (found : heap.objectText shows object = some text) :
    heap.objectText more object = some text := by
  unfold objectText at found ⊢
  dsimp only at found ⊢
  split at found
  · rename_i none
    rw [if_pos none]
    exact found
  · rename_i notNone
    rw [if_neg notNone]
    obtain ⟨lines, isLines, same⟩ := Option.bind_eq_some_iff.mp found
    apply Option.bind_eq_some_iff.mpr
    refine ⟨lines, mapM_eq_some_of_le ?_ isLines, same⟩
    intro entry member line isLine
    obtain ⟨shown, isShown, isSame⟩ := Option.bind_eq_some_iff.mp isLine
    apply Option.bind_eq_some_iff.mpr
    exact ⟨shown, le entry.2 (List.mem_map.mpr ⟨entry, member, rfl⟩) shown isShown, isSame⟩

theorem displayWithin_of_le {less more : Nat}
    (le : ∀ part ∈ heap.parts value, ∀ text, heap.displayWithin less part = some text →
      heap.displayWithin more part = some text)
    (found : heap.displayWithin (less + 1) value = some text) :
    heap.displayWithin (more + 1) value = some text := by
  cases value with
  | primitive value => exact found
  | function function => exact found
  | object object => exact objectText_of_le le found
  | list list =>
      obtain ⟨texts, isTexts, same⟩ := Option.bind_eq_some_iff.mp found
      exact Option.bind_eq_some_iff.mpr ⟨texts, mapM_eq_some_of_le le isTexts, same⟩

theorem displayWithin_succ (found : heap.displayWithin depth value = some text) :
    heap.displayWithin (depth + 1) value = some text := by
  induction depth generalizing value text with
  | zero => cases found
  | succ depth induction => exact displayWithin_of_le (fun _ _ _ => induction) found

theorem displayWithin_mono {more : Nat} (le : depth ≤ more)
    (found : heap.displayWithin depth value = some text) :
    heap.displayWithin more value = some text := by
  induction le with
  | refl => exact found
  | step _ induction => exact displayWithin_succ induction

/-- The values that have parts because they are on the heap. -/
def containers (heap : Heap) : Finset Value :=
  (Finset.range heap.scopes.size).image (fun index => .object ⟨index⟩) ∪
    ((Finset.range heap.lists.size).image (fun index => .list ⟨false, index⟩) ∪
      (Finset.range heap.lists.size).image (fun index => .list ⟨true, index⟩))

theorem card_containers : heap.containers.card < heap.depthBound := by
  have image (f : Nat → Value) (size : Nat) : ((Finset.range size).image f).card ≤ size := by
    have le : ((Finset.range size).image f).card ≤ (Finset.range size).card := Finset.card_image_le
    rwa [Finset.card_range] at le
  have objects := image (fun index => .object ⟨index⟩) heap.scopes.size
  have fixed := image (fun index => .list ⟨false, index⟩) heap.lists.size
  have mutable := image (fun index => .list ⟨true, index⟩) heap.lists.size
  have lists := Finset.card_union_le
    ((Finset.range heap.lists.size).image fun index => Value.list ⟨false, index⟩)
    ((Finset.range heap.lists.size).image fun index => Value.list ⟨true, index⟩)
  have all := Finset.card_union_le
    ((Finset.range heap.scopes.size).image fun index => Value.object ⟨index⟩)
    ((Finset.range heap.lists.size).image (fun index => Value.list ⟨false, index⟩) ∪
      (Finset.range heap.lists.size).image fun index => Value.list ⟨true, index⟩)
  unfold containers depthBound
  omega

theorem mem_containers {part : Value} (isPart : part ∈ heap.parts value) :
    value ∈ heap.containers := by
  unfold containers
  simp only [Finset.mem_union, Finset.mem_image, Finset.mem_range]
  cases value with
  | primitive value => cases isPart
  | function function => cases isPart
  | object object =>
      left
      apply Exists.intro object.index
      refine ⟨?_, rfl⟩
      by_contra absent
      have none : heap.scope object = default := by simp [scope, absent]
      rw [parts, entries, none] at isPart
      cases isPart
  | list list =>
      right
      obtain ⟨isMutable, index⟩ := list
      cases isMutable with
      | false =>
          left
          refine ⟨index, ?_, rfl⟩
          by_contra absent
          simp [parts, items, absent] at isPart
      | true =>
          right
          refine ⟨index, ?_, rfl⟩
          by_contra absent
          simp [parts, items, absent] at isPart

/-- Looking for the text of a value deeper than the bound finds no other text. -/
theorem displayWithin_eq (enough : heap.depthBound ≤ depth) :
    heap.displayWithin depth value = heap.display? value := by
  let shows (depth : Nat) (value : Value) : Prop := (heap.displayWithin (depth + 1) value).isSome
  have same {less more : Nat} {value : Value} {text : String} (le : less ≤ more)
      (shown : (heap.displayWithin less value).isSome)
      (found : heap.displayWithin more value = some text) :
      heap.displayWithin less value = some text := by
    obtain ⟨other, isOther⟩ := Option.isSome_iff_exists.mp shown
    rw [displayWithin_mono le isOther] at found
    rw [isOther, found]
  have mono (depth : Nat) (value : Value) (shown : shows depth value) :
      shows (depth + 1) value := by
    obtain ⟨text, found⟩ := Option.isSome_iff_exists.mp shown
    exact Option.isSome_iff_exists.mpr ⟨text, displayWithin_succ found⟩
  have settled (depth : Nat) (back : ∀ part ∈ heap.containers, shows (depth + 1) part →
      shows depth part) (value : Value) (shown : shows (depth + 2) value) :
      shows (depth + 1) value := by
    obtain ⟨text, found⟩ := Option.isSome_iff_exists.mp shown
    apply Option.isSome_iff_exists.mpr
    refine ⟨text, displayWithin_of_le (fun part isPart shownPart foundPart => ?_) found⟩
    by_cases isContainer : part ∈ heap.containers
    · exact same (Nat.le_succ _) (back part isContainer (Option.isSome_of_mem foundPart)) foundPart
    · exact displayWithin_of_le (fun _ inner => absurd (mem_containers inner) isContainer) foundPart
  cases found : heap.displayWithin depth value with
  | some text =>
      symm
      apply same enough _ found
      have card := heap.card_containers
      obtain ⟨less, isDepth⟩ : ∃ less, depth = less + 1 := Nat.exists_eq_add_one.mpr (by omega)
      obtain ⟨bound, isBound⟩ : ∃ bound, heap.depthBound = bound + 1 :=
        Nat.exists_eq_add_one.mpr (by omega)
      rw [isDepth] at found
      rw [isBound]
      by_cases isContainer : value ∈ heap.containers
      · have shown := holds_card_of_holds (fun n a _ => mono n a)
          (fun n back a _ => settled n back a)
          (by omega) isContainer (Option.isSome_of_mem found : shows less value)
        obtain ⟨other, isOther⟩ := Option.isSome_iff_exists.mp shown
        exact Option.isSome_of_mem (displayWithin_mono (by omega) isOther)
      · exact Option.isSome_of_mem
          (displayWithin_of_le (fun _ inner => absurd (mem_containers inner) isContainer) found)
  | none =>
      cases shown : heap.display? value with
      | none => rfl
      | some text =>
          rw [displayWithin_mono enough shown] at found
          cases found

theorem isEqv_of_le {α : Type} {less more : α → α → Bool} {left right : List α}
    (le : ∀ a ∈ left, ∀ b ∈ right, less a b = true → more a b = true)
    (same : left.isEqv right less = true) : left.isEqv right more = true := by
  induction left generalizing right with
  | nil =>
      cases right with
      | nil => rfl
      | cons b right => cases same
  | cons a left induction =>
      cases right with
      | nil => cases same
      | cons b right =>
          rw [List.isEqv, Bool.and_eq_true] at same ⊢
          refine ⟨le a List.mem_cons_self b List.mem_cons_self same.1, induction ?_ same.2⟩
          exact fun x inLeft y inRight =>
            le x (List.mem_cons_of_mem a inLeft) y (List.mem_cons_of_mem b inRight)

variable {left right : Value}

theorem equalWithin_of_le {less more : Nat}
    (le : ∀ x ∈ heap.parts left, ∀ y ∈ heap.parts right, heap.equalWithin less x y = true →
      heap.equalWithin more x y = true)
    (same : heap.equalWithin (less + 1) left right = true) :
    heap.equalWithin (more + 1) left right = true := by
  cases left with
  | list left =>
      cases right with
      | list right =>
          simp only [equalWithin, Bool.or_eq_true] at same ⊢
          exact same.imp_right (isEqv_of_le le)
      | _ => exact same
  | primitive left => cases right <;> exact same
  | object left => cases right <;> exact same
  | function left => cases right <;> exact same

theorem equalWithin_mono {more : Nat} (le : depth ≤ more)
    (same : heap.equalWithin depth left right = true) :
    heap.equalWithin more left right = true := by
  have succ (depth : Nat) (left right : Value) (same : heap.equalWithin depth left right = true) :
      heap.equalWithin (depth + 1) left right = true := by
    induction depth generalizing left right with
    | zero => cases same
    | succ depth induction => exact equalWithin_of_le (fun x _ y _ => induction x y) same
  induction le with
  | refl => exact same
  | step _ induction => exact succ _ left right induction

/-- Values that are equal at some depth are equal at any depth if one of them has no parts. -/
theorem equalWithin_plain {less more : Nat}
    (isPlain : (left, right) ∉ heap.containers ×ˢ heap.containers)
    (same : heap.equalWithin (less + 1) left right = true) :
    heap.equalWithin (more + 1) left right = true := by
  refine equalWithin_of_le (fun x inLeft y inRight => ?_) same
  exact absurd (Finset.mem_product.mpr ⟨mem_containers inLeft, mem_containers inRight⟩) isPlain

/-- Looking for differences of two values deeper than the bound finds no more of them. -/
theorem equalWithin_eq (enough : heap.pairBound ≤ depth) :
    heap.equalWithin depth left right = heap.equal left right := by
  let holds (depth : Nat) (pair : Value × Value) : Prop :=
    heap.equalWithin (depth + 1) pair.1 pair.2 = true
  have settled (depth : Nat) (back : ∀ pair ∈ heap.containers ×ˢ heap.containers,
      holds (depth + 1) pair → holds depth pair) (pair : Value × Value)
      (same : holds (depth + 2) pair) : holds (depth + 1) pair := by
    refine equalWithin_of_le (fun x _ y _ equal => ?_) same
    by_cases isPair : (x, y) ∈ heap.containers ×ˢ heap.containers
    · exact back (x, y) isPair equal
    · exact equalWithin_plain isPair equal
  have card : (heap.containers ×ˢ heap.containers).card < heap.pairBound := by
    rw [Finset.card_product]
    exact Nat.mul_lt_mul'' heap.card_containers heap.card_containers
  rw [Bool.eq_iff_iff]
  constructor
  · intro same
    obtain ⟨less, rfl⟩ : ∃ less, depth = less + 1 := Nat.exists_eq_add_one.mpr (by omega)
    obtain ⟨bound, isBound⟩ : ∃ bound, heap.pairBound = bound + 1 :=
      Nat.exists_eq_add_one.mpr (by omega)
    rw [equal, isBound]
    by_cases isPair : (left, right) ∈ heap.containers ×ˢ heap.containers
    · have mono (n : Nat) (pair : Value × Value) (same : holds n pair) : holds (n + 1) pair :=
        equalWithin_mono (Nat.le_succ (n + 1)) same
      have there : holds _ (left, right) := holds_card_of_holds (fun n pair _ => mono n pair)
        (fun n back pair _ => settled n back pair) (by omega) isPair
        (same : holds less (left, right))
      exact equalWithin_mono (by omega) there
    · exact equalWithin_plain isPair same
  · exact equalWithin_mono enough

end Heap

end Stencil
