import Stencil.Proofs.Run.Course
import Stencil.Proofs.Template.Scopes

/-!
# Loops over a list

A loop over a list goes through the places that the list had when the loop began.  Each pass takes
the element that is then at its place, whatever became of the list since, and the loop fails at the
first place that is gone.
-/

namespace Stencil

open Text

variable {η : Type}

namespace Run

/-- What the pass at a place of a list binds. -/
def elementBindings (element : String) (index : Option String) (list : ListRef) (place : Nat)
    (top : Session η) : List (String × Value) :=
  match (top.store.heap.items list)[place]? with
  | none => []
  | some item => (element, item) :: index.toList.map fun name => (name, .int (Int32.ofNat place))

/-- The course of a loop over a list. -/
def Course.ofList (runBlock : BlockRef → Run η Unit) (scope : ScopeRef) (body : BlockRef)
    (element : String) (index : Option String) (list : ListRef) (begun : Session η) : Course η where
  runBlock
  scope
  body
  bindings := elementBindings element index list
  begun

/-- The place of a pass is in the list when the pass begins. -/
def Course.HasPlace (course : Course η) (list : ListRef) (pass : Nat) : Prop :=
  pass < ((course.top pass).store.heap.items list).length

instance (course : Course η) (list : ListRef) (pass : Nat) :
    Decidable (course.HasPlace list pass) :=
  inferInstanceAs (Decidable (_ < _))

theorem elementBindings_of_getElem? {element : String} {index : Option String} {list : ListRef}
    {place : Nat} {top : Session η} {item : Value}
    (isItem : (top.store.heap.items list)[place]? = some item) :
    elementBindings element index list place top =
      (element, item) :: index.toList.map fun name => (name, .int (Int32.ofNat place)) := by
  rw [elementBindings, isItem]

theorem nodup_elementBindings {element : String} {index : Option String}
    (distinct : index ≠ some element) (list : ListRef) (place : Nat) (top : Session η) :
    ((elementBindings element index list place top).map Prod.fst).Nodup := by
  unfold elementBindings
  cases (top.store.heap.items list)[place]? with
  | none => exact List.nodup_nil
  | some item =>
      cases index with
      | none => exact List.pairwise_singleton _ _
      | some name =>
          have different : element ≠ name := fun same => distinct (congrArg some same.symm)
          simpa using different

section

variable {environment : Environment η} {runBlock : BlockRef → Run η Unit} {scope outer : ScopeRef}
  {body : BlockRef} {element : String} {index : Option String} {list : ListRef} {place : Nat}
  {places : List Nat} {session begun : Session η} {fuel : Nat}

/-- At the top of a pass whose place is in the list, the body runs with the element there. -/
theorem iterableLoop_of_present (unleft : (session.block body).wasLeft = false) {item : Value}
    (isItem : (session.store.heap.items list)[place]? = some item) :
    (iterableLoop runBlock scope body element index list (place :: places)).run.run session =
      (do
        runBlock body
        iterableLoop runBlock scope body element index list places : Run η Unit).run.run
          (session.rebind scope (elementBindings element index list place session)) := by
  have begins := ran_beginPass scope body session
  rw [unleft] at begins
  refine (run_bind_of_ok begins).trans ?_
  rw [if_neg Bool.false_ne_true]
  let emptied := session.modifyHeap (·.clear scope)
  have looked : (get : Run η (Session η)).run.run emptied = pure (.ok emptied, emptied) := rfl
  have there : (emptied.store.heap.items list)[place]? = some item := isItem
  rw [run_bind_of_ok looked]
  dsimp only
  rw [there, elementBindings_of_getElem? isItem]
  have named : (bindName scope element item).run.run emptied =
      pure (.ok (), emptied.modifyHeap (·.put scope element item)) := rfl
  dsimp only
  rw [run_bind_of_ok named]
  cases index with
  | none => rfl
  | some name => rfl

/-- At the top of a pass whose place is gone, the loop fails. -/
theorem iterableLoop_of_missing (unleft : (session.block body).wasLeft = false)
    (missing : (session.store.heap.items list)[place]? = none) :
    (iterableLoop runBlock scope body element index list (place :: places)).run.run session =
      (.error (.failed (.reference (.elementMissing place))),
        session.modifyHeap (·.clear scope)) := by
  have begins := ran_beginPass scope body session
  rw [unleft] at begins
  refine (run_bind_of_ok begins).trans ?_
  rw [if_neg Bool.false_ne_true]
  let emptied := session.modifyHeap (·.clear scope)
  have looked : (get : Run η (Session η)).run.run emptied = pure (.ok emptied, emptied) := rfl
  have gone : (emptied.store.heap.items list)[place]? = none := missing
  rw [run_bind_of_ok looked]
  dsimp only
  rw [gone]
  rfl

/-- As long as the places of the passes are in the list, a loop comes to the top of one pass after
another. -/
theorem iterableLoop_top {size pass : Nat} (within : pass ≤ size)
    (unleft : (begun.block body).wasLeft = false)
    (present : ∀ earlier < pass,
      (Course.ofList runBlock scope body element index list begun).HasPlace list earlier)
    (completes : ∀ earlier < pass,
      (Course.ofList runBlock scope body element index list begun).Completes earlier) :
    (iterableLoop runBlock scope body element index list (List.range size)).run.run begun =
      (iterableLoop runBlock scope body element index list
        (List.range' pass (size - pass))).run.run
          ((Course.ofList runBlock scope body element index list begun).top pass) := by
  induction pass with
  | zero =>
      rw [List.range_eq_range', Nat.sub_zero]
      rfl
  | succ pass induction =>
      have less := Nat.lt_succ_self pass
      have before (earlier : Nat) (early : earlier < pass) := Nat.lt_succ_of_lt early
      rw [induction (Nat.le_of_succ_le within)
        (fun earlier early => present earlier (before _ early))
        fun earlier early => completes earlier (before _ early)]
      obtain ⟨item, isItem⟩ : ∃ item, (((Course.ofList runBlock scope body element index list
          begun).top pass).store.heap.items list)[pass]? = some item :=
        ⟨_, List.getElem?_eq_getElem (present pass less)⟩
      have unleftTop : (((Course.ofList runBlock scope body element index list begun).top
          pass).block body).wasLeft = false :=
        Course.wasLeft_top unleft fun earlier early => completes earlier (before _ early)
      have split : size - pass = size - (pass + 1) + 1 := by omega
      rw [split, List.range'_succ, iterableLoop_of_present unleftTop isItem]
      exact run_bind_of_ok (completes pass less).ran

/-- What the passes of a loop over a list are, once the list was evaluated. -/
theorem passes_iterable {iterable : Expression} {value : ListRef}
    (evaluated : (onStore (iterable.evaluate environment.host outer)).run.run session =
      (.ok (.list value), begun)) :
    (passes environment runBlock fuel outer body
      (.iterable element index iterable)).run.run session =
      (iterableLoop runBlock (session.block body).scope body element index value
        (List.range (begun.store.heap.items value).length)).run.run begun := by
  have looked : (get : Run η (Session η)).run.run session = pure (.ok session, session) := rfl
  unfold passes
  rw [run_bind_of_ok looked]
  dsimp only
  rw [run_bind_of_ok evaluated]
  rfl

end

end Run

namespace Template

variable {source : AnySource} {options : Options} {host : Host η} {state : η}
  {template : Template η}

/-- A loop over a list walks the places that the list had when the loop began.  The list is
evaluated once.  Each pass starts with the element that is then at its place, and with the place
itself if the loop has an index.  If every pass finds its place there are as many passes as the list
had elements; otherwise the loop fails at the first place that is gone, after the passes before. -/
theorem iterable_loop_walks
    (evolves : (ofSource source options host state).Evolves Store.KeepsParents template)
    (keeps : host.KeepsParents) {session : Session η} {id : BlockRef} {nodes : List Node}
    (during : Session.Effects ⟨host, options.embeddings⟩ (fun _ => True)
      { template.session with writes := #[] } session)
    (live : session.Live id) (parsed : (session.block id).nodes? = some nodes)
    {element : String} {index : Option String} {iterable : Expression} {body : BlockRef}
    (member : .loop (.iterable element index iterable) body ∈ nodes)
    (distinct : index ≠ some element) {list : ListRef} {store : Store η}
    (evaluated : (iterable.evaluate host (session.block id).scope).run.run session.store =
      (.ok (.list list), store)) (fuel : Nat) :
    let environment : Environment η := ⟨host, options.embeddings⟩
    let scope := (session.block body).scope
    let course := Run.Course.ofList (Run.block environment fuel) scope body element index list
      { session.enterLoop body with store }
    let looping := Run.node environment (Run.block environment fuel) fuel (session.block id).scope
      (.loop (.iterable element index iterable) body)
    let size := (store.heap.items list).length
    (∀ pass < size, (∀ earlier ≤ pass, course.HasPlace list earlier) → course.Completes pass) →
    (∀ pass < size, (∀ earlier ≤ pass, course.HasPlace list earlier) →
      ∃ item, ((course.top pass).store.heap.items list)[pass]? = some item ∧
        ((course.start pass).store.heap.entries scope).entries =
          (element, item) :: index.toList.map fun name => (name, .int (Int32.ofNat pass))) ∧
    ((∀ pass < size, course.HasPlace list pass) →
      looping.run.run session = (.ok (), (course.top size).modifyHeap (·.clear scope))) ∧
    ∀ pass < size, (∀ earlier < pass, course.HasPlace list earlier) →
      ¬course.HasPlace list pass →
      looping.run.run session = (.error (.failed (.reference (.elementMissing pass))),
        (course.top pass).modifyHeap (·.clear scope)) := by
  intro environment scope course looping size completes
  have begun := evolves.begun keeps
  have nested := during.nested keeps begun.1
  have governed : course.Governed environment (.live environment (fun _ => True) fun _ _ => True) :=
    Run.Course.governed_enterLoop keeps nested live parsed member
      ((Evaluator.Changes.evaluate _ iterable).of_ran evaluated) _ fuel
  have unleft : (course.begun.block body).wasLeft = false := governed.unleft
  -- What the passes end with from their beginning on is what the loop ends with.
  have walks (outcome : Except Stop Unit) (after : Session η)
      (ended : (Run.iterableLoop (Run.block environment fuel) scope body element index list
        (List.range size)).run.run course.begun = (outcome, after)) :
      looping.run.run session = (outcome, after.modifyHeap (·.clear scope)) := by
    apply Run.ran_loop
    have evaluatedThere : (iterable.evaluate host (session.block id).scope).run.run
        (session.enterLoop body).store = (.ok (.list list), store) := evaluated
    have enters : (Run.onStore (iterable.evaluate host (session.block id).scope)).run.run
        (session.enterLoop body) = (.ok (.list list), course.begun) :=
          Run.ran_onStore evaluatedThere
    rw [Run.passes_iterable enters, session.scope_enterLoop]
    exact ended
  have places {count : Nat} (within : count ≤ size)
      (present : ∀ earlier < count, course.HasPlace list earlier) (earlier : Nat)
      (early : earlier < count) : course.Completes earlier :=
    completes earlier (Nat.lt_of_lt_of_le early within) fun other before =>
      present other (Nat.lt_of_le_of_lt before early)
  refine ⟨fun pass less present => ?_, fun present => ?_, fun pass less present missing => ?_⟩
  · have isItem := List.getElem?_eq_getElem (present pass (Nat.le_refl pass))
    refine ⟨_, isItem, ?_⟩
    rw [← Run.elementBindings_of_getElem? isItem]
    have earlier := places (Nat.le_of_lt less) fun earlier early => present earlier
      (Nat.le_of_lt early)
    exact governed.entries_start earlier (Run.nodup_elementBindings distinct list pass _)
  · apply walks
    rw [Run.iterableLoop_top (Nat.le_refl size) unleft present (places (Nat.le_refl size) present),
      Nat.sub_self]
    rfl
  · have earlier := places (Nat.le_of_lt less) present
    have split : size - pass = size - (pass + 1) + 1 := by omega
    have missingHere : ((course.top pass).store.heap.items list)[pass]? = none :=
      List.getElem?_eq_none (Nat.le_of_not_lt missing)
    have unleftTop : ((course.top pass).block body).wasLeft = false :=
      Run.Course.wasLeft_top unleft earlier
    have ended := walks (.error (.failed (.reference (.elementMissing pass))))
      ((course.top pass).modifyHeap (·.clear scope)) (by
        rw [Run.iterableLoop_top (Nat.le_of_lt less) unleft present earlier, split,
          List.range'_succ]
        exact Run.iterableLoop_of_missing unleftTop missingHere)
    rw [ended, Session.clear_clear]

/-- A text whose loop removes from its list the elements that it comes to, as an example. -/
def shrink : AnySource :=
  .plain (.ofString "@var xs = @mutable_list(1, 2, 3)\n@for(x, i: xs)@var(xs.@remove(x))@endfor")

/-- The environment of the template of the text. -/
def shrinking : Environment Unit where
  host := Host.none
  embeddings _ := none

/-- The template after a render that had not enough fuel for the passes of the loop. -/
def shrunk : Template Unit :=
  ((ofSource shrink { defaultPlaceholders := false } Host.none ()).render 1).2

/-- The session in which that loop is about to run. -/
def shrinkingBegun : Session Unit :=
  { shrunk.session with writes := #[] }

/-- The course of the loop with a header and a body. -/
def shrinkingCourse (element : String) (index : Option String) (iterable : Expression)
    (body : BlockRef) : Run.Course Unit :=
  .ofList (Run.block shrinking 5) (shrinkingBegun.block body).scope body element index ⟨true, 0⟩
    { shrinkingBegun.enterLoop body with
      store := ((iterable.evaluate Host.none .global).run.run shrinkingBegun.store).2 }

/-- Whether the list has lost the third place of the loop after two passes that ended well. -/
def shrinks : Bool :=
  match (shrinkingBegun.block ⟨0⟩).nodes? with
  | some [_, .loop (.iterable element index iterable) body] =>
      let course := shrinkingCourse element index iterable body
      (match ((iterable.evaluate Host.none .global).run.run shrinkingBegun.store).1 with
        | .ok (.list list) => decide (list = ⟨true, 0⟩)
        | _ => false) &&
      decide (index ≠ some element ∧ (course.begun.store.heap.items ⟨true, 0⟩).length = 3 ∧
        (∀ pass : Nat, pass < 3 →
          (∀ earlier : Nat, earlier ≤ pass → course.HasPlace ⟨true, 0⟩ earlier) →
            course.Completes pass) ∧
        (∀ earlier : Nat, earlier < 2 → course.HasPlace ⟨true, 0⟩ earlier) ∧
        ¬course.HasPlace ⟨true, 0⟩ 2)
  | _ => false

theorem iterable_loop_walks_shrinking :
    ∃ (header : LoopHeader) (body : BlockRef) (after : Session Unit),
      (Run.node shrinking (Run.block shrinking 5) 5 .global (.loop header body)).run.run
        shrinkingBegun = (.error (.failed (.reference (.elementMissing 2))), after) := by
  have check : shrinks = true := by decide +kernel
  unfold shrinks at check
  split at check
  case h_2 => cases check
  case h_1 first element index iterable body parsed =>
    obtain ⟨isList, facts⟩ := (Bool.and_eq_true _ _).mp check
    obtain ⟨distinct, size, completes, present, missing⟩ := of_decide_eq_true facts
    have evolves : (ofSource shrink { defaultPlaceholders := false } Host.none ()).Evolves
        Store.KeepsParents shrunk := .render .refl 1
    have live : shrinkingBegun.Live ⟨0⟩ := by
      have begun := (evolves.begun Host.keepsParents_none).2
      rw [evolves.root] at begun
      exact begun
    have isGlobal : (shrinkingBegun.block ⟨0⟩).scope = .global := by decide +kernel
    have evaluated : (iterable.evaluate Host.none .global).run.run shrinkingBegun.store =
        (.ok (.list ⟨true, 0⟩), (shrinkingCourse element index iterable body).begun.store) := by
      split at isList
      case h_2 => cases isList
      case h_1 list isOk =>
        rw [of_decide_eq_true isList] at isOk
        exact Prod.ext isOk rfl
    rw [← isGlobal] at evaluated
    have during : Session.Effects shrinking (fun _ => True) shrinkingBegun shrinkingBegun := .refl
    obtain ⟨-, -, fails⟩ := iterable_loop_walks evolves Host.keepsParents_none during live parsed
      (List.mem_cons_of_mem _ List.mem_cons_self) distinct evaluated 5 (size ▸ completes)
    have ended := fails 2 (size ▸ by decide) present missing
    rw [isGlobal] at ended
    exact ⟨_, body, _, ended⟩

end Template

end Stencil
