import Stencil.Proofs.Break.Advance
import Stencil.Proofs.Run.Live
import Stencil.Proofs.Run.Passes

/-!
# The course of a loop

A loop empties its scope at the top of each pass, binds its names there and runs its body.  Its
course is the sequence of sessions that this makes, as long as every pass ends well and none leaves
the loop.
-/

namespace Stencil

variable {η : Type}

theorem Dictionary.entries_put_of_not_contains {κ υ : Type} [DecidableEq κ]
    {dictionary : Dictionary κ υ} {key : κ} (value : υ) (absent : key ∉ dictionary.keys) :
    (dictionary.put key value).entries = dictionary.entries ++ [(key, value)] := by
  have unknown : ¬dictionary.contains key = true := fun known =>
    absent (contains_eq_true_iff.mp known)
  simp [put, unknown, append]

/-- Puts entries in a scope, one after another. -/
def Heap.putAll (heap : Heap) (scope : ScopeRef) (bindings : List (String × Value)) : Heap :=
  bindings.foldl (fun heap binding => heap.put scope binding.1 binding.2) heap

theorem Heap.entries_putAll {heap : Heap} {scope : ScopeRef} {bindings : List (String × Value)}
    (present : scope.index < heap.scopes.size)
    (distinct : ((heap.entries scope).keys ++ bindings.map Prod.fst).Nodup) :
    ((heap.putAll scope bindings).entries scope).entries =
      (heap.entries scope).entries ++ bindings := by
  induction bindings generalizing heap with
  | nil => exact (List.append_nil _).symm
  | cons binding bindings induction =>
      obtain ⟨name, value⟩ := binding
      have absent : name ∉ (heap.entries scope).keys := fun member =>
        (List.nodup_append.mp distinct).2.2 name member name List.mem_cons_self rfl
      have entries : ((heap.put scope name value).entries scope).entries =
          (heap.entries scope).entries ++ [(name, value)] := by
        rw [entries_put_self present]
        exact Dictionary.entries_put_of_not_contains value absent
      have keys : ((heap.put scope name value).entries scope).keys =
          (heap.entries scope).keys ++ [name] := by
        rw [Dictionary.keys, entries, List.map_append]
        rfl
      have size : (heap.put scope name value).scopes.size = heap.scopes.size :=
        size_modifyEntries _ _ _
      change ((((heap.put scope name value).putAll scope bindings).entries scope).entries) = _
      rw [induction (size.symm ▸ present), entries, List.append_assoc]
      · rfl
      · rw [keys, List.append_assoc]
        exact distinct

/-- Empties a scope and puts entries in it. -/
def Session.rebind (session : Session η) (scope : ScopeRef) (bindings : List (String × Value)) :
    Session η :=
  session.modifyHeap fun heap => (heap.clear scope).putAll scope bindings

namespace Session

variable {environment : Environment η} {rules : Run.Rules η} {session : Session η}
  {scope : ScopeRef} {body : BlockRef} {bindings : List (String × Value)}

theorem entries_rebind (present : scope.index < session.store.heap.scopes.size)
    (distinct : (bindings.map Prod.fst).Nodup) :
    ((session.rebind scope bindings).store.heap.entries scope).entries = bindings := by
  have cleared : (session.store.heap.clear scope).entries scope = .empty :=
    Heap.entries_clear scope present
  have size : (session.store.heap.clear scope).scopes.size = session.store.heap.scopes.size :=
    Heap.size_modifyEntries _ _ _
  change (((session.store.heap.clear scope).putAll scope bindings).entries scope).entries = _
  rw [Heap.entries_putAll (size.symm ▸ present), cleared]
  · rfl
  · rw [cleared]
    exact distinct

section

variable (lawful : rules.Lawful environment) (holds : rules.holds session)
  (owns : rules.Owns session scope body)

include lawful holds owns

theorem deeds_putAll (bindings : List (String × Value)) :
    session.Deeds environment rules (session.modifyHeap (·.putAll scope bindings)) := by
  induction bindings generalizing session with
  | nil => exact .refl
  | cons binding bindings induction =>
      have binds : session.Deeds environment rules
          (session.modifyHeap (·.put scope binding.1 binding.2)) :=
        (Run.Does.bindName owns binding.1 binding.2).deeds holds rfl
      exact binds.trans (induction (binds.holds lawful holds) (owns.mono lawful binds holds))

/-- Emptying and binding an own scope is something that rules allow. -/
theorem deeds_rebind (bindings : List (String × Value)) :
    session.Deeds environment rules (session.rebind scope bindings) := by
  have empties : session.Deeds environment rules (session.modifyHeap (·.clear scope)) :=
    (Run.Does.clear owns).deeds holds rfl
  exact empties.trans (deeds_putAll lawful (empties.holds lawful holds)
    (owns.mono lawful empties holds) bindings)

end

end Session

/-- How a loop runs its body in pass after pass. -/
structure Run.Course (η : Type) where
  runBlock : BlockRef → Run η Unit
  scope : ScopeRef
  body : BlockRef
  /-- What a pass binds, given how many passes came before and the session at its top. -/
  bindings : Nat → Session η → List (String × Value)
  begun : Session η

namespace Run.Course

/-- The session at the top of a pass. -/
def top (course : Course η) : Nat → Session η
  | 0 => course.begun
  | pass + 1 =>
      let top := course.top pass
      ((course.runBlock course.body).run.run
        (top.rebind course.scope (course.bindings pass top))).2

/-- The session in which a pass runs the body. -/
def start (course : Course η) (pass : Nat) : Session η :=
  (course.top pass).rebind course.scope (course.bindings pass (course.top pass))

/-- A pass ends well and does not leave the loop. -/
structure Completes (course : Course η) (pass : Nat) : Prop where
  isOk : ((course.runBlock course.body).run.run (course.start pass)).1 = .ok ()
  stays : ((course.top (pass + 1)).block course.body).wasLeft = false

instance (course : Course η) (pass : Nat) : Decidable (course.Completes pass) :=
  decidable_of_iff (((course.runBlock course.body).run.run (course.start pass)).1 = .ok () ∧
    ((course.top (pass + 1)).block course.body).wasLeft = false)
    ⟨fun ⟨isOk, stays⟩ => ⟨isOk, stays⟩, fun ⟨isOk, stays⟩ => ⟨isOk, stays⟩⟩

variable {course : Course η} {pass : Nat}

theorem Completes.ran (completes : course.Completes pass) :
    (course.runBlock course.body).run.run (course.start pass) =
      (.ok (), course.top (pass + 1)) :=
  Prod.ext completes.isOk rfl

/-- At the top of a pass the loop was not left. -/
theorem wasLeft_top (unleft : (course.begun.block course.body).wasLeft = false)
    (completes : ∀ earlier < pass, course.Completes earlier) :
    ((course.top pass).block course.body).wasLeft = false := by
  cases pass with
  | zero => exact unleft
  | succ pass => exact (completes pass (Nat.lt_succ_self pass)).stays

/-- A course is held to rules: its loop begins where they let a run come to, and was not left. -/
structure Governed (course : Course η) (environment : Environment η) (rules : Run.Rules η) :
    Prop where
  lawful : rules.Lawful environment
  performs : Run.Performs environment rules course.runBlock
  holds : rules.holds course.begun
  owns : rules.Owns course.begun course.scope course.body
  unleft : (course.begun.block course.body).wasLeft = false

namespace Governed

variable {environment : Environment η} {rules : Run.Rules η}
  (governed : course.Governed environment rules)
  (completes : ∀ earlier < pass, course.Completes earlier)

include governed completes

/-- What comes before a pass is done by passes that rules allow. -/
theorem deeds_top : course.begun.Deeds environment rules (course.top pass) := by
  obtain ⟨lawful, performs, holds, owns, -⟩ := governed
  induction pass with
  | zero => exact .refl
  | succ pass induction =>
      have before := induction fun earlier less => completes earlier (Nat.lt_succ_of_lt less)
      have holdsTop := before.holds lawful holds
      have ownsTop := owns.mono lawful before holds
      have binds : (course.top pass).Deeds environment rules (course.start pass) :=
        Session.deeds_rebind lawful holdsTop ownsTop _
      have ownsStart := ownsTop.mono lawful binds holdsTop
      have runs := (performs.does (course.start pass) course.body ownsStart.comes).deeds
        (binds.holds lawful holdsTop) (completes pass (Nat.lt_succ_self pass)).ran
      exact (before.trans binds).trans runs

/-- The scope of the loop is there at the top of a pass. -/
theorem present_top : course.scope.index < (course.top pass).store.heap.scopes.size := by
  have before := governed.deeds_top completes
  have owns := governed.owns.mono governed.lawful before governed.holds
  exact owns.present governed.lawful (before.holds governed.lawful governed.holds)

/-- A pass starts with nothing in the scope of the loop but what it binds. -/
theorem entries_start (distinct : ((course.bindings pass (course.top pass)).map Prod.fst).Nodup) :
    ((course.start pass).store.heap.entries course.scope).entries =
      course.bindings pass (course.top pass) :=
  Session.entries_rebind (governed.present_top completes) distinct

end Governed

end Run.Course

/-- The session in which the passes of a loop begin. -/
def Session.enterLoop (session : Session η) (body : BlockRef) : Session η :=
  session.modifyBlock body ({ · with wasLeft := false })

namespace Session

theorem scope_enterLoop (session : Session η) (body : BlockRef) :
    ((session.enterLoop body).block body).scope = (session.block body).scope :=
  have quiet : session.Quiet (session.enterLoop body) :=
    session.quiet_modifyBlock body fun _ => rfl
  Block.eq_of_unmarked Block.scope (fun _ => rfl) (quiet.block body)

theorem wasLeft_enterLoop (session : Session η) (body : BlockRef) :
    ((session.enterLoop body).block body).wasLeft = false := by
  by_cases present : body.index < session.blocks.size
  · rw [enterLoop, block_modifyBlock_self _ present]
  · have absent : (session.enterLoop body).blocks.size ≤ body.index := by
      rw [enterLoop, modifyBlock, Array.size_modify]
      exact Nat.le_of_not_lt present
    rw [block_of_le absent]
    rfl

/-- Marking a loop as not left and evaluating its header is something that rules allow. -/
theorem deeds_enterLoop {environment : Environment η} {rules : Run.Rules η} {session : Session η}
    {store : Store η} (body : BlockRef)
    (changes : Store.Changes environment.host session.store store) :
    session.Deeds environment rules { session.enterLoop body with store } := by
  have marks : session.Deeds environment rules (session.enterLoop body) :=
    .single (.mark body false)
  exact marks.tail (.evaluate store changes)

/-- Emptying a scope twice is emptying it once. -/
theorem clear_clear (session : Session η) (scope : ScopeRef) :
    (session.modifyHeap (·.clear scope)).modifyHeap (·.clear scope) =
      session.modifyHeap (·.clear scope) :=
  congrArg (fun heap => { session with store := { session.store with heap } })
    (Heap.clear_clear _ _)

end Session

/-- The store that an evaluation ends with is one that it may make. -/
theorem Evaluator.Changes.of_ran {α : Type} {host : Host η} {evaluator : Evaluator η α}
    {before after : Store η} {answer : Except TemplateError α} (changes : evaluator.Changes host)
    (ran : evaluator.run.run before = (answer, after)) : Store.Changes host before after := by
  have made := changes.store before
  rw [ran] at made
  exact made

/-- A loop runs its passes and then empties its scope. -/
theorem Run.ran_loop {environment : Environment η} {runBlock : BlockRef → Run η Unit} {fuel : Nat}
    {outer : ScopeRef} {header : LoopHeader} {body : BlockRef} {session after : Session η}
    {outcome : Except Stop Unit}
    (ran : (passes environment runBlock fuel outer body header).run.run (session.enterLoop body) =
      (outcome, after)) :
    (loop environment runBlock fuel outer header body).run.run session =
      (outcome, after.modifyHeap (·.clear (session.block body).scope)) := by
  have split : (loop environment runBlock fuel outer header body).run.run session =
      (((passes environment runBlock fuel outer body header).run.run (session.enterLoop body)).1,
        ((passes environment runBlock fuel outer body header).run.run
          (session.enterLoop body)).2.modifyHeap
            (·.clear ((session.enterLoop body).block body).scope)) := rfl
  rw [split, ran, session.scope_enterLoop]

/-- The course of a loop in a live block is held to the rules for nested scopes. -/
theorem Run.Course.governed_enterLoop {environment : Environment η}
    (keeps : environment.host.KeepsParents) {session : Session η} {id body : BlockRef}
    {nodes : List Node} {header : LoopHeader} {store : Store η}
    (nested : session.Nested environment.embeddings) (live : session.Live id)
    (parsed : (session.block id).nodes? = some nodes) (member : .loop header body ∈ nodes)
    (changes : Store.Changes environment.host session.store store)
    (bindings : Nat → Session η → List (String × Value)) (fuel : Nat) :
    Governed ⟨Run.block environment fuel, (session.block body).scope, body, bindings,
      { session.enterLoop body with store }⟩ environment
        (.live environment (fun _ => True) fun _ _ => True) := by
  have lawful : (Run.Rules.live environment (fun _ => True) fun _ _ => True).Lawful environment :=
    Run.Rules.lawful_live keeps
  have owns := Run.Rules.owns_of_refers lawful nested ⟨live, rfl, parsed⟩ member trivial
    (.loop header body) rfl nofun
  have enters : session.Deeds environment (.live environment (fun _ => True) fun _ _ => True)
      { session.enterLoop body with store } := Session.deeds_enterLoop body changes
  exact {
    lawful
    performs := Run.performs_block lawful (fun _ => trivial) (fun _ _ => trivial) fuel
    holds := enters.holds lawful nested
    owns := owns.mono lawful enters nested
    unleft := session.wasLeft_enterLoop body }

end Stencil
