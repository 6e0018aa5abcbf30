import Stencil.Proofs.Run.Course
import Stencil.Proofs.Run.Progression
import Stencil.Proofs.Run.Shield
import Stencil.Proofs.Template.Scopes

/-!
# Loops over numbers

A loop over numbers goes through the progression that its header began, whatever its body assigns.
Its passes bind the numbers in the scope of the loop, so a scope around it that binds the same name
keeps its value.
-/

namespace Stencil

open Text

variable {η : Type}

namespace Run

theorem compares_int (number limit : Int32) (comparison : Comparison) :
    (Primitive.int number).compares comparison (.int limit) =
      .ok (comparison.holds (compare number.toInt limit.toInt)) := rfl

/-- The course of a loop over numbers. -/
def Course.ofNumbers (runBlock : BlockRef → Run η Unit) (scope : ScopeRef) (body : BlockRef)
    (name : String) (number : Nat → Int32) (begun : Session η) : Course η where
  runBlock
  scope
  body
  bindings pass _ := [(name, .int (number pass))]
  begun

/-- Before a bound there is a first number that does not satisfy something, or else none. -/
theorem exists_firstFailing (holds : Nat → Prop) (bound : Nat) :
    ∃ first ≤ bound, (∀ earlier < first, holds earlier) ∧ (first < bound → ¬holds first) := by
  induction bound with
  | zero => exact ⟨0, Nat.le_refl 0, nofun, nofun⟩
  | succ bound induction =>
      obtain ⟨first, within, present, fails⟩ := induction
      by_cases holdsFirst : holds first
      · obtain rfl : first = bound :=
          Nat.le_antisymm within (Nat.le_of_not_lt fun below => fails below holdsFirst)
        exact ⟨first + 1, Nat.le_refl _, fun earlier early =>
          (Nat.lt_succ_iff_lt_or_eq.mp early).elim
          (present earlier) fun same => same ▸ holdsFirst, fun less =>
            absurd less (Nat.lt_irrefl _)⟩
      · exact ⟨first, Nat.le_succ_of_le within, present, fun _ => holdsFirst⟩

section

variable {environment : Environment η} {runBlock : BlockRef → Run η Unit} {scope outer : ScopeRef}
  {body : BlockRef} {name : String} {comparison : Comparison} {limit increment first : Int32}
  {operator : Operator} {session begun : Session η} {fuel pass : Nat}

/-- As long as the numbers satisfy the comparison, a loop comes to the top of one pass after
another. -/
theorem numberedLoop_top (within : pass ≤ fuel)
    (computes : comparison.holds (compare first.toInt limit.toInt) = true →
      ¬operator.DividesByZero increment)
    (unleft : (begun.block body).wasLeft = false)
    (holds : ∀ earlier < pass, comparison.holds
      (compare (operator.progression increment first earlier).toInt limit.toInt) = true)
    (completes : ∀ earlier < pass, (Course.ofNumbers runBlock scope body name
      (operator.progression increment first) begun).Completes earlier) :
    (numberedLoop runBlock scope body name comparison limit operator increment fuel first).run.run
        begun =
      (numberedLoop runBlock scope body name comparison limit operator increment (fuel - pass)
        (operator.progression increment first pass)).run.run
          ((Course.ofNumbers runBlock scope body name (operator.progression increment first)
            begun).top pass) := by
  induction pass with
  | zero => rfl
  | succ pass induction =>
      have last := Nat.lt_succ_self pass
      have before (earlier : Nat) (early : earlier < pass) := Nat.lt_succ_of_lt early
      have split : fuel - pass = fuel - (pass + 1) + 1 := by omega
      have passes : PassesAt runBlock scope body name comparison limit
          (operator.progression increment first pass)
          ((Course.ofNumbers runBlock scope body name (operator.progression increment first)
            begun).top pass)
          ((Course.ofNumbers runBlock scope body name (operator.progression increment first)
            begun).top (pass + 1)) := by
        refine ⟨?_, ?_, (completes pass last).ran⟩
        · exact Course.wasLeft_top unleft fun earlier early => completes earlier (before _ early)
        · rw [compares_int, holds pass last]
      have counts := nextCounter_of_not_dividesByZero (computes (holds 0 (Nat.succ_pos pass))) name
        (operator.progression increment first pass)
      rw [induction (Nat.le_of_succ_le within) (fun earlier early => holds earlier (before _ early))
        fun earlier early => completes earlier (before _ early), split, passes.numberedLoop_eq,
        run_bind_of_ok (ran_onStore_of_ok counts _), Operator.progression_succ]

/-- At the top of a pass whose number does not satisfy the comparison, the loop ends. -/
theorem numberedLoop_of_fails {counter : Int32} (unleft : (session.block body).wasLeft = false)
    (fails : ¬comparison.holds (compare counter.toInt limit.toInt) = true) :
    (numberedLoop runBlock scope body name comparison limit operator increment (fuel + 1)
      counter).run.run session = (.ok (), session.modifyHeap (·.clear scope)) := by
  have begins := ran_beginPass scope body session
  rw [unleft] at begins
  refine (run_bind_of_ok begins).trans ?_
  have compared := compares_int counter limit comparison
  rw [Bool.eq_false_iff.mpr fails] at compared
  rw [if_neg Bool.false_ne_true, run_bind_of_ok (ran_onStore_of_ok compared _),
    if_neg Bool.false_ne_true]
  rfl

/-- The loop ends at the top of the first pass whose number does not satisfy the comparison. -/
theorem numberedLoop_ends (within : pass < fuel)
    (computes : comparison.holds (compare first.toInt limit.toInt) = true →
      ¬operator.DividesByZero increment)
    (unleft : (begun.block body).wasLeft = false)
    (holds : ∀ earlier < pass, comparison.holds
      (compare (operator.progression increment first earlier).toInt limit.toInt) = true)
    (fails : ¬comparison.holds
      (compare (operator.progression increment first pass).toInt limit.toInt) = true)
    (completes : ∀ earlier < pass, (Course.ofNumbers runBlock scope body name
      (operator.progression increment first) begun).Completes earlier) :
    (numberedLoop runBlock scope body name comparison limit operator increment fuel first).run.run
        begun =
      (.ok (), ((Course.ofNumbers runBlock scope body name (operator.progression increment first)
        begun).top pass).modifyHeap (·.clear scope)) := by
  have split : fuel - pass = fuel - pass - 1 + 1 := by omega
  rw [numberedLoop_top (Nat.le_of_lt within) computes unleft holds completes, split]
  exact numberedLoop_of_fails (Course.wasLeft_top unleft completes) fails

/-- A loop whose numbers satisfy the comparison in every pass runs out of fuel. -/
theorem numberedLoop_outOfFuel
    (computes : comparison.holds (compare first.toInt limit.toInt) = true →
      ¬operator.DividesByZero increment)
    (unleft : (begun.block body).wasLeft = false)
    (holds : ∀ earlier < fuel, comparison.holds
      (compare (operator.progression increment first earlier).toInt limit.toInt) = true)
    (completes : ∀ earlier < fuel, (Course.ofNumbers runBlock scope body name
      (operator.progression increment first) begun).Completes earlier) :
    (numberedLoop runBlock scope body name comparison limit operator increment fuel first).run.run
        begun =
      (.error .outOfFuel, (Course.ofNumbers runBlock scope body name
        (operator.progression increment first) begun).top fuel) := by
  rw [numberedLoop_top (Nat.le_refl fuel) computes unleft holds completes, Nat.sub_self]
  rfl

/-- A start, bound or step that evaluates to an int. -/
theorem ran_loopNumber {expression : Expression} {number : Int32} {store : Store η}
    (evaluated : (expression.evaluate environment.host outer).run.run session.store =
      (.ok (.int number), store)) (what : String) :
    (loopNumber environment outer what expression).run.run session =
      (.ok number, { session with store }) :=
  run_bind_of_ok (ran_onStore evaluated)

theorem ran_loopNumbers {start bound step : Expression} {started bounded stepped : Store η}
    (starts : (start.evaluate environment.host outer).run.run session.store =
      (.ok (.int first), started))
    (bounds : (bound.evaluate environment.host outer).run.run started =
      (.ok (.int limit), bounded))
    (steps : (step.evaluate environment.host outer).run.run bounded =
      (.ok (.int increment), stepped)) :
    (loopNumbers environment outer start bound step).run.run session =
      (.ok (first, limit, increment), { session with store := stepped }) := by
  have second : (loopNumber environment outer "loop bound" bound).run.run
      { session with store := started } = (.ok limit, { session with store := bounded }) :=
    ran_loopNumber bounds _
  have third : (loopNumber environment outer "loop step" step).run.run
      { session with store := bounded } = (.ok increment, { session with store := stepped }) :=
    ran_loopNumber steps _
  unfold loopNumbers
  rw [run_bind_of_ok (ran_loopNumber starts _), run_bind_of_ok second, run_bind_of_ok third]
  rfl

end

end Run

namespace Session

variable {environment : Environment η} {embeddings : Embeddings} {session : Session η}
  {id body : BlockRef} {nodes : List Node} {header : LoopHeader} {inner around : ScopeRef}
  {name : String} {value : Value}

/-- A scope around a loop is an earlier one than the scope of the loop. -/
theorem Nested.lt_of_around (nested : session.Nested embeddings)
    (parsed : (session.block id).nodes? = some nodes) (member : .loop header body ∈ nodes)
    (isAround : session.Around id around) : around.index < (session.block body).scope.index := by
  obtain ⟨present, isRole, -, later⟩ := nested.placed id nodes parsed _ member _ _
    (.loop header body)
  have owns : (session.block body).role.ownsScope = true := by rw [isRole]; rfl
  have above := later rfl
  rcases isAround with rfl | ⟨outer, -, -, rfl, within⟩
  · exact Nat.pos_of_ne_zero fun isZero =>
      nested.own body present owns (congrArg ScopeRef.mk isZero)
  · have inRange := nested.inRange id (lt_of_nodes? parsed)
    obtain ⟨below, -⟩ := nested.chainFrom_within within inRange
    omega

/-- A name that a scope around a loop binds is bound beneath when the loop begins. -/
theorem Nested.beneath (nested : session.Nested embeddings) (calm : session.Calm embeddings)
    (native : session.Native) (live : session.Live id)
    (parsed : (session.block id).nodes? = some nodes) (member : .loop header body ∈ nodes)
    (isAround : session.Around id around)
    (bound : session.store.heap.get? around name = some value) :
    session.Beneath embeddings body (session.block body).scope around name value where
  nested
  calm
  native
  live := live.inner parsed member (.loop header body)
  isLoop := (nested.placed id nodes parsed _ member _ _ (.loop header body)).isRole
  isScope := rfl
  around := by
    rcases isAround with isGlobal | ⟨outer, present, owns, isScope, within⟩
    · exact .inl isGlobal
    · exact .inr ⟨outer, present, owns, isScope,
        .inner id nodes _ _ body within parsed member (.loop header body)⟩
  below := nested.lt_of_around parsed member isAround
  kept := bound

/-- It still is when the header was evaluated. -/
theorem Beneath.enterLoop (keeps : environment.host.KeepsParents)
    (spares : environment.host.Spares around)
    (beneath : session.Beneath environment.embeddings body inner around name value)
    {store : Store η} (changes : Store.Changes environment.host session.store store) :
    ({ session.enterLoop body with store } : Session η).Beneath environment.embeddings body inner
      around name value := by
  have lawful : (Run.Rules.live environment (fun _ => True) fun _ _ => True).Lawful environment :=
    Run.Rules.lawful_live keeps
  have enters : session.Deeds environment (.live environment (fun _ => True) fun _ _ => True)
      { session.enterLoop body with store } := deeds_enterLoop body changes
  have same : store.heap.entries around = session.store.heap.entries around :=
    changes.entries keeps spares (beneath.around.inRange beneath.nested)
  refine beneath.mono keeps (enters.effects lawful beneath.nested) ?_
  rw [Heap.get?, same]
  exact beneath.kept

theorem Beneath.ne (beneath : session.Beneath embeddings body inner around name value) :
    around ≠ inner := fun same => by
  have below := beneath.below
  rw [same] at below
  exact Nat.lt_irrefl _ below

/-- Emptying the scope of the loop leaves the scope around as it is. -/
theorem Beneath.kept_clear (beneath : session.Beneath embeddings body inner around name value) :
    (session.modifyHeap (·.clear inner)).store.heap.get? around name = some value := by
  have same : (session.store.heap.clear inner).entries around = session.store.heap.entries around :=
    Heap.entries_modifyEntries_of_ne _ beneath.ne
  change ((session.store.heap.clear inner).entries around).get? name = _
  rw [same]
  exact beneath.kept

/-- When the loop binds the name itself, it hides the scope around. -/
theorem Beneath.rebind (keeps : environment.host.KeepsParents)
    (beneath : session.Beneath environment.embeddings body inner around name value)
    (given : Value) :
    (session.rebind inner [(name, given)]).Shielded environment.embeddings body inner around name
      value := by
  have lawful : (Run.Rules.live environment (fun _ => True) fun _ _ => True).Lawful environment :=
    Run.Rules.lawful_live keeps
  have owns : (Run.Rules.live environment (fun _ => True) fun _ _ => True).Owns
      session inner body :=
    ⟨beneath.live, beneath.owns, beneath.isScope, fun _ => trivial⟩
  have deeds := deeds_rebind lawful beneath.nested owns [(name, given)]
  have different := beneath.ne
  have inRange : inner.index < session.store.heap.scopes.size :=
    owns.present lawful beneath.nested
  refine ⟨beneath.mono keeps (deeds.effects lawful beneath.nested) ?_, ?_⟩
  · have same : ((session.store.heap.clear inner).put inner name given).entries around =
        session.store.heap.entries around :=
      (Heap.entries_modifyEntries_of_ne _ different).trans
        (Heap.entries_modifyEntries_of_ne _ different)
    change (((session.store.heap.clear inner).put inner name given).entries around).get? name = _
    rw [same]
    exact beneath.kept
  · have size : (session.store.heap.clear inner).scopes.size = session.store.heap.scopes.size :=
      Heap.size_modifyEntries _ _ _
    change (((session.store.heap.clear inner).put inner name given).entries
      inner).contains name = true
    rw [Heap.entries_put_self (size.symm ▸ inRange), Dictionary.contains_eq_true_iff]
    exact Dictionary.get?_isSome_iff.mp (Option.isSome_of_mem (Dictionary.get?_put_self _ _ _))

end Session

namespace Run.Course

variable {environment : Environment η} {body : BlockRef} {inner around : ScopeRef} {name : String}
  {value : Value} {number : Nat → Int32} {begun : Session η} {fuel pass : Nat}

/-- At the top of every pass a scope around the loop has its value of the name. -/
theorem beneath_top (keeps : environment.host.KeepsParents)
    (sparesInner : environment.host.Spares inner) (sparesAround : environment.host.Spares around)
    (beneath : begun.Beneath environment.embeddings body inner around name value)
    (completes : ∀ earlier < pass,
      (ofNumbers (Run.block environment fuel) inner body name number begun).Completes earlier) :
    ((ofNumbers (Run.block environment fuel) inner body name number begun).top pass).Beneath
      environment.embeddings body inner around name value := by
  induction pass with
  | zero => exact beneath
  | succ pass induction =>
      have last := Nat.lt_succ_self pass
      have top := induction fun earlier early => completes earlier (Nat.lt_succ_of_lt early)
      have starts := top.rebind keeps (.int (number pass))
      exact (starts.of_block keeps sparesInner sparesAround (completes pass last).ran).toBeneath

end Run.Course

namespace Template

variable {source : AnySource} {options : Options} {host : Host η} {state : η}
  {template : Template η}

/-- A loop over numbers goes through the progression that its header begins, whatever its body
assigns.  Its start, bound and step are evaluated once, in this order and in the scope around the
loop, and the passes begin in the store that this leaves.  As long as all numbers up to its own
satisfy the comparison, a pass starts with its number and nothing else in the scope of the loop; at
the first number that does not, the loop ends.  Afterwards its scope is empty, and a scope around it
keeps what it binds to the name of the loop. -/
theorem numbered_loop_progresses
    (lacks : LacksDefinitions source.cursor.text)
    (embeddings : ∀ path text, options.embeddings path = some text →
      LacksDefinitions text.toList)
    (evolves : (ofSource source options host state).Evolves Store.KeepsParents template)
    (keeps : host.KeepsParents) {session : Session η} {id : BlockRef} {nodes : List Node}
    (during : Session.Effects ⟨host, options.embeddings⟩ (fun _ => True)
      { template.session with writes := #[] } session)
    (live : session.Live id) (parsed : (session.block id).nodes? = some nodes)
    {name : String} {start bound step : Expression} {comparison : Comparison} {operator : Operator}
    {body : BlockRef}
    (member : .loop (.numbered name start comparison bound operator step) body ∈ nodes)
    {first limit increment : Int32} {started bounded stepped : Store η}
    (starts : (start.evaluate host (session.block id).scope).run.run session.store =
      (.ok (.int first), started))
    (bounds : (bound.evaluate host (session.block id).scope).run.run started =
      (.ok (.int limit), bounded))
    (steps : (step.evaluate host (session.block id).scope).run.run bounded =
      (.ok (.int increment), stepped))
    (computes : comparison.holds (compare first.toInt limit.toInt) = true →
      ¬operator.DividesByZero increment) (fuel : Nat) :
    let environment : Environment η := ⟨host, options.embeddings⟩
    let scope := (session.block body).scope
    let number := operator.progression increment first
    let holds (pass : Nat) : Prop :=
      comparison.holds (compare (number pass).toInt limit.toInt) = true
    let course := Run.Course.ofNumbers (Run.block environment fuel) scope body name number
      { session.enterLoop body with store := stepped }
    let looping := Run.node environment (Run.block environment fuel) fuel (session.block id).scope
      (.loop (.numbered name start comparison bound operator step) body)
    (∀ pass < fuel, (∀ earlier ≤ pass, holds earlier) → course.Completes pass) →
    (∀ pass < fuel, (∀ earlier ≤ pass, holds earlier) →
      ((course.start pass).store.heap.entries scope).entries = [(name, .int (number pass))]) ∧
    (∀ pass < fuel, (∀ earlier < pass, holds earlier) → ¬holds pass →
      looping.run.run session = (.ok (), (course.top pass).modifyHeap (·.clear scope))) ∧
    ((∀ pass < fuel, holds pass) →
      looping.run.run session =
        (.error .outOfFuel, (course.top fuel).modifyHeap (·.clear scope))) ∧
    (comparison = .less → operator = .plus → 1 ≤ increment.toInt →
      limit.toInt + increment.toInt - 1 ≤ 2147483647 →
      let count := Operator.stepsBelow increment first limit
      (∀ pass < count, holds pass ∧ (number pass).toInt = first.toInt + pass * increment.toInt) ∧
      ¬holds count ∧
      (count < fuel →
        looping.run.run session = (.ok (), (course.top count).modifyHeap (·.clear scope)))) ∧
    ∀ outcome after, looping.run.run session = (outcome, after) →
      after.store.heap.entries scope = .empty ∧
      ∀ around ∈ session.store.heap.chain (session.block id).scope, host.Spares scope →
        host.Spares around → ∀ value, session.store.heap.get? around name = some value →
          after.store.heap.get? around name = some value := by
  intro environment scope number holds course looping completes
  have begun := evolves.begun keeps
  have nested := during.nested keeps begun.1
  have changes : Store.Changes host session.store stepped :=
    (((Evaluator.Changes.evaluate _ start).of_ran starts).trans
      ((Evaluator.Changes.evaluate _ bound).of_ran bounds)).trans
      ((Evaluator.Changes.evaluate _ step).of_ran steps)
  have governed : course.Governed environment (.live environment (fun _ => True) fun _ _ => True) :=
    Run.Course.governed_enterLoop keeps nested live parsed member changes _ fuel
  -- What the passes end with from their beginning on is what the loop ends with.
  have goes (outcome : Except Stop Unit) (after : Session η)
      (ended : (Run.numberedLoop (Run.block environment fuel) scope body name comparison limit
        operator increment fuel first).run.run course.begun = (outcome, after)) :
      looping.run.run session = (outcome, after.modifyHeap (·.clear scope)) := by
    apply Run.ran_loop
    have numbers : (Run.loopNumbers environment (session.block id).scope start bound step).run.run
        (session.enterLoop body) = (.ok (first, limit, increment), course.begun) :=
      Run.ran_loopNumbers starts bounds steps
    rw [Run.passes_numbered, Run.run_bind_of_ok numbers, session.scope_enterLoop]
    exact ended
  have before {pass : Nat} (within : pass ≤ fuel) (present : ∀ earlier < pass, holds earlier)
      (earlier : Nat) (early : earlier < pass) : course.Completes earlier :=
    completes earlier (Nat.lt_of_lt_of_le early within) fun other less =>
      present other (Nat.lt_of_le_of_lt less early)
  have ends (pass : Nat) (within : pass < fuel) (present : ∀ earlier < pass, holds earlier)
      (fails : ¬holds pass) :
      looping.run.run session = (.ok (), (course.top pass).modifyHeap (·.clear scope)) := by
    have ended := Run.numberedLoop_ends within computes governed.unleft present fails
      (before (Nat.le_of_lt within) present)
    rw [goes _ _ ended, Session.clear_clear]
    rfl
  have exhausts (present : ∀ pass < fuel, holds pass) :
      looping.run.run session =
        (.error .outOfFuel, (course.top fuel).modifyHeap (·.clear scope)) :=
    goes _ _ (Run.numberedLoop_outOfFuel computes governed.unleft present
      (before (Nat.le_refl fuel) present))
  refine ⟨fun pass within present => ?_, ends, exhausts, ?_, ?_⟩
  · have earlier := before (Nat.le_of_lt within) fun earlier early => present earlier
      (Nat.le_of_lt early)
    exact governed.entries_start earlier (List.pairwise_singleton _ _)
  · rintro rfl rfl positive room
    have present (pass : Nat) (within : pass < Operator.stepsBelow increment first limit) :
        holds pass :=
      (Operator.holds_progression_iff positive room (Nat.le_of_lt within)).mpr within
    have fails : ¬holds (Operator.stepsBelow increment first limit) := fun holdsThere =>
      Nat.lt_irrefl _ ((Operator.holds_progression_iff positive room (Nat.le_refl _)).mp holdsThere)
    exact ⟨fun pass within => ⟨present pass within,
        Operator.toInt_progression positive room (Nat.le_of_lt within)⟩,
      fails, fun within => ends _ within present fails⟩
  · intro outcome after ran
    -- The loop ended at the top of some pass, or ran out of fuel there.
    obtain ⟨pass, within, present, isAfter⟩ : ∃ pass ≤ fuel, (∀ earlier < pass, holds earlier) ∧
        after = (course.top pass).modifyHeap (·.clear scope) := by
      obtain ⟨pass, within, present, fails⟩ := Run.exists_firstFailing holds fuel
      refine ⟨pass, within, present, ?_⟩
      have isAfter := congrArg Prod.snd ran
      rcases Nat.lt_or_eq_of_le within with below | rfl
      · rw [ends pass below present (fails below)] at isAfter
        exact isAfter.symm
      · rw [exhausts present] at isAfter
        exact isAfter.symm
    subst isAfter
    have completed := before within present
    refine ⟨Heap.entries_clear scope (governed.present_top completed), ?_⟩
    intro around isAround sparesScope sparesAround value bound
    obtain ⟨calm, native⟩ := evolves.calm_native keeps lacks embeddings during
    have beneath := nested.beneath calm native live parsed member
      (nested.around live isAround) bound
    exact (Run.Course.beneath_top keeps sparesScope sparesAround
      (beneath.enterLoop keeps sparesAround changes) completed).kept_clear

/-- A text whose loop assigns its own number and its bound, as an example. -/
def wander : AnySource :=
  .plain (.ofString
    "@var n = 3\n@var i = 9\n@for(i = 0; i < n; i++)@set_var i = 7\n@set_var n = 0\n@endfor")

/-- The environment of the template of the text. -/
def wandering : Environment Unit where
  host := Host.none
  embeddings _ := none

/-- The template after a render that had not enough fuel for the passes of the loop. -/
def wandered : Template Unit :=
  ((ofSource wander { defaultPlaceholders := false } Host.none ()).render 1).2

/-- The session in which that loop is about to run. -/
def wanderingBegun : Session Unit :=
  { wandered.session with writes := #[] }

/-- What an expression of the header evaluates to in a store. -/
def wanderNumber (expression : Expression) (store : Store Unit) :
    Except TemplateError Value × Store Unit :=
  (expression.evaluate Host.none .global).run.run store

/-- Whether the loop counts from zero below three and all its passes end well. -/
def wanders : Bool :=
  match (wanderingBegun.block ⟨0⟩).nodes? with
  | some [_, _, .loop (.numbered name start comparison bound operator step) body] =>
      let started := (wanderNumber start wanderingBegun.store).2
      let bounded := (wanderNumber bound started).2
      let stepped := (wanderNumber step bounded).2
      let course := Run.Course.ofNumbers (Run.block wandering 5)
        (wanderingBegun.block body).scope body
        name (operator.progression 1 0) { wanderingBegun.enterLoop body with store := stepped }
      decide ((wanderNumber start wanderingBegun.store).1 = .ok (.int 0) ∧
        (wanderNumber bound started).1 = .ok (.int 3) ∧
        (wanderNumber step bounded).1 = .ok (.int 1) ∧
        name = "i" ∧ comparison = .less ∧ operator = .plus ∧
        ∀ pass : Nat, pass < 5 →
          (∀ earlier : Nat, earlier ≤ pass → comparison.holds
            (compare (operator.progression 1 0 earlier).toInt (3 : Int32).toInt) = true) →
              course.Completes pass)
  | _ => false

theorem numbered_loop_progresses_wandering :
    ∃ (header : LoopHeader) (body : BlockRef) (after : Session Unit),
      (Run.node wandering (Run.block wandering 5) 5 .global (.loop header body)).run.run
        wanderingBegun = (.ok (), after) ∧
      after.store.heap.get? .global "i" = some (.int 9) := by
  have check : wanders = true := by decide +kernel
  unfold wanders at check
  split at check
  case h_2 => cases check
  case h_1 first second name start comparison bound operator step body parsed =>
    obtain ⟨isStart, isBound, isStep, rfl, rfl, rfl, completes⟩ := of_decide_eq_true check
    have lacks : LacksDefinitions wander.cursor.text := by
      unfold LacksDefinitions
      decide +kernel
    have noEmbeddings (path text : String)
        (found : ({ defaultPlaceholders := false } : Options).embeddings path = some text) :
        LacksDefinitions text.toList := nomatch found
    have evolves : (ofSource wander { defaultPlaceholders := false } Host.none ()).Evolves
        Store.KeepsParents wandered := .render .refl 1
    have live : wanderingBegun.Live ⟨0⟩ := by
      have begun := (evolves.begun Host.keepsParents_none).2
      rw [evolves.root] at begun
      exact begun
    have isGlobal : (wanderingBegun.block ⟨0⟩).scope = .global := by decide +kernel
    have during : Session.Effects wandering (fun _ => True) wanderingBegun wanderingBegun := .refl
    have member : .loop (.numbered "i" start .less bound .plus step) body ∈ [first, second,
        .loop (.numbered "i" start .less bound .plus step) body] := by simp
    obtain ⟨started, starts⟩ : ∃ started, wanderNumber start wanderingBegun.store =
        (.ok (.int 0), started) := ⟨_, Prod.ext isStart rfl⟩
    rw [starts] at isBound isStep completes
    obtain ⟨bounded, bounds⟩ : ∃ bounded, wanderNumber bound started = (.ok (.int 3), bounded) :=
      ⟨_, Prod.ext isBound rfl⟩
    rw [bounds] at isStep completes
    obtain ⟨stepped, steps⟩ : ∃ stepped, wanderNumber step bounded = (.ok (.int 1), stepped) :=
      ⟨_, Prod.ext isStep rfl⟩
    rw [steps] at completes
    unfold wanderNumber at starts bounds steps
    rw [← isGlobal] at starts bounds steps
    obtain ⟨-, -, -, counts, ends⟩ := numbered_loop_progresses lacks noEmbeddings
      evolves Host.keepsParents_none during live parsed member starts bounds steps
      (fun _ => by decide) 5 completes
    have count : Operator.stepsBelow 1 0 3 = 3 := by
      have positive : 1 ≤ (1 : Int32).toInt := by decide
      refine Nat.le_antisymm (Nat.le_of_not_lt ?_) ?_
      · rw [Operator.lt_stepsBelow_iff positive]
        decide
      · apply Nat.succ_le_of_lt
        rw [Operator.lt_stepsBelow_iff positive]
        decide
    obtain ⟨-, -, ended⟩ := counts rfl rfl (by decide) (by decide)
    rw [count] at ended
    have ran := ended (by decide)
    obtain ⟨-, keeps⟩ := ends _ _ ran
    have isAround : ScopeRef.global ∈
        wanderingBegun.store.heap.chain (wanderingBegun.block ⟨0⟩).scope := by decide +kernel
    have isNine : wanderingBegun.store.heap.get? .global "i" = some (.int 9) := by decide +kernel
    rw [isGlobal] at ran
    exact ⟨_, body, _, ran, keeps .global isAround (Host.spares_none _)
      (Host.spares_none _) _ isNine⟩

/-- Whether a node is a loop that counts upwards from a number to below another. -/
def countsUp (name : String) : Node → Bool
  | .loop (.numbered counter _ .less _ .plus _) _ => counter = name
  | _ => false

theorem exists_of_countsUp {name : String} {node : Node} (counts : countsUp name node = true) :
    ∃ start bound step body, node = .loop (.numbered name start .less bound .plus step) body := by
  unfold countsUp at counts
  split at counts
  case h_2 => cases counts
  case h_1 counter start bound step body =>
    obtain rfl := of_decide_eq_true counts
    exact ⟨start, bound, step, body, rfl⟩

/-- A function of the host that is called in a loop may bind the name of the loop anew around it,
and a member that is called there may change a list that is bound to that name. -/
theorem outer_variable_changed_by_calls :
    (∃ (start bound step : Expression) (body : BlockRef) (after : Session Unit),
      let text := "@for(i = 0; i < 1; i++)@var(call())@endfor"
      let stocked := withFunction fun heap => heap.put .global "i" (.int 9)
      Reruns text (globalBinder "i") stocked
        (.loop (.numbered "i" start .less bound .plus step) body) after ∧
      (rerun text (globalBinder "i") stocked).store.heap.get? .global "i" = some (.int 9) ∧
      after.store.heap.get? .global "i" = some (.int 7)) ∧
    ∃ (start bound step : Expression) (body : BlockRef) (after : Session Unit) (list : ListRef),
      let text := "@for(i = 0; i < 1; i++)@var(xs.add(1))@endfor"
      Reruns text Host.none (withList ["i", "xs"])
        (.loop (.numbered "i" start .less bound .plus step) body) after ∧
      (rerun text Host.none (withList ["i", "xs"])).store.heap.get? .global "i" =
        some (.list list) ∧
      (rerun text Host.none (withList ["i", "xs"])).store.heap.items list = [] ∧
      after.store.heap.get? .global "i" = some (.list list) ∧
      after.store.heap.items list = [.int 1] := by
  constructor
  · obtain ⟨node, after, reruns, isLoop, changed⟩ := exists_reruns
      "@for(i = 0; i < 1; i++)@var(call())@endfor" (globalBinder "i")
      (withFunction fun heap => heap.put .global "i" (.int 9)) (countsUp "i")
      (fun after => decide (after.store.heap.get? .global "i" = some (.int 7))) (by decide +kernel)
    obtain ⟨start, bound, step, body, rfl⟩ := exists_of_countsUp isLoop
    exact ⟨start, bound, step, body, after, reruns, by decide +kernel, of_decide_eq_true changed⟩
  · let list : ListRef := ((Heap.ofGlobal "Global").newList true []).1
    obtain ⟨node, after, reruns, isLoop, changed⟩ := exists_reruns
      "@for(i = 0; i < 1; i++)@var(xs.add(1))@endfor" Host.none (withList ["i", "xs"])
        (countsUp "i")
      (fun after => decide (after.store.heap.get? .global "i" = some (.list list) ∧
        after.store.heap.items list = [.int 1])) (by decide +kernel)
    obtain ⟨start, bound, step, body, rfl⟩ := exists_of_countsUp isLoop
    obtain ⟨same, items⟩ := of_decide_eq_true changed
    exact ⟨start, bound, step, body, after, list, reruns,
      by decide +kernel, by decide +kernel, same,
      items⟩

end Template

end Stencil
