import Stencil.Template

/-!
# Structured runs

In a structured run a node answers whether it left the loop around it, and what encloses it up to
that loop answers the same.  No mark of a left loop is ever looked at.
-/

namespace Stencil

/-- How a piece of a run ended: what comes after it is next, or the loop around it was left. -/
inductive Flow where
  | next
  | left
deriving DecidableEq, Repr

def Flow.isLeft : Flow → Bool
  | next => false
  | left => true

namespace Structured

variable {η : Type}

/-- Runs nodes until one of them leaves the loop around them. -/
def nodes (runNode : Node → Run η Flow) : List Node → Run η Flow
  | [] => return .next
  | node :: rest => do
      match ← runNode node with
      | .next => nodes runNode rest
      | .left => return .left

/-- Runs the body as long as a condition holds and the pass before did not leave the loop. -/
def conditionalLoop (environment : Environment η) (runBlock : BlockRef → Run η Flow)
    (scope : ScopeRef) (body : BlockRef) (condition : Condition) : Nat → Flow → Run η Unit
  | 0, _ => throw .outOfFuel
  | fuel + 1, flow => do
      Run.clear scope
      match flow with
      | .left => return ()
      | .next =>
          if ← Run.onStore (condition.evaluate environment.host scope) then
            let flow ← runBlock body
            conditionalLoop environment runBlock scope body condition fuel flow
          else return ()

/-- Runs the body for one number after another until the comparison fails or the pass before left
the loop. -/
def numberedLoop (runBlock : BlockRef → Run η Flow) (scope : ScopeRef) (body : BlockRef)
    (name : String) (comparison : Comparison) (bound : Int32) (operator : Operator)
    (step : Int32) : Nat → Int32 → Flow → Run η Unit
  | 0, _, _ => throw .outOfFuel
  | fuel + 1, counter, flow => do
      Run.clear scope
      match flow with
      | .left => return ()
      | .next =>
          if ← Run.onStore ((Primitive.int counter).compares comparison (.int bound)) then
            Run.bindName scope name (.int counter)
            let flow ← runBlock body
            let next ← Run.onStore (Run.nextCounter name operator step counter)
            numberedLoop runBlock scope body name comparison bound operator step fuel next flow
          else return ()

/-- Runs the body for one element after another until the pass before left the loop. -/
def iterableLoop (runBlock : BlockRef → Run η Flow) (scope : ScopeRef) (body : BlockRef)
    (element : String) (index : Option String) (list : ListRef) : List Nat → Flow → Run η Unit
  | [], _ => return ()
  | place :: places, flow => do
      Run.clear scope
      match flow with
      | .left => return ()
      | .next =>
          match ((← get).store.heap.items list)[place]? with
          | none => Run.fail (.reference (.elementMissing place))
          | some item =>
              Run.bindName scope element item
              if let some name := index then
                Run.bindName scope name (.int (Int32.ofNat place))
              let flow ← runBlock body
              iterableLoop runBlock scope body element index list places flow

/-- Runs the passes of a loop. -/
def passes (environment : Environment η) (runBlock : BlockRef → Run η Flow) (fuel : Nat)
    (scope : ScopeRef) (body : BlockRef) (header : LoopHeader) : Run η Unit := do
  let inner := ((← get).block body).scope
  match header with
  | .conditional condition =>
      conditionalLoop environment runBlock inner body condition fuel .next
  | .numbered name start comparison bound operator step =>
      let counter ← Run.loopNumber environment scope "loop start" start
      let bound ← Run.loopNumber environment scope "loop bound" bound
      let step ← Run.loopNumber environment scope "loop step" step
      numberedLoop runBlock inner body name comparison bound operator step fuel counter .next
  | .iterable element index iterable =>
      match ← Run.onStore (iterable.evaluate environment.host scope) with
      | .list list =>
          let places := List.range ((← get).store.heap.items list).length
          iterableLoop runBlock inner body element index list places .next
      | other => Run.fail (.type (.cannotIterate other.kind))

/-- Runs a loop.  What comes after it is next, whether its body was left or not. -/
def loop (environment : Environment η) (runBlock : BlockRef → Run η Flow) (fuel : Nat)
    (scope : ScopeRef) (header : LoopHeader) (body : BlockRef) : Run η Flow := do
  modify fun session => session.modifyBlock body ({ · with wasLeft := false })
  let inner := ((← get).block body).scope
  Run.andFinally (passes environment runBlock fuel scope body header) fun session =>
    session.modifyHeap (·.clear inner)
  return .next

/-- Runs the body of the first condition that holds, or else the last one. -/
def branches (environment : Environment η) (runBlock : BlockRef → Run η Flow) (scope : ScopeRef)
    (otherwise : Option BlockRef) : List (Condition × BlockRef) → Run η Flow
  | [] =>
      match otherwise with
      | some block => Run.cleared runBlock block
      | none => return .next
  | (condition, block) :: conditions => do
      if ← Run.onStore (condition.evaluate environment.host scope) then
        Run.cleared runBlock block
      else branches environment runBlock scope otherwise conditions

/-- Runs a block that is no part of the loop around it. -/
def apart (runBlock : BlockRef → Run η Flow) (block : BlockRef) : Run η Unit := do
  let _ ← runBlock block
  return ()

/-- Runs a node.  Only `@breakfor` leaves a loop; branches and embedded texts hand on that it was
left. -/
def node (environment : Environment η) (runBlock : BlockRef → Run η Flow) (fuel : Nat)
    (scope : ScopeRef) : Node → Run η Flow
  | .loop header body => loop environment runBlock fuel scope header body
  | .leave target => do
      modify fun session => session.modifyBlock target ({ · with wasLeft := true })
      return .left
  | .branches conditions otherwise => branches environment runBlock scope otherwise conditions
  | .embed block => Run.nested runBlock (.embedded block.index) block
  | other => do
      Run.node environment (apart runBlock) fuel scope other
      return .next

/-- Runs a block, given how to run the blocks inside it. -/
def blockWith (environment : Environment η) (runBlock : BlockRef → Run η Flow) (fuel : Nat)
    (id : BlockRef) : Run η Flow := do
  let parsed ← Run.nodesOf environment id
  let block := (← get).block id
  Run.seek block.source block.start
  let flow ← nodes (node environment runBlock fuel block.scope) parsed
  Run.seek block.source block.finish
  return flow

/-- Runs a block. -/
def block (environment : Environment η) : Nat → BlockRef → Run η Flow
  | 0, _ => throw .outOfFuel
  | fuel + 1, id => blockWith environment (block environment fuel) fuel id

end Structured

/-- Renders the template by a structured run. -/
def Template.renderStructured {η : Type} (template : Template η) (fuel : Nat) :
    Except Stop Flow × Rendering × Template η :=
  let session := { template.session with writes := #[] }
  let (outcome, session) := (Structured.block template.environment fuel template.root).run session
  (outcome, { outcome := outcome.map fun _ => (), writes := session.writes },
    { template with session })

end Stencil
