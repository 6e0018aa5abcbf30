import Stencil.Session

/-!
# Running blocks

A block is prepared, its nodes run one after another until the loop that encloses them is left, and
its source goes to the finish of the block.  Nodes run the blocks that they refer to.  Fuel bounds
how deep blocks run inside each other and how often a loop goes round; a run that has too little of
it stops without an answer.
-/

namespace Stencil

open Text

/-- Why a run ended early. -/
inductive Stop where
  | failed (error : TemplateError)
  | outOfFuel
deriving DecidableEq, Repr

/-- A piece of a render. -/
abbrev Run (η : Type) := ExceptT Stop (StateM (Session η))

/-- What a template takes from its host. -/
structure Environment (η : Type) where
  host : Host η
  embeddings : Embeddings

namespace Run

variable {η : Type}

/-- Placeholder bodies and embedded texts that may run inside each other. -/
def nestingLimit : Nat := 32

/-- Ends the run with an error. -/
def fail {α : Type} (error : TemplateError) : Run η α :=
  throw (.failed error)

/-- Runs a computation on the store. -/
def onStore {α : Type} (evaluator : Evaluator η α) : Run η α :=
  ExceptT.mk fun session =>
    let (answer, store) := evaluator.run session.store
    (answer.mapError .failed, { session with store })

/-- Changes the heap and answers something. -/
def onHeap {α : Type} (change : Heap → α × Heap) : Run η α :=
  onStore (Evaluator.onHeap change)

/-- Removes every entry of a scope. -/
def clear (scope : ScopeRef) : Run η Unit :=
  modify fun session => session.modifyHeap (·.clear scope)

/-- Binds a name in a scope. -/
def bindName (scope : ScopeRef) (name : String) (value : Value) : Run η Unit :=
  modify fun session => session.modifyHeap (·.put scope name value)

/-- Writes a text. -/
def write (text : String) : Run η Unit :=
  modify fun session => { session with writes := session.writes.push text }

/-- Runs something and then something else, even if the first ended early. -/
def andFinally {α : Type} (run : Run η α) (after : Session η → Session η) : Run η α :=
  ExceptT.mk fun session =>
    let (answer, session) := run.run session
    (answer, after session)

/-- Sends a source to an offset. -/
def seek (id : SourceRef) (offset : Nat) : Run η Unit := do
  let session ← get
  let (found, source) := Source.seek offset (session.source id)
  if found then set (session.setSource id source)
  else fail (.parse (.cannotSeek offset) (Source.position source))

/-- The nodes of a block, which is parsed when they are first asked for. -/
def nodesOf (environment : Environment η) (id : BlockRef) : Run η (List Node) := do
  let block := (← get).block id
  match block.nodes? with
  | some nodes => return nodes
  | none =>
      seek block.source block.start
      modifyGet fun session => session.parseBlock environment.embeddings id

/-- Whether the loop body that a block would leave was left. -/
def wasLeft (enclosingLoop : Option BlockRef) : Run η Bool := do
  let session ← get
  return enclosingLoop.any fun target => (session.block target).wasLeft

/-- Runs nodes until the loop that encloses them is left. -/
def nodes (runNode : Node → Run η Unit) (enclosingLoop : Option BlockRef) : List Node → Run η Unit
  | [] => return ()
  | node :: rest => do
      if ← wasLeft enclosingLoop then return ()
      else
        runNode node
        nodes runNode enclosingLoop rest

/-- Runs a block one level deeper, if the limit allows it. -/
def nested {α : Type} (runBlock : BlockRef → Run η α) (what : Nested) (block : BlockRef) :
    Run η α := do
  if nestingLimit ≤ (← get).depth then
    fail (.reference (.nestingTooDeep what nestingLimit))
  else
    modify fun session => { session with depth := session.depth + 1 }
    andFinally (runBlock block) fun session => { session with depth := session.depth - 1 }

/-- Runs the body of a placeholder in its own scope, which holds the argument only. -/
def runPlaceholder (runBlock : BlockRef → Run η Unit) (key : Placeholder.Key)
    (argument : Option Value) : Run η Unit := do
  let session ← get
  match session.placeholders.get? key with
  | none => fail (.reference (.placeholderUndefined key))
  | some placeholder =>
      let scope := (session.block placeholder.body).scope
      clear scope
      if let some value := argument then bindName scope placeholder.parameter value
      nested runBlock (.placeholder key) placeholder.body

/-- Writes a value: a string as it is, any other value through the default placeholder of its kind,
or as its own text if there is none. -/
def emit (runBlock : BlockRef → Run η Unit) (value : Value) : Run η Unit := do
  match value.string? with
  | some text => write text
  | none =>
      let key := Placeholder.Key.default value.kind.name
      let session ← get
      if session.placeholders.contains key then runPlaceholder runBlock key (some value)
      else write (session.store.heap.display value)

/-- Clears the scope of a loop and tells whether the loop was left. -/
def beginPass (scope : ScopeRef) (body : BlockRef) : Run η Bool := do
  clear scope
  wasLeft (some body)

/-- Runs the body as long as a condition holds. -/
def conditionalLoop (environment : Environment η) (runBlock : BlockRef → Run η Unit)
    (scope : ScopeRef) (body : BlockRef) (condition : Condition) : Nat → Run η Unit
  | 0 => throw .outOfFuel
  | fuel + 1 => do
      if ← beginPass scope body then return ()
      else if ← onStore (condition.evaluate environment.host scope) then
        runBlock body
        conditionalLoop environment runBlock scope body condition fuel
      else return ()

/-- The number after a number of a loop. -/
def nextCounter (name : String) (operator : Operator) (step counter : Int32) :
    Except TemplateError Int32 := do
  match ← (Primitive.int counter).compute operator (.int step) with
  | .int next => return next
  | other => throw (.type (.counterNotInt name other.kind))

/-- Runs the body for one number after another as long as the comparison with the bound holds. -/
def numberedLoop (runBlock : BlockRef → Run η Unit) (scope : ScopeRef) (body : BlockRef)
    (name : String) (comparison : Comparison) (bound : Int32) (operator : Operator)
    (step : Int32) : Nat → Int32 → Run η Unit
  | 0, _ => throw .outOfFuel
  | fuel + 1, counter => do
      if ← beginPass scope body then return ()
      else if ← onStore ((Primitive.int counter).compares comparison (.int bound)) then
        bindName scope name (.int counter)
        runBlock body
        let next ← onStore (nextCounter name operator step counter)
        numberedLoop runBlock scope body name comparison bound operator step fuel next
      else return ()

/-- Runs the body for the element at each of some places, in order, as the list then is. -/
def iterableLoop (runBlock : BlockRef → Run η Unit) (scope : ScopeRef) (body : BlockRef)
    (element : String) (index : Option String) (list : ListRef) : List Nat → Run η Unit
  | [] => return ()
  | place :: places => do
      if ← beginPass scope body then return ()
      else
        match ((← get).store.heap.items list)[place]? with
        | none => fail (.reference (.elementMissing place))
        | some item =>
            bindName scope element item
            if let some name := index then bindName scope name (.int (Int32.ofNat place))
            runBlock body
            iterableLoop runBlock scope body element index list places

/-- The int that a start, bound or step of a loop evaluates to. -/
def loopNumber (environment : Environment η) (scope : ScopeRef) (what : String)
    (expression : Expression) : Run η Int32 := do
  let value ← onStore (expression.evaluate environment.host scope)
  match value.int? with
  | some number => return number
  | none => fail (.type (.loopNumberNotInt what value.kind))

/-- Runs the passes of a loop. -/
def passes (environment : Environment η) (runBlock : BlockRef → Run η Unit) (fuel : Nat)
    (scope : ScopeRef) (body : BlockRef) (header : LoopHeader) : Run η Unit := do
  let inner := ((← get).block body).scope
  match header with
  | .conditional condition => conditionalLoop environment runBlock inner body condition fuel
  | .numbered name start comparison bound operator step =>
      let counter ← loopNumber environment scope "loop start" start
      let bound ← loopNumber environment scope "loop bound" bound
      let step ← loopNumber environment scope "loop step" step
      numberedLoop runBlock inner body name comparison bound operator step fuel counter
  | .iterable element index iterable =>
      match ← onStore (iterable.evaluate environment.host scope) with
      | .list list =>
          let places := List.range ((← get).store.heap.items list).length
          iterableLoop runBlock inner body element index list places
      | other => fail (.type (.cannotIterate other.kind))

/-- Runs a loop and clears its scope, however it ended. -/
def loop (environment : Environment η) (runBlock : BlockRef → Run η Unit) (fuel : Nat)
    (scope : ScopeRef) (header : LoopHeader) (body : BlockRef) : Run η Unit := do
  modify fun session => session.modifyBlock body ({ · with wasLeft := false })
  let inner := ((← get).block body).scope
  andFinally (passes environment runBlock fuel scope body header) fun session =>
    session.modifyHeap (·.clear inner)

/-- Clears the scope of a block and runs it. -/
def cleared {α : Type} (runBlock : BlockRef → Run η α) (block : BlockRef) : Run η α := do
  clear ((← get).block block).scope
  runBlock block

/-- Runs the body of the first condition that holds, or else the last one. -/
def branches (environment : Environment η) (runBlock : BlockRef → Run η Unit) (scope : ScopeRef)
    (otherwise : Option BlockRef) : List (Condition × BlockRef) → Run η Unit
  | [] =>
      match otherwise with
      | some block => cleared runBlock block
      | none => return ()
  | (condition, block) :: conditions => do
      if ← onStore (condition.evaluate environment.host scope) then cleared runBlock block
      else branches environment runBlock scope otherwise conditions

/-- Declares a name, which the scope must not have yet. -/
def declare (scope : ScopeRef) (name : String) (value : Value) : Run η Unit := do
  if ← onHeap (·.insert scope name value) then return ()
  else
    let heap := (← get).store.heap
    fail (.reference (.alreadyDeclared name (heap.scope scope).name))

/-- Gives a declared name another value. -/
def assign (scope : ScopeRef) (name : String) (value : Value) : Run η Unit := do
  if ← onHeap (·.assign scope name value) then return ()
  else fail (.reference (.notDeclared name))

/-- Runs a node in a scope. -/
def node (environment : Environment η) (runBlock : BlockRef → Run η Unit) (fuel : Nat)
    (scope : ScopeRef) : Node → Run η Unit
  | .text content => write content
  | .read path => do
      let value ← onStore (path.follow environment.host scope)
      if path.isSilent then return () else emit runBlock value
  | .declare name value _ => do
      declare scope name (← onStore (value.evaluate environment.host scope))
  | .assign name value => do
      assign scope name (← onStore (value.evaluate environment.host scope))
  | .loop header body => loop environment runBlock fuel scope header body
  | .leave target => modify fun session => session.modifyBlock target ({ · with wasLeft := true })
  | .branches conditions otherwise => branches environment runBlock scope otherwise conditions
  | .definePlaceholder key parameter body =>
      modify fun session =>
        { session with placeholders := session.placeholders.put key ⟨body, parameter⟩ }
  | .usePlaceholder key argument => do
      let argument ← argument.mapM fun expression =>
        onStore (expression.evaluate environment.host scope)
      runPlaceholder runBlock key argument
  | .embed block => nested runBlock (.embedded block.index) block
  | .malformed error => fail error

/-- Runs a block, given how to run the blocks inside it. -/
def blockWith (environment : Environment η) (runBlock : BlockRef → Run η Unit) (fuel : Nat)
    (id : BlockRef) : Run η Unit := do
  let parsed ← nodesOf environment id
  let block := (← get).block id
  seek block.source block.start
  nodes (node environment runBlock fuel block.scope) block.enclosingLoop parsed
  seek block.source block.finish

/-- Runs a block. -/
def block (environment : Environment η) : Nat → BlockRef → Run η Unit
  | 0, _ => throw .outOfFuel
  | fuel + 1, id => blockWith environment (block environment fuel) fuel id

end Run

end Stencil
