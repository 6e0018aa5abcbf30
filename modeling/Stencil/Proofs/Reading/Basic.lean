import Stencil.Proofs.Expression.Listed
import Stencil.Proofs.Heap.Operations
import Stencil.Proofs.Run.Effects
import Stencil.Proofs.Session.Begin

/-!
# Templates that only read

A template only reads if its texts assign nothing, embed nothing and define no placeholder, and if
they neither call `add` or `remove` nor bind a name that they call.  As long as no function is
stored under such a name, all calls are of members that change no list.
-/

namespace Stencil

open Directive

variable {η : Type}

/-- A call that neither asks the host nor changes a list. -/
def Callable.reads : Callable → Bool
  | .host _ => false
  | .member _ method => method ≠ .add && method ≠ .remove

mutual

/-- The names that an expression calls. -/
def Expression.calls : Expression → List String
  | .literal _ => []
  | .reference path => pathCalls path
  | .list _ items => allCalls items
  | .binary left _ right => left.calls ++ right.calls

/-- The names that expressions call. -/
def allCalls : List Expression → List String
  | [] => []
  | expression :: expressions => expression.calls ++ allCalls expressions

/-- The names that a path calls. -/
def pathCalls : List Segment → List String
  | [] => []
  | segment :: path => segment.calls ++ pathCalls path

/-- The names that a step of a path calls. -/
def Segment.calls : Segment → List String
  | .property _ => []
  | .call name arguments _ _ => name :: allCalls arguments

end

/-- The names that a condition calls. -/
def Condition.calls : Condition → List String
  | .compare left _ right => left.calls ++ right.calls
  | .value expression => expression.calls

/-- The names that the header of a loop calls. -/
def LoopHeader.calls : LoopHeader → List String
  | .conditional condition => condition.calls
  | .numbered _ start _ bound _ step => start.calls ++ bound.calls ++ step.calls
  | .iterable _ _ value => value.calls

/-- The names that a loop binds before each pass. -/
def LoopHeader.binds : LoopHeader → List String
  | .conditional _ => []
  | .numbered name _ _ _ _ _ => [name]
  | .iterable element index _ => element :: index.toList

namespace Node

/-- The names that a node calls itself. -/
def calls : Node → List String
  | .read path => pathCalls path
  | .declare _ value _ | .assign _ value => value.calls
  | .loop header _ => header.calls
  | .branches conditions _ => conditions.flatMap fun branch => branch.1.calls
  | .usePlaceholder _ argument => argument.toList.flatMap Expression.calls
  | _ => []

/-- The names that a node binds in a scope of a block. -/
def binds : Node → List String
  | .declare name _ _ => [name]
  | .loop header _ => header.binds
  | _ => []

/-- Whether a node declares a name in the scope of its block. -/
def declares : Node → Bool
  | .declare .. => true
  | _ => false

/-- Whether a node neither assigns nor embeds nor defines a placeholder. -/
def isUnchanging : Node → Bool
  | .assign .. | .embed _ | .definePlaceholder .. => false
  | _ => true

/-- A node only reads if it calls some names at most and binds none of them. -/
structure Reads (called : List String) (node : Node) : Prop where
  unchanging : node.isUnchanging = true
  calls : ∀ name ∈ node.calls, name ∈ called
  binds : ∀ name ∈ node.binds, name ∉ called

instance (called : List String) (node : Node) : Decidable (node.Reads called) :=
  decidable_of_iff (node.isUnchanging = true ∧ (∀ name ∈ node.calls, name ∈ called) ∧
    ∀ name ∈ node.binds, name ∉ called)
    ⟨fun holds => ⟨holds.1, holds.2.1, holds.2.2⟩,
      fun reads => ⟨reads.unchanging, reads.calls, reads.binds⟩⟩

end Node

/-- Whatever is parsed anywhere in a text only reads. -/
structure Text.ReadsOnly (called : List String) (text : List Char) : Prop where
  embeds : ¬"@embed ".toList <:+: text
  defines : ¬"@define_placeholder(".toList <:+: text
  reads : ∀ node, read?.AnswersIn "" text (some node) → node.Reads called
  declarations : ∀ node, declaration?.AnswersIn "" text (some node) → node.Reads called
  headers : ∀ header, loopHeader.AnswersIn "@for(" text header →
    ∀ body, (Node.loop header body).Reads called
  conditions : ∀ condition, branchCondition.AnswersIn "if(" text condition →
    ∀ name ∈ condition.calls, name ∈ called
  arguments : ∀ node, defaultUse.AnswersIn "@placeholder(" text node → node.Reads called

/-- Whatever a text is parsed into only reads. -/
theorem Text.ReadsOnly.reads_of_origin {called : List String} {text : List Char}
    {enclosingLoop : Option BlockRef} {made : BlockRole → BlockRef → Prop} {node : Node}
    (reads : Text.ReadsOnly called text) (origin : node.Origin text enclosingLoop made) :
    node.Reads called := by
  have plain {node : Node} (unchanging : node.isUnchanging = true) (calls : node.calls = [])
      (binds : node.binds = []) : node.Reads called := by
    constructor
    · exact unchanging
    · rw [calls]
      exact fun _ member => nomatch member
    · rw [binds]
      exact fun _ member => nomatch member
  cases origin with
  | text content => exact plain rfl rfl rfl
  | read path standing => exact reads.reads _ standing
  | declare name value constant standing => exact reads.declarations _ standing
  | assign name value standing => exact reads.declarations _ standing
  | loop header body _ _ standing => exact reads.headers header standing body
  | leave target => exact plain rfl rfl rfl
  | branches conditions otherwise _ _ _ standing =>
      constructor
      · rfl
      · intro name member
        obtain ⟨branch, isBranch, called⟩ := List.mem_flatMap.mp member
        exact reads.conditions branch.1 (standing branch isBranch) name called
      · exact fun _ member => nomatch member
  | definePlaceholder key parameter body opening => exact absurd opening reads.defines
  | usePlaceholder key argument standing =>
      rcases standing with rfl | standing
      · exact plain rfl rfl rfl
      · exact reads.arguments _ standing
  | embed block opening => exact absurd opening reads.embeds
  | malformed error => exact plain rfl rfl rfl

/-- Whether whatever is parsed anywhere in a text only reads. -/
def Text.readsOnly (called : List String) (text : List Char) : Bool :=
  let reads (node : Node) : Bool := node.Reads called
  decide (¬"@embed ".toList <:+: text) && decide (¬"@define_placeholder(".toList <:+: text) &&
    (read?.answersFrom "" [] text).all (fun node? => node?.all reads) &&
    (declaration?.answersFrom "" [] text).all (fun node? => node?.all reads) &&
    (loopHeader.answersFrom "@for(" [] text).all (fun header => reads (.loop header ⟨0⟩)) &&
    (branchCondition.answersFrom "if(" [] text).all
      (fun condition => condition.calls.all (called.contains ·)) &&
    (defaultUse.answersFrom "@placeholder(" [] text).all reads

theorem Text.readsOnly_of_all {called : List String} {text : List Char}
    (all : Text.readsOnly called text = true) : Text.ReadsOnly called text := by
  simp only [Text.readsOnly, Bool.and_eq_true, decide_eq_true_eq] at all
  obtain ⟨⟨⟨⟨⟨⟨embeds, defines⟩, reads⟩, declarations⟩, headers⟩, conditions⟩, arguments⟩ := all
  constructor
  · exact embeds
  · exact defines
  · exact fun node standing => of_decide_eq_true (standing.of_all reads)
  · exact fun node standing => of_decide_eq_true (standing.of_all declarations)
  · intro header standing body
    have found := of_decide_eq_true (standing.of_all headers)
    exact ⟨found.unchanging, found.calls, found.binds⟩
  · intro condition standing name member
    have found := List.all_eq_true.mp (standing.of_all conditions) name member
    exact List.contains_iff_mem.mp found
  · exact fun node standing => of_decide_eq_true (standing.of_all arguments)

namespace Heap

variable {heap after : Heap} {names : List String} {scope : ScopeRef} {receiver : Option Value}
  {name : String} {value : Value}

/-- No function is stored under any of some names. -/
def LacksFunctions (heap : Heap) (names : List String) : Prop :=
  ∀ scope name function, name ∈ names → heap.get? scope name ≠ some (.function function)

namespace LacksFunctions

theorem of_entries (lacks : heap.LacksFunctions names)
    (same : ∀ scope, after.entries scope = heap.entries scope) : after.LacksFunctions names := by
  intro scope name function isNamed found
  rw [get?, same] at found
  exact lacks scope name function isNamed found

/-- A heap lacks functions if no entry at all is one. -/
theorem of_all (all : heap.scopes.all (fun scope =>
    scope.entries.values.all fun value => value.kind ≠ .function) = true) :
    heap.LacksFunctions names := by
  intro scope name function _ found
  rw [get?, entries, Heap.scope, Array.getD_eq_getD_getElem?] at found
  cases there : heap.scopes[scope.index]? with
  | none =>
      rw [there] at found
      cases found
  | some around =>
      rw [there] at found
      have isScope : around ∈ heap.scopes := Array.mem_of_getElem? there
      have others := Array.all_eq_true_iff_forall_mem.mp all around isScope
      have isEntry : .function function ∈ around.entries.values :=
        Dictionary.mem_values_of_get? found
      exact absurd rfl (of_decide_eq_true (List.all_eq_true.mp others _ isEntry))

theorem modifyEntries (lacks : heap.LacksFunctions names) (scope : ScopeRef)
    {change : Dictionary String Value → Dictionary String Value}
    (keeps : ∀ name ∈ names, ∀ function, (change (heap.entries scope)).get? name =
      some (.function function) → (heap.entries scope).get? name = some (.function function)) :
    (heap.modifyEntries scope change).LacksFunctions names := by
  intro other name function isNamed found
  rw [get?] at found
  by_cases same : other = scope
  · subst same
    by_cases present : other.index < heap.scopes.size
    · rw [entries_modifyEntries_self _ present] at found
      exact lacks other name function isNamed (keeps name isNamed function found)
    · have absent : (heap.modifyEntries other change).entries other = heap.entries other := by
        simp [Heap.modifyEntries, Heap.entries, Heap.scope, present]
      rw [absent] at found
      exact lacks other name function isNamed found
  · rw [entries_modifyEntries_of_ne _ same] at found
    exact lacks other name function isNamed found

theorem put (lacks : heap.LacksFunctions names) (scope : ScopeRef) (value : Value)
    (other : name ∉ names) : (heap.put scope name value).LacksFunctions names := by
  apply lacks.modifyEntries
  intro key isNamed function found
  have different : key ≠ name := by
    rintro rfl
    exact other isNamed
  rwa [Dictionary.get?_put_of_ne _ _ different] at found

theorem clear (lacks : heap.LacksFunctions names) (scope : ScopeRef) :
    (heap.clear scope).LacksFunctions names := by
  apply lacks.modifyEntries
  intro name _ function found
  cases found

theorem newScope (lacks : heap.LacksFunctions names) (name : String) (parent : Option ScopeRef) :
    (heap.newScope name parent).2.LacksFunctions names :=
  lacks.of_entries (entries_newScope heap name parent)

theorem memberOf? (lacks : heap.LacksFunctions names) (isNamed : name ∈ names)
    (function : FunctionRef) :
    heap.memberOf? value name ≠ some (.entry (.function function)) := by
  have isMember {kind : Kind} :
      (Member.lookup? kind name).map (Binding.member value) ≠
        some (.entry (.function function)) := by
    cases Member.lookup? kind name <;> nofun
  unfold Heap.memberOf?
  cases value with
  | object object =>
      dsimp only
      cases own : heap.get? object name with
      | none => exact isMember
      | some entry =>
          rintro ⟨⟩
          exact lacks object name function isNamed own
  | primitive | list | function => exact isMember

/-- Under such a name nothing but a member is called. -/
theorem reads_target (lacks : heap.LacksFunctions names) (isNamed : name ∈ names)
    (noAdd : "add" ∉ names) (noRemove : "remove" ∉ names) {indexed : Bool} {target : Callable}
    (found : heap.target scope receiver name indexed = .ok target) : target.reads = true := by
  have noEntry (function : FunctionRef) :
      heap.find? scope receiver name ≠ some (.entry (.function function)) := by
    intro isEntry
    cases receiver with
    | none =>
        obtain ⟨around, -, isFound⟩ := List.exists_of_findSome?_eq_some isEntry
        exact lacks.memberOf? isNamed function isFound
    | some value => exact lacks.memberOf? isNamed function isEntry
  unfold Heap.target at found
  split at found
  · rename_i function isEntry
    exact absurd isEntry (noEntry function)
  · cases found
  · rename_i owner method isMember
    obtain rfl : Callable.member owner method = target := Except.ok.inj found
    obtain ⟨rfl, -⟩ := of_find?_member isMember
    have different : method ≠ .add ∧ method ≠ .remove := by
      constructor
      · rintro rfl
        exact noAdd isNamed
      · rintro rfl
        exact noRemove isNamed
    simp [Callable.reads, different]
  · split at found <;> cases found

end LacksFunctions

end Heap

/-- Whatever becomes of a session, its blocks are parsed into nodes that only read, and arguments of
placeholders are bound to no name that is called. -/
structure Session.ReadsOnly (session : Session η) (called : List String) (embeddings : Embeddings) :
    Prop where
  nodes : ∀ after, session.Chain Policy.parents embeddings after → ∀ id nodes,
    (after.block id).nodes? = some nodes → ∀ node ∈ nodes, node.Reads called
  parameters : ∀ key placeholder, session.placeholders.get? key = some placeholder →
    placeholder.parameter ∉ called
  noAdd : "add" ∉ called
  noRemove : "remove" ∉ called

theorem Session.ReadsOnly.later {session after : Session η} {called : List String}
    {embeddings : Embeddings} (reads : session.ReadsOnly called embeddings)
    (chain : session.Chain Policy.parents embeddings after)
    (same : after.placeholders = session.placeholders) : after.ReadsOnly called embeddings := by
  constructor
  · exact fun last toLast => reads.nodes last (chain.trans toLast)
  · rw [same]
    exact reads.parameters
  · exact reads.noAdd
  · exact reads.noRemove

end Stencil
