import Stencil.Proofs.Heap.Inside

/-!
# Texts of objects are indented trees

The text of an object inside another one is made by putting a tab behind every newline of its own
text, once for each object around it.  A printer that knows from the beginning how deep it is writes
the same characters one after the other and never looks back at what it has written.
-/

namespace Stencil

/-- Puts so many tabs behind every newline. -/
def indentBy (tabs : Nat) (text : String) : String :=
  String.ofList (text.toList.flatMap fun character =>
    if character = '\n' then '\n' :: List.replicate tabs '\t' else [character])

/-- A newline and so many tabs. -/
def newline (tabs : Nat) : String :=
  String.ofList ('\n' :: List.replicate tabs '\t')

theorem indentBy_append (tabs : Nat) (left right : String) :
    indentBy tabs (left ++ right) = indentBy tabs left ++ indentBy tabs right := by
  rw [indentBy, String.toList_append, List.flatMap_append, String.ofList_append]
  rfl

theorem indentBy_eq_self {tabs : Nat} {text : String} (flat : '\n' ∉ text.toList) :
    indentBy tabs text = text := by
  have same : (text.toList.flatMap fun character =>
      if character = '\n' then '\n' :: List.replicate tabs '\t' else [character]) =
          text.toList := by
    generalize text.toList = characters at flat
    induction characters with
    | nil => rfl
    | cons character characters induction =>
        obtain ⟨different, flat⟩ := not_or.mp (mt List.mem_cons.mpr flat)
        rw [List.flatMap_cons, if_neg (Ne.symm different), induction flat]
        rfl
  rw [indentBy, same, String.ofList_toList]

theorem indentBy_zero (text : String) : indentBy 0 text = text := by
  have same : (text.toList.flatMap fun character =>
      if character = '\n' then '\n' :: List.replicate 0 '\t' else [character]) = text.toList := by
    induction text.toList with
    | nil => rfl
    | cons character characters induction =>
        rw [List.flatMap_cons, induction]
        split
        · rename_i isNewline
          rw [isNewline]
          rfl
        · rfl
  rw [indentBy, same, String.ofList_toList]

/-- The tabs of an object add up with those of the objects around it. -/
theorem indentBy_indent (tabs : Nat) (text : String) :
    indentBy tabs (indent text) = indentBy (tabs + 1) text := by
  rw [indentBy, indent, String.toList_ofList, List.flatMap_assoc, indentBy]
  congr 2
  funext character
  split
  · have others : (if '\t' = '\n' then '\n' :: List.replicate tabs '\t' else ['\t']) = ['\t'] := rfl
    rw [List.flatMap_cons, if_pos rfl, List.flatMap_singleton, others, List.cons_append,
      List.replicate_succ']
  · rename_i different
    rw [List.flatMap_singleton, if_neg different]

theorem indentBy_newline (tabs : Nat) : indentBy tabs "\n" = newline tabs := by
  rw [indentBy, newline]
  change String.ofList (List.flatMap _ ['\n']) = _
  rw [List.flatMap_singleton, if_pos rfl]

namespace Heap

variable {heap : Heap}

/-- How far in an entry of an object is: objects are one tab further in than the object. -/
def entryTabs (tabs : Nat) : Value → Nat
  | .object _ => tabs + 1
  | _ => tabs

section

variable (write : Nat → Value → String → Option String) (tabs : Nat)

/-- Writes elements at the end of an output, with commas between them. -/
def writeItems : List Value → String → Option String
  | [], output => some output
  | [item], output => write tabs item output
  | item :: items, output => do
      let output ← write tabs item output
      writeItems items (output ++ ",")

/-- Writes the entries of an object at the end of an output, a line for each that is not the object
itself. -/
def writeEntries (object : ScopeRef) : List (String × Value) → String → Option String
  | [], output => some output
  | (key, value) :: entries, output =>
      if value = .object object then writeEntries object entries output
      else do
        let output ← write (entryTabs tabs value) value
          (output ++ newline (tabs + 1) ++ indentBy tabs key ++ " : ")
        writeEntries object entries output

/-- Writes an object at the end of an output. -/
def writeObject (heap : Heap) (object : ScopeRef) (output : String) : Option String :=
  if (heap.entries object).isEmpty then some (output ++ "\x7b\x7d")
  else do
    let output ← writeEntries write tabs object (heap.entries object).entries (output ++ "\x7b")
    return output ++ newline tabs ++ "\x7d"

end

/-- Writes a value that is nested at most `depth` deep at the end of an output, with so many tabs
behind each newline. -/
def writeWithin (heap : Heap) : Nat → Nat → Value → String → Option String
  | 0, _, _, _ => none
  | depth + 1, tabs, value, output =>
      match value with
      | .primitive value => some (output ++ indentBy tabs value.render)
      | .list list => writeItems (writeWithin heap depth) tabs (heap.items list) output
      | .object object => writeObject (writeWithin heap depth) tabs heap object output
      | .function function => some (output ++ indentBy tabs (heap.callable function).render)

/-- A printer writes the texts that values have. -/
def Writes (write : Nat → Value → String → Option String) (textOf : Value → Option String) : Prop :=
  ∀ tabs value output, write tabs value output =
    (textOf value).map fun text => output ++ indentBy tabs text

section

variable {write : Nat → Value → String → Option String} {textOf : Value → Option String}

theorem Writes.writeItems (writes : Writes write textOf) (tabs : Nat) (items : List Value)
    (output : String) : writeItems write tabs items output =
      (items.mapM textOf).map fun texts =>
          output ++ indentBy tabs (String.intercalate "," texts) := by
  induction items generalizing output with
  | nil => simp [Heap.writeItems, indentBy_eq_self]
  | cons item items induction =>
      cases items with
      | nil =>
          rw [Heap.writeItems, writes, List.mapM_cons]
          cases textOf item <;> simp
      | cons next items =>
          rw [Heap.writeItems, writes, List.mapM_cons]
          cases textOf item with
          | none => rfl
          | some text =>
              rw [Option.map_some, Option.bind_eq_bind, Option.bind_some, induction,
                List.mapM_cons]
              cases textOf next with
              | none => rfl
              | some nextText =>
                  cases items.mapM textOf with
                  | none => rfl
                  | some texts =>
                      have comma : indentBy tabs "," = "," := indentBy_eq_self (by decide)
                      simp [indentBy_append, comma, String.append_assoc]
          exact nofun

/-- The line of an entry in an object that is so many tabs in. -/
theorem indentBy_entryLine (tabs : Nat) (key : String) (value : Value) (text : String) :
    indentBy tabs (entryLine key value text) =
      newline (tabs + 1) ++ indentBy tabs key ++ " : " ++ indentBy (entryTabs tabs value) text := by
  have begins : indentBy tabs "\n\t" = newline (tabs + 1) :=
    (indentBy_indent tabs "\n").trans (indentBy_newline (tabs + 1))
  have colon : indentBy tabs " : " = " : " := indentBy_eq_self (by decide)
  have line (body : String) : indentBy tabs ("\n\t" ++ key ++ " : " ++ body) =
      newline (tabs + 1) ++ indentBy tabs key ++ " : " ++ indentBy tabs body := by
    rw [indentBy_append, indentBy_append, indentBy_append, begins, colon]
  cases value with
  | object object => exact (line (indent text)).trans (congrArg _ (indentBy_indent tabs text))
  | primitive | list | function => exact line text

theorem Writes.writeEntries (writes : Writes write textOf) (tabs : Nat) (object : ScopeRef)
    (entries : List (String × Value)) (output : String) :
    writeEntries write tabs object entries output = do
      let lines ← (entries.filter fun entry => entry.2 ≠ .object object).mapM fun entry => do
        return entryLine entry.1 entry.2 (← textOf entry.2)
      return output ++ indentBy tabs (String.join lines) := by
  induction entries generalizing output with
  | nil => simp [Heap.writeEntries, indentBy_eq_self]
  | cons entry entries induction =>
      obtain ⟨key, value⟩ := entry
      rw [Heap.writeEntries]
      by_cases itself : value = .object object
      · rw [if_pos itself, induction, List.filter_cons_of_neg (by simpa using itself)]
      · rw [if_neg itself, List.filter_cons_of_pos (by simpa using itself), List.mapM_cons, writes]
        cases textOf value with
        | none => rfl
        | some text =>
            have line : output ++ newline (tabs + 1) ++ indentBy tabs key ++ " : " ++
                indentBy (entryTabs tabs value) text =
                output ++ indentBy tabs (entryLine key value text) := by
              rw [indentBy_entryLine]
              simp only [String.append_assoc]
            simp only [Option.map_some, Option.bind_eq_bind, Option.bind_some,
              Option.pure_def, line,
              induction]
            cases List.mapM (m := Option) _ _ with
            | none => rfl
            | some lines => simp [indentBy_append, String.append_assoc]

theorem Writes.writeObject (writes : Writes write textOf) (tabs : Nat) (heap : Heap)
    (object : ScopeRef) (output : String) :
    writeObject write tabs heap object output =
      (heap.objectText textOf object).map fun text => output ++ indentBy tabs text := by
  unfold Heap.writeObject Heap.objectText
  change _ = Option.map _ (if (heap.entries object).isEmpty then _ else _)
  split
  · have braces : indentBy tabs "\x7b\x7d" = "\x7b\x7d" := indentBy_eq_self (by decide)
    rw [Option.pure_def, Option.map_some, braces]
  · have opening : indentBy tabs "\x7b" = "\x7b" := indentBy_eq_self (by decide)
    have closing : indentBy tabs "\n\x7d" = newline tabs ++ "\x7d" := by
      rw [← indentBy_newline, ← indentBy_eq_self (by decide : '\n' ∉ "\x7d".toList),
        ← indentBy_append]
      rfl
    rw [writes.writeEntries]
    change _ = Option.map _ (List.mapM (m := Option) _ (List.filter _ (heap.entries object).entries)
      >>= _)
    cases List.mapM (m := Option) _ (List.filter _ (heap.entries object).entries) with
    | none => rfl
    | some lines => simp [indentBy_append, opening, closing, String.append_assoc]

theorem writes_displayWithin (heap : Heap) (depth : Nat) :
    Writes (heap.writeWithin depth) (heap.displayWithin depth) := by
  induction depth with
  | zero => exact fun _ _ _ => rfl
  | succ depth induction =>
      intro tabs value output
      cases value with
      | primitive value => rfl
      | function function => rfl
      | list list =>
          rw [writeWithin, induction.writeItems, Heap.displayWithin]
          cases (heap.items list).mapM (heap.displayWithin depth) <;> rfl
      | object object => exact induction.writeObject tabs heap object output

end

/-- Nothing is nested in itself if whatever is nested in a value has a lower rank. -/
theorem not_nested_of_rank {heap : Heap} (rank : Value → Nat)
    (falls : ∀ whole ∈ heap.containers, ∀ part ∈ heap.parts whole, rank part < rank whole)
    (value : Value) : ¬Relation.TransGen heap.Nests value value := by
  have step {whole part : Value} (nests : heap.Nests whole part) : rank part < rank whole :=
    have isPart := mem_parts_iff.mpr nests
    falls whole (mem_containers isPart) part isPart
  have below {part : Value} (nested : Relation.TransGen heap.Nests value part) :
      rank part < rank value := by
    induction nested with
    | single nests => exact step nests
    | tail _ nests induction => exact Nat.lt_trans (step nests) induction
  exact fun nested => Nat.lt_irrefl _ (below nested)

/-- Texts are indented trees.  If no value is nested in itself, except that objects may be entries
of themselves, then every value has a text, however deep one looks for it, and this text is what the
printer writes that puts as many tabs behind each newline as the line is deep in objects. -/
theorem texts_indented (heap : Heap)
    (untangled : ∀ value, ¬Relation.TransGen heap.Nests value value) (value : Value) {depth : Nat}
    (enough : heap.depthBound ≤ depth) :
    heap.displayWithin depth value = some (heap.display value) ∧
      heap.writeWithin depth 0 value "" = some (heap.display value) := by
  have shown : heap.displayWithin depth value = some (heap.display value) := by
    rw [displayWithin_eq enough]
    exact Untangled.display?_eq fun part _ => untangled part
  refine ⟨shown, ?_⟩
  rw [writes_displayWithin heap depth, shown, Option.map_some, String.empty_append, indentBy_zero]

/-- An object that is an entry of itself, with an object in it that a list holds too, as an
example. -/
def cardHeap : Heap where
  scopes := #[
    { name := "Global"
      entries := ⟨[("self", .object ⟨0⟩), ("a\nb", .string "c\nd"), ("inner", .object ⟨1⟩),
        ("rows", .list ⟨false, 0⟩)], by decide⟩ },
    { name := "inner"
      entries := ⟨[("more", .object ⟨2⟩), ("rows", .list ⟨false, 0⟩)], by decide⟩ },
    { name := "more", entries := ⟨[("e", .string "f\ng")], by decide⟩ },
    { name := "none" }]
  lists := #[⟨[.object ⟨2⟩, .object ⟨3⟩], false⟩]

theorem texts_indented_cardHeap :
    (∀ value, ¬Relation.TransGen cardHeap.Nests value value) ∧
      cardHeap.displayWithin 9 (.object .global) = some (cardHeap.display (.object .global)) ∧
      cardHeap.writeWithin 9 0 (.object .global) "" = some (cardHeap.display (.object .global)) ∧
      cardHeap.display (.object .global) =
        "\x7b\n\ta\nb : c\nd\n\tinner : \x7b\n\t\tmore : \x7b\n\t\t\te : f\n\t\tg\n\t\t\x7d" ++
        "\n\t\trows : \x7b\n\t\te : f\n\tg\n\t\x7d,\x7b\x7d\n\t\x7d" ++
        "\n\trows : \x7b\n\te : f\ng\n\x7d,\x7b\x7d\n\x7d" := by
  have untangled : ∀ value, ¬Relation.TransGen cardHeap.Nests value value := by
    apply not_nested_of_rank fun
      | .object ⟨0⟩ => 4
      | .object ⟨1⟩ => 3
      | .list _ => 2
      | .object _ => 1
      | _ => 0
    decide +kernel
  have enough : cardHeap.depthBound ≤ 9 := by decide
  have ⟨shown, written⟩ := texts_indented cardHeap untangled (.object .global) enough
  exact ⟨untangled, shown, written, by decide +kernel⟩

end Heap

end Stencil
