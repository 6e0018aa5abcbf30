import Stencil.Proofs.Run.Evaluate

/-!
# Runs on closed heaps

Evaluating an expression keeps the heap closed and leads to a value in range, if the functions of
the host do so.
-/

namespace Stencil

variable {η : Type}

/-- A call of a function of the host, with everything in range, leaves the heap closed with all its
scopes, answers something in range, and does not fail as seeking does. -/
def Host.KeepsRange (host : Host η) : Prop :=
  ∀ (code : Nat) (receiver : Option Value) (arguments : List Value) (store : Store η),
    store.heap.Closed →
    (∀ value, receiver = some value → value.InRange store.heap.scopes.size) →
    (∀ value ∈ arguments, value.InRange store.heap.scopes.size) →
    (host.call code receiver arguments store).2.heap.Closed ∧
      store.heap.scopes.size ≤ (host.call code receiver arguments store).2.heap.scopes.size ∧
      (∀ value, (host.call code receiver arguments store).1 = .ok value →
        value.InRange (host.call code receiver arguments store).2.heap.scopes.size) ∧
      ∀ error, (host.call code receiver arguments store).1 = .error error → error.OtherThanSeek

theorem Host.keepsRange_none : Host.none.KeepsRange := by
  refine fun _ _ _ _ closed _ _ => ⟨closed, Nat.le_refl _, fun _ same => (nomatch same), ?_⟩
  intro error same
  cases same
  exact nofun

/-- The policy that every scope that is stored anywhere is there, and that seeking never fails. -/
def Policy.inRange : Policy η where
  holds store := store.heap.Closed
  grows before after := before.heap.scopes.size ≤ after.heap.scopes.size
  hasScope store scope := scope.index < store.heap.scopes.size
  hasValue store value := value.InRange store.heap.scopes.size
  raises error := error.OtherThanSeek
  mayParse _ := True
  mayMark := True
  mayDefine := True

namespace Policy

variable {host : Host η}

theorem permissive_inRange : (inRange : Policy η).Permissive :=
  ⟨fun _ => trivial, trivial, trivial⟩

theorem regular_inRange : (inRange : Policy η).Regular where
  refl _ := Nat.le_refl _
  trans _ _ _ first second := Nat.le_trans first second
  raises _ other := other

/-- Evaluations keep closed heaps closed. -/
theorem careful_inRange (keeps : host.KeepsRange) : (inRange : Policy η).Careful host where
  toRegular := regular_inRange
  hasScope_mono _ _ _ grows has := Nat.lt_of_lt_of_le has grows
  hasValue_mono _ _ _ grows has := Value.InRange.mono has grows
  primitive _ _ := trivial
  find store scope receiver name binding closed present range found := by
    apply Binding.inRange_iff.mp
    cases receiver with
    | none => exact Heap.Closed.lookup? closed present found
    | some value => exact Heap.Closed.memberOf? closed (range value rfl) found
  valueOf store binding closed fits := by
    obtain ⟨later, size, inRange⟩ := Heap.Closed.valueOf closed (Binding.inRange_iff.mpr fits)
    exact ⟨⟨later, Nat.le_of_eq size.symm⟩, inRange.mono (Nat.le_of_eq size.symm)⟩
  callable store function closed := Heap.Stores.callable (Heap.Closed.stores closed) function
  newList store isMutable items closed range := by
    refine ⟨⟨Heap.Closed.newList closed isMutable range, ?_⟩, trivial⟩
    cases isMutable <;> exact Nat.le_refl _
  member store method owner arguments closed _ ranges := by
    refine (Member.gives_invoke method owner arguments store.heap).weaken fun answer leaves => ?_
    obtain ⟨⟨later, size⟩, inRange⟩ := leaves closed ranges
    exact ⟨⟨later, Nat.le_of_eq size.symm⟩, inRange.mono (Nat.le_of_eq size.symm)⟩
  call store code receiver arguments closed range ranges := by
    obtain ⟨later, grows, isAnswer, raised⟩ :=
      keeps code receiver arguments store closed range ranges
    exact ⟨⟨later, grows⟩, isAnswer, raised⟩

/-- Runs keep closed heaps closed. -/
theorem lawful_inRange (keeps : host.KeepsRange) : (inRange : Policy η).Lawful host where
  toRegular := regular_inRange
  hasScope_mono _ _ _ grows has := Nat.lt_of_lt_of_le has grows
  hasValue_mono _ _ _ grows has := Value.InRange.mono has grows
  primitive _ _ := trivial
  item _ list closed := Heap.Closed.items closed list
  newScope store name parent closed has := by
    have size : (store.heap.newScope name (some parent)).2.scopes.size =
        store.heap.scopes.size + 1 := by simp [Heap.newScope]
    refine ⟨⟨Heap.Closed.newScope closed name has, ?_⟩, ?_⟩
    · change store.heap.scopes.size ≤ (store.heap.newScope name (some parent)).2.scopes.size
      omega
    · change store.heap.scopes.size < (store.heap.newScope name (some parent)).2.scopes.size
      omega
  clear store scope closed _ :=
    ⟨Heap.Closed.clear closed scope, Nat.le_of_eq (Heap.size_modifyEntries _ _ _).symm⟩
  put store scope name value closed _ range :=
    ⟨Heap.Closed.put closed scope name range, Nat.le_of_eq (Heap.size_modifyEntries _ _ _).symm⟩
  assign store scope name value closed _ range :=
    ⟨Heap.Closed.assign closed scope name range, Nat.le_of_eq (Heap.size_assign _ _ _ _).symm⟩
  evaluate store scope expression closed present :=
    (careful_inRange keeps).evaluate expression store closed present
  follow store scope path closed present :=
    (careful_inRange keeps).followFrom path store closed present (by simp)

end Policy

end Stencil
