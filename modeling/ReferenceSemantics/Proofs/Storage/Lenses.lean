import ReferenceSemantics.Proofs.Storage.History
import ReferenceSemantics.Proofs.Value.Paths

set_option autoImplicit false

/-!
References as lenses into the slots of storage.

A store succeeds where a load does. It replaces the part that the reference designates, in the one
slot at the address, so what is loaded afterwards follows from how the two references lie: the part
itself, a part of it, what is around it, or something apart from it.
-/

namespace ReferenceSemantics

namespace SlotRef

/-- The part that a path leads to from what a reference designates. -/
def extend (ref : SlotRef) (path : List String) : SlotRef := ⟨ref.address, ref.path ++ path⟩

/-- References into different slots, or at paths of one slot that part from each other. -/
def Apart (first second : SlotRef) : Prop :=
  first.address ≠ second.address ∨ ¬ first.path <+: second.path ∧ ¬ second.path <+: first.path

theorem Apart.symm {first second : SlotRef} (apart : first.Apart second) : second.Apart first :=
  apart.imp Ne.symm And.symm

/-- What lies apart from a part lies apart from every part of it. -/
theorem Apart.extend {first second : SlotRef} (apart : first.Apart second) (path : List String) :
    (first.extend path).Apart second := by
  refine apart.imp_right fun ⟨notBelow, notAbove⟩ => ⟨fun below => ?_, fun above => ?_⟩
  · exact notBelow ((List.prefix_append first.path path).trans below)
  · rcases List.prefix_or_prefix_of_prefix above (List.prefix_append first.path path) with
      inside | around
    · exact notAbove inside
    · exact notBelow around

end SlotRef

namespace Storage

/-- What a store through a reference changes and what it leaves. -/
structure Stored (storage changed : Storage) (ref : SlotRef) (value : Value) : Prop where
  readBack : changed.load ref = .ok value
  below : ∀ path, changed.load (ref.extend path) =
    match value.atPath? path with
    | some part => .ok part
    | none => .error (.missingField (ref.path ++ path))
  above : ∀ above rest, ref.path = above ++ rest →
    ∃ old new, storage.load ⟨ref.address, above⟩ = .ok old ∧
      changed.load ⟨ref.address, above⟩ = .ok new ∧ Value.Replaced value rest old new
  apart : ∀ other, ref.Apart other → changed.load other = storage.load other
  /-- Every pointer leads where it led before. -/
  pointers : ∀ pointer, changed.dereference pointer = storage.dereference pointer
  /-- The frames are the same, but for the values of their slots. -/
  frames : changed.outline = storage.outline
  /-- The objects are the same, but for the value of the slot at the address. -/
  objects : ∀ address, changed.heap.get? address = storage.heap.get? address ∨
    address = ref.address ∧ ∃ slot whole, storage.heap.get? address = some (.slot slot) ∧
      changed.heap.get? address = some (.slot { slot with value := whole })
  states : ∀ address, changed.heap.state? address = storage.heap.state? address
  stackEnd : changed.nextStackAddress = storage.nextStackAddress
  heapEnd : changed.heap.nextAddress = storage.heap.nextAddress

variable {storage changed : Storage} {address : Address} {ref : SlotRef} {value : Value}

/-! ### Loads -/

theorem load_eq_of_slot {slot : Slot} (read : storage.slot ref.address = .ok slot) :
    storage.load ref =
      match slot.value.atPath? ref.path with
      | some part => .ok part
      | none => .error (.missingField ref.path) := by
  rw [load, read, Except.ok_bind]
  cases slot.value.atPath? ref.path <;> rfl

/-- What is loaded is a matter of the slot at the address. -/
theorem load_congr (same : changed.slot ref.address = storage.slot ref.address) :
    changed.load ref = storage.load ref := by
  rw [load, load, same]

/-- A value can be stored where one was loaded. -/
theorem store_of_load {old : Value} (loaded : storage.load ref = .ok old) (new : Value) :
    ∃ changed, storage.store ref new = .ok changed := by
  obtain ⟨slot, read, found⟩ := load_eq_ok.mp loaded
  obtain ⟨whole, put⟩ := Option.isSome_iff_exists.mp (Value.setAtPath?_isSome new found)
  exact ⟨_, store_eq_ok.mpr ⟨slot, whole, read, put, rfl⟩⟩

/-- A store fails like a load. -/
theorem load_of_store_error {reason : StorageError}
    (failed : storage.store ref value = .error reason) : storage.load ref = .error reason := by
  cases read : storage.slot ref.address with
  | error error =>
      rw [store, read] at failed
      rw [load, read, ← Except.error.inj failed]
      rfl
  | ok slot =>
      rw [store, read, Except.ok_bind] at failed
      rw [load_eq_of_slot read]
      cases found : slot.value.atPath? ref.path with
      | none =>
          cases put : slot.value.setAtPath? ref.path value with
          | none =>
              rw [put] at failed
              exact congrArg Except.error (Except.error.inj failed)
          | some whole =>
              rw [put] at failed
              cases failed
      | some part =>
          obtain ⟨whole, put⟩ := Option.isSome_iff_exists.mp (Value.setAtPath?_isSome value found)
          rw [put] at failed
          cases failed

/-! ### The slot that is written -/

theorem Rewrites.slot {new : Slot} (rewrites : storage.Rewrites changed address (.slot new))
    (other : Address) :
    changed.slot other = if other = address then .ok new else storage.slot other := by
  rw [slot_eq, slot_eq, rewrites.objects]
  by_cases same : other = address
  · rw [if_pos same, if_pos same]
  · rw [if_neg same, if_neg same]

theorem Rewrites.dereference {old new : Slot}
    (rewrites : storage.Rewrites changed address (.slot new))
    (read : storage.slot address = .ok old) (pointer : Value) :
    changed.dereference pointer = storage.dereference pointer := by
  match pointer with
  | .pointer (some target) =>
      rw [Storage.dereference, Storage.dereference, rewrites.slot]
      split
      next same => rw [same, read]; rfl
      next => rfl
  | .pointer none => rfl
  | .primitive _ | .composite _ _ | .referenceHeader _ _ _ _ | .keyValueHeader _
  | .interfaceBox _ _ => rfl

theorem get?_setSlot {slot : Slot} (read : storage.slot address = .ok slot) (new : Slot)
    (other : Address) :
    (storage.setSlot address new).heap.get? other = storage.heap.get? other ∨
      other = address ∧ storage.heap.get? other = some (.slot slot) ∧
        (storage.setSlot address new).heap.get? other = some (.slot new) := by
  rcases storage.owned_or_absent address with ⟨old, ⟨owned⟩⟩ | ⟨absent, -, replaced⟩
  · exact .inl (by rw [(owned.replaced _).2.1])
  · have inHeap : storage.heap.get? address = some (.slot slot) := by
      simpa [objectAt?, absent] using slot_ok_iff.mp read
    rw [replaced, Heap.get?_set _ _ inHeap]
    split
    next same => exact .inr ⟨same, same ▸ inHeap, rfl⟩
    next => exact .inl rfl

theorem state?_setSlot (storage : Storage) (address : Address) (new : Slot) (other : Address) :
    (storage.setSlot address new).heap.state? other = storage.heap.state? other := by
  rcases storage.owned_or_absent address with ⟨old, ⟨owned⟩⟩ | ⟨-, -, replaced⟩
  · rw [(owned.replaced new).2.1]
  · rw [replaced, Heap.state?_set]

theorem stored_of_store (done : storage.store ref value = .ok changed) :
    storage.Stored changed ref value := by
  obtain ⟨slot, whole, read, put, made⟩ := store_eq_ok.mp done
  have replaced := Value.replaced_of_setAtPath? put
  have rewrites : storage.Rewrites changed ref.address (.slot { slot with value := whole }) :=
    made ▸ rewrites_setSlot read whole
  -- every load from the address is one from the slot with the new value
  have written : changed.slot ref.address = .ok { slot with value := whole } := by
    rw [rewrites.slot, if_pos rfl]
  refine ⟨?_, fun path => ?_, fun above rest split => ?_, fun other apart => ?_,
    rewrites.dereference read, rewrites.outline, fun other => ?_, fun other => ?_,
    rewrites.stackEnd, rewrites.heapEnd⟩
  · have here := replaced.atPath?_below []
    rw [List.append_nil] at here
    rw [load_eq_of_slot written, here]
    rfl
  · have inside : changed.load (ref.extend path) = _ := load_eq_of_slot written
    rwa [SlotRef.extend, replaced.atPath?_below] at inside
  · rw [split] at replaced
    obtain ⟨old, new, before, after, inside⟩ := replaced.atPath?_above
    refine ⟨old, new, ?_, ?_, inside⟩
    · exact load_eq_ok.mpr ⟨slot, read, before⟩
    · exact load_eq_ok.mpr ⟨_, written, after⟩
  · by_cases same : other.address = ref.address
    · obtain ⟨notBelow, notAbove⟩ := apart.resolve_left (absurd same.symm)
      rw [← same] at read written
      rw [load_eq_of_slot written, load_eq_of_slot read,
        replaced.atPath?_apart notBelow notAbove]
    · exact load_congr (by rw [rewrites.slot, if_neg same])
  · rw [made]
    refine (get?_setSlot read { slot with value := whole } other).imp_right ?_
    rintro ⟨here, before, after⟩
    exact ⟨here, slot, whole, before, after⟩
  · rw [made, state?_setSlot]

/-- The lens laws. A store succeeds exactly where a load does and fails for the same reason, leaving
storage as it is. What it changes is the part that the reference designates. So a copy and its
original do not see each other's stores. -/
theorem store_lens (storage : Storage) (ref : SlotRef) (value : Value) :
    (match storage.store ref value with
      | .ok changed => (∃ old, storage.load ref = .ok old) ∧ storage.Stored changed ref value
      | .error reason => storage.load ref = .error reason ∧
          (storage.perform (.store ref value)).2 = storage) ∧
    ∀ original copy whole copied, original.Apart copy → storage.load original = .ok whole →
      storage.store copy whole = .ok copied →
        copied.load original = .ok whole ∧ copied.load copy = .ok whole ∧
          ∀ path changed,
            (copied.store (copy.extend path) value = .ok changed →
              changed.load original = .ok whole) ∧
            (copied.store (original.extend path) value = .ok changed →
              changed.load copy = .ok whole) := by
  refine ⟨?_, fun original copy whole copied apart loaded copying => ?_⟩
  · cases done : storage.store ref value with
    | ok changed =>
        have stored := stored_of_store done
        obtain ⟨old, -, loaded, -⟩ := stored.above ref.path [] (List.append_nil _).symm
        exact ⟨⟨old, loaded⟩, stored⟩
    | error reason =>
        refine ⟨load_of_store_error done, ?_⟩
        rw [perform, done]
        rfl
  · have stored := stored_of_store copying
    have kept : copied.load original = .ok whole := (stored.apart _ apart.symm).trans loaded
    refine ⟨kept, stored.readBack, fun path changed => ⟨fun done => ?_, fun done => ?_⟩⟩
    · exact ((stored_of_store done).apart _ (apart.symm.extend path)).trans kept
    · exact ((stored_of_store done).apart _ (apart.extend path)).trans stored.readBack

/-- A composite copied from the stack into the heap does not see stores into the original. -/
theorem store_lens_point :
    let point : Value := .composite "Point" [("x", .int 1), ("y", .int 2)]
    let storage := ((empty.allocate "p" .value none .stack point).2.allocate
      "q" .value none .heap (.int 0)).2
    ∃ copied changed, storage.store ⟨heapStart, []⟩ point = .ok copied ∧
      copied.store ⟨stackStart, ["x"]⟩ (.int 9) = .ok changed ∧
      changed.load ⟨stackStart, ["x"]⟩ = .ok (.int 9) ∧
      changed.load ⟨heapStart, []⟩ = .ok point := by
  intro point storage
  have apart : SlotRef.Apart ⟨stackStart, []⟩ ⟨heapStart, []⟩ := .inl (by decide)
  have laws := (store_lens storage ⟨stackStart, []⟩ (.int 9)).2 _ _ point _ apart rfl rfl
  exact ⟨_, _, rfl, rfl, rfl, (laws.2.2 ["x"] _).2 rfl⟩

end Storage

end ReferenceSemantics
