import ReferenceSemantics.Proofs.Storage.Heap
import ReferenceSemantics.Proofs.Storage.Stack
import ReferenceSemantics.Storage.Block
import ReferenceSemantics.Storage.Table

set_option autoImplicit false

/-!
Storage as a map from addresses to objects.

A live stack slot is an object like those of the heap. What an operation does to storage is said by
the object it replaces or adds, and by what happens to the outline of the frames.
-/

namespace ReferenceSemantics

namespace HeapObject

/-- What an object is apart from the values in it. -/
inductive Form where
  | slot (outline : Slot)
  | block (cells : Nat)
  | table

def form : HeapObject → Form
  | slot s => .slot s.outline
  | block b => .block b.cells.length
  | table _ => .table

/-- Every value of an object, the one that fills spare cells included. -/
def contents : HeapObject → List Value
  | slot s => [s.value]
  | block b => b.zero :: b.cells
  | table t => t.entries.flatMap fun entry => [entry.1, entry.2]

end HeapObject

namespace Storage

/-- The live object at an address. -/
def objectAt? (storage : Storage) (address : Address) : Option HeapObject :=
  ((storage.stackSlot? address).map .slot).or (storage.heap.get? address)

theorem stackSlot?_some {storage : Storage} {address : Address} {slot : Slot}
    (found : storage.stackSlot? address = some slot) :
    slot ∈ storage.stackSlots ∧ slot.address = address := by
  refine ⟨List.mem_of_find?_eq_some found, ?_⟩
  simpa using List.find?_some found

theorem slot_eq (storage : Storage) (address : Address) :
    storage.slot address =
      match storage.objectAt? address with
      | some (.slot slot) => .ok slot
      | some _ => .error (.invalidAddress address .slot)
      | none =>
          if address < heapStart then .error (.dangling address)
          else .error (.invalidAddress address .slot) := by
  rcases storage.owned_or_absent address with ⟨slot, ⟨owned⟩⟩ | ⟨absent, read, -⟩
  · rw [owned.read, objectAt?, owned.found]
    rfl
  · rw [read, heapSlot, objectAt?, absent]
    rfl

theorem slot_ok_iff {storage : Storage} {address : Address} {slot : Slot} :
    storage.slot address = .ok slot ↔ storage.objectAt? address = some (.slot slot) := by
  rw [slot_eq]
  cases found : storage.objectAt? address with
  | none =>
      simp only [reduceCtorEq, iff_false]
      split <;> simp
  | some object => cases object <;> simp

/-- Only the heap has blocks and tables. -/
theorem get?_of_objectAt? {storage : Storage} {address : Address} {object : HeapObject}
    (found : storage.objectAt? address = some object) (notSlot : ∀ slot, object ≠ .slot slot) :
    storage.stackSlot? address = none ∧ storage.heap.get? address = some object := by
  rw [objectAt?] at found
  cases owned : storage.stackSlot? address with
  | none => exact ⟨rfl, by simpa [owned] using found⟩
  | some slot =>
      simp only [owned, Option.map_some, Option.some_or, Option.some.injEq] at found
      exact absurd found.symm (notSlot slot)

theorem block_eq_ok {storage : Storage} {address : Address} {block : Block}
    (found : storage.objectAt? address = some (.block block)) :
    storage.block address = .ok block := by
  rw [Storage.block, (get?_of_objectAt? found (by simp)).2]

theorem table_eq_ok {storage : Storage} {address : Address} {table : Table}
    (found : storage.objectAt? address = some (.table table)) :
    storage.table address = .ok table := by
  rw [Storage.table, (get?_of_objectAt? found (by simp)).2]

theorem block_eq_ok_iff {storage : Storage} {address : Address} {block : Block} :
    storage.block address = .ok block ↔ storage.heap.get? address = some (.block block) := by
  unfold Storage.block
  cases storage.heap.get? address with
  | none => simp
  | some object => cases object <;> simp

theorem table_eq_ok_iff {storage : Storage} {address : Address} {table : Table} :
    storage.table address = .ok table ↔ storage.heap.get? address = some (.table table) := by
  unfold Storage.table
  cases storage.heap.get? address with
  | none => simp
  | some object => cases object <;> simp

/-! ### What operations do -/

/-- One object is replaced; everything else stays. -/
structure Rewrites (storage changed : Storage) (address : Address) (object : HeapObject) :
    Prop where
  outline : changed.outline = storage.outline
  stackEnd : changed.nextStackAddress = storage.nextStackAddress
  heapEnd : changed.heap.nextAddress = storage.heap.nextAddress
  objects : ∀ other, changed.objectAt? other =
    if other = address then some object else storage.objectAt? other

/-- The write goes to the value of the slot that is read at the address. -/
theorem rewrites_setSlot {storage : Storage} {address : Address} {slot : Slot}
    (read : storage.slot address = .ok slot) (value : Value) :
    storage.Rewrites (storage.setSlot address { slot with value }) address
      (.slot { slot with value }) := by
  rcases storage.owned_or_absent address with ⟨old, ⟨owned⟩⟩ | ⟨absent, readHeap, replaced⟩
  · obtain rfl : old = slot := Except.ok.inj (owned.read.symm.trans read)
    obtain ⟨frames, heap, stackEnd⟩ := owned.replaced { old with value }
    refine ⟨?_, stackEnd, by rw [heap], fun other => ?_⟩
    · simp [outline, frames, owned.frames, Frame.outline, Slot.outline]
    · have here := owned.here
      have newSlots : (storage.setSlot address { old with value }).stackSlots =
          (owned.below.flatMap (·.slots) ++ owned.first) ++
            { old with value } :: (owned.rest ++ owned.above.flatMap (·.slots)) := by
        simp [stackSlots, frames]
      have oldSlots : storage.stackSlots =
          (owned.below.flatMap (·.slots) ++ owned.first) ++
            old :: (owned.rest ++ owned.above.flatMap (·.slots)) := by
        simp [stackSlots, owned.frames]
      by_cases same : other = address
      · subst same
        have skipped : (owned.below.flatMap (·.slots) ++ owned.first).find?
            (·.address == other) = none :=
          List.find?_eq_none.mpr fun slot member => by simpa using owned.before slot member
        simp only [objectAt?, stackSlot?, newSlots, List.find?_append, skipped, if_true,
          List.find?_cons]
        simp [here]
      · have passed : (old.address == other) = false := by simpa [here] using Ne.symm same
        simp only [objectAt?, stackSlot?, newSlots, oldSlots, List.find?_append,
          List.find?_cons, passed, heap, if_neg same]
  · have inHeap : storage.heap.get? address = some (.slot slot) := by
      have found := slot_ok_iff.mp read
      simpa [objectAt?, absent] using found
    rw [replaced]
    refine ⟨rfl, rfl, Heap.nextAddress_set _ _ _, fun other => ?_⟩
    simp only [objectAt?, Heap.get?_set _ other inHeap]
    by_cases same : other = address
    · subst same
      have absentAfter : stackSlot? { storage with
          heap := storage.heap.set other (.slot { slot with value }) } other = none := absent
      simp [absentAfter]
    · simp only [if_neg same]
      rfl

theorem rewrites_heapSet {storage : Storage} {address : Address} {old : HeapObject}
    (found : storage.objectAt? address = some old) (notSlot : ∀ slot, old ≠ .slot slot)
    (new : HeapObject) :
    storage.Rewrites { storage with heap := storage.heap.set address new } address new := by
  obtain ⟨absent, inHeap⟩ := get?_of_objectAt? found notSlot
  refine ⟨rfl, rfl, Heap.nextAddress_set _ _ _, fun other => ?_⟩
  simp only [objectAt?, Heap.get?_set new other inHeap]
  by_cases same : other = address
  · subst same
    have absentAfter : stackSlot? { storage with heap := storage.heap.set other new } other =
        none := absent
    simp [absentAfter]
  · simp only [if_neg same]
    rfl

/-- Only the object at an address of the heap is different. -/
structure DiffersAt (storage changed : Storage) (address : Address) : Prop where
  frames : changed.frames = storage.frames
  stackEnd : changed.nextStackAddress = storage.nextStackAddress
  entries : ∀ other, other ≠ address → changed.heap.entry? other = storage.heap.entry? other

theorem differsAt_heapSet (storage : Storage) (address : Address) (object : HeapObject) :
    storage.DiffersAt { storage with heap := storage.heap.set address object } address :=
  ⟨rfl, rfl, fun other different => by rw [Heap.entry?_set, if_neg different]⟩

theorem differsAt_heapPush (storage : Storage) (object : HeapObject) :
    storage.DiffersAt { storage with heap := storage.heap.push object }
      storage.heap.nextAddress :=
  ⟨rfl, rfl, fun other different => by rw [Heap.entry?_push, if_neg different]⟩

end Storage

end ReferenceSemantics
