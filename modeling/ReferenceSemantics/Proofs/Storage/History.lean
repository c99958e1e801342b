import ReferenceSemantics.Proofs.Storage.Allocation
import ReferenceSemantics.Proofs.Storage.Operations

set_option autoImplicit false

/-!
Histories: lists of operations on a storage, and the addresses that they hand out.

Two counters only grow, one for the stack and one for the heap. Every allocation hands out the
counter of its region and moves it on; no other operation touches a counter, except for a discard,
which starts over.
-/

namespace ReferenceSemantics

namespace Storage

/-- An operation with its operands. -/
inductive Operation where
  | pushFrame (function : String) (callSite : Option Location)
  | popFrame
  | allocate (name : String) (kind : Kind) (site : Option SiteId) (placement : Placement)
      (value : Value)
  | declare (name : String) (kind : Kind) (site : Option SiteId) (placement : Placement)
      (value : Value)
  /-- Replace everything about the slot at an address but the address. -/
  | amend (address : Address) (name : String) (kind : Kind) (site : Option SiteId) (value : Value)
  | store (ref : SlotRef) (value : Value)
  | setElement (header : Value) (index : Int) (value : Value)
  | append (header : Value) (values : List Value)
  | reslice (header : Value) (low high : Nat)
  | allocBlock (cells : List Value) (len : Nat) (zero : Value)
  | allocTable (entries : List (Value × Value))
  | tableInsert (header key value : Value)
  | sweep
  | discard

/-- The operation creates a slot on the stack. -/
def Operation.onStack : Operation → Bool
  | .allocate _ _ _ placement _ | .declare _ _ _ placement _ => placement == .stack
  | _ => false

/-- The address that an operation hands out, if it allocates, and the storage it leaves. An
operation that fails changes nothing. -/
def perform (storage : Storage) : Operation → Option Address × Storage
  | .pushFrame function callSite => (none, storage.pushFrame function callSite)
  | .popFrame => (none, storage.popFrame)
  | .allocate name kind site placement value =>
      let (ref, changed) := storage.allocate name kind site placement value
      (some ref.address, changed)
  | .declare name kind site placement value =>
      let (ref, changed) := storage.declare name kind site placement value
      (some ref.address, changed)
  | .amend address name kind site value =>
      (none, match storage.slot address with
        | .ok slot => storage.setSlot address ⟨name, kind, value, site, slot.address⟩
        | .error _ => storage)
  | .store ref value => (none, (storage.store ref value).toOption.getD storage)
  | .setElement header index value =>
      (none, (storage.setElement header index value).toOption.getD storage)
  | .append header values =>
      match storage.append header values with
      | .ok (moved, changed) =>
          (if moved.behind? = header.behind? then none else moved.behind?, changed)
      | .error _ => (none, storage)
  | .reslice _ _ _ => (none, storage)
  | .allocBlock cells len zero =>
      let (header, changed) := storage.allocBlock cells len zero
      (header.behind?, changed)
  | .allocTable entries =>
      let (header, changed) := storage.allocTable entries
      (header.behind?, changed)
  | .tableInsert header key value =>
      (none, (storage.tableInsert header key value).toOption.getD storage)
  | .sweep => (none, storage.sweep.2)
  | .discard => (none, empty)

/-- The storage after a history. -/
def after (storage : Storage) : List Operation → Storage
  | [] => storage
  | operation :: history => after (storage.perform operation).2 history

/-- The addresses that a history hands out, in order. -/
def handedOut (storage : Storage) : List Operation → List Address
  | [] => []
  | operation :: history =>
      (storage.perform operation).1.toList ++ handedOut (storage.perform operation).2 history

theorem after_append (storage : Storage) (first second : List Operation) :
    storage.after (first ++ second) = (storage.after first).after second := by
  induction first generalizing storage with
  | nil => rfl
  | cons operation first inductionHypothesis => exact inductionHypothesis _

/-- The root frame is never popped. -/
theorem popFrame_of_not_inCall {storage : Storage} (outside : ¬ storage.InCall) :
    storage.popFrame = storage := by
  have noCalls : storage.calls.frames = [] := Classical.not_not.mp outside
  simp [popFrame, popFrame?, CallStack.pop?, noCalls]

/-! ### One operation -/

/-- What an operation does to the counters and to the live stack addresses. -/
inductive Moves (storage changed : Storage) : (onStack : Bool) → (given : Option Address) → Prop
  | stays (stackEnd : changed.nextStackAddress = storage.nextStackAddress)
      (heapEnd : changed.heap.nextAddress = storage.heap.nextAddress)
      (addresses : changed.stackAddresses.Sublist storage.stackAddresses) :
      Moves storage changed false none
  | stack (stackEnd : changed.nextStackAddress = storage.nextStackAddress + slotSize)
      (heapEnd : changed.heap.nextAddress = storage.heap.nextAddress)
      (addresses : changed.stackAddresses =
        storage.stackAddresses ++ [storage.nextStackAddress]) :
      Moves storage changed true (some storage.nextStackAddress)
  | heap (stackEnd : changed.nextStackAddress = storage.nextStackAddress)
      (heapEnd : changed.heap.nextAddress = storage.heap.nextAddress + slotSize)
      (addresses : changed.stackAddresses = storage.stackAddresses) :
      Moves storage changed false (some storage.heap.nextAddress)

namespace Moves

variable {storage changed : Storage}

theorem refl (storage : Storage) : storage.Moves storage false none :=
  .stays rfl rfl (.refl _)

/-- The object of the heap is replaced. -/
theorem heapSet (storage : Storage) (address : Address) (object : HeapObject) :
    storage.Moves { storage with heap := storage.heap.set address object } false none :=
  .stays rfl (Heap.nextAddress_set _ _ _) (.refl _)

theorem heapPush (storage : Storage) (object : HeapObject) :
    storage.Moves { storage with heap := storage.heap.push object } false
      (some storage.heap.nextAddress) :=
  .heap rfl (Heap.nextAddress_push _ _) rfl

/-- Replacing a slot by one of the same address moves nothing. -/
theorem setSlot {address : Address} {old new : Slot} (read : storage.slot address = .ok old)
    (same : new.address = old.address) :
    storage.Moves (storage.setSlot address new) false none := by
  rcases storage.owned_or_absent address with ⟨slot, ⟨owned⟩⟩ | ⟨-, -, replaced⟩
  · obtain rfl : slot = old := Except.ok.inj (owned.read.symm.trans read)
    obtain ⟨frames, heap, stackEnd⟩ := owned.replaced new
    have addresses :
        (storage.setSlot address new).stackAddresses = storage.stackAddresses := by
      simp [stackAddresses, stackSlots, frames, owned.frames, same]
    exact .stays stackEnd (by rw [heap]) (addresses ▸ .refl _)
  · rw [replaced]
    exact heapSet storage address _

theorem allocate (storage : Storage) (name : String) (kind : Kind) (site : Option SiteId)
    (placement : Placement) (value : Value) :
    storage.Moves (storage.allocate name kind site placement value).2
      (placement == .stack) (some (storage.allocate name kind site placement value).1.address) := by
  cases placement with
  | stack =>
      refine .stack rfl (congrArg Heap.nextAddress (heap_modifyCurrent _ _)) ?_
      have slots := stackSlots_pushCurrent storage
        ⟨name, kind, value, site, storage.nextStackAddress⟩
      exact (congrArg (List.map (·.address)) slots).trans List.map_append
  | heap => exact heapPush storage _

/-- Binding a name moves nothing either. -/
theorem bind {onStack : Bool} {given : Option Address} (moves : storage.Moves changed onStack given)
    (name : String) (address : Address) :
    storage.Moves (changed.modifyCurrent (·.bind name address)) onStack given := by
  have bound := binds_bind changed name address
  have addresses :
      (changed.modifyCurrent (·.bind name address)).stackAddresses = changed.stackAddresses := by
    rw [stackAddresses, stackAddresses, stackSlots, stackSlots, bound.frames]
    conv => rhs; rw [frames_eq changed]
    simp [Frame.bind]
  cases moves with
  | stays stackEnd heapEnd kept =>
      exact .stays (bound.stackEnd.trans stackEnd) (bound.heapEnd.trans heapEnd)
        (addresses ▸ kept)
  | stack stackEnd heapEnd kept =>
      exact .stack (bound.stackEnd.trans stackEnd) (bound.heapEnd.trans heapEnd)
        (addresses.trans kept)
  | heap stackEnd heapEnd kept =>
      exact .heap (bound.stackEnd.trans stackEnd) (bound.heapEnd.trans heapEnd)
        (addresses.trans kept)

theorem popFrame (storage : Storage) : storage.Moves storage.popFrame false none := by
  obtain ⟨heap, stackEnd, -⟩ := heap_popFrame storage
  refine .stays stackEnd (by rw [heap]) ?_
  by_cases called : storage.InCall
  · rw [stackAddresses, stackAddresses, stackSlots_popFrame called, List.map_append]
    exact List.sublist_append_left _ _
  · simp only [popFrame_of_not_inCall called, List.Sublist.refl]

/-- An operation that gives a storage or fails. -/
theorem getD {result : Except StorageError Storage}
    (moves : ∀ changed, result = .ok changed → storage.Moves changed false none) :
    storage.Moves (result.toOption.getD storage) false none := by
  cases result with
  | error reason => exact refl storage
  | ok changed => exact moves changed rfl

theorem append {header moved : Value} {values : List Value}
    (appended : storage.append header values = .ok (moved, changed)) :
    storage.Moves changed false
      (if moved.behind? = header.behind? then none else moved.behind?) := by
  cases append_eq_ok appended with
  | nothing len cap offset block => simpa using refl storage
  | inPlace len cap offset address block values read room =>
      simpa [Value.behind?] using heapSet storage address _
  | grown len cap offset address block values cells read full filled =>
      have other := (Heap.ne_nextAddress (block_eq_ok_iff.mp read)).symm
      simpa [allocBlock, Value.behind?, other] using heapPush storage _
  | first len cap offset value values cells filled =>
      simpa [allocBlock, Value.behind?] using heapPush storage _

end Moves

theorem moves_perform (storage : Storage) {operation : Operation}
    (kept : operation ≠ .discard) :
    storage.Moves (storage.perform operation).2 operation.onStack
      (storage.perform operation).1 := by
  cases operation with
  | pushFrame function callSite =>
      refine .stays rfl rfl ?_
      simp only [perform, stackAddresses, stackSlots_pushFrame, List.Sublist.refl]
  | popFrame => exact .popFrame storage
  | allocate name kind site placement value =>
      exact .allocate storage name kind site placement value
  | declare name kind site placement value =>
      exact (Moves.allocate storage name kind site placement value).bind name _
  | amend address name kind site value =>
      simp only [perform]
      split
      next slot read => exact .setSlot read rfl
      next => exact .refl storage
  | store ref value =>
      refine .getD fun changed stored => ?_
      obtain ⟨slot, whole, read, -, rfl⟩ := store_eq_ok.mp stored
      exact .setSlot read rfl
  | setElement header index value =>
      refine .getD fun changed done => ?_
      obtain ⟨address, cell, block, -, -, -, rfl⟩ := setElement_eq_ok.mp done
      exact .heapSet storage address _
  | append header values =>
      simp only [perform]
      split
      next moved changed appended => exact .append appended
      next => exact .refl storage
  | reslice header low high => exact .refl storage
  | allocBlock cells len zero => exact .heapPush storage _
  | allocTable entries => exact .heapPush storage _
  | tableInsert header key value =>
      refine .getD fun changed done => ?_
      obtain ⟨address, table, -, -, rfl⟩ := tableInsert_eq_ok.mp done
      exact .heapSet storage address _
  | sweep => exact .stays rfl (Heap.nextAddress_markUnreachable _ _) (.refl _)
  | discard => exact absurd rfl kept

/-! ### Whole histories -/

section Counters

variable {storage changed : Storage} {onStack : Bool} {given : Option Address}

theorem Moves.stackEnd (moves : storage.Moves changed onStack given) :
    changed.nextStackAddress =
      storage.nextStackAddress + slotSize * (if onStack then 1 else 0) := by
  cases moves with
  | stays stackEnd _ _ => exact stackEnd
  | stack stackEnd _ _ => exact stackEnd
  | heap stackEnd _ _ => exact stackEnd

theorem Moves.heapEnd_le (moves : storage.Moves changed onStack given) :
    storage.heap.nextAddress ≤ changed.heap.nextAddress := by
  cases moves with
  | stays _ heapEnd _ => exact Nat.le_of_eq heapEnd.symm
  | stack _ heapEnd _ => exact Nat.le_of_eq heapEnd.symm
  | heap _ heapEnd _ => exact heapEnd ▸ Nat.le_add_right _ _

/-- The stack counter counts the slots created on the stack. -/
theorem nextStackAddress_after (storage : Storage) {history : List Operation}
    (kept : .discard ∉ history) :
    (storage.after history).nextStackAddress =
      storage.nextStackAddress + slotSize * history.countP Operation.onStack := by
  induction history generalizing storage with
  | nil => rfl
  | cons operation history inductionHypothesis =>
      have here := List.ne_of_not_mem_cons kept
      have later := List.not_mem_of_not_mem_cons kept
      rw [after, inductionHypothesis _ later, (storage.moves_perform (Ne.symm here)).stackEnd,
        List.countP_cons, Nat.add_assoc, ← Nat.mul_add, Nat.add_comm (List.countP _ _)]

theorem nextStackAddress_le_after (storage : Storage) {history : List Operation}
    (kept : .discard ∉ history) :
    storage.nextStackAddress ≤ (storage.after history).nextStackAddress :=
  nextStackAddress_after storage kept ▸ Nat.le_add_right _ _

end Counters

/-- Live stack slots have addresses of their own, all of them handed out. -/
structure Orderly (storage : Storage) : Prop where
  distinct : storage.stackAddresses.Nodup
  below : ∀ address ∈ storage.stackAddresses, address < storage.nextStackAddress

theorem Orderly.empty : empty.Orderly := ⟨Coherent.empty.distinct, nofun⟩

theorem Orderly.moves {storage changed : Storage} {onStack : Bool} {given : Option Address}
    (orderly : storage.Orderly) (moves : storage.Moves changed onStack given) :
    changed.Orderly := by
  cases moves with
  | stays stackEnd _ addresses =>
      refine ⟨orderly.distinct.sublist addresses, fun address member => ?_⟩
      exact stackEnd ▸ orderly.below address (addresses.subset member)
  | stack stackEnd _ addresses =>
      have grown : storage.nextStackAddress < changed.nextStackAddress :=
        stackEnd ▸ Nat.lt_add_of_pos_right (by decide)
      refine ⟨?_, fun address member => ?_⟩
      · rw [addresses, List.nodup_append]
        refine ⟨orderly.distinct, by simp, fun old member new isNew same => ?_⟩
        rw [List.mem_singleton.mp isNew] at same
        exact absurd (same ▸ orderly.below old member) (Nat.lt_irrefl _)
      · rcases List.mem_append.mp (addresses ▸ member) with old | new
        · exact Nat.lt_trans (orderly.below address old) grown
        · exact List.mem_singleton.mp new ▸ grown
  | heap stackEnd _ addresses =>
      exact ⟨addresses ▸ orderly.distinct, fun address member =>
        stackEnd ▸ orderly.below address (addresses ▸ member)⟩

/-- Every history keeps the stack in order, discards included. -/
theorem Orderly.after {storage : Storage} (orderly : storage.Orderly)
    (history : List Operation) : (storage.after history).Orderly := by
  induction history generalizing storage with
  | nil => exact orderly
  | cons operation history inductionHypothesis =>
      apply inductionHypothesis
      by_cases discarded : operation = .discard
      · exact discarded ▸ Orderly.empty
      · exact orderly.moves (storage.moves_perform discarded)

end Storage

end ReferenceSemantics
