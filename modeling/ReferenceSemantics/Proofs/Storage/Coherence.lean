import ReferenceSemantics.Proofs.Storage.Objects

set_option autoImplicit false

/-!
The discipline of addresses that every operation keeps.

Live stack slots have addresses of their own, below the next stack address and below the heap. A
bound name designates a slot of its own frame or of the heap, and in the root frame one of that
frame. The discipline needs room: it is lost when the stack grows into the heap.
-/

namespace ReferenceSemantics

namespace Storage

/-- A stack address that has been handed out, whether or not its slot still lives. -/
def StackAddress (storage : Storage) (address : Address) : Prop :=
  stackStart ≤ address ∧ address < storage.nextStackAddress ∧ address % slotSize = 0

/-- The addresses of the live stack slots. -/
def stackAddresses (storage : Storage) : List Address := storage.stackSlots.map (·.address)

/-- The stack has not grown into the heap. -/
def Fits (storage : Storage) : Prop := storage.nextStackAddress ≤ heapStart

structure Coherent (storage : Storage) : Prop where
  distinct : storage.stackAddresses.Nodup
  handedOut : ∀ address ∈ storage.stackAddresses, storage.StackAddress address
  aligned : storage.nextStackAddress % slotSize = 0
  started : stackStart ≤ storage.nextStackAddress
  fits : storage.nextStackAddress ≤ heapStart
  bound : ∀ frame ∈ storage.frames, ∀ binding ∈ frame.bindings,
    (∃ slot, storage.objectAt? binding.2 = some (.slot slot)) ∧
      (binding.2 ∈ frame.slots.map (·.address) ∨ heapStart ≤ binding.2)
  rootBound : ∀ binding ∈ storage.root.bindings,
    binding.2 ∈ storage.root.slots.map (·.address)

namespace Coherent

variable {storage changed : Storage}

theorem stack_below (coherent : storage.Coherent) {address : Address}
    (handedOut : storage.StackAddress address) : address < heapStart :=
  Nat.lt_of_lt_of_le handedOut.2.1 coherent.fits

theorem stackSlot?_of_mem (coherent : storage.Coherent) {slot : Slot}
    (member : slot ∈ storage.stackSlots) : storage.stackSlot? slot.address = some slot := by
  have distinct := coherent.distinct
  rw [stackAddresses] at distinct
  rw [stackSlot?]
  generalize storage.stackSlots = slots at member distinct
  induction slots with
  | nil => cases member
  | cons head rest inductionHypothesis =>
      simp only [List.map_cons, List.nodup_cons] at distinct
      rcases List.mem_cons.mp member with rfl | later
      · simp
      · have different : head.address ≠ slot.address := fun same =>
          distinct.1 (same ▸ List.mem_map_of_mem later)
        rw [List.find?_cons, beq_eq_false_iff_ne.mpr different]
        exact inductionHypothesis later distinct.2

theorem objectAt?_of_mem (coherent : storage.Coherent) {slot : Slot}
    (member : slot ∈ storage.stackSlots) :
    storage.objectAt? slot.address = some (.slot slot) := by
  simp [objectAt?, coherent.stackSlot?_of_mem member]

/-- The two regions do not meet. -/
theorem stackSlot?_eq_none_of_le (coherent : storage.Coherent) {address : Address}
    (inHeap : heapStart ≤ address) : storage.stackSlot? address = none := by
  cases found : storage.stackSlot? address with
  | none => rfl
  | some slot =>
      obtain ⟨member, rfl⟩ := stackSlot?_some found
      have handedOut := coherent.handedOut _ (List.mem_map_of_mem member)
      exact absurd (coherent.stack_below handedOut) (Nat.not_lt.mpr inHeap)

theorem objectAt?_heap (coherent : storage.Coherent) {address : Address}
    (inHeap : heapStart ≤ address) :
    storage.objectAt? address = storage.heap.get? address := by
  simp [objectAt?, coherent.stackSlot?_eq_none_of_le inHeap]

theorem objectAt?_of_get? (coherent : storage.Coherent) {address : Address}
    {object : HeapObject} (found : storage.heap.get? address = some object) :
    storage.objectAt? address = some object :=
  (coherent.objectAt?_heap (Heap.lt_nextAddress_of_get? found).1).trans found

theorem objectAt?_stack (storage : Storage) {address : Address} (below : address < heapStart) :
    storage.objectAt? address = (storage.stackSlot? address).map .slot := by
  simp [objectAt?, Heap.get?_eq_none_of_lt below]

/-- An object lives below the end of its region. -/
theorem region (coherent : storage.Coherent) {address : Address} {object : HeapObject}
    (found : storage.objectAt? address = some object) :
    (storage.StackAddress address ∧ ∃ slot ∈ storage.stackSlots,
        slot.address = address ∧ object = .slot slot) ∨
      (heapStart ≤ address ∧ address < storage.heap.nextAddress ∧
        storage.heap.get? address = some object) := by
  rw [objectAt?] at found
  cases owned : storage.stackSlot? address with
  | none =>
      have inHeap : storage.heap.get? address = some object := by simpa [owned] using found
      obtain ⟨start, bound⟩ := Heap.lt_nextAddress_of_get? inHeap
      exact .inr ⟨start, bound, inHeap⟩
  | some slot =>
      obtain ⟨member, rfl⟩ := stackSlot?_some owned
      simp only [owned, Option.map_some, Option.some_or, Option.some.injEq] at found
      exact .inl ⟨coherent.handedOut _ (List.mem_map_of_mem member), slot, member, rfl, found.symm⟩

theorem stackSlot?_stackEnd (coherent : storage.Coherent) :
    storage.stackSlot? storage.nextStackAddress = none := by
  cases found : storage.stackSlot? storage.nextStackAddress with
  | none => rfl
  | some slot =>
      obtain ⟨member, same⟩ := stackSlot?_some found
      have bound := (coherent.handedOut _ (List.mem_map_of_mem member)).2.1
      exact absurd (same ▸ bound) (Nat.lt_irrefl _)

theorem objectAt?_heapEnd (coherent : storage.Coherent) :
    storage.objectAt? storage.heap.nextAddress = none := by
  have inHeap : heapStart ≤ storage.heap.nextAddress := Nat.le_add_right _ _
  rw [coherent.objectAt?_heap inHeap, Heap.get?_nextAddress]

end Coherent

/-! ### Writes -/

theorem stackAddresses_eq (storage : Storage) :
    storage.stackAddresses =
      storage.outline.flatMap fun frame => frame.slots.map (·.address) := by
  simp only [stackAddresses, stackSlots, outline, List.map_flatMap, List.flatMap_map,
    Frame.outline, List.map_map]
  rfl

/-- Frames of one outline have the same bindings and slots at the same addresses. -/
theorem exists_frame_of_outline {storage changed : Storage}
    (same : changed.outline = storage.outline) {frame : Frame} (member : frame ∈ changed.frames) :
    ∃ old ∈ storage.frames, old.outline = frame.outline := by
  have mapped : frame.outline ∈ storage.outline := same ▸ List.mem_map_of_mem member
  exact List.mem_map.mp mapped

theorem bindings_of_outline {old frame : Frame} (same : old.outline = frame.outline) :
    old.bindings = frame.bindings ∧
      old.slots.map (·.address) = frame.slots.map (·.address) := by
  refine ⟨congrArg (·.bindings) same, ?_⟩
  have addresses := congrArg (fun outline : Frame => outline.slots.map (·.address)) same
  simpa [Frame.outline, List.map_map, Function.comp_def, Slot.outline] using addresses

theorem root_of_outline {storage changed : Storage}
    (same : changed.outline = storage.outline) : changed.root.outline = storage.root.outline := by
  have heads := congrArg List.head? same
  simpa [outline, frames] using heads

theorem Coherent.rewrites {storage changed : Storage} {address : Address}
    {old object : HeapObject} (coherent : storage.Coherent)
    (rewrites : storage.Rewrites changed address object)
    (found : storage.objectAt? address = some old) (sameForm : object.form = old.form) :
    changed.Coherent := by
  have addresses : changed.stackAddresses = storage.stackAddresses := by
    rw [stackAddresses_eq, stackAddresses_eq, rewrites.outline]
  refine ⟨addresses ▸ coherent.distinct, ?_, ?_, ?_, ?_, ?_, ?_⟩
  · intro slotAddress member
    have handedOut := coherent.handedOut slotAddress (addresses ▸ member)
    exact ⟨handedOut.1, rewrites.stackEnd ▸ handedOut.2.1, handedOut.2.2⟩
  · exact rewrites.stackEnd ▸ coherent.aligned
  · exact rewrites.stackEnd ▸ coherent.started
  · exact rewrites.stackEnd ▸ coherent.fits
  · intro frame member binding inFrame
    obtain ⟨before, beforeMember, sameOutline⟩ := exists_frame_of_outline rewrites.outline member
    obtain ⟨bindings, owned⟩ := bindings_of_outline sameOutline
    obtain ⟨⟨slot, present⟩, region⟩ :=
      coherent.bound before beforeMember binding (bindings ▸ inFrame)
    refine ⟨?_, owned ▸ region⟩
    by_cases same : binding.2 = address
    · rw [rewrites.objects, if_pos same]
      rw [same, found] at present
      cases present
      cases object with
      | slot new => exact ⟨new, rfl⟩
      | block _ => simp [HeapObject.form] at sameForm
      | table _ => simp [HeapObject.form] at sameForm
    · exact ⟨slot, by rw [rewrites.objects, if_neg same, present]⟩
  · intro binding member
    obtain ⟨bindings, owned⟩ := bindings_of_outline (root_of_outline rewrites.outline)
    exact owned ▸ coherent.rootBound binding (bindings ▸ member)

/-! ### The empty storage -/

theorem objectAt?_empty (address : Address) : empty.objectAt? address = none := by
  simp [objectAt?, stackSlot?, stackSlots, empty, frames, CallStack.bottomUp, CallStack.empty,
    Frame.new, Heap.empty, Heap.get?, Heap.entry?]

theorem Coherent.empty : empty.Coherent := by
  refine ⟨?_, ?_, ?_, ?_, ?_, ?_, ?_⟩
  · exact List.nodup_nil
  · simp [stackAddresses, stackSlots, Storage.empty, frames, CallStack.bottomUp, CallStack.empty,
      Frame.new]
  · rfl
  · exact Nat.le_refl _
  · show stackStart ≤ heapStart
    decide
  · simp [Storage.empty, frames, CallStack.bottomUp, CallStack.empty, Frame.new]
  · simp [Storage.empty, Frame.new]

end Storage

end ReferenceSemantics
