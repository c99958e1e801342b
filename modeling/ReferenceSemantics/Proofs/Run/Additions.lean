import ReferenceSemantics.Proofs.Run.Quiet

set_option autoImplicit false

/-!
Storage that was only added to.

What is created gets a place at the end of the current frame or of the heap. Every frame, every
binding and every object that was there is then as before. This needs room: a slot that the stack
gets in the region of the heap would hide an object there.
-/

namespace ReferenceSemantics

/-- An object of the heap is still there in a heap that goes on where this one ends. -/
theorem Heap.get?_of_isPrefix {heap changed : Heap}
    (longer : heap.entries.toList <+: changed.entries.toList) {address : Address}
    {object : HeapObject} (found : heap.get? address = some object) :
    changed.get? address = some object := by
  obtain ⟨index, rfl, bound, present⟩ := exists_index_of_get? found
  rw [← Array.getElem?_toList] at present
  rw [get?_addressOf, ← Array.getElem?_toList, ← present]
  obtain ⟨more, same⟩ := longer
  rw [← same, List.getElem?_append_left bound]

/-- The heap is the same, or it has one more object. -/
inductive Heap.Gets (heap : Heap) : Heap → Prop where
  | nothing : Gets heap heap
  | object (object : HeapObject) : Gets heap (heap.push object)

namespace Storage

theorem gets_allocate (storage : Storage) (name : String) (kind : Kind) (site : Option SiteId)
    (placement : Placement) (value : Value) :
    storage.heap.Gets (storage.allocate name kind site placement value).2.heap := by
  cases placement with
  | heap => exact .object _
  | stack => exact storage.heap_modifyCurrent _ ▸ .nothing

/-- The current frame may have more slots and the heap more objects. Nothing else is different. -/
structure Adds (storage changed : Storage) : Prop where
  below : changed.frames.dropLast = storage.frames.dropLast
  current : ∃ slots,
    changed.current = { storage.current with slots := storage.current.slots ++ slots } ∧
      ∀ slot ∈ slots, slot.address < changed.nextStackAddress
  heap : storage.heap.entries.toList <+: changed.heap.entries.toList
  stackEnd : storage.nextStackAddress ≤ changed.nextStackAddress

namespace Adds

variable {storage changed : Storage}

theorem refl (storage : Storage) : storage.Adds storage :=
  ⟨rfl, ⟨[], by rw [List.append_nil], List.forall_mem_nil _⟩, List.prefix_rfl, Nat.le_refl _⟩

theorem trans {first second third : Storage} (before : first.Adds second)
    (after : second.Adds third) : first.Adds third := by
  obtain ⟨slots, current, bounded⟩ := before.current
  obtain ⟨later, current', bounded'⟩ := after.current
  refine ⟨after.below.trans before.below, ⟨slots ++ later, ?_, ?_⟩, before.heap.trans after.heap,
    Nat.le_trans before.stackEnd after.stackEnd⟩
  · rw [current', current, List.append_assoc]
  · refine List.forall_mem_append.mpr ⟨fun slot member => ?_, bounded'⟩
    exact Nat.lt_of_lt_of_le (bounded slot member) after.stackEnd

/-- A new object of the heap. -/
theorem push (storage : Storage) (object : HeapObject) :
    storage.Adds { storage with heap := storage.heap.push object } := by
  refine ⟨rfl, (refl storage).current, ?_, Nat.le_refl _⟩
  rw [Heap.push, Array.toList_push]
  exact List.prefix_append _ _

theorem allocate (storage : Storage) (name : String) (kind : Kind) (site : Option SiteId)
    (placement : Placement) (value : Value) :
    storage.Adds (storage.allocate name kind site placement value).2 := by
  cases placement with
  | heap => exact push storage _
  | stack =>
      let slot : Slot := ⟨name, kind, value, site, storage.nextStackAddress⟩
      have frames := storage.frames_modifyCurrent (·.push slot)
      have ends : storage.nextStackAddress < storage.nextStackAddress + slotSize :=
        Nat.lt_add_of_pos_right (by decide)
      refine ⟨?_, ⟨[slot], storage.current_modifyCurrent (·.push slot),
        List.forall_mem_singleton.mpr ends⟩, ?_, Nat.le_of_lt ends⟩
      · exact (congrArg List.dropLast frames).trans List.dropLast_concat
      · exact (congrArg (·.entries.toList) (storage.heap_modifyCurrent (·.push slot))) ▸
          List.prefix_rfl

theorem skeleton (adds : storage.Adds changed) : changed.skeleton = storage.skeleton := by
  obtain ⟨slots, current, -⟩ := adds.current
  rw [Storage.skeleton, Storage.skeleton, frames_eq changed, frames_eq storage, adds.below, current,
    List.map_append, List.map_append]
  rfl

/-- What lives at an address is what lived there before. -/
theorem objectAt? (adds : storage.Adds changed) (fits : changed.Fits) {address : Address}
    {object : HeapObject} (found : storage.objectAt? address = some object) :
    changed.objectAt? address = some object := by
  obtain ⟨slots, current, bounded⟩ := adds.current
  have stack : changed.stackSlots = storage.stackSlots ++ slots := by
    rw [stackSlots, stackSlots, frames_eq changed, frames_eq storage, adds.below, current]
    simp
  rw [Storage.objectAt?] at found ⊢
  rw [stackSlot?, stack, List.find?_append]
  cases owned : storage.stackSlot? address with
  | some slot =>
      rw [owned] at found
      rw [← found, show storage.stackSlots.find? (·.address == address) = _ from owned]
      rfl
  | none =>
      rw [owned, Option.map_none, Option.none_or] at found
      have inHeap := (Heap.lt_nextAddress_of_get? found).1
      have absent : slots.find? (·.address == address) = none := by
        refine List.find?_eq_none.mpr fun slot member same => ?_
        have below := Nat.lt_of_lt_of_le (bounded slot member) (Nat.le_trans fits inHeap)
        exact Nat.lt_irrefl _ (eq_of_beq same ▸ below)
      rw [show storage.stackSlots.find? (·.address == address) = _ from owned, absent]
      exact Heap.get?_of_isPrefix adds.heap found

theorem slot (adds : storage.Adds changed) (fits : changed.Fits) {address : Address} {slot : Slot}
    (read : storage.slot address = .ok slot) : changed.slot address = .ok slot :=
  slot_ok_iff.mpr (adds.objectAt? fits (slot_ok_iff.mp read))

end Adds

end Storage

end ReferenceSemantics
