import ReferenceSemantics.Storage.Heap

set_option autoImplicit false

/-!
Reading the heap after a change.

Addresses and indices stand for each other. A push only adds the next address, a replacement only
changes the object that was there, and marking changes no object.
-/

namespace ReferenceSemantics

namespace Heap

theorem index?_eq_some {address : Address} {index : Nat} :
    index? address = some index ↔ address = addressOf index := by
  unfold Address at *
  simp only [index?, addressOf, slotSize, heapStart]
  by_cases aligned : 268435456 ≤ address ∧ (address - 268435456) % 8 = 0
  · simp only [aligned, and_self, if_true, Option.some.injEq]
    omega
  · simp only [aligned, if_false, reduceCtorEq, false_iff]
    omega

@[simp]
theorem index?_addressOf (index : Nat) : index? (addressOf index) = some index :=
  index?_eq_some.mpr rfl

theorem addressOf_injective {first second : Nat} (same : addressOf first = addressOf second) :
    first = second := by
  unfold Address at *
  simp only [addressOf, slotSize] at same
  omega

theorem get?_addressOf (heap : Heap) (index : Nat) :
    heap.get? (addressOf index) = heap.entries[index]?.map (·.object) := by
  simp [get?, entry?]

/-- Every object sits at the address of an index. -/
theorem exists_index_of_get? {heap : Heap} {address : Address} {object : HeapObject}
    (found : heap.get? address = some object) :
    ∃ index, address = addressOf index ∧ index < heap.size ∧
      (heap.entries[index]?).map (·.object) = some object := by
  simp only [get?, entry?, Option.map_eq_some_iff, Option.bind_eq_some_iff] at found
  obtain ⟨entry, ⟨index, indexed, present⟩, rfl⟩ := found
  refine ⟨index, index?_eq_some.mp indexed, ?_, by simp [present]⟩
  exact (Array.getElem?_eq_some_iff.mp present).1

theorem lt_nextAddress_of_get? {heap : Heap} {address : Address} {object : HeapObject}
    (found : heap.get? address = some object) :
    heapStart ≤ address ∧ address < heap.nextAddress := by
  obtain ⟨index, rfl, bound, -⟩ := exists_index_of_get? found
  simp only [nextAddress, addressOf, slotSize, Address]
  omega

theorem get?_eq_none_of_lt {heap : Heap} {address : Address} (below : address < heapStart) :
    heap.get? address = none := by
  cases found : heap.get? address with
  | none => rfl
  | some object =>
      have bounds := lt_nextAddress_of_get? found
      exact absurd bounds.1 (Nat.not_le.mpr below)

theorem get?_nextAddress (heap : Heap) : heap.get? heap.nextAddress = none := by
  simp [nextAddress, get?_addressOf, size]

theorem ne_nextAddress {heap : Heap} {address : Address} {object : HeapObject}
    (found : heap.get? address = some object) : address ≠ heap.nextAddress := by
  rintro rfl
  rw [get?_nextAddress] at found
  cases found

theorem entry?_nextAddress (heap : Heap) : heap.entry? heap.nextAddress = none :=
  Option.map_eq_none_iff.mp heap.get?_nextAddress

theorem entry?_addressOf (heap : Heap) (index : Nat) :
    heap.entry? (addressOf index) = heap.entries[index]? := by
  rw [ entry?, index?_addressOf, Option.bind_some]

/-- An address that is none of an object has no entry. -/
theorem entry?_eq_none {heap : Heap} {address : Address} (outside : index? address = none) :
    heap.entry? address = none := by
  rw [ entry?, outside, Option.bind_none]

theorem entry?_push (heap : Heap) (object : HeapObject) (address : Address) :
    Heap.entry? (heap.push object) address =
      if address = heap.nextAddress then some ⟨object, .live⟩ else heap.entry? address := by
  cases indexed : index? address with
  | none =>
      have fresh : address ≠ heap.nextAddress := by
        rintro rfl
        simp [nextAddress] at indexed
      rw [entry?_eq_none indexed, entry?_eq_none indexed, if_neg fresh]
  | some index =>
      obtain rfl := index?_eq_some.mp indexed
      rw [entry?_addressOf, entry?_addressOf]
      by_cases last : index = heap.size
      · simp [push, nextAddress, size, last]
      · have fresh : addressOf index ≠ heap.nextAddress := fun same =>
          last (addressOf_injective same)
        have other : index ≠ heap.entries.size := last
        simp [push, fresh, Array.getElem?_push, other]

theorem get?_push (heap : Heap) (object : HeapObject) (address : Address) :
    (heap.push object).get? address =
      if address = heap.nextAddress then some object else heap.get? address := by
  rw [get?, entry?_push]
  split <;> rfl

/-- An object that is there stays when another one comes. -/
theorem get?_push_of_get? {heap : Heap} {address : Address} {object : HeapObject}
    (found : heap.get? address = some object) (new : HeapObject) :
    (heap.push new).get? address = some object := by
  rw [get?_push, if_neg (ne_nextAddress found), found]

theorem nextAddress_push (heap : Heap) (object : HeapObject) :
    (heap.push object).nextAddress = heap.nextAddress + slotSize := by
  simp only [nextAddress, addressOf, size, push, Array.size_push, Nat.mul_succ, Nat.add_assoc]

theorem entry?_set (heap : Heap) (address : Address) (object : HeapObject) (other : Address) :
    Heap.entry? (heap.set address object) other =
      if other = address then (heap.entry? other).map fun entry => { entry with object }
      else heap.entry? other := by
  cases indexed : index? address with
  | none =>
      have kept : heap.set address object = heap := by simp only [set, indexed]
      rw [kept]
      split
      next same => rw [same, entry?_eq_none indexed, Option.map_none]
      next => rfl
  | some index =>
      obtain rfl := index?_eq_some.mp indexed
      cases placed : index? other with
      | none => rw [entry?_eq_none placed, entry?_eq_none placed, Option.map_none, ite_self]
      | some place =>
          obtain rfl := index?_eq_some.mp placed
          simp only [entry?_addressOf, set, index?_addressOf, Array.getElem?_modify]
          by_cases same : place = index
          · rw [same, if_pos rfl, if_pos rfl]
          · rw [if_neg (Ne.symm same), if_neg fun equal => same (addressOf_injective equal)]

theorem get?_set {heap : Heap} {address : Address} {old : HeapObject} (new : HeapObject)
    (other : Address) (found : heap.get? address = some old) :
    (heap.set address new).get? other =
      if other = address then some new else heap.get? other := by
  obtain ⟨entry, present, -⟩ := Option.map_eq_some_iff.mp found
  rw [get?, entry?_set]
  split
  next same => rw [same, present]; rfl
  next => rfl

/-- A replacement keeps the states. -/
theorem state?_set (heap : Heap) (address : Address) (object : HeapObject) (other : Address) :
    (heap.set address object).state? other = heap.state? other := by
  rw [state?, state?, entry?_set]
  split
  next => rw [Option.map_map]; rfl
  next => rfl

@[simp]
theorem size_set (heap : Heap) (address : Address) (object : HeapObject) :
    (heap.set address object).size = heap.size := by
  unfold set
  split <;> simp [size]

@[simp]
theorem nextAddress_set (heap : Heap) (address : Address) (object : HeapObject) :
    (heap.set address object).nextAddress = heap.nextAddress := by
  rw [nextAddress, nextAddress, size_set]

@[simp]
theorem get?_markUnreachable (heap : Heap) (reachable : List Address) (address : Address) :
    (heap.markUnreachable reachable).get? address = heap.get? address := by
  simp only [get?, entry?, markUnreachable]
  cases index? address with
  | none => rfl
  | some index =>
      simp only [Option.bind_some, Array.getElem?_mapIdx, Option.map_map]
      cases heap.entries[index]? with
      | none => rfl
      | some entry =>
          simp only [Option.map_some, Function.comp_apply]
          split <;> rfl

@[simp]
theorem nextAddress_markUnreachable (heap : Heap) (reachable : List Address) :
    (heap.markUnreachable reachable).nextAddress = heap.nextAddress := by
  simp [nextAddress, size, markUnreachable]

end Heap

end ReferenceSemantics
