import ReferenceSemantics.Proofs.Run.Keeping
import ReferenceSemantics.Proofs.Storage.Growth
import ReferenceSemantics.Proofs.Storage.Lenses

set_option autoImplicit false

/-!
What fills the spare cells of blocks.

A block keeps what it is filled with, whatever is written into it, and hands it on to the blocks that
grow from it.
-/

namespace ReferenceSemantics

/-- What fills the spare cells of blocks that are grown from the object. -/
def HeapObject.fill? : HeapObject → Option Value
  | block content => some content.zero
  | _ => none

/-- Blocks that grow from the one at the address are filled with the value. -/
def Heap.FilledAt (address : Address) (fill : Value) (heap : Heap) : Prop :=
  (heap.get? address).bind HeapObject.fill? = some fill

namespace Heap.FilledAt

variable {heap : Heap} {address other : Address} {fill : Value}

theorem push (filled : heap.FilledAt address fill) (object : HeapObject) :
    (heap.push object).FilledAt address fill := by
  obtain ⟨old, found, -⟩ := Option.bind_eq_some_iff.mp filled
  rwa [FilledAt, get?_push_of_get? found, ← found]

/-- An object may come in the place of one that fills spare cells in the same way. -/
theorem set (filled : heap.FilledAt address fill) {old new : HeapObject}
    (found : heap.get? other = some old) (same : new.fill? = old.fill?) :
    (heap.set other new).FilledAt address fill := by
  rw [FilledAt, get?_set new address found]
  split
  next here =>
    rw [Option.bind_some, same]
    rw [FilledAt, here, found] at filled
    exact filled
  next => exact filled

theorem lasting (address : Address) (fill : Value) : Lasting (FilledAt address fill) :=
  ⟨fun object filled => filled.push object, fun _ found filled => filled.set found rfl⟩

end Heap.FilledAt

namespace Storage

variable {storage changed : Storage} {address next : Address} {fill : Value}

theorem filledAt_iff :
    storage.heap.FilledAt address fill ↔ ∃ cells, storage.block address = .ok ⟨cells, fill⟩ := by
  simp only [block_eq_ok_iff, Heap.FilledAt, Option.bind_eq_some_iff]
  constructor
  · rintro ⟨object, found, filled⟩
    cases object with
    | block content => exact ⟨content.cells, Option.some.inj filled ▸ found⟩
    | slot | table => cases filled
  · rintro ⟨cells, found⟩
    exact ⟨_, found, rfl⟩

/-- Writes go into cells, or into something else than the block. -/
theorem Step.filledAt (step : storage.Step changed)
    (filled : storage.heap.FilledAt address fill) : changed.heap.FilledAt address fill := by
  have lasting := Heap.FilledAt.lasting address fill
  cases step with
  | setSlot target slot new read =>
      rcases get?_setSlot read { slot with value := new } address with same | ⟨-, isSlot, -⟩
      · rwa [Heap.FilledAt, same]
      · rw [Heap.FilledAt, isSlot] at filled
        cases filled
  | setBlock target content cells read => exact filled.set (block_eq_ok_iff.mp read) rfl
  | setTable target table new read => exact filled.set (table_eq_ok_iff.mp read) rfl
  | addBlock | addTable => exact filled.push _
  | allocate name kind site placement new =>
      exact lasting.gets (storage.gets_allocate name kind site placement new) filled
  | declare name kind site placement new =>
      exact lasting.declare name kind site placement new filled
  | pushFrame => exact filled
  | popFrame => exact (heap_popFrame storage).1 ▸ filled
  | sweep =>
      rw [Heap.FilledAt, Storage.sweep, Heap.get?_markUnreachable]
      exact filled

/-- What an append gives is the block itself, or it is filled in the same way. -/
theorem filledAt_append {len cap offset : Nat} {values : List Value} {header : Value}
    (filled : storage.heap.FilledAt address fill)
    (appended : storage.append (.referenceHeader len cap offset (some address)) values =
      .ok (header, changed))
    (behind : header.behind? = some next) : changed.heap.FilledAt next fill := by
  cases append_eq_ok appended with
  | nothing =>
      obtain rfl : address = next := Option.some.inj behind
      exact filled
  | inPlace _ _ _ _ content _ read room =>
      obtain rfl : address = next := Option.some.inj behind
      exact filled.set (block_eq_ok_iff.mp read) rfl
  | grown _ _ _ _ content _ cells read full =>
      obtain rfl : storage.heap.nextAddress = next := Option.some.inj behind
      obtain ⟨old, opened⟩ := filledAt_iff.mp filled
      obtain rfl := Except.ok.inj (read.symm.trans opened)
      exact filledAt_iff.mpr ⟨cells, block_heapPush storage _⟩

end Storage

end ReferenceSemantics
