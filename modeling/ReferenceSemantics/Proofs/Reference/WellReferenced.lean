import Mathlib.Data.List.Forall2
import ReferenceSemantics.Proofs.Storage.Allocation
import ReferenceSemantics.Proofs.Value.Linked

set_option autoImplicit false

/-!
Values whose references fit a storage.

A header without a block is zero; one with a block is a window into it that ends where the block
ends. A pointer holds an address that was handed out for a slot, which may be gone. Storage is sound
when every value in it is of this kind, and every operation on sound storage keeps it so.
-/

namespace ReferenceSemantics

namespace Storage

/-- An address that was handed out for a slot: on the stack, live or gone, or in the heap. -/
def SlotAddress (storage : Storage) (address : Address) : Prop :=
  storage.StackAddress address ∨ ∃ slot, storage.heap.get? address = some (.slot slot)

mutual

/-- The references of a value, at every depth, fit the storage. -/
def WellReferenced (storage : Storage) : Value → Prop
  | .primitive _ => True
  | .composite _ fields => storage.FieldsWellReferenced fields
  | .referenceHeader len cap offset none => len = 0 ∧ cap = 0 ∧ offset = 0
  | .referenceHeader len cap offset (some address) =>
      ∃ block, storage.block address = .ok block ∧ len ≤ cap ∧
        offset + cap = block.cells.length
  | .keyValueHeader none => True
  | .keyValueHeader (some address) => ∃ table, storage.table address = .ok table
  | .pointer none => True
  | .pointer (some target) => storage.SlotAddress target.address
  | .interfaceBox _ value => storage.WellReferenced value

def FieldsWellReferenced (storage : Storage) : List (String × Value) → Prop
  | [] => True
  | (_, value) :: fields => storage.WellReferenced value ∧ storage.FieldsWellReferenced fields

end

/-- Every admitted address stands for itself, as far as it designates what references to it need. -/
def validLinks (storage : Storage) (admitted : Address → Prop) : Links where
  slot address address' := address = address' ∧ admitted address ∧ storage.SlotAddress address
  block address address' cells := address = address' ∧ admitted address ∧
    ∃ block, storage.heap.get? address = some (.block block) ∧ block.cells.length = cells
  table address address' := address = address' ∧ admitted address ∧
    ∃ table, storage.heap.get? address = some (.table table)

theorem validLinks_diagonal (storage : Storage) (admitted : Address → Prop) :
    (storage.validLinks admitted).Diagonal :=
  ⟨(·.1), (·.1), (·.1)⟩

variable {storage : Storage} {admitted : Address → Prop}

mutual

/-- A well referenced value that holds admitted addresses only stands for itself. -/
theorem WellReferenced.linked :
    ∀ {value : Value}, storage.WellReferenced value →
      (∀ address ∈ value.references, admitted address) →
        Value.Linked (storage.validLinks admitted) value value
  | .primitive value, _, _ => .primitive value
  | .composite typeName _, valid, within => by
      rw [WellReferenced] at valid
      rw [Value.references] at within
      exact .composite typeName (valid.linked within)
  | .referenceHeader _ _ _ none, valid, _ => by
      rw [WellReferenced] at valid
      obtain ⟨rfl, rfl, rfl⟩ := valid
      exact .nilReference
  | .referenceHeader _ _ _ (some address), valid, within => by
      rw [WellReferenced] at valid
      obtain ⟨block, read, inside, ends⟩ := valid
      have known := within address (by simp [Value.references])
      exact .reference inside ⟨rfl, known, block, block_eq_ok_iff.mp read, ends.symm⟩
  | .keyValueHeader none, _, _ => .nilKeyValue
  | .keyValueHeader (some address), valid, within => by
      rw [WellReferenced] at valid
      obtain ⟨table, read⟩ := valid
      have known := within address (by simp [Value.references])
      exact .keyValue ⟨rfl, known, table, table_eq_ok_iff.mp read⟩
  | .pointer none, _, _ => .nilPointer
  | .pointer (some ⟨address, path⟩), valid, within => by
      rw [WellReferenced] at valid
      exact .pointer path ⟨rfl, within address (by simp [Value.references]), valid⟩
  | .interfaceBox typeTag _, valid, within => by
      rw [WellReferenced] at valid
      rw [Value.references] at within
      exact .interfaceBox typeTag (valid.linked within)

theorem FieldsWellReferenced.linked :
    ∀ {fields : List (String × Value)}, storage.FieldsWellReferenced fields →
      (∀ address ∈ Value.referencesOfFields fields, admitted address) →
        Value.FieldsLinked (storage.validLinks admitted) fields fields
  | [], _, _ => .nil
  | (name, _) :: _, valid, within => by
      rw [FieldsWellReferenced] at valid
      rw [Value.referencesOfFields] at within
      exact .cons name
        (valid.1.linked fun address member => within address (List.mem_append_left _ member))
        (valid.2.linked fun address member => within address (List.mem_append_right _ member))

end

mutual

theorem wellReferenced_of_linked {value value' : Value} :
    Value.Linked (storage.validLinks admitted) value value' → storage.WellReferenced value
  | .primitive _ | .nilKeyValue | .nilPointer => by
      rw [WellReferenced]
      trivial
  | .composite _ linked => by
      rw [WellReferenced]
      exact fieldsWellReferenced_of_linked linked
  | .nilReference => by
      rw [WellReferenced]
      exact ⟨rfl, rfl, rfl⟩
  | .reference inside linked => by
      obtain ⟨-, -, block, present, size⟩ := linked
      rw [WellReferenced]
      exact ⟨block, block_eq_ok_iff.mpr present, inside, size.symm⟩
  | .keyValue linked => by
      obtain ⟨-, -, table, present⟩ := linked
      rw [WellReferenced]
      exact ⟨table, table_eq_ok_iff.mpr present⟩
  | .pointer _ linked => by
      rw [WellReferenced]
      exact linked.2.2
  | .interfaceBox _ linked => by
      rw [WellReferenced]
      exact wellReferenced_of_linked linked

theorem fieldsWellReferenced_of_linked {fields fields' : List (String × Value)} :
    Value.FieldsLinked (storage.validLinks admitted) fields fields' →
      storage.FieldsWellReferenced fields
  | .nil => by
      rw [FieldsWellReferenced]
      trivial
  | .cons _ first rest => by
      rw [FieldsWellReferenced]
      exact ⟨wellReferenced_of_linked first, fieldsWellReferenced_of_linked rest⟩

end

mutual

/-- What stands for itself holds admitted addresses only. -/
theorem admitted_of_linked {value value' : Value} {address : Address} :
    Value.Linked (storage.validLinks admitted) value value' → address ∈ value.references →
      admitted address
  | .primitive _, member | .nilReference, member | .nilKeyValue, member | .nilPointer, member => by
      simp [Value.references] at member
  | .composite _ linked, member => by
      rw [Value.references] at member
      exact admitted_of_fieldsLinked linked member
  | .reference _ linked, member => by
      obtain rfl : address = _ := by simpa [Value.references] using member
      exact linked.2.1
  | .keyValue linked, member => by
      obtain rfl : address = _ := by simpa [Value.references] using member
      exact linked.2.1
  | .pointer _ linked, member => by
      obtain rfl : address = _ := by simpa [Value.references] using member
      exact linked.2.1
  | .interfaceBox _ linked, member => by
      rw [Value.references] at member
      exact admitted_of_linked linked member

theorem admitted_of_fieldsLinked {fields fields' : List (String × Value)} {address : Address} :
    Value.FieldsLinked (storage.validLinks admitted) fields fields' →
      address ∈ Value.referencesOfFields fields → admitted address
  | .nil, member => by simp [Value.referencesOfFields] at member
  | .cons _ first rest, member => by
      rw [Value.referencesOfFields] at member
      rcases List.mem_append.mp member with here | later
      · exact admitted_of_linked first here
      · exact admitted_of_fieldsLinked rest later

end

/-- What a value may be when it holds admitted addresses only. -/
def Admits (storage : Storage) (admitted : Address → Prop) (value : Value) : Prop :=
  storage.WellReferenced value ∧ ∀ address ∈ value.references, admitted address

theorem linked_iff {value value' : Value} :
    Value.Linked (storage.validLinks admitted) value value' ↔
      value = value' ∧ storage.Admits admitted value := by
  refine ⟨fun linked => ?_, ?_⟩
  · have same := linked.eq_of_diagonal (storage.validLinks_diagonal admitted)
    exact ⟨same, wellReferenced_of_linked linked, fun _ => admitted_of_linked linked⟩
  · rintro ⟨rfl, valid, within⟩
    exact valid.linked within

theorem forall₂_linked_iff {values values' : List Value} :
    List.Forall₂ (Value.Linked (storage.validLinks admitted)) values values' ↔
      values = values' ∧ ∀ value ∈ values, storage.Admits admitted value := by
  induction values generalizing values' with
  | nil => simp [eq_comm]
  | cons value values inductionHypothesis =>
      rw [List.forall₂_cons_left_iff]
      refine ⟨?_, ?_⟩
      · rintro ⟨other, others, linked, rest, rfl⟩
        obtain ⟨rfl, valid⟩ := linked_iff.mp linked
        obtain ⟨rfl, allValid⟩ := inductionHypothesis.mp rest
        exact ⟨rfl, List.forall_mem_cons.mpr ⟨valid, allValid⟩⟩
      · rintro ⟨rfl, valid⟩
        obtain ⟨first, rest⟩ := List.forall_mem_cons.mp valid
        exact ⟨value, values, linked_iff.mpr ⟨rfl, first⟩, inductionHypothesis.mpr ⟨rfl, rest⟩, rfl⟩

end Storage

end ReferenceSemantics
