import ReferenceSemantics.Storage.Block
import ReferenceSemantics.Storage.Table

set_option autoImplicit false

/-!
What it takes for an operation on storage to succeed, and what it gives.
-/

namespace ReferenceSemantics

theorem Except.ok_bind {ε α β : Type} (value : α) (next : α → Except ε β) :
    Except.ok value >>= next = next value := rfl

theorem Except.bind_eq_ok {ε α β : Type} {first : Except ε α} {next : α → Except ε β} {result : β} :
    first >>= next = .ok result ↔ ∃ value, first = .ok value ∧ next value = .ok result := by
  cases first <;> simp [bind, Except.bind]

namespace Storage

variable {storage changed : Storage} {ref : SlotRef} {value header key : Value}

theorem load_eq_ok :
    storage.load ref = .ok value ↔
      ∃ slot, storage.slot ref.address = .ok slot ∧ slot.value.atPath? ref.path = some value := by
  rw [load, Except.bind_eq_ok]
  refine exists_congr fun slot => and_congr_right fun _ => ?_
  cases slot.value.atPath? ref.path <;>
    simp [pure, Except.pure, throw, throwThe, MonadExceptOf.throw]

theorem store_eq_ok :
    storage.store ref value = .ok changed ↔
      ∃ slot whole, storage.slot ref.address = .ok slot ∧
        slot.value.setAtPath? ref.path value = some whole ∧
        changed = storage.setSlot ref.address { slot with value := whole } := by
  rw [store, Except.bind_eq_ok]
  refine exists_congr fun slot => ?_
  rw [exists_and_left]
  refine and_congr_right fun _ => ?_
  cases slot.value.setAtPath? ref.path value <;>
    simp [pure, Except.pure, throw, throwThe, MonadExceptOf.throw, eq_comm]

theorem dereference_eq_ok :
    storage.dereference value = .ok ref ↔
      value = .pointer (some ref) ∧ ∃ slot, storage.slot ref.address = .ok slot := by
  cases value with
  | pointer target =>
      cases target with
      | none => simp [dereference]
      | some target =>
          simp only [dereference, Except.bind_eq_ok, pure, Except.pure, Except.ok.injEq,
            Value.pointer.injEq, Option.some.injEq]
          refine ⟨?_, ?_⟩
          · rintro ⟨slot, read, rfl⟩
            exact ⟨rfl, slot, read⟩
          · rintro ⟨rfl, slot, read⟩
            exact ⟨slot, read, rfl⟩
  | primitive _ => simp [dereference]
  | composite _ _ => simp [dereference]
  | referenceHeader _ _ _ _ => simp [dereference]
  | keyValueHeader _ => simp [dereference]
  | interfaceBox _ _ => simp [dereference]

theorem cellIndex_eq_ok {index : Int} {address : Address} {cell : Nat} :
    cellIndex header index = .ok (address, cell) ↔
      ∃ len cap offset, header = .referenceHeader len cap offset (some address) ∧
        0 ≤ index ∧ index < len ∧ cell = offset + index.toNat := by
  cases header with
  | referenceHeader len cap offset block =>
      cases block with
      | none => simp [cellIndex]
      | some block =>
          by_cases inside : 0 ≤ index ∧ index < len
          · rw [cellIndex, if_pos inside]
            simp only [Except.ok.injEq, Prod.mk.injEq, Value.referenceHeader.injEq,
              Option.some.injEq]
            refine ⟨?_, ?_⟩
            · rintro ⟨rfl, rfl⟩
              exact ⟨len, cap, offset, ⟨rfl, rfl, rfl, rfl⟩, inside.1, inside.2, rfl⟩
            · rintro ⟨_, _, _, ⟨rfl, rfl, rfl, rfl⟩, -, -, rfl⟩
              exact ⟨rfl, rfl⟩
          · simp only [cellIndex, inside, if_false, reduceCtorEq, false_iff]
            rintro ⟨_, _, _, same, low, high, -⟩
            cases same
            exact inside ⟨low, high⟩
  | primitive _ => simp [cellIndex]
  | composite _ _ => simp [cellIndex]
  | keyValueHeader _ => simp [cellIndex]
  | pointer _ => simp [cellIndex]
  | interfaceBox _ _ => simp [cellIndex]

theorem element_eq_ok {index : Int} :
    storage.element header index = .ok value ↔
      ∃ address cell block, cellIndex header index = .ok (address, cell) ∧
        storage.block address = .ok block ∧ block.cells[cell]? = some value := by
  rw [element, Except.bind_eq_ok, Prod.exists]
  refine exists_congr fun address => exists_congr fun cell => ?_
  rw [exists_and_left]
  refine and_congr_right fun _ => ?_
  rw [Except.bind_eq_ok]
  refine exists_congr fun block => and_congr_right fun _ => ?_
  cases block.cells[cell]? <;> simp [pure, Except.pure, throw, throwThe, MonadExceptOf.throw]

theorem setElement_eq_ok {index : Int} :
    storage.setElement header index value = .ok changed ↔
      ∃ address cell block, cellIndex header index = .ok (address, cell) ∧
        storage.block address = .ok block ∧ cell < block.cells.length ∧
        changed = { storage with
          heap := storage.heap.set address
            (.block { block with cells := block.cells.set cell value }) } := by
  rw [setElement, Except.bind_eq_ok, Prod.exists]
  refine exists_congr fun address => exists_congr fun cell => ?_
  rw [exists_and_left]
  refine and_congr_right fun _ => ?_
  rw [Except.bind_eq_ok]
  refine exists_congr fun block => and_congr_right fun _ => ?_
  by_cases inside : cell < block.cells.length
  · simp [inside, pure, Except.pure, eq_comm]
  · simp [inside, throw, throwThe, MonadExceptOf.throw]

/-- A window of a slice is a header over its block. -/
theorem header_of_reslice {low high : Nat} (cut : reslice header low high = .ok value) :
    ∃ len cap offset block, value = .referenceHeader len cap offset block := by
  unfold reslice at cut
  split at cut
  next cap offset block =>
    split at cut <;> cases cut
    exact ⟨_, _, _, _, rfl⟩
  next => cases cut

theorem tableOf_eq_some {address : Address} {table : Table} :
    storage.tableOf header = .ok (some (address, table)) ↔
      header = .keyValueHeader (some address) ∧ storage.table address = .ok table := by
  cases header with
  | keyValueHeader target =>
      cases target with
      | none => simp [tableOf]
      | some target =>
          simp only [tableOf, Except.bind_eq_ok, pure, Except.pure, Except.ok.injEq,
            Option.some.injEq, Prod.mk.injEq, Value.keyValueHeader.injEq]
          refine ⟨?_, ?_⟩
          · rintro ⟨_, read, rfl, rfl⟩
            exact ⟨rfl, read⟩
          · rintro ⟨rfl, read⟩
            exact ⟨table, read, rfl, rfl⟩
  | primitive _ => simp [tableOf]
  | composite _ _ => simp [tableOf]
  | referenceHeader _ _ _ _ => simp [tableOf]
  | pointer _ => simp [tableOf]
  | interfaceBox _ _ => simp [tableOf]

theorem tableGet_eq_some :
    storage.tableGet header key = .ok (some value) ↔
      ∃ address table, header = .keyValueHeader (some address) ∧
        storage.table address = .ok table ∧ table.get? key = some value := by
  rw [tableGet, Except.bind_eq_ok]
  refine ⟨?_, ?_⟩
  · rintro ⟨found, opened, got⟩
    cases found with
    | none => cases got
    | some entry =>
        obtain ⟨shape, read⟩ := tableOf_eq_some.mp opened
        exact ⟨entry.1, entry.2, shape, read, Except.ok.inj got⟩
  · rintro ⟨address, table, shape, read, got⟩
    exact ⟨some (address, table), tableOf_eq_some.mpr ⟨shape, read⟩, congrArg Except.ok got⟩

theorem tableInsert_eq_ok :
    storage.tableInsert header key value = .ok changed ↔
      ∃ address table, header = .keyValueHeader (some address) ∧
        storage.table address = .ok table ∧
        changed = { storage with
          heap := storage.heap.set address (.table (table.insert key value)) } := by
  rw [tableInsert, Except.bind_eq_ok]
  refine ⟨?_, ?_⟩
  · rintro ⟨found, opened, result⟩
    cases found with
    | none => cases result
    | some entry =>
        obtain ⟨shape, read⟩ := tableOf_eq_some.mp opened
        exact ⟨entry.1, entry.2, shape, read, (Except.ok.inj result).symm⟩
  · rintro ⟨address, table, shape, read, rfl⟩
    exact ⟨some (address, table), tableOf_eq_some.mpr ⟨shape, read⟩, rfl⟩

/-- The ways to append: nothing, in place, past the capacity, and to a header without a block. -/
inductive Appends (storage : Storage) : Value → List Value → Value → Storage → Prop where
  | nothing (len cap offset : Nat) (block : Option Address) :
      Appends storage (.referenceHeader len cap offset block) []
        (.referenceHeader len cap offset block) storage
  | inPlace (len cap offset : Nat) (address : Address) (block : Block) (values : List Value)
      (read : storage.block address = .ok block) (room : len + values.length ≤ cap) :
      Appends storage (.referenceHeader len cap offset (some address)) values
        (.referenceHeader (len + values.length) cap offset (some address))
        { storage with
          heap := storage.heap.set address
            (.block { block with cells := overwrite (offset + len) block.cells values }) }
  | grown (len cap offset : Nat) (address : Address) (block : Block) (values cells : List Value)
      (read : storage.block address = .ok block) (full : ¬ len + values.length ≤ cap)
      (filled : cells = padCells ((block.cells.drop offset).take len ++ values)
        (max (len + values.length) (cap * 2)) block.zero) :
      Appends storage (.referenceHeader len cap offset (some address)) values
        (storage.allocBlock cells (len + values.length) block.zero).1
        (storage.allocBlock cells (len + values.length) block.zero).2
  | first (len cap offset : Nat) (value : Value) (values cells : List Value)
      (filled : cells = padCells (value :: values)
        (max (len + (value :: values).length) (cap * 2)) value.zeroLike) :
      Appends storage (.referenceHeader len cap offset none) (value :: values)
        (storage.allocBlock cells (len + (value :: values).length) value.zeroLike).1
        (storage.allocBlock cells (len + (value :: values).length) value.zeroLike).2

theorem append_eq_ok {values : List Value} {grown : Value}
    (appended : storage.append header values = .ok (grown, changed)) :
    storage.Appends header values grown changed := by
  cases header with
  | referenceHeader len cap offset block =>
      cases values with
      | nil =>
          simp only [append, Except.ok.injEq, Prod.mk.injEq] at appended
          obtain ⟨rfl, rfl⟩ := appended
          exact .nothing len cap offset block
      | cons value values =>
          cases block with
          | none =>
              simp only [append, Except.ok.injEq] at appended
              obtain ⟨rfl, rfl⟩ := Prod.mk.inj appended
              exact .first len cap offset value values _ rfl
          | some address =>
              rw [append, Except.bind_eq_ok] at appended
              · obtain ⟨block, read, appended⟩ := appended
                by_cases room : len + (value :: values).length ≤ cap
                · simp only [if_pos room, pure, Except.pure, Except.ok.injEq,
                    Prod.mk.injEq] at appended
                  obtain ⟨rfl, rfl⟩ := appended
                  exact .inPlace len cap offset address block _ read room
                · simp only [if_neg room, pure, Except.pure, Except.ok.injEq] at appended
                  obtain ⟨rfl, rfl⟩ := Prod.mk.inj appended
                  exact .grown len cap offset address block _ _ read room rfl
              · simp
  | primitive _ => simp [append] at appended
  | composite _ _ => simp [append] at appended
  | keyValueHeader _ => simp [append] at appended
  | pointer _ => simp [append] at appended
  | interfaceBox _ _ => simp [append] at appended

theorem length_overwrite (start : Nat) (cells values : List Value) :
    (overwrite start cells values).length = cells.length := by
  induction values generalizing start cells with
  | nil => rfl
  | cons value values inductionHypothesis => simp [overwrite, inductionHypothesis]

end Storage

end ReferenceSemantics
