import ReferenceSemantics.Proofs.Storage.Growth
import ReferenceSemantics.Proofs.Storage.Tables

set_option autoImplicit false

/-!
Containers that hold only boxes.

Only boxes are read from such a container, and it stays one as long as only boxes are written into
it. A block that is grown from it with boxes is one as well.
-/

namespace ReferenceSemantics

/-- All cells are boxes, and so is what fills the spare ones. -/
structure Block.Boxed (block : Block) : Prop where
  fill : block.zero.kind = .interfaceBox
  cells : ∀ value ∈ block.cells, value.kind = .interfaceBox

/-- There are values, and all of them are boxes. -/
structure Table.Boxed (table : Table) : Prop where
  notEmpty : table.entries ≠ []
  values : ∀ entry ∈ table.entries, entry.2.kind = .interfaceBox

inductive HeapObject.Boxed : HeapObject → Prop where
  | block {content : Block} (boxed : content.Boxed) : Boxed (.block content)
  | table {content : Table} (boxed : content.Boxed) : Boxed (.table content)

/-- There is a container of boxes at the address. -/
def Heap.BoxedAt (address : Address) (heap : Heap) : Prop :=
  ∃ object, heap.get? address = some object ∧ object.Boxed

namespace Table

variable {key value : Value}

theorem insertIn_ne_nil (key value : Value) (entries : List (Value × Value)) :
    insertIn key value entries ≠ [] := by
  cases entries with
  | nil => exact List.cons_ne_nil _ _
  | cons entry rest =>
      rw [insertIn]
      split <;> exact List.cons_ne_nil _ _

/-- The values after an insertion are those from before and the new one. -/
theorem forall_insertIn (holds : Value → Prop) (new : holds value)
    {entries : List (Value × Value)} (old : ∀ entry ∈ entries, holds entry.2) :
    ∀ entry ∈ insertIn key value entries, holds entry.2 := by
  induction entries with
  | nil => exact List.forall_mem_singleton.mpr new
  | cons entry rest inductionHypothesis =>
      obtain ⟨here, later⟩ := List.forall_mem_cons.mp old
      rw [insertIn]
      split
      · exact List.forall_mem_cons.mpr ⟨new, later⟩
      · exact List.forall_mem_cons.mpr ⟨here, inductionHypothesis later⟩

end Table

namespace Heap.BoxedAt

variable {heap : Heap} {address other : Address}

theorem push (boxed : heap.BoxedAt address) (object : HeapObject) :
    (heap.push object).BoxedAt address := by
  obtain ⟨container, found, boxes⟩ := boxed
  exact ⟨container, get?_push_of_get? found object, boxes⟩

/-- Another object may come in the place of one, but a container of boxes for the container. -/
theorem set (boxed : heap.BoxedAt address) {old new : HeapObject}
    (found : heap.get? other = some old) (boxes : address = other → old.Boxed → new.Boxed) :
    (heap.set other new).BoxedAt address := by
  obtain ⟨container, there, before⟩ := boxed
  have after := get?_set new address found
  by_cases same : address = other
  · subst same
    obtain rfl := Option.some.inj (found.symm.trans there)
    exact ⟨new, after.trans (if_pos rfl), boxes rfl before⟩
  · exact ⟨container, after.trans ((if_neg same).trans there), before⟩

end Heap.BoxedAt

namespace Storage

variable {storage changed : Storage} {address : Address} {header key value grown : Value}

theorem boxedAt_sweep (boxed : storage.heap.BoxedAt address) :
    storage.sweep.2.heap.BoxedAt address := by
  obtain ⟨container, found, boxes⟩ := boxed
  exact ⟨container, (Heap.get?_markUnreachable _ _ _).trans found, boxes⟩

/-! ### What is read -/

/-- The elements are boxes. -/
theorem kind_element (boxed : storage.heap.BoxedAt address) (behind : header.behind? = some address)
    {index : Int} (read : storage.element header index = .ok value) :
    value.kind = .interfaceBox := by
  obtain ⟨other, cell, block, located, opened, found⟩ := element_eq_ok.mp read
  obtain ⟨len, cap, offset, rfl, -, -, -⟩ := cellIndex_eq_ok.mp located
  obtain rfl : other = address := Option.some.inj behind
  obtain ⟨container, there, boxes⟩ := boxed
  obtain rfl := Option.some.inj (there.symm.trans (block_eq_ok_iff.mp opened))
  cases boxes with
  | block boxed => exact boxed.cells value (List.mem_of_getElem? found)

/-- New values are evaluated for boxes. -/
theorem tableValueKind_eq_some (boxed : storage.heap.BoxedAt address)
    (behind : header.behind? = some address) {kind : Option Kind}
    (read : storage.tableValueKind header key = .ok kind) : kind = some .interfaceBox := by
  rw [tableValueKind, Except.bind_eq_ok] at read
  obtain ⟨found, opened, read⟩ := read
  obtain rfl := Except.ok.inj read
  cases found with
  | none =>
      exfalso
      cases header with
      | keyValueHeader target =>
          obtain rfl : target = some address := behind
          rw [tableOf, Except.bind_eq_ok] at opened
          obtain ⟨table, -, opened⟩ := opened
          cases opened
      | _ => cases opened
  | some pair =>
      obtain ⟨other, table⟩ := pair
      obtain ⟨rfl, there⟩ := tableOf_eq_some.mp opened
      obtain rfl : other = address := Option.some.inj behind
      obtain ⟨container, present, boxes⟩ := boxed
      obtain rfl := Option.some.inj (present.symm.trans (table_eq_ok_iff.mp there))
      cases boxes with
      | table boxed =>
          obtain ⟨entry, rest, listed⟩ := List.exists_cons_of_ne_nil boxed.notEmpty
          show Option.map Value.kind ((table.get? key).or _) = _
          cases got : table.get? key with
          | none =>
              rw [listed]
              exact congrArg some (boxed.values entry (listed ▸ List.mem_cons_self ..))
          | some value =>
              obtain ⟨held, found, rfl⟩ := Option.map_eq_some_iff.mp got
              exact congrArg some (boxed.values held (List.mem_of_find?_eq_some found))

/-! ### What is written -/

theorem boxedAt_setElement {index : Int}
    (stored : storage.setElement header index value = .ok changed)
    (box : header.behind? = some address → value.kind = .interfaceBox)
    (boxed : storage.heap.BoxedAt address) : changed.heap.BoxedAt address := by
  obtain ⟨other, cell, block, located, opened, -, rfl⟩ := setElement_eq_ok.mp stored
  obtain ⟨len, cap, offset, rfl, -, -, -⟩ := cellIndex_eq_ok.mp located
  refine boxed.set (block_eq_ok_iff.mp opened) ?_
  rintro rfl ⟨fill, cells⟩
  refine .block ⟨fill, fun held member => ?_⟩
  rcases List.mem_or_eq_of_mem_set member with old | rfl
  · exact cells held old
  · exact box rfl

theorem boxedAt_tableInsert (stored : storage.tableInsert header key value = .ok changed)
    (box : header.behind? = some address → value.kind = .interfaceBox)
    (boxed : storage.heap.BoxedAt address) : changed.heap.BoxedAt address := by
  obtain ⟨other, table, rfl, opened, rfl⟩ := tableInsert_eq_ok.mp stored
  refine boxed.set (table_eq_ok_iff.mp opened) ?_
  rintro rfl (_ | ⟨-, values⟩)
  exact .table ⟨Table.insertIn_ne_nil key value table.entries,
    Table.forall_insertIn (·.kind = .interfaceBox) (box rfl) values⟩

/-! ### What is appended -/

/-- The block behind a header is filled up with the value. -/
theorem elementKind_eq_some {kind : Option Kind} (behind : header.behind? = some address)
    (read : storage.elementKind header = .ok kind) :
    ∃ block, storage.block address = .ok block ∧ kind = some block.zero.kind := by
  cases header with
  | referenceHeader len cap offset target =>
      obtain rfl : target = some address := behind
      rw [elementKind, Except.bind_eq_ok] at read
      obtain ⟨block, opened, read⟩ := read
      exact ⟨block, opened, (Except.ok.inj read).symm⟩
  | _ => cases read

theorem boxes_padCells {cells : List Value} {zero : Value} (capacity : Nat)
    (fill : zero.kind = .interfaceBox) (boxes : ∀ value ∈ cells, value.kind = .interfaceBox) :
    ∀ value ∈ padCells cells capacity zero, value.kind = .interfaceBox := by
  intro value member
  rcases mem_padCells member with old | rfl
  · exact boxes value old
  · exact fill

/-- What is written over boxes. -/
theorem boxes_overwrite {cells values : List Value} (start : Nat)
    (old : ∀ value ∈ cells, value.kind = .interfaceBox)
    (new : ∀ value ∈ values, value.kind = .interfaceBox) :
    ∀ value ∈ overwrite start cells values, value.kind = .interfaceBox := by
  intro value member
  rcases mem_overwrite member with before | written
  · exact old value before
  · exact new value written

variable {values : List Value}

theorem boxedAt_append (appended : storage.append header values = .ok (grown, changed))
    (box : header.behind? = some address → ∀ value ∈ values, value.kind = .interfaceBox)
    (boxed : storage.heap.BoxedAt address) : changed.heap.BoxedAt address := by
  cases append_eq_ok appended with
  | nothing => exact boxed
  | inPlace len cap offset other block values opened room =>
      refine boxed.set (block_eq_ok_iff.mp opened) ?_
      rintro rfl ⟨fill, cells⟩
      exact .block ⟨fill, boxes_overwrite _ cells (box rfl)⟩
  | grown => exact boxed.push _
  | first => exact boxed.push _

/-- Boxes are appended to a block of boxes, or they get a block of boxes of their own. -/
theorem boxed_grown {block : Block} (opened : storage.block address = .ok block)
    (boxed : block.Boxed) (behind : header.behind? = some address)
    (box : ∀ value ∈ values, value.kind = .interfaceBox)
    (appended : storage.append header values = .ok (grown, changed)) :
    ∃ other new, grown.behind? = some other ∧ changed.block other = .ok new ∧ new.Boxed := by
  obtain ⟨fill, cells⟩ := boxed
  cases append_eq_ok appended with
  | nothing => exact ⟨address, block, behind, opened, fill, cells⟩
  | inPlace len cap offset other content values opened' room =>
      obtain rfl : other = address := Option.some.inj behind
      obtain rfl := Except.ok.inj (opened'.symm.trans opened)
      exact ⟨other, _, rfl, (block_heapSet opened _ _).trans (if_pos rfl), fill,
        boxes_overwrite _ cells box⟩
  | grown len cap offset other content values _ opened' full filled =>
      obtain rfl : other = address := Option.some.inj behind
      obtain rfl := Except.ok.inj (opened'.symm.trans opened)
      refine ⟨storage.heap.nextAddress, _, rfl, block_heapPush storage _, fill, ?_⟩
      rw [filled]
      refine boxes_padCells _ fill fun held member => ?_
      rcases List.mem_append.mp member with seen | new
      · exact cells held (List.mem_of_mem_drop (List.mem_of_mem_take seen))
      · exact box held new
  | first => cases behind

/-! ### What is read back -/

theorem element_of_setElement {index : Int}
    (stored : storage.setElement header index value = .ok changed) :
    changed.element header index = .ok value := by
  obtain ⟨other, cell, block, located, opened, inside, rfl⟩ := setElement_eq_ok.mp stored
  exact element_eq_ok.mpr ⟨other, cell, _, located, (block_heapSet opened _ _).trans (if_pos rfl),
    List.getElem?_set_self inside⟩

theorem tableGet_of_tableInsert (stored : storage.tableInsert header key value = .ok changed)
    (number : key.hasNaN = false) : changed.tableGet header key = .ok (some value) := by
  obtain ⟨other, table, rfl, opened, rfl⟩ := tableInsert_eq_ok.mp stored
  refine tableGet_eq_some.mpr ⟨other, table.insert key value, rfl, ?_, ?_⟩
  · exact table_eq_ok_iff.mpr ((Heap.get?_set _ _ (table_eq_ok_iff.mp opened)).trans (if_pos rfl))
  · rw [Table.get?_insert, Value.same_self, number]
    rfl

/-- The header that an append gives shows the values behind the elements from before. -/
theorem shows_append {len cap offset : Nat}
    (valid : storage.ValidHeader len cap offset (some address)) (values : List Value) :
    ∃ grown changed seen,
      storage.append (.referenceHeader len cap offset (some address)) values =
          .ok (grown, changed) ∧
        seen.length = len ∧ changed.Shows grown (seen ++ values) := by
  cases valid with
  | @window _ _ _ _ block opened within ends =>
      have length := length_window within ends
      have shown := shows_window opened within ends
      by_cases empty : values = []
      · subst empty
        exact ⟨_, storage, _, append_nil storage, length, (List.append_nil _).symm ▸ shown⟩
      by_cases room : len + values.length ≤ cap
      · exact ⟨_, _, _, append_of_room empty opened room, length,
          (appended_inPlace empty opened ends room).1⟩
      · have fill : storage.fill? (some address) values = some block.zero := by
          rw [fill?, opened]
          rfl
        exact ⟨_, _, _, append_of_full empty opened room, length,
          (appended_allocBlock empty (.inr (Nat.lt_of_not_le room)) length shown fill).1⟩

end Storage

end ReferenceSemantics
