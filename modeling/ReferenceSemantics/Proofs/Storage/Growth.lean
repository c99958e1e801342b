import ReferenceSemantics.Proofs.Storage.Contents
import ReferenceSemantics.Proofs.Storage.Windows

set_option autoImplicit false

/-!
Appends, seen from the headers of a storage.

An append gives a header that shows the old elements and then the new ones. Where the window has
room for them, they are put into cells that every header of the block shares. Otherwise the result
lives in a block of its own, and what was there before stays as it is.
-/

namespace ReferenceSemantics

namespace Storage

/-- The elements that a header shows, from the first to the last. -/
structure Shows (storage : Storage) (header : Value) (elements : List Value) : Prop where
  length : storage.headerLen header = .ok elements.length
  element : ∀ index value, storage.element header index = .ok value ↔
    0 ≤ index ∧ elements[index.toNat]? = some value

/-- What fills the spare cells when values are appended: what filled them in the block before, or a
zero like the first value. -/
def fill? (storage : Storage) (block : Option Address) (values : List Value) : Option Value :=
  match block with
  | some address => (storage.block address).toOption.map (·.zero)
  | none => values.head?.map Value.zeroLike

/-- What becomes of a header and of storage when values are appended. -/
inductive Appended (storage : Storage) (len cap offset : Nat) (block : Option Address)
    (values : List Value) : (grown : Value) → (changed : Storage) → Prop where
  | nothing (isEmpty : values = []) :
      Appended storage len cap offset block values (.referenceHeader len cap offset block) storage
  /-- The values go into the spare cells of the window. -/
  | inPlace {address : Address} {content : Block} {cells : List Value} {changed : Storage}
      (notEmpty : values ≠ []) (designates : block = some address)
      (room : len + values.length ≤ cap)
      (before : storage.block address = .ok content)
      (after : changed.block address = .ok { content with cells })
      (written : ∀ place, cells[place]? =
        if offset + len ≤ place ∧ place < offset + len + values.length
        then values[place - (offset + len)]?
        else content.cells[place]?)
      (elsewhere : storage.DiffersAt changed address)
      (state : changed.heap.state? address = storage.heap.state? address)
      (heapEnd : changed.heap.nextAddress = storage.heap.nextAddress) :
      Appended storage len cap offset block values
        (.referenceHeader (len + values.length) cap offset block) changed
  /-- The elements and the values go into a new block. -/
  | moved {seen : List Value} {zero : Value} {changed : Storage} (notEmpty : values ≠ [])
      (full : block = none ∨ cap < len + values.length)
      (shown : storage.Shows (.referenceHeader len cap offset block) seen)
      (fill : storage.fill? block values = some zero)
      (fresh : storage.heap.entry? storage.heap.nextAddress = none)
      (after : changed.block storage.heap.nextAddress = .ok
        ⟨seen ++ values ++ List.replicate
          (max (len + values.length) (2 * cap) - (len + values.length)) zero, zero⟩)
      (elsewhere : storage.DiffersAt changed storage.heap.nextAddress)
      (others : ∀ {len' cap' offset' block'}, storage.ValidHeader len' cap' offset' block' →
        ∀ index, changed.element (.referenceHeader len' cap' offset' block') index =
          storage.element (.referenceHeader len' cap' offset' block') index) :
      Appended storage len cap offset block values
        (.referenceHeader (len + values.length) (max (len + values.length) (2 * cap)) 0
          (some storage.heap.nextAddress)) changed

variable {storage changed : Storage} {len cap offset : Nat} {block : Option Address}
  {address : Address} {content : Block}

/-! ### What headers show -/

theorem shows_of_cells {elements : List Value} (length : elements.length = len)
    (cells : ∀ place, place < len → storage.cell? block (offset + place) = elements[place]?) :
    storage.Shows (.referenceHeader len cap offset block) elements := by
  refine ⟨congrArg Except.ok length.symm, fun index value => ?_⟩
  rw [element_eq_ok_iff_cell, and_assoc]
  refine and_congr_right fun low => ?_
  by_cases inside : index < len
  · rw [cells index.toNat (by omega)]
    exact and_iff_right inside
  · rw [List.getElem?_eq_none (by omega)]
    exact ⟨fun both => absurd both.1 inside, nofun⟩

theorem length_window (within : len ≤ cap) (ends : offset + cap = content.cells.length) :
    ((content.cells.drop offset).take len).length = len := by
  rw [List.length_take, List.length_drop]
  omega

/-- The elements of a window are its first cells. -/
theorem shows_window (read : storage.block address = .ok content) (within : len ≤ cap)
    (ends : offset + cap = content.cells.length) :
    storage.Shows (.referenceHeader len cap offset (some address))
      ((content.cells.drop offset).take len) := by
  refine shows_of_cells (length_window within ends) fun place inside => ?_
  rw [cell?_of_block read, List.getElem?_take_of_lt inside, List.getElem?_drop]

theorem ValidHeader.exists_shows (valid : storage.ValidHeader len cap offset block) :
    ∃ elements, storage.Shows (.referenceHeader len cap offset block) elements := by
  cases valid with
  | empty => exact ⟨[], shows_of_cells rfl nofun⟩
  | window read within ends => exact ⟨_, shows_window read within ends⟩

/-- A header shows one list of elements. -/
theorem Shows.unique {header : Value} {elements elements' : List Value}
    (shown : storage.Shows header elements) (shown' : storage.Shows header elements') :
    elements = elements' := by
  refine List.ext_getElem? fun place => Option.ext fun value => ?_
  have here := (shown.element place value).symm.trans (shown'.element place value)
  simpa using here

/-- Headers over cells that are the same show the same. -/
theorem ValidHeader.element_congr (valid : storage.ValidHeader len cap offset block)
    (cells : ∀ place, changed.cell? block place = storage.cell? block place) (index : Int) :
    changed.element (.referenceHeader len cap offset block) index =
      storage.element (.referenceHeader len cap offset block) index := by
  by_cases inside : 0 ≤ index ∧ index < len
  · obtain ⟨value, found, read⟩ := valid.exists_element inside
    rw [read]
    exact element_eq_ok_iff_cell.mpr ⟨inside, (cells _).trans found⟩
  · rw [element_of_outside _ inside, element_of_outside _ inside]

/-! ### Blocks beside a new one -/

theorem block_heapPush (storage : Storage) (new : Block) :
    ({ storage with heap := storage.heap.push (.block new) } : Storage).block
      storage.heap.nextAddress = .ok new :=
  block_eq_ok_iff.mpr ((Heap.get?_push _ _ _).trans (if_pos rfl))

/-- A block that is still there has the cells that it had. -/
theorem DiffersAt.element (differs : storage.DiffersAt changed storage.heap.nextAddress)
    (valid : storage.ValidHeader len cap offset block) (index : Int) :
    changed.element (.referenceHeader len cap offset block) index =
      storage.element (.referenceHeader len cap offset block) index := by
  refine valid.element_congr (fun place => ?_) index
  cases valid with
  | empty => rfl
  | @window _ _ _ address content read within ends =>
      have other := Heap.ne_nextAddress (block_eq_ok_iff.mp read)
      have kept : changed.block address = storage.block address := by
        rw [Storage.block, Storage.block, Heap.get?, Heap.get?, differs.entries address other]
      rw [cell?, cell?, Option.bind_some, Option.bind_some, kept]

/-! ### The ways to append -/

theorem append_nil (storage : Storage) :
    storage.append (.referenceHeader len cap offset block) [] =
      .ok (.referenceHeader len cap offset block, storage) := by
  cases block <;> rfl

theorem append_of_room {values : List Value} (notEmpty : values ≠ [])
    (read : storage.block address = .ok content) (room : len + values.length ≤ cap) :
    storage.append (.referenceHeader len cap offset (some address)) values =
      .ok (.referenceHeader (len + values.length) cap offset (some address),
        { storage with
          heap := storage.heap.set address
            (.block { content with
              cells := overwrite (offset + len) content.cells values }) }) := by
  rw [append, read, Except.ok_bind]
  · exact if_pos room
  · exact notEmpty

theorem append_of_full {values : List Value} (notEmpty : values ≠ [])
    (read : storage.block address = .ok content) (full : ¬ len + values.length ≤ cap) :
    storage.append (.referenceHeader len cap offset (some address)) values =
      .ok (storage.allocBlock
        (padCells ((content.cells.drop offset).take len ++ values)
          (max (len + values.length) (cap * 2)) content.zero)
        (len + values.length) content.zero) := by
  rw [append, read, Except.ok_bind]
  · exact if_neg full
  · exact notEmpty

/-- A new block that shows the elements and the values, with spare cells behind them. -/
theorem appended_allocBlock {seen values : List Value} {zero : Value} (notEmpty : values ≠ [])
    (full : block = none ∨ cap < len + values.length) (length : seen.length = len)
    (shown : storage.Shows (.referenceHeader len cap offset block) seen)
    (fill : storage.fill? block values = some zero) :
    let allocated := storage.allocBlock
      (padCells (seen ++ values) (max (len + values.length) (cap * 2)) zero)
      (len + values.length) zero
    allocated.2.Shows allocated.1 (seen ++ values) ∧
      storage.Appended len cap offset block values allocated.1 allocated.2 := by
  intro allocated
  let needed := len + values.length
  let cells := seen ++ values ++ List.replicate (max needed (2 * cap) - needed) zero
  have together : (seen ++ values).length = needed := by rw [List.length_append, length]
  have size : cells.length = max needed (2 * cap) := by
    rw [List.length_append, List.length_replicate, together]
    omega
  have padded : padCells (seen ++ values) (max (len + values.length) (cap * 2)) zero = cells := by
    rw [padCells, together, Nat.mul_comm cap 2]
  have header : allocated.1 = .referenceHeader needed (max needed (2 * cap)) 0
      (some storage.heap.nextAddress) := by
    show (storage.allocBlock _ needed zero).1 = _
    rw [padded, allocBlock, size, Nat.min_eq_left (Nat.le_max_left ..)]
  have storage' : allocated.2 =
      { storage with heap := storage.heap.push (.block ⟨cells, zero⟩) } := by
    show (storage.allocBlock _ needed zero).2 = _
    rw [padded, allocBlock]
  rw [header, storage']
  have after := block_heapPush storage ⟨cells, zero⟩
  have differs := differsAt_heapPush storage (.block ⟨cells, zero⟩)
  refine ⟨shows_of_cells together fun place inside => ?_, ?_⟩
  · rw [cell?_of_block after, Nat.zero_add, List.getElem?_append_left (together ▸ inside)]
  · exact .moved notEmpty full shown fill (Heap.entry?_nextAddress _) after differs
      fun valid => differs.element valid

/-- Values that fit the window are written over its first spare cells. -/
theorem appended_inPlace {values : List Value} (notEmpty : values ≠ [])
    (read : storage.block address = .ok content)
    (ends : offset + cap = content.cells.length) (room : len + values.length ≤ cap) :
    let cells := overwrite (offset + len) content.cells values
    let changed : Storage :=
      { storage with heap := storage.heap.set address (.block { content with cells }) }
    changed.Shows (.referenceHeader (len + values.length) cap offset (some address))
        ((content.cells.drop offset).take len ++ values) ∧
      storage.Appended len cap offset (some address) values
        (.referenceHeader (len + values.length) cap offset (some address)) changed := by
  intro cells changed
  have fits : offset + len + values.length ≤ content.cells.length := by omega
  have written := getElem?_overwrite fits
  have after : changed.block address = .ok { content with cells } :=
    (block_heapSet read _ _).trans (if_pos rfl)
  have length := length_window (Nat.le_trans (Nat.le_add_right len values.length) room) ends
  refine ⟨shows_of_cells ?_ fun place inside => ?_, ?_⟩
  · rw [List.length_append, length]
  · rw [cell?_of_block after, written]
    by_cases old : place < len
    · rw [if_neg (by omega), List.getElem?_append_left (by omega), List.getElem?_take_of_lt old,
        List.getElem?_drop]
    · rw [if_pos (by omega), List.getElem?_append_right (by omega), length,
        Nat.add_sub_add_left]
  · exact .inPlace notEmpty rfl room read after written (differsAt_heapSet ..) (Heap.state?_set ..)
      (Heap.nextAddress_set ..)

/-- An append succeeds. The header that it gives shows the elements from before and then the values,
and nothing but the cells for the values, or a new block, is different in storage. -/
theorem append_elements (valid : storage.ValidHeader len cap offset block) (values : List Value) :
    ∃ grown changed seen,
      storage.append (.referenceHeader len cap offset block) values = .ok (grown, changed) ∧
        storage.Shows (.referenceHeader len cap offset block) seen ∧
        changed.Shows grown (seen ++ values) ∧
        storage.Appended len cap offset block values grown changed := by
  rcases Classical.em (values = []) with rfl | notEmpty
  · obtain ⟨seen, shown⟩ := valid.exists_shows
    refine ⟨_, storage, seen, append_nil storage, shown, ?_, .nothing rfl⟩
    rwa [List.append_nil]
  · cases valid with
    | empty =>
        obtain ⟨first, rest, rfl⟩ := List.exists_cons_of_ne_nil notEmpty
        have shown : storage.Shows (.referenceHeader 0 0 0 none) [] :=
          shows_of_cells rfl nofun
        have length : ([] : List Value).length = 0 := rfl
        obtain ⟨after, appended⟩ := appended_allocBlock notEmpty (.inl rfl) length shown rfl
        exact ⟨_, _, [], rfl, shown, after, appended⟩
    | @window _ _ _ address content read within ends =>
        have shown := shows_window read within ends
        by_cases room : len + values.length ≤ cap
        · obtain ⟨after, appended⟩ := appended_inPlace notEmpty read ends room
          exact ⟨_, _, _, append_of_room notEmpty read room, shown, after, appended⟩
        · have fill : storage.fill? (some address) values = some content.zero := by
            rw [fill?, read]
            rfl
          obtain ⟨after, appended⟩ := appended_allocBlock notEmpty (.inr (Nat.lt_of_not_le room))
            (length_window within ends) shown fill
          exact ⟨_, _, _, append_of_full notEmpty read room, shown, after, appended⟩

/-- An append to a window with one spare cell. -/
theorem append_elements_spare :
    let storage := (empty.allocBlock [.int 1, .int 2, .int 3] 2 (.int 0)).2
    ∃ grown changed,
      storage.append (.referenceHeader 2 3 0 (some heapStart)) [.int 9] = .ok (grown, changed) ∧
        changed.Shows grown [.int 1, .int 2, .int 9] := by
  intro storage
  have read : storage.block heapStart = .ok ⟨[.int 1, .int 2, .int 3], .int 0⟩ := rfl
  have before : storage.Shows (.referenceHeader 2 3 0 (some heapStart)) [.int 1, .int 2] :=
    shows_window read (by decide) rfl
  obtain ⟨grown, changed, seen, done, shown, after, -⟩ :=
    append_elements (.window read (by decide : 2 ≤ 3) rfl) [.int 9]
  obtain rfl := shown.unique before
  exact ⟨grown, changed, done, after⟩

end Storage

end ReferenceSemantics
