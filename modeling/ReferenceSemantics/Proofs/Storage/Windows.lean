import ReferenceSemantics.Proofs.Storage.History

set_option autoImplicit false

/-!
Headers as windows into blocks.

Element `i` of a header is cell `offset + i` of its block. So a write through one header is seen
through another exactly where both have the cell, however the two windows lie in the block.
-/

namespace ReferenceSemantics

namespace Storage

/-- A header fits storage: it is zero and has no block, or its window ends where its block ends. -/
inductive ValidHeader (storage : Storage) : (len cap offset : Nat) → Option Address → Prop where
  | empty : ValidHeader storage 0 0 0 none
  | window {len cap offset : Nat} {address : Address} {content : Block}
      (read : storage.block address = .ok content) (within : len ≤ cap)
      (ends : offset + cap = content.cells.length) :
      ValidHeader storage len cap offset (some address)

/-- A cell of a block, counted from the start of the block. -/
def cell? (storage : Storage) (block : Option Address) (place : Nat) : Option Value :=
  block.bind fun address =>
    (storage.block address).toOption.bind fun content => content.cells[place]?

variable {storage changed : Storage} {len cap offset len' cap' offset' : Nat}
  {block block' : Option Address} {address : Address} {content : Block} {value : Value}

/-! ### Elements and cells -/

theorem cell?_of_block (read : storage.block address = .ok content) (place : Nat) :
    storage.cell? (some address) place = content.cells[place]? := by
  rw [cell?, Option.bind_some, read]
  rfl

theorem cell?_eq_some {place : Nat} :
    storage.cell? block place = some value ↔
      ∃ address content, block = some address ∧ storage.block address = .ok content ∧
        content.cells[place]? = some value := by
  refine ⟨fun found => ?_, ?_⟩
  · obtain ⟨address, rfl, here⟩ := Option.bind_eq_some_iff.mp found
    cases read : storage.block address with
    | ok content => exact ⟨address, content, rfl, read, cell?_of_block read place ▸ found⟩
    | error reason =>
        rw [read] at here
        cases here
  · rintro ⟨address, content, rfl, read, found⟩
    rw [cell?_of_block read, found]

theorem element_eq_ok_iff_cell {index : Int} :
    storage.element (.referenceHeader len cap offset block) index = .ok value ↔
      (0 ≤ index ∧ index < len) ∧
        storage.cell? block (offset + index.toNat) = some value := by
  rw [element_eq_ok, cell?_eq_some]
  refine ⟨?_, ?_⟩
  · rintro ⟨address, cell, content, located, read, found⟩
    obtain ⟨_, _, _, same, low, high, rfl⟩ := cellIndex_eq_ok.mp located
    cases same
    exact ⟨⟨low, high⟩, address, content, rfl, read, found⟩
  · rintro ⟨⟨low, high⟩, address, content, rfl, read, found⟩
    exact ⟨address, _, content, cellIndex_eq_ok.mpr ⟨len, cap, offset, rfl, low, high, rfl⟩,
      read, found⟩

theorem cellIndex_of_outside {index : Int} (outside : ¬ (0 ≤ index ∧ index < len)) :
    cellIndex (.referenceHeader len cap offset block) index =
      .error (.indexOutOfRange index len) := by
  cases block with
  | none => rfl
  | some address => rw [cellIndex, if_neg outside]

theorem element_of_outside (storage : Storage) {index : Int}
    (outside : ¬ (0 ≤ index ∧ index < len)) :
    storage.element (.referenceHeader len cap offset block) index =
      .error (.indexOutOfRange index len) := by
  rw [element, cellIndex_of_outside outside]
  rfl

theorem setElement_of_outside (storage : Storage) {index : Int}
    (outside : ¬ (0 ≤ index ∧ index < len)) (value : Value) :
    storage.setElement (.referenceHeader len cap offset block) index value =
      .error (.indexOutOfRange index len) := by
  rw [setElement, cellIndex_of_outside outside]
  rfl

namespace ValidHeader

theorem len_le (valid : storage.ValidHeader len cap offset block) : len ≤ cap := by
  cases valid with
  | empty => exact Nat.le_refl 0
  | window _ within _ => exact within

/-- Every cell of a window is there, the spare ones included. -/
theorem exists_cell (valid : storage.ValidHeader len cap offset block) {place : Nat}
    (inside : place < cap) : ∃ value, storage.cell? block (offset + place) = some value := by
  cases valid with
  | empty => cases inside
  | window read within ends =>
      rw [cell?_of_block read]
      exact ⟨_, List.getElem?_eq_getElem (by omega)⟩

theorem exists_element (valid : storage.ValidHeader len cap offset block) {index : Int}
    (inside : 0 ≤ index ∧ index < len) :
    ∃ value, storage.cell? block (offset + index.toNat) = some value ∧
      storage.element (.referenceHeader len cap offset block) index = .ok value := by
  have within := valid.len_le
  have bound : index.toNat < cap := by omega
  obtain ⟨value, found⟩ := valid.exists_cell bound
  exact ⟨value, found, element_eq_ok_iff_cell.mpr ⟨inside, found⟩⟩

theorem exists_element_iff (valid : storage.ValidHeader len cap offset block) (index : Int) :
    (∃ value, storage.element (.referenceHeader len cap offset block) index = .ok value) ↔
      0 ≤ index ∧ index < len := by
  refine ⟨?_, fun inside => ?_⟩
  · rintro ⟨value, found⟩
    exact (element_eq_ok_iff_cell.mp found).1
  · obtain ⟨value, -, found⟩ := valid.exists_element inside
    exact ⟨value, found⟩

end ValidHeader

/-! ### Writes -/

theorem block_heapSet (read : storage.block address = .ok content) (new : Block)
    (other : Address) :
    ({ storage with heap := storage.heap.set address (.block new) } : Storage).block other =
      if other = address then .ok new else storage.block other := by
  have found := Heap.get?_set (.block new) other (block_eq_ok_iff.mp read)
  by_cases same : other = address
  · rw [if_pos same]
    exact block_eq_ok_iff.mpr (found.trans (if_pos same))
  · rw [if_neg same, Storage.block, Storage.block, found, if_neg same]

theorem cell?_heapSet (read : storage.block address = .ok content) (cells : List Value)
    (block : Option Address) (place : Nat) :
    ({ storage with
        heap := storage.heap.set address (.block { content with cells }) } : Storage).cell?
        block place =
      if block = some address then cells[place]? else storage.cell? block place := by
  have blocks := block_heapSet read { content with cells }
  cases block with
  | none => rfl
  | some other =>
      rw [cell?, Option.bind_some, blocks]
      by_cases same : other = address
      · rw [if_pos same, if_pos (congrArg some same)]
        rfl
      · rw [if_neg same, if_neg fun equal => same (Option.some.inj equal)]
        rfl

/-- A write of an element replaces the cell behind it and no other. -/
theorem ValidHeader.setElement (valid : storage.ValidHeader len cap offset block) {index : Int}
    (inside : 0 ≤ index ∧ index < len) (value : Value) :
    ∃ changed,
      storage.setElement (.referenceHeader len cap offset block) index value = .ok changed ∧
        ∀ other place, changed.cell? other place =
          if other = block ∧ place = offset + index.toNat then some value
          else storage.cell? other place := by
  cases valid with
  | empty => exact absurd inside.2 (Int.not_lt.mpr inside.1)
  | @window _ _ _ address content read within ends =>
      have bound : offset + index.toNat < content.cells.length := by omega
      refine ⟨_, setElement_eq_ok.mpr ⟨address, _, content, cellIndex_eq_ok.mpr
        ⟨len, cap, offset, rfl, inside.1, inside.2, rfl⟩, read, bound, rfl⟩, fun other place => ?_⟩
      rw [cell?_heapSet read]
      by_cases same : other = some address
      · subst same
        rw [if_pos rfl, cell?_of_block read, List.getElem?_set]
        by_cases here : place = offset + index.toNat
        · rw [if_pos here.symm, if_pos (here ▸ bound), if_pos ⟨rfl, here⟩]
        · rw [if_neg (Ne.symm here), if_neg fun both => here both.2]
      · rw [if_neg same, if_neg fun both => same both.1]

/-- What another header shows after the write. -/
theorem ValidHeader.element_setElement (valid' : storage.ValidHeader len' cap' offset' block')
    {index : Int} (low : 0 ≤ index)
    (cells : ∀ other place, changed.cell? other place =
      if other = block ∧ place = offset + index.toNat then some value
      else storage.cell? other place) (place : Int) :
    changed.element (.referenceHeader len' cap' offset' block') place =
      if (0 ≤ place ∧ place < len') ∧ block' = block ∧ offset' + place = offset + index
      then .ok value
      else storage.element (.referenceHeader len' cap' offset' block') place := by
  by_cases inside : 0 ≤ place ∧ place < len'
  · obtain ⟨old, found, read⟩ := valid'.exists_element inside
    by_cases shared : block' = block ∧ offset' + place = offset + index
    · rw [if_pos ⟨inside, shared⟩]
      refine element_eq_ok_iff_cell.mpr ⟨inside, ?_⟩
      rw [cells, if_pos ⟨shared.1, by omega⟩]
    · rw [if_neg fun both => shared both.2, read]
      refine element_eq_ok_iff_cell.mpr ⟨inside, ?_⟩
      rw [cells, if_neg fun both => shared ⟨both.1, by omega⟩, found]
  · rw [if_neg fun both => inside both.1, element_of_outside _ inside, element_of_outside _ inside]

/-! ### Windows of windows -/

theorem reslice_of_inside {low high : Nat} (inside : low ≤ high ∧ high ≤ cap) :
    reslice (.referenceHeader len cap offset block) low high =
      .ok (.referenceHeader (high - low) (cap - low) (offset + low) block) := by
  rw [reslice, if_pos inside]

theorem reslice_of_outside {low high : Nat} (outside : ¬ (low ≤ high ∧ high ≤ cap)) :
    reslice (.referenceHeader len cap offset block) low high =
      .error (.indexOutOfRange (min high (integerEnd - 1)) cap) := by
  rw [reslice, if_neg outside]

theorem ValidHeader.reslice (valid : storage.ValidHeader len cap offset block) {low high : Nat}
    (inside : low ≤ high ∧ high ≤ cap) :
    storage.ValidHeader (high - low) (cap - low) (offset + low) block := by
  cases valid with
  | empty =>
      obtain rfl : high = 0 := Nat.le_zero.mp inside.2
      obtain rfl : low = 0 := Nat.le_zero.mp inside.1
      exact .empty
  | window read within ends => exact .window read (by omega) (by omega)

/-- A window of a window is one of the header itself, and it fails where that one does. -/
theorem reslice_reslice {low high : Nat} (inside : low ≤ high ∧ high ≤ cap) (low' high' : Nat) :
    (reslice (.referenceHeader (high - low) (cap - low) (offset + low) block) low' high').toOption =
      (reslice (.referenceHeader len cap offset block) (low + low') (low + high')).toOption := by
  by_cases inside' : low' ≤ high' ∧ high' ≤ cap - low
  · have direct : low + low' ≤ low + high' ∧ low + high' ≤ cap := by omega
    rw [reslice_of_inside inside', reslice_of_inside direct, Nat.add_sub_add_left, Nat.sub_sub,
      Nat.add_assoc]
  · have direct : ¬ (low + low' ≤ low + high' ∧ low + high' ≤ cap) := by omega
    rw [reslice_of_outside inside', reslice_of_outside direct]
    rfl

/-- Two windows see each other's writes exactly where their cells are the same, and a window of a
header lies in the block as its bounds say. -/
theorem windows_overlap (valid : storage.ValidHeader len cap offset block)
    (valid' : storage.ValidHeader len' cap' offset' block') :
    let header : Value := .referenceHeader len cap offset block
    let other : Value := .referenceHeader len' cap' offset' block'
    (∀ index, (∃ value, storage.element header index = .ok value) ↔ 0 ≤ index ∧ index < len) ∧
    (∀ index value,
      match storage.setElement header index value with
      | .ok changed => (∃ old, storage.element header index = .ok old) ∧
          ∀ place, changed.element other place =
            if (0 ≤ place ∧ place < len') ∧ block' = block ∧ offset' + place = offset + index
            then .ok value
            else storage.element other place
      | .error reason => storage.element header index = .error reason ∧
          (storage.perform (.setElement header index value)).2 = storage) ∧
    ∀ low high,
      match reslice header low high with
      | .ok cut => (low ≤ high ∧ high ≤ cap) ∧
          cut = .referenceHeader (high - low) (cap - low) (offset + low) block ∧
          storage.ValidHeader (high - low) (cap - low) (offset + low) block ∧
          (∀ index : Nat, index < high - low →
            ∃ value, storage.cell? block (offset + low + index) = some value ∧
              storage.element cut index = .ok value) ∧
          ∀ low' high', (reslice cut low' high').toOption =
            (reslice header (low + low') (low + high')).toOption
      | .error _ => ¬ (low ≤ high ∧ high ≤ cap) := by
  intro header other
  refine ⟨valid.exists_element_iff, fun index value => ?_, fun low high => ?_⟩
  · by_cases inside : 0 ≤ index ∧ index < len
    · obtain ⟨changed, done, cells⟩ := valid.setElement inside value
      rw [show storage.setElement header index value = .ok changed from done]
      exact ⟨(valid.exists_element_iff index).mpr inside,
        valid'.element_setElement inside.1 cells⟩
    · have failed : storage.setElement header index value = .error (.indexOutOfRange index len) :=
        setElement_of_outside storage inside value
      rw [perform, failed]
      exact ⟨element_of_outside storage inside, rfl⟩
  · by_cases inside : low ≤ high ∧ high ≤ cap
    · rw [show reslice header low high = _ from reslice_of_inside inside]
      have cut := valid.reslice inside
      refine ⟨inside, rfl, cut, fun index bound => ?_, reslice_reslice inside⟩
      have within : 0 ≤ (index : Int) ∧ (index : Int) < (high - low : Nat) := by omega
      exact cut.exists_element within
    · rw [show reslice header low high = _ from reslice_of_outside inside]
      exact inside

/-- The third element of one window is the second of the window that starts a cell later. -/
theorem windows_overlap_shifted :
    let storage := (empty.allocBlock [.int 1, .int 2, .int 3, .int 4] 3 (.int 0)).2
    let header : Value := .referenceHeader 3 4 0 (some heapStart)
    let other : Value := .referenceHeader 2 3 1 (some heapStart)
    ∃ changed, storage.setElement header 2 (.int 9) = .ok changed ∧
      changed.element other 1 = .ok (.int 9) ∧ changed.element other 0 = .ok (.int 2) := by
  intro storage header other
  have valid : storage.ValidHeader 3 4 0 (some heapStart) := .window rfl (by decide) rfl
  have valid' : storage.ValidHeader 2 3 1 (some heapStart) := .window rfl (by decide) rfl
  obtain ⟨-, seen⟩ := (windows_overlap valid valid').2.1 2 (.int 9)
  exact ⟨_, rfl, seen 1, seen 0⟩

end Storage

end ReferenceSemantics
