import ReferenceSemantics.Storage.Basic

set_option autoImplicit false

/-!
Reference headers: windows into shared blocks.

Element `i` of a header is cell `offset + i` of its block. Appending within capacity writes the
block in place; past it, only the header handed back moves to a new block of `max (2 * cap) needed`
cells.
-/

namespace ReferenceSemantics.Storage

/-- A new block and a header of some of its first cells. -/
def allocBlock (storage : Storage) (cells : List Value) (len : Nat) (zero : Value) :
    Value × Storage :=
  (.referenceHeader (min len cells.length) cells.length 0 (some storage.heap.nextAddress),
    { storage with heap := storage.heap.push (.block ⟨cells, zero⟩) })

def block (storage : Storage) (address : Address) : Except StorageError Block :=
  match storage.heap.get? address with
  | some (.block block) => .ok block
  | _ => .error (.invalidAddress address .block)

/-- The block and cell of an element. -/
def cellIndex (header : Value) (index : Int) : Except StorageError (Address × Nat) :=
  match header with
  | .referenceHeader len _ offset (some block) =>
      if 0 ≤ index ∧ index < len then .ok (block, offset + index.toNat)
      else .error (.indexOutOfRange index len)
  | .referenceHeader len _ _ none => .error (.indexOutOfRange index len)
  | value => .error (.kindMismatch .referenceHeader value.shape)

def element (storage : Storage) (header : Value) (index : Int) : Except StorageError Value := do
  let (address, cell) ← cellIndex header index
  let block ← storage.block address
  match block.cells[cell]? with
  | some value => return value
  | none => throw (.invalidAddress address .blockCell)

/-- Write an element; every header of the block that covers it sees the value. -/
def setElement (storage : Storage) (header : Value) (index : Int) (value : Value) :
    Except StorageError Storage := do
  let (address, cell) ← cellIndex header index
  let block ← storage.block address
  if cell < block.cells.length then
    return { storage with
      heap := storage.heap.set address (.block { block with cells := block.cells.set cell value }) }
  else throw (.invalidAddress address .blockCell)

/-- The kind of the elements of a block, if there is one. -/
def elementKind (storage : Storage) : Value → Except StorageError (Option Kind)
  | .referenceHeader _ _ _ none => .ok none
  | .referenceHeader _ _ _ (some address) => do
      let block ← storage.block address
      return some block.zero.kind
  | value => .error (.kindMismatch .referenceHeader value.shape)

/-- Write values over the cells from an index on, as far as there are cells. -/
def overwrite : (start : Nat) → (cells values : List Value) → List Value
  | _, cells, [] => cells
  | start, cells, value :: values => overwrite (start + 1) (cells.set start value) values

/-- The cells with enough spare ones to fill a capacity. -/
def padCells (cells : List Value) (capacity : Nat) (zero : Value) : List Value :=
  cells ++ List.replicate (capacity - cells.length) zero

/-- The header after the values are appended. -/
def append (storage : Storage) (header : Value) (values : List Value) :
    Except StorageError (Value × Storage) :=
  match header, values with
  | .referenceHeader _ _ _ _, [] => .ok (header, storage)
  | .referenceHeader len cap offset (some address), _ => do
      let block ← storage.block address
      let needed := len + values.length
      if needed ≤ cap then
        let cells := overwrite (offset + len) block.cells values
        return (.referenceHeader needed cap offset (some address),
          { storage with heap := storage.heap.set address (.block { block with cells }) })
      else
        let visible := (block.cells.drop offset).take len
        let cells := padCells (visible ++ values) (max needed (cap * 2)) block.zero
        return storage.allocBlock cells needed block.zero
  | .referenceHeader len cap _ none, first :: _ =>
      let needed := len + values.length
      let zero := first.zeroLike
      .ok (storage.allocBlock (padCells values (max needed (cap * 2)) zero) needed zero)
  | value, _ => .error (.kindMismatch .referenceHeader value.shape)

/-- The window from `low` up to `high` of a header, which may reach into its spare cells. -/
def reslice (header : Value) (low high : Nat) : Except StorageError Value :=
  match header with
  | .referenceHeader _ cap offset block =>
      if low ≤ high ∧ high ≤ cap then
        .ok (.referenceHeader (high - low) (cap - low) (offset + low) block)
      else .error (.indexOutOfRange (min high (integerEnd - 1)) cap)
  | value => .error (.kindMismatch .referenceHeader value.shape)

def headerCap : Value → Except StorageError Nat
  | .referenceHeader _ cap _ _ => .ok cap
  | value => .error (.kindMismatch .referenceHeader value.shape)

end ReferenceSemantics.Storage
