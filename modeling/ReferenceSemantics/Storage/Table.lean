import ReferenceSemantics.Storage.Basic

set_option autoImplicit false

/-!
Key-value headers: shared tables. A header without a table reads as an empty one and cannot be
written.
-/

namespace ReferenceSemantics.Storage

/-- A new table with the entries inserted in order. -/
def allocTable (storage : Storage) (entries : List (Value × Value)) : Value × Storage :=
  (.keyValueHeader (some storage.heap.nextAddress),
    { storage with heap := storage.heap.push (.table (.ofList entries)) })

def table (storage : Storage) (address : Address) : Except StorageError Table :=
  match storage.heap.get? address with
  | some (.table table) => .ok table
  | _ => .error (.invalidAddress address .table)

/-- The table behind a header, if it has one. -/
def tableOf (storage : Storage) : Value → Except StorageError (Option (Address × Table))
  | .keyValueHeader none => .ok none
  | .keyValueHeader (some address) => do
      let table ← storage.table address
      return some (address, table)
  | value => .error (.kindMismatch .keyValueHeader value.shape)

/-- The value under a key. -/
def tableGet (storage : Storage) (header key : Value) : Except StorageError (Option Value) := do
  let found ← storage.tableOf header
  return found.bind fun (_, table) => table.get? key

/-- The kind of the value under a key, or of the first value when the key is absent. -/
def tableValueKind (storage : Storage) (header key : Value) :
    Except StorageError (Option Kind) := do
  let found ← storage.tableOf header
  return found.bind fun (_, table) =>
    ((table.get? key).or (table.entries.head?.map (·.2))).map Value.kind

/-- Insert through a header; every header of the table sees the entry. -/
def tableInsert (storage : Storage) (header key value : Value) : Except StorageError Storage := do
  match ← storage.tableOf header with
  | none => throw .nilMapWrite
  | some (address, table) =>
      return { storage with heap := storage.heap.set address (.table (table.insert key value)) }

/-- The length of a header, or of a string in bytes. -/
def headerLen (storage : Storage) : Value → Except StorageError Nat
  | .referenceHeader len _ _ _ => .ok len
  | .keyValueHeader none => .ok 0
  | .keyValueHeader (some address) => do
      let table ← storage.table address
      return table.entries.length
  | .primitive (.string s) => .ok s.utf8ByteSize
  | value => .error (.kindMismatch .referenceHeader value.shape)

end ReferenceSemantics.Storage
