import ReferenceSemantics.Storage.Block
import ReferenceSemantics.Storage.Table

set_option autoImplicit false

/-!
Operations that never find a frame gone.

Blocks and tables live in the heap for good. So an operation that looks at a header and at what is
behind it may fail, but not because an address belongs to a frame that has been destroyed.
-/

namespace ReferenceSemantics

/-- The error is not that of a frame that is gone. -/
def StorageError.Grounded : StorageError → Prop
  | .dangling _ => False
  | _ => True

/-- No frame that is gone is to blame for the result. -/
def Grounded {α : Type} (result : Except StorageError α) : Prop :=
  ∀ error, result = .error error → error.Grounded

namespace Grounded

variable {α β : Type}

theorem ok (value : α) : Grounded (.ok value) := nofun

theorem pure (value : α) : Grounded (pure value) := nofun

theorem error {error : StorageError} (grounded : error.Grounded) :
    Grounded (.error error : Except StorageError α) := by
  rintro _ ⟨⟩
  exact grounded

theorem bind {first : Except StorageError α} {next : α → Except StorageError β}
    (start : Grounded first) (rest : ∀ value, Grounded (next value)) :
    Grounded (first >>= next) := by
  cases first with
  | error reason => exact error (start reason rfl)
  | ok value => exact rest value

end Grounded

namespace Storage

variable (storage : Storage) (header : Value)

theorem grounded_block (address : Address) : Grounded (storage.block address) := by
  unfold block
  split
  · exact .ok _
  · exact .error trivial

theorem grounded_cellIndex (index : Int) : Grounded (cellIndex header index) := by
  unfold cellIndex
  split
  · split
    · exact .ok _
    · exact .error trivial
  · exact .error trivial
  · exact .error trivial

theorem grounded_element (index : Int) : Grounded (storage.element header index) := by
  unfold element
  apply (grounded_cellIndex header index).bind
  intro place
  apply (storage.grounded_block place.1).bind
  intro block
  split
  · exact .pure _
  · exact .error trivial

theorem grounded_setElement (index : Int) (value : Value) :
    Grounded (storage.setElement header index value) := by
  unfold setElement
  apply (grounded_cellIndex header index).bind
  intro place
  apply (storage.grounded_block place.1).bind
  intro block
  split
  · exact .pure _
  · exact .error trivial

theorem grounded_elementKind : Grounded (storage.elementKind header) := by
  unfold elementKind
  split
  · exact .ok _
  next address => exact (storage.grounded_block address).bind fun _ => .pure _
  · exact .error trivial

theorem grounded_append (values : List Value) : Grounded (storage.append header values) := by
  unfold append
  split
  · exact .ok _
  next address _ =>
    apply (storage.grounded_block address).bind
    intro block
    dsimp only
    split <;> exact .pure _
  · exact .ok _
  · exact .error trivial

theorem grounded_reslice (low high : Nat) : Grounded (reslice header low high) := by
  unfold reslice
  split
  · split
    · exact .ok _
    · exact .error trivial
  · exact .error trivial

theorem grounded_headerCap : Grounded (headerCap header) := by
  unfold headerCap
  split
  · exact .ok _
  · exact .error trivial

theorem grounded_table (address : Address) : Grounded (storage.table address) := by
  unfold table
  split
  · exact .ok _
  · exact .error trivial

theorem grounded_tableOf : Grounded (storage.tableOf header) := by
  unfold tableOf
  split
  · exact .ok _
  next address => exact (storage.grounded_table address).bind fun _ => .pure _
  · exact .error trivial

theorem grounded_tableGet (key : Value) : Grounded (storage.tableGet header key) :=
  (storage.grounded_tableOf header).bind fun _ => .pure _

theorem grounded_tableValueKind (key : Value) : Grounded (storage.tableValueKind header key) :=
  (storage.grounded_tableOf header).bind fun _ => .pure _

theorem grounded_tableInsert (key value : Value) :
    Grounded (storage.tableInsert header key value) := by
  unfold tableInsert
  apply (storage.grounded_tableOf header).bind
  intro found
  split
  · exact .error trivial
  · exact .pure _

theorem grounded_headerLen : Grounded (storage.headerLen header) := by
  unfold headerLen
  split
  · exact .ok _
  · exact .ok _
  next address => exact (storage.grounded_table address).bind fun _ => .pure _
  · exact .ok _
  · exact .error trivial

end Storage

end ReferenceSemantics
