import ReferenceSemantics.Graph.Reach
import ReferenceSemantics.Storage.Frame

set_option autoImplicit false

/-!
The heap: slots, blocks of cells and tables of entries.

Objects get consecutive addresses and are never removed. An object that nothing refers to any more
can be marked unreachable; it keeps its content and its mark.
-/

namespace ReferenceSemantics

/-- The distance between neighbouring addresses. -/
def slotSize : Nat := 8

/-- The first stack address. -/
def stackStart : Address := 8

/-- The first heap address. -/
def heapStart : Address := 0x10000000

/-- The cells that headers share. `zero` fills the spare cells of a block grown from this one. -/
structure Block where
  cells : List Value
  zero : Value
deriving Inhabited

/-- Keys and their values, in the order in which the keys were first inserted. -/
structure Table where
  entries : List (Value × Value)
deriving Inhabited

namespace Table

def empty : Table := ⟨[]⟩

def get? (table : Table) (key : Value) : Option Value :=
  (table.entries.find? (·.1.same key)).map (·.2)

/-- Replace the value of a key that is present; the key that was there first stays. -/
def insertIn (key value : Value) : List (Value × Value) → List (Value × Value)
  | [] => [(key, value)]
  | (other, old) :: rest =>
      if other.same key then (other, value) :: rest else (other, old) :: insertIn key value rest

def insert (table : Table) (key value : Value) : Table := ⟨insertIn key value table.entries⟩

def ofList (entries : List (Value × Value)) : Table :=
  entries.foldl (fun table entry => table.insert entry.1 entry.2) empty

end Table

inductive HeapObject where
  | slot (content : Slot)
  | block (content : Block)
  | table (content : Table)
deriving Inhabited

namespace HeapObject

/-- The values an object holds. -/
def values : HeapObject → List Value
  | slot s => [s.value]
  | block b => b.cells
  | table t => t.entries.flatMap fun entry => [entry.1, entry.2]

/-- The addresses an object holds. -/
def references (object : HeapObject) : List Address := object.values.flatMap Value.references

end HeapObject

inductive HeapState where
  | live
  | unreachable
deriving DecidableEq, Repr, Inhabited

def HeapState.name : HeapState → String
  | live => "live"
  | unreachable => "unreachable"

structure HeapEntry where
  object : HeapObject
  state : HeapState
deriving Inhabited

/-- The objects in the order of their addresses. -/
structure Heap where
  entries : Array HeapEntry
deriving Inhabited

namespace Heap

def empty : Heap := ⟨#[]⟩

def addressOf (index : Nat) : Address := heapStart + slotSize * index

/-- The index that an address stands for. -/
def index? (address : Address) : Option Nat :=
  if heapStart ≤ address ∧ (address - heapStart) % slotSize = 0 then
    some ((address - heapStart) / slotSize)
  else none

def size (heap : Heap) : Nat := heap.entries.size

/-- The address of the next object. -/
def nextAddress (heap : Heap) : Address := addressOf heap.size

/-- Add an object; it lives at the next address. -/
def push (heap : Heap) (object : HeapObject) : Heap := ⟨heap.entries.push ⟨object, .live⟩⟩

def entry? (heap : Heap) (address : Address) : Option HeapEntry :=
  (index? address).bind fun index => heap.entries[index]?

def get? (heap : Heap) (address : Address) : Option HeapObject :=
  (heap.entry? address).map (·.object)

def state? (heap : Heap) (address : Address) : Option HeapState :=
  (heap.entry? address).map (·.state)

def contains (heap : Heap) (address : Address) : Bool := (heap.entry? address).isSome

/-- Replace the object at an address; its state stays. -/
def set (heap : Heap) (address : Address) (object : HeapObject) : Heap :=
  match index? address with
  | some index => ⟨heap.entries.modify index fun entry => { entry with object }⟩
  | none => heap

/-- The addresses in use, in order. -/
def addresses (heap : Heap) : List Address := (List.range heap.size).map addressOf

/-- The entries with their addresses. -/
def toList (heap : Heap) : List (Address × HeapEntry) := heap.addresses.zip heap.entries.toList

/-- The addresses that the object at an address holds. -/
def referencesAt (heap : Heap) (address : Address) : List Address :=
  ((heap.get? address).map HeapObject.references).getD []

/-- The addresses in use that the roots lead to, in order. -/
def reachableFrom (heap : Heap) (roots : List Address) : List Address :=
  let found := reach heap.referencesAt heap.addresses roots
  heap.addresses.filter found.contains

/-- Mark the live objects outside a list of addresses. -/
def markUnreachable (heap : Heap) (reachable : List Address) : Heap :=
  ⟨heap.entries.mapIdx fun index entry =>
    if reachable.contains (addressOf index) then entry else { entry with state := .unreachable }⟩

def count (heap : Heap) (state : HeapState) : Nat :=
  heap.entries.countP fun entry => entry.state == state

end Heap

end ReferenceSemantics
