import ReferenceSemantics.Storage.Error
import ReferenceSemantics.Storage.Heap

set_option autoImplicit false

/-!
Storage: a root frame that is never popped, the frames of the calls above it, and the heap.

Stack slots get addresses of their own, which are not used again when their frame is popped. A
reference designates a slot or a field inside its value; reading and writing through it go to the
slot that lives at its address, on the stack first.
-/

namespace ReferenceSemantics

structure Storage where
  root : Frame
  calls : CallStack
  heap : Heap
  nextStackAddress : Address
deriving Inhabited

namespace Storage

def empty : Storage := ⟨.new globalsFrame none, .empty, .empty, stackStart⟩

/-- The number of frames, the root frame included. -/
def depth (storage : Storage) : Nat := storage.calls.depth + 1

/-- The frames from the root up. -/
def frames (storage : Storage) : List Frame := storage.root :: storage.calls.bottomUp

def frame? (storage : Storage) : (depth : Nat) → Option Frame
  | 0 => some storage.root
  | height + 1 => storage.calls.frame? height

def current (storage : Storage) : Frame := storage.calls.top?.getD storage.root

def modifyCurrent (storage : Storage) (f : Frame → Frame) : Storage :=
  match storage.calls.frames with
  | [] => { storage with root := f storage.root }
  | _ :: _ => { storage with calls := storage.calls.modifyTop f }

def pushFrame (storage : Storage) (function : String) (callSite : Option Location) : Storage :=
  { storage with calls := storage.calls.push (.new function callSite) }

/-- Remove the top frame and its slots, unless it is the root frame. -/
def popFrame? (storage : Storage) : Option (Frame × Storage) :=
  storage.calls.pop?.map fun (top, below) => (top, { storage with calls := below })

def popFrame (storage : Storage) : Storage := (storage.popFrame?.map (·.2)).getD storage

/-- Create a slot without binding it. -/
def allocate (storage : Storage) (name : String) (kind : Kind) (site : Option SiteId)
    (placement : Placement) (value : Value) : SlotRef × Storage :=
  match placement with
  | .stack =>
      let address := storage.nextStackAddress
      (.ofAddress address,
        { storage.modifyCurrent (·.push ⟨name, kind, value, site, address⟩) with
          nextStackAddress := address + slotSize })
  | .heap =>
      let address := storage.heap.nextAddress
      (.ofAddress address,
        { storage with heap := storage.heap.push (.slot ⟨name, kind, value, site, address⟩) })

/-- Create a slot and bind its name in the current frame. -/
def declare (storage : Storage) (name : String) (kind : Kind) (site : Option SiteId)
    (placement : Placement) (value : Value) : SlotRef × Storage :=
  let (ref, storage) := storage.allocate name kind site placement value
  (ref, storage.modifyCurrent (·.bind name ref.address))

/-- The slot bound to a name in the current frame, or else in the root frame. -/
def lookup (storage : Storage) (name : String) : Option SlotRef :=
  ((storage.current.lookup name).or (storage.root.lookup name)).map .ofAddress

/-- The first frame, from a depth on, that owns a slot at an address, and the index of the slot. -/
def locateIn (address : Address) : (depth : Nat) → List Frame → Option (Nat × Nat)
  | _, [] => none
  | depth, frame :: frames =>
      match frame.indexOf? address with
      | some index => some (depth, index)
      | none => locateIn address (depth + 1) frames

/-- The depth of the live frame that owns the slot at an address, and the index of the slot. -/
def locate? (storage : Storage) (address : Address) : Option (Nat × Nat) :=
  locateIn address 0 storage.frames

def modifyFrame (storage : Storage) (f : Frame → Frame) : (depth : Nat) → Storage
  | 0 => { storage with root := f storage.root }
  | height + 1 => { storage with calls := storage.calls.modifyFrame height f }

/-- The slot living at an address. -/
def slot (storage : Storage) (address : Address) : Except StorageError Slot :=
  match storage.locate? address with
  | some (depth, index) =>
      match (storage.frame? depth).bind (·.slots[index]?) with
      | some slot => .ok slot
      | none => .error (.dangling address)
  | none =>
      match storage.heap.get? address with
      | some (.slot slot) => .ok slot
      | some _ => .error (.invalidAddress address .slot)
      | none =>
          if address < heapStart then .error (.dangling address)
          else .error (.invalidAddress address .slot)

/-- Put a slot in the place of the one living at an address. -/
def setSlot (storage : Storage) (address : Address) (new : Slot) : Storage :=
  match storage.locate? address with
  | some (depth, index) => storage.modifyFrame (·.modifySlot index fun _ => new) depth
  | none => { storage with heap := storage.heap.set address (.slot new) }

def placementOf (storage : Storage) (address : Address) : Placement :=
  if storage.heap.contains address then .heap else .stack

/-- The value a reference designates. -/
def load (storage : Storage) (ref : SlotRef) : Except StorageError Value := do
  let slot ← storage.slot ref.address
  match slot.value.atPath? ref.path with
  | some value => return value
  | none => throw (.missingField ref.path)

/-- Replace the value a reference designates. -/
def store (storage : Storage) (ref : SlotRef) (value : Value) : Except StorageError Storage := do
  let slot ← storage.slot ref.address
  match slot.value.setAtPath? ref.path value with
  | some whole => return storage.setSlot ref.address { slot with value := whole }
  | none => throw (.missingField ref.path)

/-- The reference a pointer holds, while its slot lives. -/
def dereference (storage : Storage) : Value → Except StorageError SlotRef
  | .pointer (some target) => do
      let _ ← storage.slot target.address
      return target
  | .pointer none => .error .nilDereference
  | value => .error (.kindMismatch .pointer value.shape)

/-- The values bound in a frame, in the order of its bindings. -/
def frameValues (storage : Storage) (depth : Nat) : List (String × Value) :=
  match storage.frame? depth with
  | none => []
  | some frame => frame.bindings.filterMap fun (name, address) =>
      (storage.load (.ofAddress address)).toOption.map (name, ·)

/-- The addresses that frames hold, in their bindings and in the values of their slots. -/
def roots (storage : Storage) : List Address :=
  storage.frames.flatMap fun frame =>
    frame.bindings.map (·.2) ++ frame.slots.flatMap fun slot => slot.value.references

/-- The heap addresses that live frames lead to, in order. -/
def reachableHeap (storage : Storage) : List Address :=
  storage.heap.reachableFrom storage.roots

/-- Mark the heap objects that no live frame leads to; also the number newly marked. -/
def sweep (storage : Storage) : Nat × Storage :=
  let heap := storage.heap.markUnreachable storage.reachableHeap
  (storage.heap.count .live - heap.count .live, { storage with heap })

end Storage

end ReferenceSemantics
