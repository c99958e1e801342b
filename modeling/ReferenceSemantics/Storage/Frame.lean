import ReferenceSemantics.Value.Basic

set_option autoImplicit false

/-!
Slots, the frames that own them, and the stack of frames.

A frame owns the slots that were created on the stack while it was on top, and binds names to
addresses. A bound slot may also live in the heap, where it outlasts the frame.
-/

namespace ReferenceSemantics

/-- A storage location that holds one value. Globals have no site. -/
structure Slot where
  name : String
  kind : Kind
  value : Value
  site : Option SiteId
  address : Address
deriving Inhabited

structure Frame where
  function : String
  callSite : Option Location
  /-- The slots in the order of their creation. -/
  slots : List Slot
  /-- The names in the order of their first binding. -/
  bindings : List (String × Address)
deriving Inhabited

namespace Frame

def new (function : String) (callSite : Option Location) : Frame := ⟨function, callSite, [], []⟩

def push (frame : Frame) (slot : Slot) : Frame := { frame with slots := frame.slots ++ [slot] }

/-- Bind a name in a list of bindings; a name that is bound keeps its place. -/
def bindIn (name : String) (address : Address) : List (String × Address) → List (String × Address)
  | [] => [(name, address)]
  | (other, old) :: rest =>
      if other = name then (name, address) :: rest else (other, old) :: bindIn name address rest

def bind (frame : Frame) (name : String) (address : Address) : Frame :=
  { frame with bindings := bindIn name address frame.bindings }

def lookup (frame : Frame) (name : String) : Option Address := frame.bindings.lookup name

/-- The place of the slot at an address among the slots. -/
def indexOf? (frame : Frame) (address : Address) : Option Nat :=
  frame.slots.findIdx? (·.address == address)

def modifySlot (frame : Frame) (index : Nat) (f : Slot → Slot) : Frame :=
  { frame with slots := frame.slots.modify index f }

end Frame

/-- A stack of frames, the top one first. -/
structure CallStack where
  frames : List Frame
deriving Inhabited

namespace CallStack

def empty : CallStack := ⟨[]⟩

def push (stack : CallStack) (frame : Frame) : CallStack := ⟨frame :: stack.frames⟩

def pop? (stack : CallStack) : Option (Frame × CallStack) :=
  match stack.frames with
  | [] => none
  | top :: below => some (top, ⟨below⟩)

def top? (stack : CallStack) : Option Frame := stack.frames.head?

def depth (stack : CallStack) : Nat := stack.frames.length

/-- The frames from the bottom up. -/
def bottomUp (stack : CallStack) : List Frame := stack.frames.reverse

/-- The frame at a height above the bottom. -/
def frame? (stack : CallStack) (height : Nat) : Option Frame := stack.bottomUp[height]?

def modifyFrame (stack : CallStack) (height : Nat) (f : Frame → Frame) : CallStack :=
  ⟨(stack.bottomUp.modify height f).reverse⟩

def modifyTop (stack : CallStack) (f : Frame → Frame) : CallStack := ⟨stack.frames.modifyHead f⟩

end CallStack

end ReferenceSemantics
