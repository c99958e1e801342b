import ReferenceSemantics.Storage.Basic

set_option autoImplicit false

/-!
The stack as one list of frames, from the root up.

Every operation on the stack is described by what it does to that list. The current frame is its
last element; a slot is replaced in the first frame that owns its address. What a write leaves
alone is the outline of the frames: everything but the values of their slots.
-/

namespace ReferenceSemantics

/-- A slot without its value. -/
def Slot.outline (slot : Slot) : Slot := { slot with value := .nilPointer }

/-- A frame without the values of its slots. -/
def Frame.outline (frame : Frame) : Frame := { frame with slots := frame.slots.map Slot.outline }

theorem Frame.mem_of_lookup {frame : Frame} {name : String} {address : Address}
    (found : frame.lookup name = some address) : (name, address) ∈ frame.bindings := by
  obtain ⟨before, after, split, -⟩ := List.lookup_eq_some_iff.mp found
  rw [split]
  exact List.mem_append_right _ (List.mem_cons_self ..)

namespace Storage

/-- The live stack slots, frame by frame. -/
def stackSlots (storage : Storage) : List Slot := storage.frames.flatMap (·.slots)

def stackSlot? (storage : Storage) (address : Address) : Option Slot :=
  storage.stackSlots.find? (·.address == address)

/-- What all frames are apart from the values of their slots. -/
def outline (storage : Storage) : List Frame := storage.frames.map Frame.outline

/-! ### Slots by address -/

theorem modify_at_length {α : Type} (f : α → α) (first : List α) (here : α) (rest : List α) :
    (first ++ here :: rest).modify first.length f = first ++ f here :: rest := by
  induction first with
  | nil => simp
  | cons other first inductionHypothesis => simpa using inductionHypothesis

theorem indexOf?_eq_none {frame : Frame} {address : Address}
    (absent : frame.indexOf? address = none) :
    frame.slots.find? (·.address == address) = none := by
  rw [Frame.indexOf?, List.findIdx?_eq_none_iff] at absent
  exact List.find?_eq_none.mpr fun slot member => by simp [absent slot member]

theorem indexOf?_eq_some {frame : Frame} {address : Address} {index : Nat}
    (found : frame.indexOf? address = some index) :
    ∃ first slot rest, frame.slots = first ++ slot :: rest ∧ index = first.length ∧
      slot.address = address ∧ ∀ other ∈ first, other.address ≠ address := by
  obtain ⟨bound, here, before⟩ := List.findIdx?_eq_some_iff_getElem.mp found
  refine ⟨frame.slots.take index, frame.slots[index], frame.slots.drop (index + 1), ?_, ?_, ?_, ?_⟩
  · rw [← List.drop_eq_getElem_cons bound, List.take_append_drop]
  · exact (List.length_take_of_le (Nat.le_of_lt bound)).symm
  · simpa using here
  · intro other member
    obtain ⟨place, inside, rfl⟩ := List.mem_take_iff_getElem.mp member
    simpa using before place (by omega)

theorem locateIn_eq_none {address : Address} {depth : Nat} {frames : List Frame}
    (absent : locateIn address depth frames = none) :
    (frames.flatMap (·.slots)).find? (·.address == address) = none := by
  induction frames generalizing depth with
  | nil => rfl
  | cons frame frames inductionHypothesis =>
      rw [locateIn] at absent
      cases owned : frame.indexOf? address with
      | some index => simp [owned] at absent
      | none =>
          simp only [owned] at absent
          rw [List.flatMap_cons, List.find?_append, indexOf?_eq_none owned,
            inductionHypothesis absent]
          rfl

/-- The slot that was located is the first one with the address. -/
theorem locateIn_eq_some {address : Address} {depth found index : Nat} {frames : List Frame}
    (located : locateIn address depth frames = some (found, index)) :
    ∃ below frame above first slot rest, frames = below ++ frame :: above ∧
      found = depth + below.length ∧ frame.slots = first ++ slot :: rest ∧ index = first.length ∧
      slot.address = address ∧
      ∀ other ∈ below.flatMap (·.slots) ++ first, other.address ≠ address := by
  induction frames generalizing depth with
  | nil => simp [locateIn] at located
  | cons frame frames inductionHypothesis =>
      rw [locateIn] at located
      cases owned : frame.indexOf? address with
      | some place =>
          simp only [owned, Option.some.injEq, Prod.mk.injEq] at located
          obtain ⟨rfl, rfl⟩ := located
          obtain ⟨first, slot, rest, slots, rfl, here, before⟩ := indexOf?_eq_some owned
          exact ⟨[], frame, frames, first, slot, rest, rfl, rfl, slots, rfl, here, before⟩
      | none =>
          simp only [owned] at located
          obtain ⟨below, owner, above, first, slot, rest, rfl, rfl, slots, rfl, here, before⟩ :=
            inductionHypothesis located
          refine ⟨frame :: below, owner, above, first, slot, rest, rfl, ?_, slots, rfl, here, ?_⟩
          · simp only [List.length_cons]
            omega
          · intro other member
            simp only [List.flatMap_cons, List.append_assoc, List.mem_append] at member
            rcases member with inFrame | later
            · exact fun same => List.find?_eq_none.mp (indexOf?_eq_none owned) other inFrame
                (by simp [same])
            · exact before other (List.mem_append.mpr later)

/-! ### The frames -/

@[simp]
theorem length_frames (storage : Storage) : storage.frames.length = storage.depth := by
  simp [frames, depth, CallStack.depth, CallStack.bottomUp]

theorem frame?_eq (storage : Storage) (depth : Nat) :
    storage.frame? depth = storage.frames[depth]? := by
  cases depth <;> rfl

theorem frames_modifyFrame (storage : Storage) (f : Frame → Frame) (depth : Nat) :
    (storage.modifyFrame f depth).frames = storage.frames.modify depth f := by
  cases depth with
  | zero => simp [modifyFrame, frames]
  | succ height => simp [modifyFrame, frames, CallStack.modifyFrame, CallStack.bottomUp]

theorem current_mem_frames (storage : Storage) : storage.current ∈ storage.frames := by
  unfold current frames CallStack.top? CallStack.bottomUp
  cases storage.calls.frames with
  | nil => simp
  | cons top below => simp

/-- The current frame is the last one. -/
theorem frames_eq (storage : Storage) :
    storage.frames = storage.frames.dropLast ++ [storage.current] := by
  unfold current frames CallStack.top? CallStack.bottomUp
  cases storage.calls.frames with
  | nil => rfl
  | cons top below =>
      simp only [List.reverse_cons, ← List.cons_append, List.dropLast_concat, List.head?_cons,
        Option.getD_some]

theorem length_modified (storage : Storage) (frame : Frame) :
    (storage.frames.dropLast ++ [frame]).length = storage.frames.length := by
  conv => rhs; rw [frames_eq]
  rw [List.length_append, List.length_append, List.length_singleton, List.length_singleton]

theorem frames_modifyCurrent (storage : Storage) (f : Frame → Frame) :
    (storage.modifyCurrent f).frames = storage.frames.dropLast ++ [f storage.current] := by
  unfold modifyCurrent current frames CallStack.top? CallStack.bottomUp
  cases called : storage.calls.frames with
  | nil => simp [called]
  | cons top below =>
      simp only [CallStack.modifyTop, called, List.modifyHead_cons, List.reverse_cons,
        ← List.cons_append, List.dropLast_concat, List.head?_cons, Option.getD_some]

theorem current_modifyCurrent (storage : Storage) (f : Frame → Frame) :
    (storage.modifyCurrent f).current = f storage.current := by
  unfold modifyCurrent current CallStack.top?
  cases called : storage.calls.frames with
  | nil => simp [called]
  | cons top below => simp [CallStack.modifyTop, called]

@[simp]
theorem frames_pushFrame (storage : Storage) (function : String) (callSite : Option Location) :
    (storage.pushFrame function callSite).frames =
      storage.frames ++ [.new function callSite] := by
  simp [pushFrame, frames, CallStack.push, CallStack.bottomUp]

/-- A call is being run. -/
def InCall (storage : Storage) : Prop := storage.calls.frames ≠ []

theorem inCall_iff {storage : Storage} : storage.InCall ↔ 1 < storage.frames.length := by
  unfold InCall
  rw [length_frames, depth, CallStack.depth, Nat.lt_add_left_iff_pos, List.length_pos_iff]

theorem frames_popFrame {storage : Storage} (called : storage.InCall) :
    storage.popFrame.frames = storage.frames.dropLast := by
  unfold InCall at called
  unfold popFrame popFrame? CallStack.pop? frames CallStack.bottomUp
  cases shape : storage.calls.frames with
  | nil => exact absurd shape called
  | cons top below =>
      simp only [Option.map_some, Option.getD_some, List.reverse_cons, ← List.cons_append,
        List.dropLast_concat]

/-- The frame that is handed out is the current one. -/
theorem popFrame?_eq_some {storage below : Storage} {frame : Frame}
    (popped : storage.popFrame? = some (frame, below)) :
    storage.InCall ∧ storage.current = frame ∧ storage.popFrame = below := by
  rw [popFrame, popped]
  refine ⟨?_, ?_, rfl⟩ <;> unfold popFrame? CallStack.pop? at popped
  · unfold InCall
    cases shape : storage.calls.frames with
    | nil => simp [shape] at popped
    | cons top rest => exact List.cons_ne_nil _ _
  · unfold current CallStack.top?
    cases shape : storage.calls.frames with
    | nil => simp [shape] at popped
    | cons top rest => simpa [shape] using (Prod.mk.inj (Option.some.inj (shape ▸ popped))).1

/-! ### Reading and replacing slots -/

/-- The slot at an address that no live frame owns. -/
def heapSlot (storage : Storage) (address : Address) : Except StorageError Slot :=
  match storage.heap.get? address with
  | some (.slot slot) => .ok slot
  | some _ => .error (.invalidAddress address .slot)
  | none =>
      if address < heapStart then .error (.dangling address)
      else .error (.invalidAddress address .slot)

/-- The frames around the slot at an address, and the frames after it was replaced. -/
structure Owned (storage : Storage) (address : Address) (slot : Slot) where
  below : List Frame
  frame : Frame
  above : List Frame
  first : List Slot
  rest : List Slot
  frames : storage.frames = below ++ { frame with slots := first ++ slot :: rest } :: above
  here : slot.address = address
  before : ∀ other ∈ below.flatMap (·.slots) ++ first, other.address ≠ address
  found : storage.stackSlot? address = some slot
  read : storage.slot address = .ok slot
  replaced : ∀ new,
    (storage.setSlot address new).frames =
        below ++ { frame with slots := first ++ new :: rest } :: above ∧
      (storage.setSlot address new).heap = storage.heap ∧
      (storage.setSlot address new).nextStackAddress = storage.nextStackAddress

theorem owned_or_absent (storage : Storage) (address : Address) :
    (∃ slot, Nonempty (storage.Owned address slot)) ∨
      (storage.stackSlot? address = none ∧ storage.slot address = storage.heapSlot address ∧
        ∀ new, storage.setSlot address new =
          { storage with heap := storage.heap.set address (.slot new) }) := by
  cases located : storage.locate? address with
  | none =>
      refine .inr ⟨locateIn_eq_none located, ?_, fun new => ?_⟩
      · rw [slot, located]
        rfl
      · rw [setSlot, located]
  | some place =>
      obtain ⟨depth, index⟩ := place
      obtain ⟨below, frame, above, first, slot, rest, frames, rfl, slots, rfl, here, before⟩ :=
        locateIn_eq_some located
      refine .inl ⟨slot, ⟨⟨below, frame, above, first, rest, ?_, here, before, ?_, ?_, ?_⟩⟩⟩
      · rw [frames, ← slots]
      · rw [stackSlot?, stackSlots, frames, List.flatMap_append, List.flatMap_cons, slots,
          List.append_assoc, ← List.append_assoc, List.find?_append,
          List.find?_eq_none.mpr fun other member => by simpa using before other member]
        simp [here]
      · have inPlace : (storage.frame? (0 + below.length)).bind (·.slots[first.length]?) =
            some slot := by
          simp [frame?_eq, frames, slots]
        simp only [Storage.slot, located, inPlace]
      · intro new
        refine ⟨?_, ?_, ?_⟩
        · simp only [setSlot, located, frames_modifyFrame, frames, Nat.zero_add, modify_at_length]
          simp only [Frame.modifySlot, slots, modify_at_length]
        all_goals
          simp only [setSlot, located]
          cases below.length <;> rfl

end Storage

end ReferenceSemantics
