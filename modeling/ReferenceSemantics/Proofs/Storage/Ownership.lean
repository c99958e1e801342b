import Mathlib.Data.List.Nodup
import ReferenceSemantics.Proofs.Storage.Allocation

set_option autoImplicit false

/-!
Who owns a slot: a frame at some depth, or the heap.

Slots are told by their outlines, so a write changes no ownership. While a computation goes on, the
frames only get more slots and the heap more objects; at the end of a call exactly the slots of the
top frame go.
-/

namespace ReferenceSemantics

namespace Storage

/-- The frame at a depth is one of the function and owns a slot of this outline. -/
def Owns (storage : Storage) (depth : Nat) (function : String) (slot : Slot) : Prop :=
  ∃ frame, storage.outline[depth]? = some frame ∧ frame.function = function ∧ slot ∈ frame.slots

/-- A slot of this outline lives at an address of the heap. -/
def InHeap (storage : Storage) (address : Address) (slot : Slot) : Prop :=
  ∃ content, storage.heap.get? address = some (.slot content) ∧ content.outline = slot

/-- A slot that outlives every call: one of the heap, or one of the root frame. -/
def Outlives (storage : Storage) (address : Address) : Prop :=
  (∃ slot, storage.heap.get? address = some (.slot slot)) ∨
    ∃ slot ∈ storage.root.slots, slot.address = address

/-- Every slot of the one storage is there in the other. -/
structure Embeds (storage changed : Storage) : Prop where
  owns : ∀ {depth function slot}, storage.Owns depth function slot →
    changed.Owns depth function slot
  inHeap : ∀ {address slot}, storage.InHeap address slot → changed.InHeap address slot

/-- What a computation in the top frame leaves of the frames and the slots. -/
structure Grown (storage changed : Storage) : Prop extends Embeds storage changed where
  functions : changed.outline.map (·.function) = storage.outline.map (·.function)
  bindings : changed.outline.dropLast.map (·.bindings) = storage.outline.dropLast.map (·.bindings)

variable {storage changed : Storage} {address : Address} {depth : Nat} {function : String}
  {slot : Slot}

/-! ### Where slots live -/

theorem Owns.outlives (owned : storage.Owns 0 function slot) : storage.Outlives slot.address := by
  obtain ⟨frame, found, -, member⟩ := owned
  obtain rfl : storage.root.outline = frame := by simpa [outline, frames] using found
  obtain ⟨content, inRoot, rfl⟩ := List.mem_map.mp member
  exact .inr ⟨content, inRoot, rfl⟩

theorem InHeap.outlives (inHeap : storage.InHeap address slot) : storage.Outlives address := by
  obtain ⟨content, found, -⟩ := inHeap
  exact .inl ⟨content, found⟩

theorem Outlives.cases (outlives : storage.Outlives address) :
    (∃ slot, storage.InHeap address slot) ∨
      ∃ slot, storage.Owns 0 storage.root.function slot ∧ slot.address = address := by
  rcases outlives with ⟨content, found⟩ | ⟨content, member, rfl⟩
  · exact .inl ⟨content.outline, content, found, rfl⟩
  · refine .inr ⟨content.outline, ⟨storage.root.outline, ?_, rfl, ?_⟩, rfl⟩
    · simp [outline, frames]
    · exact List.mem_map_of_mem member

theorem length_outline (storage : Storage) : storage.outline.length = storage.calls.depth + 1 := by
  rw [outline, List.length_map, length_frames, depth]

theorem Owns.depth_le (owned : storage.Owns depth function slot) :
    depth ≤ storage.calls.depth := by
  obtain ⟨frame, found, -⟩ := owned
  have bound := (List.getElem?_eq_some_iff.mp found).1
  rw [length_outline] at bound
  omega

/-- The outline of the current frame is the last one. -/
theorem outline_eq (storage : Storage) :
    storage.outline = storage.outline.dropLast ++ [storage.current.outline] := by
  conv => lhs; rw [outline, frames_eq storage, List.map_append, List.map_dropLast]
  rfl

theorem outline_current (storage : Storage) :
    storage.outline[storage.calls.depth]? = some storage.current.outline := by
  have size := length_outline storage
  rw [outline_eq, List.getElem?_append_right] <;> simp [size]

theorem owns_current_iff :
    storage.Owns storage.calls.depth function slot ↔
      storage.current.function = function ∧ slot ∈ storage.current.slots.map Slot.outline := by
  unfold Owns
  rw [outline_current]
  constructor
  · rintro ⟨frame, found, named, member⟩
    cases found
    exact ⟨named, member⟩
  · rintro ⟨named, member⟩
    exact ⟨_, rfl, named, member⟩

theorem mem_stackSlots_of_owns (owned : storage.Owns depth function slot) :
    ∃ content ∈ storage.stackSlots, content.outline = slot := by
  obtain ⟨frame, found, -, member⟩ := owned
  obtain ⟨original, inFrames, rfl⟩ := List.mem_map.mp (List.mem_of_getElem? found)
  obtain ⟨content, inSlots, rfl⟩ := List.mem_map.mp member
  exact ⟨content, List.mem_flatMap.mpr ⟨original, inFrames, inSlots⟩, rfl⟩

theorem owns_of_mem_stackSlots (member : slot ∈ storage.stackSlots) :
    ∃ depth function, storage.Owns depth function slot.outline := by
  obtain ⟨frame, inFrames, inSlots⟩ := List.mem_flatMap.mp member
  obtain ⟨depth, found⟩ := List.getElem?_of_mem inFrames
  refine ⟨depth, frame.function, frame.outline, ?_, rfl, List.mem_map_of_mem inSlots⟩
  rw [outline, List.getElem?_map, found]
  rfl

theorem Coherent.objectAt?_of_owns (coherent : storage.Coherent)
    (owned : storage.Owns depth function slot) :
    ∃ content, storage.objectAt? slot.address = some (.slot content) ∧ content.outline = slot := by
  obtain ⟨content, member, rfl⟩ := mem_stackSlots_of_owns owned
  exact ⟨content, coherent.objectAt?_of_mem member, rfl⟩

theorem Coherent.objectAt?_of_inHeap (coherent : storage.Coherent)
    (inHeap : storage.InHeap address slot) :
    ∃ content, storage.objectAt? address = some (.slot content) ∧ content.outline = slot := by
  obtain ⟨content, found, rfl⟩ := inHeap
  have region := (Heap.lt_nextAddress_of_get? found).1
  exact ⟨content, (coherent.objectAt?_heap region).trans found, rfl⟩

theorem Coherent.inHeap_of_objectAt? (coherent : storage.Coherent)
    (region : heapStart ≤ address) (found : storage.objectAt? address = some (.slot slot)) :
    storage.InHeap address slot.outline :=
  ⟨slot, (coherent.objectAt?_heap region).symm.trans found, rfl⟩

/-- A live slot is owned by a frame or by the heap. -/
theorem Coherent.owner (coherent : storage.Coherent)
    (found : storage.objectAt? address = some (.slot slot)) :
    (slot.address = address ∧ ∃ depth function, storage.Owns depth function slot.outline) ∨
      storage.InHeap address slot.outline := by
  rcases coherent.region found with ⟨-, content, member, here, same⟩ | ⟨region, -, -⟩
  · cases same
    exact .inl ⟨here, owns_of_mem_stackSlots member⟩
  · exact .inr (coherent.inHeap_of_objectAt? region found)

theorem Coherent.lt_heapStart_of_owns (coherent : storage.Coherent)
    (owned : storage.Owns depth function slot) : slot.address < heapStart := by
  obtain ⟨content, member, rfl⟩ := mem_stackSlots_of_owns owned
  exact coherent.stack_below (coherent.handedOut content.address (List.mem_map_of_mem member))

/-- One frame owns a slot, and it owns no other slot at the address. -/
theorem Coherent.owns_unique (coherent : storage.Coherent) {depth' : Nat} {function' : String}
    {slot' : Slot} (owned : storage.Owns depth function slot)
    (owned' : storage.Owns depth' function' slot') (same : slot.address = slot'.address) :
    depth = depth' ∧ function = function' ∧ slot = slot' := by
  obtain ⟨frame, found, rfl, member⟩ := owned
  obtain ⟨frame', found', rfl, member'⟩ := owned'
  have distinct := coherent.distinct
  rw [stackAddresses_eq, List.nodup_flatMap, List.pairwise_iff_getElem] at distinct
  obtain ⟨inFrame, apart⟩ := distinct
  obtain ⟨bound, here⟩ := List.getElem?_eq_some_iff.mp found
  obtain ⟨bound', here'⟩ := List.getElem?_eq_some_iff.mp found'
  have owns : slot.address ∈ frame.slots.map (·.address) := List.mem_map_of_mem member
  have owns' : slot.address ∈ frame'.slots.map (·.address) := same ▸ List.mem_map_of_mem member'
  rcases Nat.lt_trichotomy depth depth' with less | rfl | greater
  · exact (apart depth depth' bound bound' less (here ▸ owns) (here' ▸ owns')).elim
  · obtain rfl : frame = frame' := Option.some.inj (found.symm.trans found')
    refine ⟨rfl, rfl, ?_⟩
    exact List.inj_on_of_nodup_map (inFrame frame (List.mem_of_getElem? found)) member member' same
  · exact (apart depth' depth bound' bound greater (here' ▸ owns') (here ▸ owns)).elim

/-! ### What later storage keeps -/

theorem Embeds.refl (storage : Storage) : storage.Embeds storage := ⟨id, id⟩

theorem Embeds.trans {first second third : Storage} (before : first.Embeds second)
    (after : second.Embeds third) : first.Embeds third :=
  ⟨fun owned => after.owns (before.owns owned), fun inHeap => after.inHeap (before.inHeap inHeap)⟩

theorem Embeds.outlives (embeds : storage.Embeds changed) (outlives : storage.Outlives address) :
    changed.Outlives address := by
  rcases outlives.cases with ⟨slot, inHeap⟩ | ⟨slot, owned, rfl⟩
  · exact (embeds.inHeap inHeap).outlives
  · exact (embeds.owns owned).outlives

theorem Grown.refl (storage : Storage) : storage.Grown storage := ⟨.refl storage, rfl, rfl⟩

theorem Grown.trans {first second third : Storage} (before : first.Grown second)
    (after : second.Grown third) : first.Grown third :=
  ⟨before.toEmbeds.trans after.toEmbeds, after.functions.trans before.functions,
    after.bindings.trans before.bindings⟩

theorem Grown.calls_depth (grown : storage.Grown changed) :
    changed.calls.depth = storage.calls.depth := by
  have size := congrArg List.length grown.functions
  simpa [length_outline] using size

theorem Grown.current_function (grown : storage.Grown changed) :
    changed.current.function = storage.current.function := by
  have lasts := congrArg List.getLast? grown.functions
  rw [outline_eq changed, outline_eq storage] at lasts
  simpa [Frame.outline] using lasts

theorem inCall_iff_depth : storage.InCall ↔ 0 < storage.calls.depth := by
  rw [inCall_iff, length_frames, Storage.depth]
  omega

theorem Grown.inCall (grown : storage.Grown changed) : storage.InCall ↔ changed.InCall := by
  rw [inCall_iff_depth, inCall_iff_depth, grown.calls_depth]

theorem owns_of_outline (same : changed.outline = storage.outline) :
    changed.Owns depth function slot ↔ storage.Owns depth function slot := by
  unfold Owns
  rw [same]

/-! ### What operations leave -/

theorem Rewrites.grown {old object : HeapObject} (coherent : storage.Coherent)
    (rewrites : storage.Rewrites changed address object)
    (found : storage.objectAt? address = some old) (sameForm : object.form = old.form) :
    storage.Grown changed := by
  have later := coherent.rewrites rewrites found sameForm
  refine ⟨⟨(owns_of_outline rewrites.outline).mpr, ?_⟩, by rw [rewrites.outline],
    by rw [rewrites.outline]⟩
  intro place slot inHeap
  obtain ⟨content, present, rfl⟩ := coherent.objectAt?_of_inHeap inHeap
  have region : heapStart ≤ place := by
    obtain ⟨_, present, -⟩ := inHeap
    exact (Heap.lt_nextAddress_of_get? present).1
  by_cases same : place = address
  · subst same
    rw [found] at present
    cases present
    cases object with
    | slot new =>
        have outlines : new.outline = content.outline := by
          simpa [HeapObject.form] using sameForm
        rw [← outlines]
        apply later.inHeap_of_objectAt? region
        rw [rewrites.objects, if_pos rfl]
    | block _ => simp [HeapObject.form] at sameForm
    | table _ => simp [HeapObject.form] at sameForm
  · apply later.inHeap_of_objectAt? region
    rw [rewrites.objects, if_neg same, present]

/-- Objects may be added to the heap. -/
theorem grown_of_frames (coherent : storage.Coherent) (later : changed.Coherent)
    (sameFrames : changed.frames = storage.frames)
    (slots : ∀ address slot, storage.objectAt? address = some (.slot slot) →
      changed.objectAt? address = some (.slot slot)) : storage.Grown changed := by
  have outlines : changed.outline = storage.outline := by rw [outline, outline, sameFrames]
  refine ⟨⟨(owns_of_outline outlines).mpr, ?_⟩, by rw [outlines], by rw [outlines]⟩
  intro place slot inHeap
  obtain ⟨content, present, rfl⟩ := coherent.objectAt?_of_inHeap inHeap
  obtain ⟨_, here, -⟩ := inHeap
  exact later.inHeap_of_objectAt? (Heap.lt_nextAddress_of_get? here).1 (slots _ _ present)

theorem Extends.grown {object : HeapObject} (coherent : storage.Coherent)
    (extended : storage.Extends changed object) : storage.Grown changed := by
  apply grown_of_frames coherent (coherent.extends extended) extended.frames
  intro place slot present
  rw [extended.objects, if_neg, present]
  rintro rfl
  rw [extended.fresh] at present
  cases present

theorem grown_sweep (coherent : storage.Coherent) : storage.Grown storage.sweep.2 := by
  apply grown_of_frames coherent coherent.sweep rfl
  intro place slot present
  rw [objectAt?_sweep, present]

/-- The current frame may get more slots, and any bindings. -/
theorem owns_of_modified (f : Frame → Frame)
    (modified : changed.frames = storage.frames.dropLast ++ [f storage.current])
    (named : (f storage.current).function = storage.current.function)
    (kept : storage.current.slots ⊆ (f storage.current).slots)
    (owned : storage.Owns depth function slot) : changed.Owns depth function slot := by
  have outlines := outline_modified f modified
  have size := length_outline storage
  obtain ⟨frame, found, rfl, member⟩ := owned
  rw [outline_eq storage] at found
  unfold Owns
  rw [outlines]
  by_cases below : depth < storage.outline.dropLast.length
  · rw [List.getElem?_append_left below] at found ⊢
    exact ⟨frame, found, rfl, member⟩
  · have inside := (List.getElem?_eq_some_iff.mp found).1
    rw [List.length_append, List.length_singleton] at inside
    obtain rfl : depth = storage.outline.dropLast.length := by omega
    rw [List.getElem?_concat_length] at found ⊢
    cases found
    exact ⟨_, rfl, named, List.map_subset _ kept member⟩

theorem grown_of_modified (coherent : storage.Coherent) (later : changed.Coherent)
    (f : Frame → Frame)
    (modified : changed.frames = storage.frames.dropLast ++ [f storage.current])
    (named : (f storage.current).function = storage.current.function)
    (kept : storage.current.slots ⊆ (f storage.current).slots)
    (slots : ∀ address slot, storage.objectAt? address = some (.slot slot) →
      changed.objectAt? address = some (.slot slot)) : storage.Grown changed := by
  have outlines := outline_modified f modified
  refine ⟨⟨owns_of_modified f modified named kept, ?_⟩, ?_, ?_⟩
  · intro place slot inHeap
    obtain ⟨content, present, rfl⟩ := coherent.objectAt?_of_inHeap inHeap
    obtain ⟨_, here, -⟩ := inHeap
    exact later.inHeap_of_objectAt? (Heap.lt_nextAddress_of_get? here).1 (slots _ _ present)
  · rw [outlines]
    conv => rhs; rw [outline_eq storage]
    simp [Frame.outline, named]
  · rw [outlines, List.dropLast_concat]

/-- The outline of the changed frame. -/
theorem outline_top (f : Frame → Frame)
    (modified : changed.frames = storage.frames.dropLast ++ [f storage.current]) :
    changed.outline[storage.calls.depth]? = some (f storage.current).outline := by
  have size := length_outline storage
  rw [outline_modified f modified, List.getElem?_append_right] <;> simp [size]

theorem owns_modified (f : Frame → Frame)
    (modified : changed.frames = storage.frames.dropLast ++ [f storage.current])
    (owned : changed.Owns depth function slot) :
    storage.Owns depth function slot ∨
      depth = storage.calls.depth ∧ slot ∈ (f storage.current).slots.map Slot.outline := by
  have outlines := outline_modified f modified
  have size := length_outline storage
  have short : storage.outline.dropLast.length = storage.calls.depth := by simp [size]
  obtain ⟨frame, found, named, member⟩ := owned
  rw [outlines] at found
  by_cases below : depth < storage.outline.dropLast.length
  · rw [List.getElem?_append_left below] at found
    refine .inl ⟨frame, ?_, named, member⟩
    rw [outline_eq storage, List.getElem?_append_left below, found]
  · have inside := (List.getElem?_eq_some_iff.mp found).1
    rw [List.length_append, List.length_singleton] at inside
    obtain rfl : depth = storage.outline.dropLast.length := by omega
    rw [List.getElem?_concat_length] at found
    cases found
    exact .inr ⟨short, member⟩

theorem Allocates.kept {placement : Placement}
    (allocated : storage.Allocates changed placement slot) (place : Address) (old : Slot)
    (present : storage.objectAt? place = some (.slot old)) :
    changed.objectAt? place = some (.slot old) := by
  rw [allocated.objects, if_neg, present]
  rintro rfl
  rw [allocated.fresh] at present
  cases present

theorem Allocates.grown {placement : Placement} (coherent : storage.Coherent)
    (later : changed.Coherent) (allocated : storage.Allocates changed placement slot) :
    storage.Grown changed := by
  have place := allocated.place
  cases placement with
  | heap => exact grown_of_frames coherent later place.2.2.2 allocated.kept
  | stack =>
      apply grown_of_modified coherent later (·.push slot) place.2.2.2 rfl ?_ allocated.kept
      exact List.subset_append_left _ _

/-- A new slot is in the heap or belongs to the current frame. -/
theorem Allocates.owner {placement : Placement} (later : changed.Coherent)
    (allocated : storage.Allocates changed placement slot) :
    match placement with
    | .stack => changed.Owns storage.calls.depth storage.current.function slot.outline
    | .heap => changed.InHeap slot.address slot.outline := by
  have place := allocated.place
  have found : changed.objectAt? slot.address = some (.slot slot) := by
    rw [allocated.objects, if_pos rfl]
  cases placement with
  | heap =>
      have region : heapStart ≤ slot.address := by
        rw [place.1]
        exact Nat.le_add_right _ _
      exact later.inHeap_of_objectAt? region found
  | stack =>
      have top := outline_top (·.push slot) place.2.2.2
      exact ⟨_, top, rfl, by simp [Frame.outline, Frame.push]⟩

/-- Nothing else is owned by a frame that was not before. -/
theorem Allocates.owns {placement : Placement}
    (allocated : storage.Allocates changed placement slot) {other : Slot}
    (owned : changed.Owns depth function other) :
    storage.Owns depth function other ∨
      placement = .stack ∧ depth = storage.calls.depth ∧ other = slot.outline := by
  have place := allocated.place
  cases placement with
  | heap =>
      have outlines : changed.outline = storage.outline := by rw [outline, outline, place.2.2.2]
      exact .inl ((owns_of_outline outlines).mp owned)
  | stack =>
      rcases owns_modified (·.push slot) place.2.2.2 owned with before | ⟨top, member⟩
      · exact .inl before
      · rw [Frame.push, List.map_append, List.mem_append] at member
        rcases member with old | new
        · obtain ⟨frame, found, rfl, -⟩ := owned
          refine .inl ?_
          subst top
          rw [outline_top (·.push slot) place.2.2.2] at found
          cases found
          exact owns_current_iff.mpr ⟨rfl, old⟩
        · exact .inr ⟨rfl, top, by simpa using new⟩

theorem Binds.owns {name : String} (bound : storage.Binds changed name address)
    (owned : changed.Owns depth function slot) : storage.Owns depth function slot := by
  rcases owns_modified (·.bind name address) bound.frames owned with before | ⟨rfl, member⟩
  · exact before
  · obtain ⟨frame, found, rfl, -⟩ := owned
    rw [outline_top (·.bind name address) bound.frames] at found
    cases found
    exact owns_current_iff.mpr ⟨rfl, member⟩

theorem Binds.grown {name : String} (coherent : storage.Coherent) (later : changed.Coherent)
    (bound : storage.Binds changed name address) : storage.Grown changed := by
  apply grown_of_modified coherent later (·.bind name address) bound.frames rfl
  · exact List.Subset.refl _
  · intro place slot present
    rw [bound.objects, present]

/-! ### Frames -/

theorem outline_pushFrame (storage : Storage) (function : String)
    (callSite : Option Location) :
    (storage.pushFrame function callSite).outline =
      storage.outline ++ [.new function callSite] := by
  rw [outline, outline, frames_pushFrame, List.map_append]
  rfl

theorem outline_popFrame (called : storage.InCall) :
    storage.popFrame.outline = storage.outline.dropLast := by
  rw [outline, outline, frames_popFrame called, List.map_dropLast]

theorem calls_depth_pushFrame (storage : Storage) (function : String)
    (callSite : Option Location) :
    (storage.pushFrame function callSite).calls.depth = storage.calls.depth + 1 := by
  have size := congrArg List.length (outline_pushFrame storage function callSite)
  simpa [length_outline] using size

theorem embeds_pushFrame (storage : Storage) (function : String) (callSite : Option Location) :
    storage.Embeds (storage.pushFrame function callSite) := by
  refine ⟨?_, id⟩
  rintro depth owner slot ⟨frame, found, named, member⟩
  refine ⟨frame, ?_, named, member⟩
  rw [outline_pushFrame, List.getElem?_append_left (List.getElem?_eq_some_iff.mp found).1, found]

theorem owns_pushFrame {callee : String} {callSite : Option Location}
    (owned : (storage.pushFrame callee callSite).Owns depth function slot) :
    storage.Owns depth function slot := by
  obtain ⟨frame, found, named, member⟩ := owned
  rw [outline_pushFrame] at found
  by_cases below : depth < storage.outline.length
  · rw [List.getElem?_append_left below] at found
    exact ⟨frame, found, named, member⟩
  · rw [List.getElem?_append_right (Nat.le_of_not_lt below)] at found
    obtain rfl := List.mem_singleton.mp (List.mem_of_getElem? found)
    cases member

theorem owns_popFrame (called : storage.InCall) :
    storage.popFrame.Owns depth function slot ↔
      storage.Owns depth function slot ∧ depth < storage.calls.depth := by
  have size := length_outline storage
  unfold Owns
  rw [outline_popFrame called, List.dropLast_eq_take, List.getElem?_take, size]
  by_cases below : depth < storage.calls.depth <;> simp [below]

theorem inHeap_popFrame :
    storage.popFrame.InHeap address slot ↔ storage.InHeap address slot := by
  unfold InHeap
  rw [(heap_popFrame storage).1]

/-- Slots that outlive calls outlive the top frame. -/
theorem outlives_popFrame : storage.popFrame.Outlives address ↔ storage.Outlives address := by
  unfold Outlives
  rw [(heap_popFrame storage).1, (heap_popFrame storage).2.2]

/-- A frame that is pushed and popped again leaves the slots that were there, and all bindings. -/
theorem grown_framed {callSite : Option Location}
    (inside : (storage.pushFrame function callSite).Grown changed) :
    storage.Grown changed.popFrame ∧
      changed.popFrame.outline.map (·.bindings) = storage.outline.map (·.bindings) := by
  have depth := inside.calls_depth
  rw [calls_depth_pushFrame] at depth
  have called : changed.InCall := by
    rw [inCall_iff_depth, depth]
    omega
  have pushed := embeds_pushFrame storage function callSite
  have bindings : changed.popFrame.outline.map (·.bindings) =
      storage.outline.map (·.bindings) := by
    have outlines := inside.bindings
    rw [outline_pushFrame, List.dropLast_concat] at outlines
    rw [outline_popFrame called, outlines]
  refine ⟨⟨⟨?_, ?_⟩, ?_, ?_⟩, bindings⟩
  · intro place owner slot owned
    have bound := owned.depth_le
    exact (owns_popFrame called).mpr ⟨inside.owns (pushed.owns owned), by omega⟩
  · intro address slot inHeap
    exact inHeap_popFrame.mpr (inside.inHeap (pushed.inHeap inHeap))
  · rw [outline_popFrame called, List.map_dropLast, inside.functions, outline_pushFrame,
      List.map_append, List.map_singleton, List.dropLast_concat]
  · rw [List.map_dropLast, bindings, List.map_dropLast]

end Storage

end ReferenceSemantics
