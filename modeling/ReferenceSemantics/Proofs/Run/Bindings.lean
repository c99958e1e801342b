import Mathlib.Data.List.Nodup
import ReferenceSemantics.Proofs.Run.Additions
import ReferenceSemantics.Proofs.Run.Logging
import ReferenceSemantics.Proofs.Storage.History

set_option autoImplicit false

/-!
What frames bind.

A frame binds a name once, to one of its own slots or to a slot in the heap. This holds wherever
slots live, so also when the stack has grown into the heap. A bound name therefore always designates
a slot, and never one of a frame that is gone.
-/

namespace ReferenceSemantics

/-- Names are bound once, to slots of the frame or of the heap. -/
structure Frame.WellBound (heap : Heap) (frame : Frame) : Prop where
  once : (frame.bindings.map (·.1)).Nodup
  owned : ∀ binding ∈ frame.bindings, binding.2 ∈ frame.slots.map (·.address) ∨
    ∃ slot, heap.get? binding.2 = some (.slot slot)

/-- Every frame is well bound. -/
def Storage.WellBound (storage : Storage) : Prop :=
  ∀ frame ∈ storage.frames, frame.WellBound storage.heap

namespace Frame

variable {frame : Frame} {name : String} {address : Address}

theorem names_bindIn (bindings : List (String × Address)) :
    (bindIn name address bindings).map (·.1) =
      if name ∈ bindings.map (·.1) then bindings.map (·.1)
      else bindings.map (·.1) ++ [name] := by
  induction bindings with
  | nil => rfl
  | cons binding bindings inductionHypothesis =>
      obtain ⟨other, old⟩ := binding
      rw [bindIn]
      by_cases same : other = name
      · simp [same]
      · rw [if_neg same, List.map_cons, inductionHypothesis]
        by_cases later : name ∈ bindings.map (·.1)
        · simp [later]
        · simp [later, Ne.symm same]

theorem wellBound_new (heap : Heap) (function : String) (callSite : Option Location) :
    (new function callSite).WellBound heap :=
  ⟨List.nodup_nil, List.forall_mem_nil _⟩

theorem WellBound.slots {heap : Heap} (wellBound : frame.WellBound heap) {slots : List Slot}
    (more : frame.slots.map (·.address) ⊆ slots.map (·.address)) :
    { frame with slots }.WellBound heap :=
  ⟨wellBound.once, fun binding member => (wellBound.owned binding member).imp_left (more ·)⟩

theorem WellBound.bind {heap : Heap} (wellBound : frame.WellBound heap)
    (owned : address ∈ frame.slots.map (·.address) ∨
      ∃ slot, heap.get? address = some (.slot slot)) :
    (frame.bind name address).WellBound heap := by
  refine ⟨?_, fun binding member => ?_⟩
  · rw [Frame.bind, names_bindIn]
    split
    next => exact wellBound.once
    next fresh =>
      rw [← List.concat_eq_append]
      exact wellBound.once.concat fresh
  · rcases Storage.mem_bindIn member with rfl | old
    · exact owned
    · exact wellBound.owned binding old

theorem WellBound.of_outline {heap : Heap} {old : Frame} (wellBound : old.WellBound heap)
    (same : old.outline = frame.outline) : frame.WellBound heap := by
  obtain ⟨bindings, slots⟩ := Storage.bindings_of_outline same
  exact ⟨bindings ▸ wellBound.once, slots ▸ bindings ▸ wellBound.owned⟩

/-- The slots of one heap are in another one. -/
theorem WellBound.inHeap {heap changed : Heap} (wellBound : frame.WellBound heap)
    (kept : ∀ {address slot}, heap.get? address = some (.slot slot) →
      ∃ later, changed.get? address = some (.slot later)) : frame.WellBound changed :=
  ⟨wellBound.once, fun binding member =>
    (wellBound.owned binding member).imp_right fun ⟨_, found⟩ => kept found⟩

end Frame

namespace Storage

variable {storage changed : Storage}

theorem Retains.slot (retains : storage.Retains changed) {address : Address} {slot : Slot}
    (found : storage.heap.get? address = some (.slot slot)) :
    ∃ later, changed.heap.get? address = some (.slot later) := by
  obtain ⟨later, there, -⟩ := retains.inHeap ⟨slot, found, rfl⟩
  exact ⟨later, there⟩

theorem WellBound.empty : empty.WellBound :=
  List.forall_mem_singleton.mpr (Frame.wellBound_new _ _ _)

theorem WellBound.current (wellBound : storage.WellBound) :
    storage.current.WellBound storage.heap :=
  wellBound _ storage.current_mem_frames

/-- Only the current frame is another one. -/
theorem WellBound.of_current (wellBound : storage.WellBound)
    (kept : ∀ {address slot}, storage.heap.get? address = some (.slot slot) →
      ∃ later, changed.heap.get? address = some (.slot later))
    (below : changed.frames.dropLast = storage.frames.dropLast)
    (current : changed.current.WellBound changed.heap) : changed.WellBound := by
  unfold WellBound
  rw [frames_eq changed, below]
  refine List.forall_mem_append.mpr ⟨fun frame member => ?_, List.forall_mem_singleton.mpr current⟩
  exact (wellBound frame (List.dropLast_subset _ member)).inHeap kept

theorem WellBound.adds (wellBound : storage.WellBound) (adds : storage.Adds changed) :
    changed.WellBound := by
  have kept {address : Address} {slot : Slot}
      (found : storage.heap.get? address = some (.slot slot)) :
      ∃ later, changed.heap.get? address = some (.slot later) :=
    ⟨slot, Heap.get?_of_isPrefix adds.heap found⟩
  obtain ⟨slots, current, -⟩ := adds.current
  refine wellBound.of_current kept adds.below ?_
  rw [current]
  refine (wellBound.current.inHeap kept).slots ?_
  rw [List.map_append]
  exact List.subset_append_left _ _

theorem WellBound.edits (wellBound : storage.WellBound) (edits : storage.Edits changed) :
    changed.WellBound := by
  intro frame member
  obtain ⟨old, before, same⟩ := exists_frame_of_outline edits.outline member
  exact ((wellBound old before).of_outline same).inHeap edits.slot

/-- The name of a new slot is bound to its address. -/
theorem WellBound.declare (wellBound : storage.WellBound) (name : String) (kind : Kind)
    (site : Option SiteId) (placement : Placement) (value : Value) :
    (storage.declare name kind site placement value).2.WellBound := by
  let allocated := storage.allocate name kind site placement value
  have owned : allocated.1.address ∈ allocated.2.current.slots.map (·.address) ∨
      ∃ slot, allocated.2.heap.get? allocated.1.address = some (.slot slot) := by
    cases placement with
    | heap =>
        refine .inr ⟨⟨name, kind, value, site, storage.heap.nextAddress⟩, ?_⟩
        exact (Heap.get?_push _ _ _).trans (if_pos rfl)
    | stack =>
        let slot : Slot := ⟨name, kind, value, site, storage.nextStackAddress⟩
        have current := storage.current_modifyCurrent (·.push slot)
        have member : slot ∈ (storage.modifyCurrent (·.push slot)).current.slots := by
          rw [current]
          exact List.mem_append_right _ (List.mem_singleton.mpr rfl)
        exact .inl (List.mem_map_of_mem member)
  have before := wellBound.adds (.allocate storage name kind site placement value)
  have retains : allocated.2.Retains
      (allocated.2.modifyCurrent (·.bind name allocated.1.address)) :=
    .modifyCurrent _ fun _ => List.Subset.refl _
  refine before.of_current retains.slot ?_ ?_
  · exact (congrArg List.dropLast (frames_modifyCurrent _ _)).trans List.dropLast_concat
  · exact (current_modifyCurrent _ _) ▸ (before.current.bind owned).inHeap retains.slot

theorem WellBound.step (wellBound : storage.WellBound) (step : storage.Step changed) :
    changed.WellBound := by
  have retains := step.retains
  cases step with
  | setSlot address slot value read => exact wellBound.edits (edits_setSlot read value)
  | setBlock | setTable | addBlock | addTable | sweep => exact wellBound.edits ⟨retains, rfl⟩
  | allocate name kind site placement value => exact wellBound.adds (.allocate _ _ _ _ _ _)
  | declare name kind site placement value => exact wellBound.declare _ _ _ _ _
  | pushFrame function callSite =>
      unfold WellBound
      rw [frames_pushFrame]
      exact List.forall_mem_append.mpr
        ⟨wellBound, List.forall_mem_singleton.mpr (Frame.wellBound_new _ _ _)⟩
  | popFrame =>
      by_cases called : storage.InCall
      · unfold WellBound
        rw [frames_popFrame called]
        exact fun frame member =>
          (wellBound frame (List.dropLast_subset _ member)).inHeap retains.slot
      · rw [popFrame_of_not_inCall called]
        exact wellBound

/-- There is a slot for every bound name. -/
theorem WellBound.reads (wellBound : storage.WellBound) {frame : Frame}
    (member : frame ∈ storage.frames) {binding : String × Address}
    (bound : binding ∈ frame.bindings) : ∃ slot, storage.slot binding.2 = .ok slot := by
  simp only [slot_ok_iff, objectAt?]
  cases owned : storage.stackSlot? binding.2 with
  | some slot => exact ⟨slot, rfl⟩
  | none =>
      rcases (wellBound frame member).owned binding bound with own | ⟨slot, inHeap⟩
      · obtain ⟨slot, inFrame, here⟩ := List.mem_map.mp own
        have present : slot ∈ storage.stackSlots := List.mem_flatMap.mpr ⟨frame, member, inFrame⟩
        exact absurd (beq_iff_eq.mpr here) (List.find?_eq_none.mp owned slot present)
      · exact ⟨slot, inHeap⟩

/-- The whole content of a slot. -/
theorem load_ofAddress {address : Address} {slot : Slot}
    (read : storage.slot address = .ok slot) : storage.load (.ofAddress address) = .ok slot.value :=
  load_eq_ok.mpr ⟨slot, read, rfl⟩

/-- A name that is found designates a value. -/
theorem WellBound.loads (wellBound : storage.WellBound) {name : String} {ref : SlotRef}
    (found : storage.lookup name = some ref) : ∃ value, storage.load ref = .ok value := by
  obtain ⟨address, bound, rfl⟩ := Option.map_eq_some_iff.mp found
  have reads : ∃ slot, storage.slot address = .ok slot := by
    rcases Option.or_eq_some_iff.mp bound with own | ⟨-, outer⟩
    · exact wellBound.reads storage.current_mem_frames (Frame.mem_of_lookup own)
    · exact wellBound.reads (List.mem_cons_self ..) (Frame.mem_of_lookup outer)
  obtain ⟨slot, read⟩ := reads
  exact ⟨slot.value, load_ofAddress read⟩

end Storage

open Run in
/-- The result is there when it is copied out. -/
theorem FunctionDef.exec_copyOut (function : FunctionDef) (returned : Option Value)
    {machine : Machine} (wellBound : machine.storage.WellBound) :
    ∃ result, exec (function.copyOut returned) machine = (result, machine) ∧
      Run.faultKind? result = none := by
  unfold copyOut
  cases function.namedResult with
  | none => exact ⟨.ok returned, rfl, rfl⟩
  | some name =>
      dsimp only
      rw [exec_bind, exec_lookup]
      cases found : machine.storage.lookup name with
      | none => exact ⟨_, rfl, rfl⟩
      | some ref =>
          obtain ⟨value, loaded⟩ := wellBound.loads found
          refine ⟨.ok (some value), ?_, rfl⟩
          dsimp only
          rw [map_eq_pure_bind, load, exec_bind, exec_read, loaded]
          rfl

/-- Whatever is run, frames stay well bound. -/
theorem Run.Stepwise.wellBound {α : Type} {run : Run α} [Stepwise run] {machine after : Machine}
    {result : Except Halt α} (ran : exec run machine = (result, after))
    (wellBound : machine.storage.WellBound) : after.storage.WellBound := by
  have stays := preserves run
    (fun machine after => machine.storage.WellBound → after.storage.WellBound)
    (fun _ => id) (fun _ _ _ before after => after ∘ before) ?_ machine wellBound
  · rwa [ran] at stays
  · intro machine after step wellBound
    cases step with
    | storage changed step => exact wellBound.step step
    | record | tick | capture => exact wellBound

end ReferenceSemantics
