import ReferenceSemantics.Proofs.Storage.Coherence

set_option autoImplicit false

/-!
New objects, new bindings and new frames.

A new object takes the next address of its region, where nothing was before. Binding a name and
pushing a frame leave every object as it is; popping a frame takes away exactly its own slots.
-/

namespace ReferenceSemantics

namespace Storage

/-- A slot is created: at the end of the stack in the current frame, or at the end of the heap. -/
structure Allocates (storage changed : Storage) (placement : Placement) (slot : Slot) :
    Prop where
  fresh : storage.objectAt? slot.address = none
  objects : ∀ other, changed.objectAt? other =
    if other = slot.address then some (.slot slot) else storage.objectAt? other
  place :
    match placement with
    | .stack =>
        slot.address = storage.nextStackAddress ∧
          changed.nextStackAddress = storage.nextStackAddress + slotSize ∧
          changed.heap.nextAddress = storage.heap.nextAddress ∧
          changed.frames = storage.frames.dropLast ++ [storage.current.push slot]
    | .heap =>
        slot.address = storage.heap.nextAddress ∧
          changed.nextStackAddress = storage.nextStackAddress ∧
          changed.heap.nextAddress = storage.heap.nextAddress + slotSize ∧
          changed.frames = storage.frames

/-- A block or table is created at the end of the heap. -/
structure Extends (storage changed : Storage) (object : HeapObject) : Prop where
  fresh : storage.objectAt? storage.heap.nextAddress = none
  objects : ∀ other, changed.objectAt? other =
    if other = storage.heap.nextAddress then some object else storage.objectAt? other
  stackEnd : changed.nextStackAddress = storage.nextStackAddress
  heapEnd : changed.heap.nextAddress = storage.heap.nextAddress + slotSize
  frames : changed.frames = storage.frames

/-- A name is bound in the current frame. -/
structure Binds (storage changed : Storage) (name : String) (address : Address) : Prop where
  objects : ∀ other, changed.objectAt? other = storage.objectAt? other
  stackEnd : changed.nextStackAddress = storage.nextStackAddress
  heapEnd : changed.heap.nextAddress = storage.heap.nextAddress
  frames : changed.frames = storage.frames.dropLast ++ [storage.current.bind name address]

variable {storage changed : Storage}

theorem Allocates.stackEnd_le {placement : Placement} {slot : Slot}
    (allocated : storage.Allocates changed placement slot) :
    storage.nextStackAddress ≤ changed.nextStackAddress := by
  have place := allocated.place
  cases placement with
  | stack => exact place.2.1 ▸ Nat.le_add_right _ _
  | heap => exact Nat.le_of_eq place.2.1.symm

theorem Coherent.extends_push (coherent : storage.Coherent) (object : HeapObject) :
    storage.Extends { storage with heap := storage.heap.push object } object := by
  refine ⟨coherent.objectAt?_heapEnd, fun other => ?_, rfl, Heap.nextAddress_push _ _, rfl⟩
  have absent := coherent.stackSlot?_eq_none_of_le (Nat.le_add_right heapStart _ :
    heapStart ≤ storage.heap.nextAddress)
  simp only [objectAt?, Heap.get?_push]
  by_cases last : other = storage.heap.nextAddress
  · subst last
    have absentAfter : stackSlot? { storage with heap := storage.heap.push object }
        storage.heap.nextAddress = none := absent
    simp [absentAfter]
  · simp only [if_neg last]
    rfl

theorem stackSlots_pushCurrent (storage : Storage) (slot : Slot) :
    (storage.modifyCurrent (·.push slot)).stackSlots = storage.stackSlots ++ [slot] := by
  rw [stackSlots, stackSlots, frames_modifyCurrent]
  conv => rhs; rw [frames_eq storage]
  simp [Frame.push]

theorem heap_modifyCurrent (storage : Storage) (f : Frame → Frame) :
    (storage.modifyCurrent f).heap = storage.heap := by
  unfold modifyCurrent
  split <;> rfl

theorem nextStackAddress_modifyCurrent (storage : Storage) (f : Frame → Frame) :
    (storage.modifyCurrent f).nextStackAddress = storage.nextStackAddress := by
  unfold modifyCurrent
  split <;> rfl

theorem objectAt?_pushed {slot : Slot}
    (slots : changed.stackSlots = storage.stackSlots ++ [slot])
    (sameHeap : changed.heap = storage.heap) (absent : storage.stackSlot? slot.address = none)
    (other : Address) :
    changed.objectAt? other =
      if other = slot.address then some (.slot slot) else storage.objectAt? other := by
  have found : changed.stackSlot? other =
      (storage.stackSlot? other).or ([slot].find? (·.address == other)) := by
    rw [stackSlot?, slots, List.find?_append]
    rfl
  rw [objectAt?, objectAt?, found, sameHeap]
  by_cases last : other = slot.address
  · rw [if_pos last, last, absent]
    simp
  · have passed : (slot.address == other) = false := by simpa using Ne.symm last
    rw [if_neg last]
    simp [passed]

theorem Coherent.allocates (coherent : storage.Coherent) (name : String) (kind : Kind)
    (site : Option SiteId) (placement : Placement) (value : Value)
    (fits : (storage.allocate name kind site placement value).2.nextStackAddress ≤ heapStart) :
    ∃ address changed,
      storage.allocate name kind site placement value = (.ofAddress address, changed) ∧
        storage.Allocates changed placement ⟨name, kind, value, site, address⟩ := by
  cases placement with
  | stack =>
      have room : storage.nextStackAddress < heapStart := Nat.lt_of_succ_le
        (Nat.le_trans (Nat.add_le_add_left (by decide : 1 ≤ slotSize) _) fits)
      refine ⟨_, _, rfl, ⟨?_, fun other => ?_, rfl, rfl, ?_, ?_⟩⟩
      · simp [objectAt?_stack _ room, coherent.stackSlot?_stackEnd]
      · exact objectAt?_pushed (stackSlots_pushCurrent _ _) (heap_modifyCurrent _ _)
          coherent.stackSlot?_stackEnd other
      · simp [heap_modifyCurrent]
      · exact frames_modifyCurrent _ _
  | heap =>
      have pushed := coherent.extends_push
        (.slot ⟨name, kind, value, site, storage.heap.nextAddress⟩)
      exact ⟨_, _, rfl, ⟨pushed.fresh, pushed.objects, rfl, rfl, pushed.heapEnd, rfl⟩⟩

/-! ### The discipline after them -/

theorem stackAddresses_of_frames {storage changed : Storage}
    (same : changed.frames = storage.frames) :
    changed.stackAddresses = storage.stackAddresses := by
  rw [stackAddresses, stackAddresses, stackSlots, stackSlots, same]

theorem root_of_frames {storage changed : Storage} (same : changed.frames = storage.frames) :
    changed.root = storage.root := by
  have heads := congrArg List.head? same
  simpa [frames] using heads

/-- Objects may be added as long as no address, bound or owned, is touched. -/
theorem Coherent.of_frames (coherent : storage.Coherent)
    (sameFrames : changed.frames = storage.frames)
    (stackEnd : changed.nextStackAddress = storage.nextStackAddress)
    (slots : ∀ address slot, storage.objectAt? address = some (.slot slot) →
      changed.objectAt? address = some (.slot slot)) : changed.Coherent := by
  have addresses := stackAddresses_of_frames sameFrames
  refine ⟨addresses ▸ coherent.distinct, ?_, stackEnd ▸ coherent.aligned,
    stackEnd ▸ coherent.started, stackEnd ▸ coherent.fits, ?_, ?_⟩
  · intro address member
    have handedOut := coherent.handedOut address (addresses ▸ member)
    exact ⟨handedOut.1, stackEnd ▸ handedOut.2.1, handedOut.2.2⟩
  · intro frame member binding inFrame
    obtain ⟨⟨slot, present⟩, region⟩ :=
      coherent.bound frame (sameFrames ▸ member) binding inFrame
    exact ⟨⟨slot, slots _ _ present⟩, region⟩
  · rw [root_of_frames sameFrames]
    exact coherent.rootBound

theorem Coherent.extends (coherent : storage.Coherent) {object : HeapObject}
    (extended : storage.Extends changed object) : changed.Coherent := by
  refine coherent.of_frames extended.frames extended.stackEnd fun address slot present => ?_
  have other : address ≠ storage.heap.nextAddress := by
    rintro rfl
    rw [extended.fresh] at present
    cases present
  rw [extended.objects, if_neg other, present]

theorem current_eq_root {storage : Storage} (outside : ¬ storage.InCall) :
    storage.current = storage.root := by
  have noCalls : storage.calls.frames = [] := Classical.not_not.mp outside
  simp [current, CallStack.top?, noCalls]

theorem outline_modified {storage changed : Storage} (f : Frame → Frame)
    (modified : changed.frames = storage.frames.dropLast ++ [f storage.current]) :
    changed.outline = storage.outline.dropLast ++ [(f storage.current).outline] := by
  rw [outline, outline, modified, List.map_append, ← List.map_dropLast]
  rfl

/-- A change of the current frame is one of the root frame only outside of calls. -/
theorem root_of_modified (f : Frame → Frame)
    (modified : changed.frames = storage.frames.dropLast ++ [f storage.current]) :
    (storage.InCall ∧ changed.root = storage.root) ∨
      (¬ storage.InCall ∧ changed.root = f storage.root) := by
  have heads := congrArg List.head? modified
  unfold InCall
  unfold current frames CallStack.top? CallStack.bottomUp at heads
  cases called : storage.calls.frames with
  | nil => exact .inr ⟨fun absurdity => absurdity rfl, by simpa [called] using heads⟩
  | cons top below =>
      refine .inl ⟨by simp, ?_⟩
      rw [called, List.reverse_cons, ← List.cons_append, List.dropLast_concat] at heads
      simpa using heads

theorem Coherent.allocated (coherent : storage.Coherent) {placement : Placement} {slot : Slot}
    (allocated : storage.Allocates changed placement slot)
    (fits : changed.nextStackAddress ≤ heapStart) : changed.Coherent := by
  have kept : ∀ address old, storage.objectAt? address = some (.slot old) →
      changed.objectAt? address = some (.slot old) := by
    intro address old present
    have other : address ≠ slot.address := by
      rintro rfl
      rw [allocated.fresh] at present
      cases present
    rw [allocated.objects, if_neg other, present]
  cases placement with
  | heap =>
      obtain ⟨-, stackEnd, -, frames⟩ := allocated.place
      exact coherent.of_frames frames stackEnd kept
  | stack =>
    obtain ⟨here, stackEnd, -, frames⟩ := allocated.place
    have slots : changed.stackSlots = storage.stackSlots ++ [slot] := by
      rw [← stackSlots_pushCurrent, stackSlots, stackSlots, frames, frames_modifyCurrent]
    have addresses : changed.stackAddresses = storage.stackAddresses ++ [slot.address] := by
      simp [stackAddresses, slots]
    have grown : storage.nextStackAddress < changed.nextStackAddress :=
      stackEnd ▸ Nat.lt_add_of_pos_right (by decide)
    refine ⟨?_, ?_, ?_, Nat.le_trans coherent.started (Nat.le_of_lt grown), fits, ?_, ?_⟩
    · rw [addresses]
      refine List.nodup_append.mpr ⟨coherent.distinct, by simp, ?_⟩
      intro old member new isNew same
      rw [List.mem_singleton.mp isNew, here] at same
      exact absurd (same ▸ (coherent.handedOut old member).2.1) (Nat.lt_irrefl _)
    · intro address member
      rcases List.mem_append.mp (addresses ▸ member) with old | new
      · have handedOut := coherent.handedOut address old
        exact ⟨handedOut.1, Nat.lt_trans handedOut.2.1 grown, handedOut.2.2⟩
      · rw [List.mem_singleton.mp new, here]
        exact ⟨coherent.started, grown, coherent.aligned⟩
    · rw [stackEnd, Nat.add_mod, coherent.aligned]
      rfl
    · intro frame member binding inFrame
      have aligned : ∀ old ∈ storage.frames, binding ∈ old.bindings →
          (∃ slot, changed.objectAt? binding.2 = some (.slot slot)) ∧
            (binding.2 ∈ old.slots.map (·.address) ∨ heapStart ≤ binding.2) := by
        intro old oldMember inOld
        obtain ⟨⟨slot, present⟩, region⟩ := coherent.bound old oldMember binding inOld
        exact ⟨⟨slot, kept _ _ present⟩, region⟩
      rw [frames] at member
      rcases List.mem_append.mp member with below | top
      · exact aligned frame (List.dropLast_subset _ below) inFrame
      · rw [List.mem_singleton] at top
        subst top
        obtain ⟨present, region⟩ := aligned _ storage.current_mem_frames inFrame
        refine ⟨present, region.imp_left fun owned => ?_⟩
        simpa [Frame.push] using Or.inl (by simpa using owned)
    · rcases root_of_modified (·.push slot) frames with ⟨-, root⟩ | ⟨-, root⟩
      · rw [root]
        exact coherent.rootBound
      · rw [root]
        intro binding member
        have owned := coherent.rootBound binding member
        simpa [Frame.push] using Or.inl (by simpa using owned)

theorem mem_bindIn {name : String} {address : Address} {bindings : List (String × Address)}
    {binding : String × Address} (member : binding ∈ Frame.bindIn name address bindings) :
    binding = (name, address) ∨ binding ∈ bindings := by
  induction bindings with
  | nil => exact .inl (by simpa [Frame.bindIn] using member)
  | cons head rest inductionHypothesis =>
      obtain ⟨other, old⟩ := head
      rw [Frame.bindIn] at member
      split at member
      · exact (List.mem_cons.mp member).imp_right (.tail _)
      · rcases List.mem_cons.mp member with here | later
        · exact .inr (here ▸ .head _)
        · exact (inductionHypothesis later).imp_right (.tail _)

theorem Frame.lookup_bind (frame : Frame) (name other : String) (address : Address) :
    (frame.bind name address).lookup other =
      if other = name then some address else frame.lookup other := by
  unfold Frame.lookup Frame.bind
  dsimp only
  generalize frame.bindings = bindings
  induction bindings with
  | nil =>
      rw [Frame.bindIn, List.lookup_cons]
      by_cases same : other = name
      · simp [same]
      · rw [if_neg same, beq_eq_false_iff_ne.mpr same]
  | cons head rest inductionHypothesis =>
      obtain ⟨bound, old⟩ := head
      rw [Frame.bindIn]
      by_cases here : bound = name
      · subst here
        rw [if_pos rfl, List.lookup_cons, List.lookup_cons]
        by_cases same : other = bound
        · simp [same]
        · rw [if_neg same, beq_eq_false_iff_ne.mpr same]
      · rw [if_neg here, List.lookup_cons, List.lookup_cons, inductionHypothesis]
        by_cases same : other = bound
        · subst same
          simp [here]
        · rw [beq_eq_false_iff_ne.mpr same]

/-- A name may be bound to a slot of the current frame or, within a call, to one of the heap. -/
theorem Coherent.binds (coherent : storage.Coherent) {name : String} {address : Address}
    (bound : storage.Binds changed name address)
    (present : ∃ slot, storage.objectAt? address = some (.slot slot))
    (region : address ∈ storage.current.slots.map (·.address) ∨
      (storage.InCall ∧ heapStart ≤ address)) : changed.Coherent := by
  have slots : changed.stackSlots = storage.stackSlots := by
    rw [stackSlots, stackSlots, bound.frames]
    conv => rhs; rw [frames_eq storage]
    simp [Frame.bind]
  have addresses : changed.stackAddresses = storage.stackAddresses := by
    rw [stackAddresses, stackAddresses, slots]
  have stackEnd := bound.stackEnd
  refine ⟨addresses ▸ coherent.distinct, ?_, stackEnd ▸ coherent.aligned,
    stackEnd ▸ coherent.started, stackEnd ▸ coherent.fits, ?_, ?_⟩
  · intro address member
    have handedOut := coherent.handedOut address (addresses ▸ member)
    exact ⟨handedOut.1, stackEnd ▸ handedOut.2.1, handedOut.2.2⟩
  · intro frame member binding inFrame
    rw [bound.frames] at member
    rw [bound.objects]
    rcases List.mem_append.mp member with below | top
    · exact coherent.bound frame (List.dropLast_subset _ below) binding inFrame
    · rw [List.mem_singleton] at top
      subst top
      rcases mem_bindIn inFrame with rfl | old
      · exact ⟨present, region.imp_right (·.2)⟩
      · exact coherent.bound storage.current storage.current_mem_frames binding old
  · rcases root_of_modified (·.bind name address) bound.frames with ⟨-, root⟩ | ⟨outside, root⟩
    · rw [root]
      exact coherent.rootBound
    · rw [root]
      have isRoot := current_eq_root outside
      intro binding member
      rcases mem_bindIn member with rfl | old
      · rcases region with owned | ⟨called, -⟩
        · exact isRoot ▸ owned
        · exact absurd called outside
      · exact coherent.rootBound binding old

theorem binds_bind (storage : Storage) (name : String) (address : Address) :
    storage.Binds (storage.modifyCurrent (·.bind name address)) name address := by
  refine ⟨fun other => ?_, nextStackAddress_modifyCurrent _ _, ?_, frames_modifyCurrent _ _⟩
  · have slots : (storage.modifyCurrent (·.bind name address)).stackSlots =
        storage.stackSlots := by
      rw [stackSlots, stackSlots, frames_modifyCurrent]
      conv => rhs; rw [frames_eq storage]
      simp [Frame.bind]
    rw [objectAt?, objectAt?, stackSlot?, stackSlot?, slots, heap_modifyCurrent]
  · rw [heap_modifyCurrent]

/-- A declaration is an allocation followed by a binding of what was allocated. -/
theorem Coherent.declares (coherent : storage.Coherent) (name : String) (kind : Kind)
    (site : Option SiteId) (placement : Placement) (value : Value)
    (fits : (storage.declare name kind site placement value).2.nextStackAddress ≤ heapStart)
    (inCall : placement = .heap → storage.InCall) :
    ∃ address allocated changed,
      storage.declare name kind site placement value = (.ofAddress address, changed) ∧
        storage.Allocates allocated placement ⟨name, kind, value, site, address⟩ ∧
        allocated.Binds changed name address ∧ allocated.Coherent ∧ changed.Coherent := by
  have stackEnd : (storage.declare name kind site placement value).2.nextStackAddress =
      (storage.allocate name kind site placement value).2.nextStackAddress :=
    nextStackAddress_modifyCurrent _ _
  obtain ⟨address, middle, result, allocated⟩ :=
    coherent.allocates name kind site placement value (stackEnd ▸ fits)
  have middleFits : middle.nextStackAddress ≤ heapStart := by
    rw [stackEnd, result] at fits
    exact fits
  have middleCoherent := coherent.allocated allocated middleFits
  have bound := binds_bind middle name address
  refine ⟨address, middle, middle.modifyCurrent (·.bind name address), ?_, allocated, bound,
    middleCoherent, middleCoherent.binds bound ?_ ?_⟩
  · rw [declare, result]
    rfl
  · exact ⟨_, by rw [allocated.objects, if_pos rfl]⟩
  · cases placement with
    | stack =>
        obtain ⟨-, -, -, frames⟩ := allocated.place
        have top : middle.current = storage.current.push ⟨name, kind, value, site, address⟩ := by
          have lasts := congrArg List.getLast? frames
          rw [frames_eq middle] at lasts
          simpa using lasts
        exact .inl (by simp [top, Frame.push])
    | heap =>
        obtain ⟨here, -, -, frames⟩ := allocated.place
        refine .inr ⟨?_, Nat.le_trans (Nat.le_add_right heapStart _) (Nat.le_of_eq here.symm)⟩
        rw [inCall_iff, frames, ← inCall_iff]
        exact inCall rfl

/-! ### Frames -/

theorem stackSlots_pushFrame (storage : Storage) (function : String)
    (callSite : Option Location) :
    (storage.pushFrame function callSite).stackSlots = storage.stackSlots := by
  simp [stackSlots, Frame.new]

theorem objectAt?_pushFrame (storage : Storage) (function : String)
    (callSite : Option Location) (address : Address) :
    (storage.pushFrame function callSite).objectAt? address = storage.objectAt? address := by
  rw [objectAt?, objectAt?, stackSlot?, stackSlot?, stackSlots_pushFrame]
  rfl

theorem Coherent.pushFrame (coherent : storage.Coherent) (function : String)
    (callSite : Option Location) : (storage.pushFrame function callSite).Coherent := by
  have addresses : (storage.pushFrame function callSite).stackAddresses =
      storage.stackAddresses := by
    rw [stackAddresses, stackAddresses, stackSlots_pushFrame]
  refine ⟨addresses ▸ coherent.distinct, ?_, coherent.aligned, coherent.started, coherent.fits,
    ?_, coherent.rootBound⟩
  · intro address member
    exact coherent.handedOut address (addresses ▸ member)
  · intro frame member binding inFrame
    rw [objectAt?_pushFrame]
    rw [frames_pushFrame] at member
    rcases List.mem_append.mp member with below | top
    · exact coherent.bound frame below binding inFrame
    · rw [List.mem_singleton] at top
      subst top
      cases inFrame

theorem stackSlots_popFrame (called : storage.InCall) :
    storage.stackSlots = storage.popFrame.stackSlots ++ storage.current.slots := by
  rw [stackSlots, stackSlots, frames_popFrame called]
  conv => lhs; rw [frames_eq storage]
  simp

theorem heap_popFrame (storage : Storage) :
    storage.popFrame.heap = storage.heap ∧
      storage.popFrame.nextStackAddress = storage.nextStackAddress ∧
      storage.popFrame.root = storage.root := by
  unfold popFrame popFrame? CallStack.pop?
  cases storage.calls.frames <;> exact ⟨rfl, rfl, rfl⟩

/-- A frame takes exactly its own slots away. -/
theorem Coherent.objectAt?_popFrame (coherent : storage.Coherent) (called : storage.InCall)
    (address : Address) :
    storage.popFrame.objectAt? address =
      if address ∈ storage.current.slots.map (·.address) then none
      else storage.objectAt? address := by
  have slots := stackSlots_popFrame called
  have distinct := coherent.distinct
  rw [stackAddresses, slots, List.map_append] at distinct
  have apart := (List.nodup_append.mp distinct).2.2
  rw [objectAt?, objectAt?, stackSlot?, stackSlot?, slots, (heap_popFrame storage).1,
    List.find?_append]
  by_cases gone : address ∈ storage.current.slots.map (·.address)
  · rw [if_pos gone]
    have notBelow : storage.popFrame.stackSlots.find? (·.address == address) = none := by
      refine List.find?_eq_none.mpr fun slot member => ?_
      simpa using apart slot.address (List.mem_map_of_mem member) address gone
    have handedOut : storage.StackAddress address := by
      refine coherent.handedOut address ?_
      rw [stackAddresses, slots, List.map_append]
      exact List.mem_append_right _ gone
    rw [notBelow, Heap.get?_eq_none_of_lt (coherent.stack_below handedOut)]
    rfl
  · rw [if_neg gone]
    have notTop : storage.current.slots.find? (·.address == address) = none := by
      refine List.find?_eq_none.mpr fun slot member => ?_
      have other : slot.address ≠ address := fun same =>
        gone (same ▸ List.mem_map_of_mem member)
      simpa using other
    rw [notTop, Option.or_none]

theorem Coherent.popFrame (coherent : storage.Coherent) (called : storage.InCall) :
    storage.popFrame.Coherent := by
  obtain ⟨-, stackEnd, root⟩ := heap_popFrame storage
  have slots := stackSlots_popFrame called
  have addresses : storage.stackAddresses =
      storage.popFrame.stackAddresses ++ storage.current.slots.map (·.address) := by
    rw [stackAddresses, stackAddresses, slots, List.map_append]
  have distinct := addresses ▸ coherent.distinct
  refine ⟨(List.nodup_append.mp distinct).1, ?_, stackEnd ▸ coherent.aligned,
    stackEnd ▸ coherent.started, stackEnd ▸ coherent.fits, ?_, root ▸ coherent.rootBound⟩
  · intro address member
    have handedOut := coherent.handedOut address (addresses ▸ List.mem_append_left _ member)
    exact ⟨handedOut.1, stackEnd ▸ handedOut.2.1, handedOut.2.2⟩
  · intro frame member binding inFrame
    rw [frames_popFrame called] at member
    obtain ⟨present, region⟩ :=
      coherent.bound frame (List.dropLast_subset _ member) binding inFrame
    refine ⟨?_, region⟩
    rw [coherent.objectAt?_popFrame called, if_neg]
    · exact present
    · intro gone
      rcases region with owned | inHeap
      · have below : binding.2 ∈ storage.popFrame.stackAddresses := by
          obtain ⟨slot, slotMember, same⟩ := List.mem_map.mp owned
          refine List.mem_map.mpr ⟨slot, ?_, same⟩
          rw [stackSlots, frames_popFrame called]
          exact List.mem_flatMap.mpr ⟨frame, member, slotMember⟩
        exact (List.nodup_append.mp distinct).2.2 _ below _ gone rfl
      · have handedOut := coherent.handedOut binding.2
          (addresses ▸ List.mem_append_right _ gone)
        exact absurd (coherent.stack_below handedOut) (Nat.not_lt.mpr inHeap)

/-! ### Sweeps -/

theorem objectAt?_sweep (storage : Storage) (address : Address) :
    storage.sweep.2.objectAt? address = storage.objectAt? address := by
  simp only [sweep, objectAt?, Heap.get?_markUnreachable]
  rfl

theorem Coherent.sweep (coherent : storage.Coherent) : storage.sweep.2.Coherent :=
  coherent.of_frames rfl rfl fun address slot present => by rw [objectAt?_sweep, present]

end Storage

end ReferenceSemantics
