import ReferenceSemantics.Proofs.Reference.Soundness

set_option autoImplicit false

/-!
Storage that is touched at admitted addresses only.

A computation is confined when every address that it can get hold of is admitted: those in its own
frames, in the bindings of the root frame, and in whatever lives at an admitted address. Addresses
where nothing lived at the start are admitted, so that new objects are. Objects at other addresses
and frames below its own stay as they were.
-/

namespace ReferenceSemantics

/-- The slots of a frame and the bindings of its names are at admitted addresses. -/
def Frame.Within (admitted : Address → Prop) (frame : Frame) : Prop :=
  (∀ slot ∈ frame.slots, admitted slot.address) ∧
    ∀ binding ∈ frame.bindings, admitted binding.2

namespace Storage

/-- Since the start only admitted addresses were touched, from frames above so many others. -/
structure Confined (start : Storage) (below : Nat) (admitted : Address → Prop)
    (storage : Storage) : Prop where
  sound : storage.Sound
  deeper : below < storage.frames.length
  kept : storage.outline.take below = start.outline.take below
  inside : ∀ {address object}, admitted address → storage.objectAt? address = some object →
    ∀ value ∈ object.contents, ∀ held ∈ value.references, admitted held
  outside : ∀ {address}, ¬ admitted address →
    storage.objectAt? address = start.objectAt? address
  frames : ∀ frame ∈ storage.outline.drop below, frame.Within admitted
  rootBound : ∀ binding ∈ storage.root.bindings, admitted binding.2

theorem within_outline {admitted : Address → Prop} {frame : Frame} :
    frame.outline.Within admitted ↔ frame.Within admitted := by
  simp [Frame.Within, Frame.outline, Slot.outline]

namespace Confined

variable {start storage changed : Storage} {below : Nat} {admitted : Address → Prop}

theorem current_within (confined : Confined start below admitted storage) :
    storage.current.Within admitted := by
  refine within_outline.mp (confined.frames _ ?_)
  have deeper := confined.deeper
  rw [outline, frames_eq storage, List.map_append, List.map_singleton, List.drop_append_of_le_length]
  · exact List.mem_append_right _ (List.mem_singleton.mpr rfl)
  · rw [List.length_map, List.length_dropLast]
    omega

/-- Whatever is found at an admitted address may be held. -/
theorem admits (confined : Confined start below admitted storage) {address : Address}
    {object : HeapObject} (known : admitted address)
    (found : storage.objectAt? address = some object) :
    ∀ value ∈ object.contents, storage.Admits admitted value :=
  fun value member =>
    ⟨confined.sound.valid found value member, confined.inside known found value member⟩

/-- An address where nothing lives is admitted when those where nothing lived are. -/
theorem admitted_of_fresh (confined : Confined start below admitted storage)
    (fresh : ∀ address, start.objectAt? address = none → admitted address) {address : Address}
    (absent : storage.objectAt? address = none) : admitted address := by
  by_contra unknown
  exact unknown (fresh address ((confined.outside unknown).symm.trans absent))

/-- What the frames have to keep, when at most the current one changes. -/
theorem modified (confined : Confined start below admitted storage) (f : Frame → Frame)
    (modified : changed.frames = storage.frames.dropLast ++ [f storage.current])
    (within : ∀ frame : Frame, frame.Within admitted → (f frame).Within admitted)
    (sound : changed.Sound)
    (inside : ∀ {address object}, admitted address → changed.objectAt? address = some object →
      ∀ value ∈ object.contents, ∀ held ∈ value.references, admitted held)
    (outside : ∀ {address}, ¬ admitted address →
      changed.objectAt? address = storage.objectAt? address) :
    Confined start below admitted changed := by
  have deeper := confined.deeper
  have outlines := outline_modified f modified
  have size : storage.outline.length = storage.frames.length := List.length_map _
  have short : below ≤ storage.outline.dropLast.length := by
    rw [List.length_dropLast]
    omega
  refine ⟨sound, ?_, ?_, inside, fun unknown => (outside unknown).trans (confined.outside unknown),
    ?_, ?_⟩
  · rw [modified, List.length_append, List.length_dropLast, List.length_singleton]
    omega
  · rw [outlines, List.take_append_of_le_length short, List.dropLast_eq_take, List.take_take,
      Nat.min_eq_left (by omega), confined.kept]
  · intro frame member
    rw [outlines, List.drop_append_of_le_length short] at member
    rcases List.mem_append.mp member with old | new
    · refine confined.frames frame ?_
      have split : storage.outline = storage.outline.dropLast ++ [storage.current.outline] := by
        conv => lhs; rw [outline, frames_eq storage, List.map_append, List.map_dropLast]
        rfl
      rw [split, List.drop_append_of_le_length short]
      exact List.mem_append_left _ old
    · rw [List.mem_singleton.mp new]
      exact within_outline.mpr (within _ confined.current_within)
  · rcases root_of_modified f modified with ⟨-, root⟩ | ⟨outer, root⟩
    · rw [root]
      exact confined.rootBound
    · rw [root, ← current_eq_root outer]
      exact (within _ confined.current_within).2

/-- What the heap and the values of slots have to keep, when the frames keep their outline. -/
theorem of_outline (confined : Confined start below admitted storage)
    (outlines : changed.outline = storage.outline) (sound : changed.Sound)
    (inside : ∀ {address object}, admitted address → changed.objectAt? address = some object →
      ∀ value ∈ object.contents, ∀ held ∈ value.references, admitted held)
    (outside : ∀ {address}, ¬ admitted address →
      changed.objectAt? address = storage.objectAt? address) :
    Confined start below admitted changed := by
  refine ⟨sound, ?_, outlines ▸ confined.kept, inside,
    fun unknown => (outside unknown).trans (confined.outside unknown),
    outlines ▸ confined.frames, ?_⟩
  · have size := congrArg List.length outlines
    rw [outline, outline, List.length_map, List.length_map] at size
    exact size ▸ confined.deeper
  · rw [(bindings_of_outline (root_of_outline outlines)).1]
    exact confined.rootBound

theorem rewrites {address : Address} {old object : HeapObject}
    (confined : Confined start below admitted storage) (known : admitted address)
    (rewrites : storage.Rewrites changed address object)
    (found : storage.objectAt? address = some old) (form : object.form = old.form)
    (valid : ∀ value ∈ object.contents, storage.Admits admitted value) :
    Confined start below admitted changed := by
  refine confined.of_outline rewrites.outline
    (confined.sound.rewrites rewrites found form fun value member => (valid value member).1) ?_ ?_
  · intro other present otherKnown foundOther value member
    rw [rewrites.objects] at foundOther
    split at foundOther
    · obtain rfl := Option.some.inj foundOther
      exact (valid value member).2
    · exact confined.inside otherKnown foundOther value member
  · intro other unknown
    rw [rewrites.objects, if_neg]
    rintro rfl
    exact unknown known

theorem extended {object : HeapObject} (confined : Confined start below admitted storage)
    (fresh : ∀ address, start.objectAt? address = none → admitted address)
    (extended : storage.Extends changed object)
    (valid : ∀ value ∈ object.contents, storage.Admits admitted value) :
    Confined start below admitted changed := by
  have outlines : changed.outline = storage.outline := by
    rw [outline, outline, extended.frames]
  refine confined.of_outline outlines
    (confined.sound.extended extended fun value member => (valid value member).1) ?_ ?_
  · intro other present otherKnown foundOther value member
    rw [extended.objects] at foundOther
    split at foundOther
    · obtain rfl := Option.some.inj foundOther
      exact (valid value member).2
    · exact confined.inside otherKnown foundOther value member
  · intro other unknown
    rw [extended.objects, if_neg]
    rintro rfl
    exact unknown (confined.admitted_of_fresh fresh extended.fresh)

theorem allocated {placement : Placement} {slot : Slot}
    (confined : Confined start below admitted storage)
    (fresh : ∀ address, start.objectAt? address = none → admitted address)
    (allocated : storage.Allocates changed placement slot) (fits : changed.Fits)
    (valid : storage.Admits admitted slot.value) : Confined start below admitted changed := by
  have sound := confined.sound.allocated allocated fits valid.1
  have known := confined.admitted_of_fresh fresh allocated.fresh
  have inside : ∀ {address object}, admitted address →
      changed.objectAt? address = some object →
        ∀ value ∈ object.contents, ∀ held ∈ value.references, admitted held := by
    intro other present otherKnown foundOther value member
    rw [allocated.objects] at foundOther
    split at foundOther
    · obtain rfl := Option.some.inj foundOther
      obtain rfl : value = slot.value := by simpa [HeapObject.contents] using member
      exact valid.2
    · exact confined.inside otherKnown foundOther value member
  have outside : ∀ {address}, ¬ admitted address →
      changed.objectAt? address = storage.objectAt? address := by
    intro other unknown
    rw [allocated.objects, if_neg]
    rintro rfl
    exact unknown known
  have place := allocated.place
  cases placement with
  | stack =>
      refine confined.modified (·.push slot) place.2.2.2 ?_ sound inside outside
      rintro frame ⟨slots, bindings⟩
      refine ⟨fun other member => ?_, bindings⟩
      rcases List.mem_append.mp member with old | new
      · exact slots other old
      · exact List.mem_singleton.mp new ▸ known
  | heap =>
      have outlines : changed.outline = storage.outline := by
        rw [outline, outline, place.2.2.2]
      exact confined.of_outline outlines sound inside outside

theorem binds {name : String} {address : Address}
    (confined : Confined start below admitted storage) (known : admitted address)
    (bound : storage.Binds changed name address) (sound : changed.Sound) :
    Confined start below admitted changed := by
  refine confined.modified (·.bind name address) bound.frames ?_ sound ?_ fun _ => bound.objects _
  · rintro frame ⟨slots, bindings⟩
    refine ⟨slots, fun binding member => ?_⟩
    rcases mem_bindIn member with rfl | old
    · exact known
    · exact bindings binding old
  · intro other present otherKnown found
    exact confined.inside otherKnown (bound.objects _ ▸ found)

/-- A declaration keeps the discipline, in the heap only within a call. -/
theorem declares (confined : Confined start below admitted storage)
    (fresh : ∀ address, start.objectAt? address = none → admitted address) (name : String)
    (kind : Kind) (site : Option SiteId) (placement : Placement) {value : Value}
    (valid : storage.Admits admitted value)
    (fits : (storage.declare name kind site placement value).2.Fits)
    (inCall : placement = .heap → storage.InCall) :
    Confined start below admitted (storage.declare name kind site placement value).2 ∧
      storage.Keeps (storage.declare name kind site placement value).2 ∧
      (storage.declare name kind site placement value).2.frames.length =
        storage.frames.length := by
  obtain ⟨address, middle, last, result, allocated, bound, middleCoherent, coherent⟩ :=
    confined.sound.coherent.declares name kind site placement value fits inCall
  have middleFits : middle.Fits := middleCoherent.fits
  have middleConfined := confined.allocated fresh allocated middleFits valid
  have known := confined.admitted_of_fresh fresh allocated.fresh
  rw [result]
  refine ⟨middleConfined.binds known bound (middleConfined.sound.binds coherent bound),
    (allocated.keeps confined.sound.coherent middleCoherent).trans
      (bound.keeps middleCoherent coherent), ?_⟩
  have nonempty : 0 < middle.frames.length :=
    Nat.lt_of_le_of_lt (Nat.zero_le _) middleConfined.deeper
  have grown : last.frames.length = middle.frames.length := by
    rw [bound.frames, List.length_append, List.length_dropLast, List.length_singleton]
    omega
  have place := allocated.place
  cases placement with
  | heap => rw [grown, place.2.2.2]
  | stack =>
      have deeper := confined.deeper
      rw [grown, place.2.2.2, List.length_append, List.length_dropLast, List.length_singleton]
      omega

theorem pushFrame (confined : Confined start below admitted storage) (function : String)
    (callSite : Option Location) :
    Confined start below admitted (storage.pushFrame function callSite) := by
  have deeper := confined.deeper
  have outlines : (storage.pushFrame function callSite).outline =
      storage.outline ++ [.new function callSite] := by
    rw [outline, outline, frames_pushFrame, List.map_append]
    rfl
  have size : storage.outline.length = storage.frames.length := List.length_map _
  refine ⟨confined.sound.pushFrame function callSite, ?_, ?_, ?_, ?_, ?_, confined.rootBound⟩
  · rw [frames_pushFrame, List.length_append]
    omega
  · rw [outlines, List.take_append_of_le_length (by omega), confined.kept]
  · intro address object known found
    exact confined.inside known (objectAt?_pushFrame _ _ _ _ ▸ found)
  · intro address unknown
    rw [objectAt?_pushFrame, confined.outside unknown]
  · intro frame member
    rw [outlines, List.drop_append_of_le_length (by omega)] at member
    rcases List.mem_append.mp member with old | new
    · exact confined.frames frame old
    · rw [List.mem_singleton.mp new]
      refine ⟨?_, ?_⟩ <;>
        · intro _ absurdity
          cases absurdity

/-- The frames above those below may be popped, except for the first. -/
theorem popFrame (confined : Confined start below admitted storage)
    (above : below + 1 < storage.frames.length) :
    Confined start below admitted storage.popFrame := by
  have called : storage.InCall := inCall_iff.mpr (by omega)
  have frames := frames_popFrame called
  have outlines : storage.popFrame.outline = storage.outline.dropLast := by
    rw [outline, outline, frames, List.map_dropLast]
  have size : storage.outline.length = storage.frames.length := List.length_map _
  refine ⟨confined.sound.popFrame called, ?_, ?_, ?_, ?_, ?_, ?_⟩
  · rw [frames, List.length_dropLast]
    omega
  · rw [outlines, List.dropLast_eq_take, List.take_take, Nat.min_eq_left (by omega),
      confined.kept]
  · intro address object known found
    rw [confined.sound.coherent.objectAt?_popFrame called] at found
    split at found
    · cases found
    · exact confined.inside known found
  · intro address unknown
    rw [confined.sound.coherent.objectAt?_popFrame called, if_neg, confined.outside unknown]
    intro gone
    obtain ⟨slot, member, rfl⟩ := List.mem_map.mp gone
    exact unknown (confined.current_within.1 slot member)
  · intro frame member
    rw [outlines, List.dropLast_eq_take, List.drop_take] at member
    exact confined.frames frame (List.take_subset _ _ member)
  · rw [(heap_popFrame storage).2.2]
    exact confined.rootBound

theorem sweep (confined : Confined start below admitted storage) :
    Confined start below admitted storage.sweep.2 := by
  refine confined.of_outline rfl confined.sound.sweep ?_ fun _ => objectAt?_sweep _ _
  intro address object known found
  exact confined.inside known (objectAt?_sweep _ _ ▸ found)

end Confined

end Storage

end ReferenceSemantics
