import ReferenceSemantics.Proofs.Storage.Operations
import ReferenceSemantics.Proofs.Storage.Ownership

set_option autoImplicit false

/-!
What storage keeps.

Slots of the root frame and objects of the heap are never removed. An operation other than the push
and the pop of a frame also leaves every other slot to its frame, at whatever addresses slots live.
-/

namespace ReferenceSemantics

namespace Storage

/-- The slots of the root frame and the objects of the heap are still there. -/
structure Retains (storage changed : Storage) : Prop where
  root : storage.root.outline.slots ⊆ changed.root.outline.slots
  objects : ∀ {address object}, storage.heap.get? address = some object →
    ∃ later, changed.heap.get? address = some later ∧ later.form = object.form

variable {storage changed : Storage}

namespace Retains

theorem refl (storage : Storage) : storage.Retains storage :=
  ⟨List.Subset.refl _, fun found => ⟨_, found, rfl⟩⟩

theorem trans {first second third : Storage} (before : first.Retains second)
    (after : second.Retains third) : first.Retains third := by
  refine ⟨List.Subset.trans before.root after.root, fun found => ?_⟩
  obtain ⟨later, present, form⟩ := before.objects found
  obtain ⟨last, there, form'⟩ := after.objects present
  exact ⟨last, there, form'.trans form⟩

theorem heapSet {address : Address} {old object : HeapObject}
    (found : storage.heap.get? address = some old) (same : object.form = old.form) :
    storage.Retains { storage with heap := storage.heap.set address object } := by
  refine ⟨List.Subset.refl _, fun {other present} here => ?_⟩
  dsimp only
  rw [Heap.get?_set object other found]
  split
  next equal =>
    subst equal
    obtain rfl : old = present := Option.some.inj (found.symm.trans here)
    exact ⟨object, rfl, same⟩
  next => exact ⟨present, here, rfl⟩

theorem heapPush (storage : Storage) (object : HeapObject) :
    storage.Retains { storage with heap := storage.heap.push object } :=
  ⟨List.Subset.refl _, fun here => ⟨_, Heap.get?_push_of_get? here object, rfl⟩⟩

/-- The current frame may only get more slots. -/
theorem modifyCurrent (storage : Storage) {f : Frame → Frame}
    (more : ∀ frame : Frame, frame.outline.slots ⊆ (f frame).outline.slots) :
    storage.Retains (storage.modifyCurrent f) := by
  refine ⟨?_, fun found => ⟨_, (heap_modifyCurrent storage f).symm ▸ found, rfl⟩⟩
  rcases root_of_modified f (storage.frames_modifyCurrent f) with ⟨-, same⟩ | ⟨-, same⟩
  · rw [same]
    exact List.Subset.refl _
  · rw [same]
    exact more storage.root

theorem allocate (storage : Storage) (name : String) (kind : Kind) (site : Option SiteId)
    (placement : Placement) (value : Value) :
    storage.Retains (storage.allocate name kind site placement value).2 := by
  cases placement with
  | stack =>
      let slot : Slot := ⟨name, kind, value, site, storage.nextStackAddress⟩
      have pushed : storage.Retains (storage.modifyCurrent (·.push slot)) :=
        modifyCurrent storage fun frame => by simp [Frame.outline, Frame.push]
      exact ⟨pushed.root, pushed.objects⟩
  | heap => exact heapPush storage _

theorem declare (storage : Storage) (name : String) (kind : Kind) (site : Option SiteId)
    (placement : Placement) (value : Value) :
    storage.Retains (storage.declare name kind site placement value).2 := by
  let allocated := storage.allocate name kind site placement value
  have bound : allocated.2.Retains
      (allocated.2.modifyCurrent (·.bind name allocated.1.address)) :=
    modifyCurrent _ fun _ => List.Subset.refl _
  exact (allocate storage name kind site placement value).trans bound

theorem setSlot {address : Address} {slot : Slot} (read : storage.slot address = .ok slot)
    (value : Value) : storage.Retains (storage.setSlot address { slot with value }) := by
  have root := root_of_outline (rewrites_setSlot read value).outline
  refine ⟨by rw [root]; exact List.Subset.refl _, ?_⟩
  rcases storage.owned_or_absent address with ⟨old, ⟨owned⟩⟩ | ⟨absent, -, replaced⟩
  · rw [(owned.replaced { slot with value }).2.1]
    exact (Retains.refl storage).objects
  · have inHeap : storage.heap.get? address = some (.slot slot) := by
      simpa [objectAt?, absent] using slot_ok_iff.mp read
    have written : storage.Retains
        { storage with heap := storage.heap.set address (.slot { slot with value }) } :=
      heapSet inHeap rfl
    rw [replaced]
    exact fun _ _ found => written.objects found

theorem sweep (storage : Storage) : storage.Retains storage.sweep.2 :=
  ⟨List.Subset.refl _, fun found => ⟨_, (Heap.get?_markUnreachable _ _ _).trans found, rfl⟩⟩

end Retains

variable {address : Address} {slot : Slot}

theorem Retains.inHeap (retains : storage.Retains changed) (inHeap : storage.InHeap address slot) :
    changed.InHeap address slot := by
  obtain ⟨content, found, rfl⟩ := inHeap
  obtain ⟨later, there, form⟩ := retains.objects found
  cases later with
  | slot content' => exact ⟨content', there, HeapObject.Form.slot.inj form⟩
  | block _ | table _ => cases form

/-- Only what is in slots and in the objects of the heap may be different, and new objects may be
there. -/
structure Edits (storage changed : Storage) : Prop extends Retains storage changed where
  outline : changed.outline = storage.outline

theorem Edits.refl (storage : Storage) : storage.Edits storage := ⟨.refl storage, rfl⟩

/-- An operation that leaves the outline of the frames leaves the slots to them. -/
theorem Edits.embeds (edits : storage.Edits changed) : storage.Embeds changed :=
  ⟨(owns_of_outline edits.outline).mpr, edits.inHeap⟩

theorem edits_setSlot (read : storage.slot address = .ok slot) (value : Value) :
    storage.Edits (storage.setSlot address { slot with value }) :=
  ⟨.setSlot read value, (rewrites_setSlot read value).outline⟩

theorem edits_append {header grown : Value} {values : List Value}
    (appended : storage.append header values = .ok (grown, changed)) : storage.Edits changed := by
  cases append_eq_ok appended with
  | nothing => exact .refl storage
  | inPlace len cap offset address block values read room =>
      refine ⟨.heapSet (block_eq_ok_iff.mp read) ?_, rfl⟩
      exact congrArg HeapObject.Form.block (length_overwrite ..)
  | grown => exact ⟨.heapPush storage _, rfl⟩
  | first => exact ⟨.heapPush storage _, rfl⟩

theorem embeds_modifyCurrent (storage : Storage) (f : Frame → Frame)
    (named : (f storage.current).function = storage.current.function)
    (kept : storage.current.slots ⊆ (f storage.current).slots) :
    storage.Embeds (storage.modifyCurrent f) := by
  refine ⟨owns_of_modified f (storage.frames_modifyCurrent f) named kept, fun inHeap => ?_⟩
  unfold InHeap
  rwa [heap_modifyCurrent]

theorem embeds_allocate (storage : Storage) (name : String) (kind : Kind) (site : Option SiteId)
    (placement : Placement) (value : Value) :
    storage.Embeds (storage.allocate name kind site placement value).2 := by
  cases placement with
  | heap => exact Edits.embeds ⟨.heapPush storage _, rfl⟩
  | stack =>
      let slot : Slot := ⟨name, kind, value, site, storage.nextStackAddress⟩
      have embeds : storage.Embeds (storage.modifyCurrent (·.push slot)) :=
        storage.embeds_modifyCurrent _ rfl (List.subset_append_left _ _)
      exact ⟨embeds.owns, embeds.inHeap⟩

theorem embeds_declare (storage : Storage) (name : String) (kind : Kind) (site : Option SiteId)
    (placement : Placement) (value : Value) :
    storage.Embeds (storage.declare name kind site placement value).2 := by
  let allocated := storage.allocate name kind site placement value
  have bound : allocated.2.Embeds (allocated.2.modifyCurrent (·.bind name allocated.1.address)) :=
    allocated.2.embeds_modifyCurrent _ rfl (List.Subset.refl _)
  exact (storage.embeds_allocate name kind site placement value).trans bound

end Storage

end ReferenceSemantics
