import ReferenceSemantics.Proofs.Reference.WellReferenced
import ReferenceSemantics.Proofs.Storage.Operations

set_option autoImplicit false

/-!
Sound storage: coherent, with only well referenced values in it.

An operation keeps the heap when every heap object keeps its form. Values stay well referenced in
whatever is kept, so what an operation has to be checked for are the values it writes.
-/

namespace ReferenceSemantics

namespace Storage

structure Sound (storage : Storage) : Prop where
  coherent : storage.Coherent
  valid : ∀ {address object}, storage.objectAt? address = some object →
    ∀ value ∈ object.contents, storage.WellReferenced value

/-- Addresses that were handed out stay so, and heap objects keep their form. -/
structure Keeps (storage later : Storage) : Prop where
  stackEnd : storage.nextStackAddress ≤ later.nextStackAddress
  forms : ∀ {address object}, storage.heap.get? address = some object →
    ∃ new, later.heap.get? address = some new ∧ new.form = object.form

theorem Keeps.refl (storage : Storage) : storage.Keeps storage :=
  ⟨Nat.le_refl _, fun found => ⟨_, found, rfl⟩⟩

theorem Keeps.trans {first second third : Storage} (before : first.Keeps second)
    (after : second.Keeps third) : first.Keeps third := by
  refine ⟨Nat.le_trans before.stackEnd after.stackEnd, fun found => ?_⟩
  obtain ⟨middle, foundMiddle, formMiddle⟩ := before.forms found
  obtain ⟨last, foundLast, formLast⟩ := after.forms foundMiddle
  exact ⟨last, foundLast, formLast.trans formMiddle⟩

variable {storage changed : Storage}

theorem Keeps.slotAddress (keeps : storage.Keeps changed) {address : Address}
    (handedOut : storage.SlotAddress address) : changed.SlotAddress address := by
  rcases handedOut with ⟨start, below, aligned⟩ | ⟨slot, found⟩
  · exact .inl ⟨start, Nat.lt_of_lt_of_le below keeps.stackEnd, aligned⟩
  · obtain ⟨new, found, form⟩ := keeps.forms found
    cases new with
    | slot new => exact .inr ⟨new, found⟩
    | block _ => simp [HeapObject.form] at form
    | table _ => simp [HeapObject.form] at form

theorem Keeps.links (keeps : storage.Keeps changed) (admitted : Address → Prop) :
    (storage.validLinks admitted).Le (changed.validLinks admitted) := by
  refine ⟨?_, ?_, ?_⟩
  · rintro _ _ ⟨rfl, known, handedOut⟩
    exact ⟨rfl, known, keeps.slotAddress handedOut⟩
  · rintro _ _ _ ⟨rfl, known, block, found, size⟩
    obtain ⟨new, found, form⟩ := keeps.forms found
    cases new with
    | slot _ => simp [HeapObject.form] at form
    | block new =>
        simp only [HeapObject.form, HeapObject.Form.block.injEq] at form
        exact ⟨rfl, known, new, found, form.trans size⟩
    | table _ => simp [HeapObject.form] at form
  · rintro _ _ ⟨rfl, known, table, found⟩
    obtain ⟨new, found, form⟩ := keeps.forms found
    cases new with
    | slot _ => simp [HeapObject.form] at form
    | block _ => simp [HeapObject.form] at form
    | table new => exact ⟨rfl, known, new, found⟩

theorem Keeps.wellReferenced (keeps : storage.Keeps changed) {value : Value}
    (valid : storage.WellReferenced value) : changed.WellReferenced value :=
  wellReferenced_of_linked ((valid.linked fun _ _ => trivial).mono (keeps.links fun _ => True))

/-- What is said of objects says it of the heap. -/
theorem keeps_of_objects (coherent : storage.Coherent) (coherent' : changed.Coherent)
    (stackEnd : storage.nextStackAddress ≤ changed.nextStackAddress)
    (forms : ∀ {address object}, heapStart ≤ address →
      storage.objectAt? address = some object →
        ∃ new, changed.objectAt? address = some new ∧ new.form = object.form) :
    storage.Keeps changed := by
  refine ⟨stackEnd, fun {address object} found => ?_⟩
  have inHeap := (Heap.lt_nextAddress_of_get? found).1
  obtain ⟨new, present, form⟩ := forms inHeap ((coherent.objectAt?_heap inHeap).trans found)
  exact ⟨new, (coherent'.objectAt?_heap inHeap).symm.trans present, form⟩

/-! ### What the operations keep -/

theorem Rewrites.keeps {address : Address} {old object : HeapObject}
    (rewrites : storage.Rewrites changed address object) (coherent : storage.Coherent)
    (found : storage.objectAt? address = some old) (form : object.form = old.form) :
    storage.Keeps changed := by
  refine keeps_of_objects coherent (coherent.rewrites rewrites found form)
    (Nat.le_of_eq rewrites.stackEnd.symm) fun {other present} _ foundOther => ?_
  rw [rewrites.objects]
  by_cases same : other = address
  · subst same
    rw [found, Option.some.injEq] at foundOther
    exact ⟨object, if_pos rfl, foundOther ▸ form⟩
  · exact ⟨present, by rw [if_neg same, foundOther], rfl⟩

theorem Extends.keeps {object : HeapObject} (extended : storage.Extends changed object)
    (coherent : storage.Coherent) : storage.Keeps changed := by
  refine keeps_of_objects coherent (coherent.extends extended)
    (Nat.le_of_eq extended.stackEnd.symm) fun {other present} _ foundOther => ?_
  have old : other ≠ storage.heap.nextAddress := by
    rintro rfl
    rw [extended.fresh] at foundOther
    cases foundOther
  exact ⟨present, by rw [extended.objects, if_neg old, foundOther], rfl⟩

theorem Allocates.keeps {placement : Placement} {slot : Slot}
    (allocated : storage.Allocates changed placement slot) (coherent : storage.Coherent)
    (coherent' : changed.Coherent) : storage.Keeps changed := by
  refine keeps_of_objects coherent coherent' allocated.stackEnd_le
    fun {other present} _ foundOther => ?_
  have old : other ≠ slot.address := by
    rintro rfl
    rw [allocated.fresh] at foundOther
    cases foundOther
  exact ⟨present, by rw [allocated.objects, if_neg old, foundOther], rfl⟩

theorem Binds.keeps {name : String} {address : Address}
    (bound : storage.Binds changed name address) (coherent : storage.Coherent)
    (coherent' : changed.Coherent) : storage.Keeps changed :=
  keeps_of_objects coherent coherent' (Nat.le_of_eq bound.stackEnd.symm)
    fun {_ present} _ found => ⟨present, by rw [bound.objects, found], rfl⟩

theorem keeps_pushFrame (storage : Storage) (function : String) (callSite : Option Location) :
    storage.Keeps (storage.pushFrame function callSite) :=
  ⟨Nat.le_refl _, fun found => ⟨_, found, rfl⟩⟩

theorem keeps_popFrame (storage : Storage) : storage.Keeps storage.popFrame := by
  obtain ⟨heap, stackEnd, -⟩ := heap_popFrame storage
  exact ⟨Nat.le_of_eq stackEnd.symm, fun found => ⟨_, heap ▸ found, rfl⟩⟩

theorem keeps_sweep (storage : Storage) : storage.Keeps storage.sweep.2 :=
  ⟨Nat.le_refl _, fun found => ⟨_, by simpa [sweep] using found, rfl⟩⟩

/-! ### Soundness after the operations -/

namespace Sound

theorem rewrites {address : Address} {old object : HeapObject} (sound : storage.Sound)
    (rewrites : storage.Rewrites changed address object)
    (found : storage.objectAt? address = some old) (form : object.form = old.form)
    (valid : ∀ value ∈ object.contents, storage.WellReferenced value) : changed.Sound := by
  have keeps := rewrites.keeps sound.coherent found form
  refine ⟨sound.coherent.rewrites rewrites found form, fun {other present} foundOther => ?_⟩
  rw [rewrites.objects] at foundOther
  intro value member
  by_cases same : other = address
  · rw [if_pos same, Option.some.injEq] at foundOther
    exact keeps.wellReferenced (valid value (foundOther ▸ member))
  · rw [if_neg same] at foundOther
    exact keeps.wellReferenced (sound.valid foundOther value member)

theorem extended {object : HeapObject} (sound : storage.Sound)
    (extended : storage.Extends changed object)
    (valid : ∀ value ∈ object.contents, storage.WellReferenced value) : changed.Sound := by
  have keeps := extended.keeps sound.coherent
  refine ⟨sound.coherent.extends extended, fun {other present} foundOther => ?_⟩
  rw [extended.objects] at foundOther
  intro value member
  by_cases new : other = storage.heap.nextAddress
  · rw [if_pos new, Option.some.injEq] at foundOther
    exact keeps.wellReferenced (valid value (foundOther ▸ member))
  · rw [if_neg new] at foundOther
    exact keeps.wellReferenced (sound.valid foundOther value member)

theorem allocated {placement : Placement} {slot : Slot} (sound : storage.Sound)
    (allocated : storage.Allocates changed placement slot)
    (fits : changed.Fits) (valid : storage.WellReferenced slot.value) : changed.Sound := by
  have coherent' := sound.coherent.allocated allocated fits
  have keeps := allocated.keeps sound.coherent coherent'
  refine ⟨coherent', fun {other present} foundOther => ?_⟩
  rw [allocated.objects] at foundOther
  intro value member
  by_cases new : other = slot.address
  · rw [if_pos new, Option.some.injEq] at foundOther
    subst foundOther
    obtain rfl : value = slot.value := by simpa [HeapObject.contents] using member
    exact keeps.wellReferenced valid
  · rw [if_neg new] at foundOther
    exact keeps.wellReferenced (sound.valid foundOther value member)

/-- Objects may disappear, and frames may come and go. -/
theorem of_keeps (sound : storage.Sound) (coherent : changed.Coherent)
    (keeps : storage.Keeps changed)
    (objects : ∀ {address object}, changed.objectAt? address = some object →
      storage.objectAt? address = some object) : changed.Sound :=
  ⟨coherent, fun found value member =>
    keeps.wellReferenced (sound.valid (objects found) value member)⟩

theorem pushFrame (sound : storage.Sound) (function : String) (callSite : Option Location) :
    (storage.pushFrame function callSite).Sound :=
  sound.of_keeps (sound.coherent.pushFrame function callSite) (keeps_pushFrame _ _ _)
    fun found => (objectAt?_pushFrame _ _ _ _).symm.trans found

theorem popFrame (sound : storage.Sound) (called : storage.InCall) :
    storage.popFrame.Sound := by
  refine sound.of_keeps (sound.coherent.popFrame called) (keeps_popFrame storage) fun found => ?_
  rw [sound.coherent.objectAt?_popFrame called] at found
  split at found
  · cases found
  · exact found

theorem sweep (sound : storage.Sound) : storage.sweep.2.Sound :=
  sound.of_keeps sound.coherent.sweep (keeps_sweep storage)
    fun found => (objectAt?_sweep _ _).symm.trans found

theorem binds {name : String} {address : Address} (sound : storage.Sound)
    (coherent : changed.Coherent) (bound : storage.Binds changed name address) :
    changed.Sound :=
  sound.of_keeps coherent (bound.keeps sound.coherent coherent)
    fun found => (bound.objects _).symm.trans found

theorem empty : Storage.empty.Sound := by
  refine ⟨.empty, ?_⟩
  intro address object found
  rw [objectAt?_empty] at found
  cases found

end Sound

end Storage

end ReferenceSemantics
